/-! # Texts

A text is a list of characters. Offsets into a text count UTF-8 bytes, so an offset may be past the
end or in the middle of a character; `Text.splitAt?` answers only for the others. Lines end at a
line feed, and blanks are spaces and tabs. -/

namespace Rewrap

/-- The contents of a source file, character by character. -/
abbrev Text := List Char

namespace Text

/-! ## Offsets -/

/-- The number of bytes the text takes in UTF-8. -/
def utf8Size : Text → Nat
  | [] => 0
  | c :: t => c.utf8Size + utf8Size t

/-- The text before and after a byte offset, if the offset is a character boundary of the text. -/
def splitAt? : Text → Nat → Option (Text × Text)
  | t, 0 => some ([], t)
  | [], _ + 1 => none
  | c :: t, n + 1 =>
      if c.utf8Size ≤ n + 1 then
        (splitAt? t (n + 1 - c.utf8Size)).map fun (before, after) => (c :: before, after)
      else none

@[simp] theorem utf8Size_nil : utf8Size [] = 0 := rfl

@[simp] theorem utf8Size_cons (c : Char) (t : Text) :
    utf8Size (c :: t) = c.utf8Size + utf8Size t := rfl

@[simp] theorem utf8Size_append (s t : Text) : utf8Size (s ++ t) = utf8Size s + utf8Size t := by
  induction s with
  | nil => simp
  | cons c s ih => simp [ih, Nat.add_assoc]

@[simp] theorem splitAt?_zero (t : Text) : splitAt? t 0 = some ([], t) := by
  cases t <;> rfl

@[simp] theorem splitAt?_utf8Size (s t : Text) : splitAt? (s ++ t) (utf8Size s) = some (s, t) := by
  induction s with
  | nil => simp
  | cons c s ih =>
      have hc := c.utf8Size_pos
      obtain ⟨n, hn⟩ : ∃ n, c.utf8Size + utf8Size s = n + 1 :=
        ⟨c.utf8Size + utf8Size s - 1, by omega⟩
      have hs : n + 1 - c.utf8Size = utf8Size s := by omega
      simp only [List.cons_append, utf8Size_cons, hn, splitAt?, hs, ih]
      simp [show c.utf8Size ≤ n + 1 by omega]

/-- Splitting loses nothing, and cuts at the offset asked for. -/
theorem splitAt?_eq_some {t before after : Text} {n : Nat}
    (h : splitAt? t n = some (before, after)) : t = before ++ after ∧ utf8Size before = n := by
  fun_induction splitAt? t n generalizing before with
  | case1 => simp at h; obtain ⟨rfl, rfl⟩ := h; simp
  | case2 => simp at h
  | case3 c t n hc ih =>
      obtain ⟨⟨a, b⟩, hab, heq⟩ := Option.map_eq_some_iff.1 h
      simp only [Prod.mk.injEq] at heq
      obtain ⟨rfl, rfl⟩ := heq
      obtain ⟨rfl, hn⟩ := ih hab
      exact ⟨rfl, by simp; omega⟩
  | case4 => simp at h

/-! ## Lines and blanks -/

/-- A blank is a space or a tab. -/
def isBlank (c : Char) : Bool := c == ' ' || c == '\t'

/-- What stands after the last line feed: the line that is still open at the end of the text. -/
def lastLine (t : Text) : Text := (t.reverse.takeWhile (· != '\n')).reverse

/-- The blanks that lead the text. -/
def indent (t : Text) : Text := t.takeWhile isBlank

/-- The text after its leading blanks. -/
def dropIndent (t : Text) : Text := t.dropWhile isBlank

/-- Whether the text holds a carriage return followed by a line feed. -/
def hasCrLf : Text → Bool
  | '\r' :: '\n' :: _ => true
  | _ :: t => hasCrLf t
  | [] => false

/-- The line break used for new lines: CRLF in a text that holds one, otherwise LF. -/
def lineBreak (t : Text) : Text := if t.hasCrLf then ['\r', '\n'] else ['\n']

/-- What follows the line break that leads the text; the end of the text counts as one. -/
def dropLineEnd? : Text → Option Text
  | [] => some []
  | '\n' :: t => some t
  | '\r' :: '\n' :: t => some t
  | _ => none

/-- The number of line feeds. -/
def lineFeeds (t : Text) : Nat := t.count '\n'

end Text

end Rewrap
