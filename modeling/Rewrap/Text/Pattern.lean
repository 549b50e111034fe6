import Rewrap.Text.Basic
import Rewrap.Text.WhiteSpace

/-! # Patterns and their occurrences

A pattern reads itself off the front of a text and hands back the rest. It may look at the character
before that text, so that it can ask for the start of a line or of a word. Occurrences are found
from left to right, and the next search begins where the last occurrence ended. -/

namespace Rewrap

/-- Reads one match off the front of a text, given the character before it, and returns the rest. -/
abbrev Pattern := Option Char → Text → Option Text

/-- Where a pattern matched: the text is `before ++ matched ++ after`. -/
structure Occurrence where
  before : Text
  matched : Text
  after : Text
deriving DecidableEq

namespace Occurrence

/-- The byte offset of the match. -/
def start (o : Occurrence) : Nat := o.before.utf8Size

/-- The byte offset of the end of the match. -/
def stop (o : Occurrence) : Nat := o.start + o.matched.utf8Size

/-- The text in which the pattern occurs. -/
def text (o : Occurrence) : Text := o.before ++ o.matched ++ o.after

end Occurrence

namespace Pattern

/-! ## Building blocks

Each takes what must be read after it, so that a block that can end in several places tries the
longest first. -/

/-- The given characters, then `next`. -/
def word (w : Text) (next : Text → Option Text) (t : Text) : Option Text :=
  (w.isPrefixOf? t).bind next

/-- At least one white-space character, as many as possible, then `next`. -/
def gap (next : Text → Option Text) : Text → Option Text
  | [] => none
  | c :: t =>
      if isWhiteSpace c then
        match gap next t with
        | some rest => some rest
        | none => next t
      else none

/-- A double or a single quote, then `next`. -/
def quote (next : Text → Option Text) : Text → Option Text
  | [] => none
  | c :: t => if c == '"' || c == '\'' then next t else none

/-- Exactly the given characters. -/
def literal (w : Text) : Pattern := fun _ => word w some

/-! ## Searching -/

/-- The leftmost occurrence in a text that follows the character `prev`. -/
def find? (p : Pattern) (prev : Option Char) (t : Text) : Option Occurrence :=
  match p prev t with
  | some rest => some ⟨[], t.take (t.length - rest.length), rest⟩
  | none =>
      match t with
      | [] => none
      | c :: t => (find? p (some c) t).map fun o => { o with before := c :: o.before }

/-- The leftmost occurrence in `before ++ t` that starts in `t`. -/
def findAfter? (p : Pattern) (before t : Text) : Option Occurrence :=
  (p.find? before.getLast? t).map fun o => { o with before := before ++ o.before }

/-- The leftmost occurrence in a text. -/
def first? (p : Pattern) (t : Text) : Option Occurrence := p.findAfter? [] t

/-- Whether the pattern occurs in the text. -/
def occursIn (p : Pattern) (t : Text) : Bool := (p.first? t).isSome

/-- At most `n` occurrences in `before ++ t` that start in `t`, none overlapping another. -/
def occurrencesAfter (p : Pattern) (n : Nat) (before t : Text) : List Occurrence :=
  match n with
  | 0 => []
  | n + 1 =>
      match p.findAfter? before t with
      | none => []
      | some o => o :: p.occurrencesAfter n (o.before ++ o.matched) o.after

/-- All occurrences of a pattern that matches no empty text, from left to right, each beginning
where the one before it ended or later. -/
def occurrences (p : Pattern) (t : Text) : List Occurrence := p.occurrencesAfter t.length [] t

/-- The number of occurrences. -/
def count (p : Pattern) (t : Text) : Nat := (p.occurrences t).length

end Pattern

/-- The text before the last place where `w` stands, and the text from there on. -/
def Text.splitAtLast? (w : Text) : Text → Option (Text × Text)
  | [] => none
  | c :: t =>
      match splitAtLast? w t with
      | some (before, rest) => some (c :: before, rest)
      | none => if w.isPrefixOf (c :: t) then some ([], c :: t) else none

end Rewrap
