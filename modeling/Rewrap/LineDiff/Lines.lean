import Rewrap.Text.Basic

/-! # Lines of a text

A line ends after a line feed, after a carriage return with a line feed, or after a carriage return
alone. The last line may have no end. -/

namespace Rewrap.LineDiff

/-- A line with the characters that end it. -/
abbrev Line := Text

/-- Puts a character in front of the first line. -/
def consChar (c : Char) : List Line → List Line
  | [] => [[c]]
  | l :: ls => (c :: l) :: ls

/-- The lines of a text. -/
def lines : Text → List Line
  | [] => []
  | '\r' :: '\n' :: t => ['\r', '\n'] :: lines t
  | c :: t => if c == '\r' || c == '\n' then [c] :: lines t else consChar c (lines t)

@[simp] theorem flatten_lines (t : Text) : (lines t).flatten = t := by
  fun_induction lines t with
  | case1 => rfl
  | case2 t ih => simp [ih]
  | case3 c t _ _ ih => simp [ih]
  | case4 c t _ _ ih => cases h : lines t <;> simp_all [consChar]

/-- Whether the line has an end. -/
def isTerminated (l : Line) : Bool :=
  match l.getLast? with
  | some c => c == '\r' || c == '\n'
  | none => false

/-- The line without the characters that end it. -/
def content (l : Line) : Text := (l.reverse.dropWhile fun c => c == '\r' || c == '\n').reverse

end Rewrap.LineDiff
