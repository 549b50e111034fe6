import Rewrap.LineDiff.Hunk
import Rewrap.LineDiff.Lines

/-! # Previews of a change

A unified diff shows the changed lines of a file among the lines around them. A summary shows the
changed lines alone, each with its number on the side to which it belongs. -/

namespace Rewrap

/-- How many files were changed, and how many lines were added and removed. -/
structure DiffStats where
  filesChanged : Nat := 0
  linesAdded : Nat := 0
  linesRemoved : Nat := 0
deriving DecidableEq

namespace DiffStats

def add (a b : DiffStats) : DiffStats :=
  ⟨a.filesChanged + b.filesChanged, a.linesAdded + b.linesAdded,
    a.linesRemoved + b.linesRemoved⟩

/-- The lines that report the numbers. -/
def summary (s : DiffStats) : String :=
  "\nSummary:\nFiles changed: " ++ toString s.filesChanged ++ "\nLines added: "
    ++ toString s.linesAdded ++ "\nLines removed: " ++ toString s.linesRemoved ++ "\n"

end DiffStats

namespace LineDiff

/-- The diff of two texts, line by line. -/
def ofTexts (old new : Text) : List (Block Line) := diff (lines old) (lines new)

/-- The lines that the blocks delete and insert, and whether there are any. -/
def stats (bs : List (Block Line)) : DiffStats :=
  let changes := bs.filter fun b => match b with | .kept _ => false | _ => true
  let added := (changes.flatMap Block.new).length
  let removed := (changes.flatMap Block.old).length
  ⟨if 0 < added || 0 < removed then 1 else 0, added, removed⟩

/-! ## Unified diffs -/

/-- A range of lines in the header of a hunk: the number of its first line, and its length unless
that is one. An empty range is numbered by the line before it. -/
def rangeText (start stop : Int) : String :=
  let length := (stop - start).toNat
  if length == 1 then toString (start + 1)
  else if length == 0 then toString start ++ ",0"
  else toString (start + 1) ++ "," ++ toString length

/-- The header of a hunk. -/
def header (first last : Placed Line) : String :=
  "@@ -" ++ rangeText first.oldRange.1 last.oldRange.2 ++ " +"
    ++ rangeText first.newRange.1 last.newRange.2 ++ " @@\n"

/-- A line after its mark. A line without an end is said to have none. -/
def markedLine (mark : Char) (l : Line) : String :=
  String.ofList (mark :: l) ++ (if isTerminated l then "" else "\n\\ No newline at end of file\n")

/-- The lines of a block after their marks: kept lines, or deleted lines and then inserted ones. -/
def blockText : Block Line → String
  | .kept xs => String.join (xs.map (markedLine ' '))
  | .change ds is _ _ =>
      String.join (ds.map (markedLine '-')) ++ String.join (is.map (markedLine '+'))

/-- A hunk with its header. -/
def hunkText (ps : List (Placed Line)) : String :=
  match ps, ps.getLast? with
  | first :: _, some last => header first last ++ String.join (ps.map (blockText ·.block))
  | _, _ => ""

/-- The unified diff of a file with the given number of lines of context. -/
def unified (path : String) (bs : List (Block Line)) (context : Nat) : String :=
  "--- " ++ path ++ "\n+++ " ++ path ++ "\n" ++ String.join ((hunks context bs).map hunkText)

/-! ## Summaries -/

/-- A changed line: whether it was added, its number, and the line. -/
structure ChangedLine where
  added : Bool
  number : Nat
  line : Line
deriving DecidableEq

/-- Lines numbered from `n` on. -/
def numbered (added : Bool) (n : Nat) : List Line → List ChangedLine
  | [] => []
  | l :: ls => ⟨added, n, l⟩ :: numbered added (n + 1) ls

/-- The changed lines, when `i` old and `j` new lines come before the blocks. -/
def changedLines (i j : Nat) : List (Block Line) → List ChangedLine
  | [] => []
  | .kept xs :: bs => changedLines (i + xs.length) (j + xs.length) bs
  | .change ds is _ _ :: bs =>
      numbered false (i + 1) ds ++ numbered true (j + 1) is
        ++ changedLines (i + ds.length) (j + is.length) bs

/-- The number right-aligned in at least five columns. -/
def column (n : Nat) : String :=
  let digits := toString n
  String.ofList (List.replicate (5 - digits.length) ' ') ++ digits

def ChangedLine.text (c : ChangedLine) : String :=
  "  " ++ (if c.added then "+" else "-") ++ column c.number ++ ": "
    ++ String.ofList (content c.line) ++ "\n"

/-- The summary of a file's changes. -/
def summary (path : String) (bs : List (Block Line)) : String :=
  path ++ ":\n" ++ String.join ((changedLines 0 0 bs).map ChangedLine.text)

end LineDiff

end Rewrap
