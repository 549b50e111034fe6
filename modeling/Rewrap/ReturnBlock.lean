import Rewrap.Text.Pattern
import Rewrap.Text.WordChar

/-! # Return blocks

The block that a component renders: it opens with `return (` at the end of a line and closes with a
line `);` that is followed by a brace in the first column. -/

namespace Rewrap.ReturnBlock

/-- The text after the last line feed of the white space that leads it, if there is one. -/
def pastLastLineFeed : Text → Option Text
  | [] => none
  | c :: t =>
      if isWhiteSpace c then
        match pastLastLineFeed t with
        | some rest => some rest
        | none => if c == '\n' then some t else none
      else none

/-- `return (` and the line breaks after it, where `return` is a word of its own. -/
def opening : Pattern := fun prev t => do
  if prev.any isWordChar then none
  else
    let t ← "return".toList.isPrefixOf? t
    let t ← ['('].isPrefixOf? (t.dropWhile isWhiteSpace)
    pastLastLineFeed t

/-- The line feed before a line `);`, that line, and the brace that leads the next one. -/
def closing : Pattern := fun _ t => do
  let t ← ['\n'].isPrefixOf? t
  let t ← [')', ';'].isPrefixOf? (Text.dropIndent t)
  match Text.dropIndent t with
  | '\n' :: '}' :: rest => some rest
  | '\r' :: '\n' :: '}' :: rest => some rest
  | _ => none

end Rewrap.ReturnBlock
