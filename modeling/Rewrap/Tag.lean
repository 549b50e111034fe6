import Rewrap.Text.Pattern

/-! # Markup tags

Tags are recognised without parsing the markup around them. An opening tag runs to the first angle
bracket after its name; if that bracket closes the tag and no slash stands right before it, the tag
opens an element. -/

namespace Rewrap.Tag

/-- A character that may stand inside a tag. -/
def isInner (c : Char) : Bool := c != '<' && c != '>'

/-- What may stand between the name and the closing bracket of an opening tag: nothing, or white
space and then anything that does not end in a slash. -/
def isAttributes (inner : Text) : Bool :=
  match inner with
  | [] => true
  | c :: _ => isWhiteSpace c && inner.getLast? != some '/'

/-- The opening tag `<name>`, with or without attributes. -/
def opening (name : String) : Pattern := fun _ t => do
  let t ← ('<' :: name.toList).isPrefixOf? t
  match t.dropWhile isInner with
  | '>' :: rest => if isAttributes (t.takeWhile isInner) then some rest else none
  | _ => none

/-- The closing tag `</name>`. -/
def closing (name : String) : Text := '<' :: '/' :: (name.toList ++ ['>'])

/-- The self-closing tag `<name />` alone on its line, with its blanks and its line break. -/
def ownLine (name : String) : Pattern := fun prev t => do
  if prev.all (· == '\n') then
    let t ← ('<' :: name.toList).isPrefixOf? (Text.dropIndent t)
    let t ← ['/', '>'].isPrefixOf? (t.dropWhile isWhiteSpace)
    Text.dropLineEnd? (Text.dropIndent t)
  else none

end Rewrap.Tag
