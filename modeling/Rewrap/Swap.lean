import Rewrap.Edit
import Rewrap.ReturnBlock
import Rewrap.Spec
import Rewrap.Tag

/-! # Swapping a component in one text

A swap puts the wrapper's import in the place of the retiring import, deletes the usage tags that
have a line of their own, and puts the wrapper around what the component renders. A text that lacks
the retiring import is left as it is, and a text whose shape does not fit is refused. -/

namespace Rewrap

/-- A spec without faults. -/
structure Swap where
  spec : Spec
  faultless : spec.fault? = none

/-- The swap of the navigation bar for the application shell. -/
def Swap.default : Swap := ⟨{}, by decide⟩

/-- The spec as a swap, or its first fault. -/
def Spec.check (s : Spec) : Except Spec.Fault Swap :=
  match h : s.fault? with
  | none => .ok ⟨s, h⟩
  | some fault => .error fault

/-- Where the wrapper goes: inside a guard tag, or inside the first return block. -/
inductive Shape where
  | guarded (tag : String)
  | bareReturn
deriving DecidableEq

def Shape.describe : Shape → String
  | .guarded tag => "guarded by <" ++ tag ++ ">"
  | .bareReturn => "bare return"

/-- What a swap makes of a text, whether it differs from that text, and what was done. A text
without the retiring import has no shape. -/
structure Swapped where
  text : Text
  changed : Bool
  shape : Option Shape
  importsReplaced : Nat
  tagsRemoved : Nat
deriving DecidableEq

/-- A text that is left as it is. -/
def Swapped.unchanged (t : Text) : Swapped := ⟨t, false, none, 0, 0⟩

namespace Swap

/-! ## Faults -/

/-- Why a swap cannot be made in a text. -/
inductive Fault where
  | unclosedWrapper (line : Nat)
  | noRenderBlock (wrapper : String)
  | unbalancedWrapper (wrapper : String) (opened closed : Nat)
  | overlappingEdits (overlap : Edit.Overlap)
  | unknownGuard (tag : String)
deriving DecidableEq

/-- Whether a person has to look at the text because its shape was misjudged. -/
def Fault.isStructural : Fault → Bool
  | .unclosedWrapper _ | .noRenderBlock _ | .unbalancedWrapper .. => true
  | .overlappingEdits _ | .unknownGuard _ => false

def Fault.message : Fault → String
  | .unclosedWrapper line =>
      "found `return (` at line " ++ toString line
        ++ " but no closing `);` before the end of the function"
  | .noRenderBlock wrapper =>
      "no guard wrapper and no `return (` block to wrap with <" ++ wrapper ++ ">"
  | .unbalancedWrapper wrapper opened closed =>
      "<" ++ wrapper ++ "> is unbalanced after rewrite: " ++ toString opened
        ++ " opening tag(s) added, " ++ toString closed ++ " closing tag(s) added"
  | .overlappingEdits ⟨first, second⟩ =>
      "overlapping edits at byte " ++ toString first ++ " and byte " ++ toString second
  | .unknownGuard tag => "invalid migration spec: unknown guard <" ++ tag ++ ">"

/-! ## Edits -/

/-- Edits a text; an overlap is a fault of the swap. -/
def edit (t : Text) (edits : List Edit) : Except Fault Text :=
  (Edit.apply t edits).mapError .overlappingEdits

/-! ## The import -/

/-- The range of the lines on which an occurrence stands, with their line break, if nothing but
blanks stands beside it. -/
def ownLines? (o : Occurrence) : Option (Nat × Nat) := do
  let lead := o.before.lastLine
  let after ← o.after.dropIndent.dropLineEnd?
  if lead.all Text.isBlank then
    some (o.start - lead.utf8Size, o.stop + (o.after.utf8Size - after.utf8Size))
  else none

/-- Takes an occurrence out, together with its lines if it has them for itself. -/
def dropImport (o : Occurrence) : Edit :=
  match ownLines? o with
  | some (start, stop) => .delete start stop
  | none => .delete o.start o.stop

/-- The edits for the occurrences of the retiring import: the first becomes the new import, unless
that is there already, and the others go. -/
def importEdits (s : Swap) (present : Bool) : List Occurrence → List Edit
  | [] => []
  | o :: os =>
      (if present then dropImport o
        else ⟨o.start, o.stop, s.spec.replacement.canonical.toList⟩) :: os.map dropImport

/-- The text with the new import in place of the retiring one, and how many imports were retired;
nothing if there was none. -/
def swapImport (s : Swap) (t : Text) : Except Fault (Option (Text × Nat)) :=
  match s.spec.retiring.statement.occurrences t with
  | [] => .ok none
  | os => do
      let swapped ← edit t (s.importEdits (s.spec.replacement.clause.occursIn t) os)
      return some (swapped, os.length)

/-! ## The usage tags -/

/-- The text without the lines that hold only a usage tag of the old component, and their number. -/
def removeUsageTags (s : Swap) (t : Text) : Except Fault (Text × Nat) := do
  let os := (Tag.ownLine s.spec.oldComponent).occurrences t
  let stripped ← edit t (os.map fun o => .delete o.start o.stop)
  return (stripped, os.length)

/-! ## The wrapper -/

/-- The text up to the end of the guard's first opening tag, the text between that and the guard's
last closing tag, and the text from there on. -/
def guardBounds? (tag : String) (t : Text) : Option (Text × Text × Text) := do
  let o ← (Tag.opening tag).first? t
  let (inside, rest) ← Text.splitAtLast? (Tag.closing tag) o.after
  return (o.before ++ o.matched, inside, rest)

/-- The shape of a text: its first guard that is opened and closed again, otherwise the bare return
block. -/
def detectShape (s : Swap) (t : Text) : Shape :=
  match s.spec.guards.find? fun tag => (guardBounds? tag t).isSome with
  | some tag => .guarded tag
  | none => .bareReturn

/-- The wrapper's opening tag. -/
def openTag (s : Swap) : Text := '<' :: s.spec.newComponent.toList ++ ['>']

/-- The wrapper's closing tag. -/
def closeTag (s : Swap) : Text := Tag.closing s.spec.newComponent

/-- One step of indentation. -/
def indentStep : Text := [' ', ' ']

/-- The blanks that lead the line on which `before` ends. -/
def lineIndent (before after : Text) : Text := (before.lastLine ++ after).indent

/-- The edits that put the wrapper right inside a guard, one step further in. -/
def guardedEdits (s : Swap) (tag : String) (t : Text) : Except Fault (List Edit) :=
  match guardBounds? tag t with
  | none => .error (.noRenderBlock s.spec.newComponent)
  | some (before, inside, rest) =>
      let br := t.lineBreak
      let opened := before.utf8Size
      let closed := opened + inside.utf8Size
      let lead := (before ++ inside).lastLine
      let close :=
        if lead.all Text.isBlank then
          Edit.insert (closed - lead.utf8Size) (lead ++ indentStep ++ s.closeTag ++ br)
        else Edit.insert closed s.closeTag
      .ok [.insert opened (br ++ lineIndent before (inside ++ rest) ++ indentStep ++ s.openTag),
        close]

/-- The edits that put the wrapper inside the first return block: before its first line, and after
the line that stands before the first end of a block from there on. -/
def bareReturnEdits (s : Swap) (t : Text) : Except Fault (List Edit) :=
  match ReturnBlock.opening.first? t with
  | none => .error (.noRenderBlock s.spec.newComponent)
  | some o =>
      let before := o.before ++ o.matched
      match ReturnBlock.closing.findAfter? before o.after with
      | none => .error (.unclosedWrapper before.lineFeeds)
      | some c =>
          let br := t.lineBreak
          let indent := lineIndent before o.after
          let closed := if c.before.getLast? == some '\r' then c.start - 1 else c.start
          .ok [.insert before.utf8Size (indent ++ s.openTag ++ br),
            .insert closed (br ++ indent ++ s.closeTag)]

/-- The text with the wrapper put in as the shape says. -/
def insertWrapper (s : Swap) (t : Text) (shape : Shape) : Except Fault Text := do
  let edits ← match shape with
    | .guarded tag =>
        if s.spec.guards.contains tag then s.guardedEdits tag t else .error (.unknownGuard tag)
    | .bareReturn => s.bareReturnEdits t
  edit t edits

/-- The numbers of the wrapper's opening and closing tags in a text. -/
def wrapperTags (s : Swap) (t : Text) : Nat × Nat :=
  ((Tag.opening s.spec.newComponent).count t, (Pattern.literal s.closeTag).count t)

/-- Refuses a swap that added more opening tags of the wrapper than closing tags, or fewer. A tag
that was lost does not count against one that was added. -/
def checkBalance (s : Swap) (before after : Text) : Except Fault Unit :=
  let (openBefore, closeBefore) := s.wrapperTags before
  let (openAfter, closeAfter) := s.wrapperTags after
  let opened := openAfter - openBefore
  let closed := closeAfter - closeBefore
  if opened == closed then .ok ()
  else .error (.unbalancedWrapper s.spec.newComponent opened closed)

/-! ## The whole swap -/

/-- Makes the swap in a text: the import, the usage tags, the wrapper, and a check that the
wrapper's tags are balanced. -/
def apply (s : Swap) (t : Text) : Except Fault Swapped := do
  match ← s.swapImport t with
  | none => return .unchanged t
  | some (swapped, importsReplaced) =>
      let (stripped, tagsRemoved) ← s.removeUsageTags swapped
      let shape := s.detectShape stripped
      let wrapped ← s.insertWrapper stripped shape
      s.checkBalance t wrapped
      return ⟨wrapped, wrapped != t, some shape, importsReplaced, tagsRemoved⟩

end Swap

end Rewrap
