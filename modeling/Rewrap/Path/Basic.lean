/-! # Paths

A path is kept as it was spelled. What it means is read off its components: repeated and trailing
slashes do not count, and a dot counts only where a relative path begins with it. -/

namespace Rewrap

/-- A path, as it was spelled. -/
structure Path where
  text : String
deriving DecidableEq

namespace Path

/-! ## Components -/

/-- A step of a path. -/
inductive Component where
  | root
  | here
  | up
  | name (n : String)
deriving DecidableEq

namespace Component

/-- The component as it is written in a path. -/
def text : Component → String
  | .root => "/"
  | .here => "."
  | .up => ".."
  | .name n => n

/-- The place of the kinds of component in the order. -/
def rank : Component → Nat
  | .root => 0
  | .here => 1
  | .up => 2
  | .name _ => 3

/-- The order of components: the root, then `.`, then `..`, then names by their characters. -/
def compare : Component → Component → Ordering
  | .name a, .name b => Ord.compare a b
  | a, b => Ord.compare a.rank b.rank

end Component

/-- The pieces between the slashes. -/
def segments : List Char → List (List Char)
  | [] => [[]]
  | '/' :: cs => [] :: segments cs
  | c :: cs =>
      match segments cs with
      | [] => [[c]]
      | s :: ss => (c :: s) :: ss

/-- The component that a segment stands for, unless it is empty or a dot. -/
def componentOf? (segment : List Char) : Option Component :=
  match segment with
  | [] => none
  | ['.'] => none
  | ['.', '.'] => some .up
  | s => some (.name (String.ofList s))

def components (p : Path) : List Component :=
  match p.text.toList with
  | '/' :: cs => .root :: (segments cs).filterMap componentOf?
  | cs =>
      match segments cs with
      | ['.'] :: ss => .here :: ss.filterMap componentOf?
      | ss => ss.filterMap componentOf?

def isAbsolute (p : Path) : Bool := p.text.toList.head? == some '/'

/-- The path that the components spell: single slashes between them and none at the end. -/
def ofComponents : List Component → Path
  | .root :: cs => ⟨"/" ++ "/".intercalate (cs.map Component.text)⟩
  | cs => ⟨"/".intercalate (cs.map Component.text)⟩

/-- Whether two paths have the same components. -/
def same (p q : Path) : Bool := p.components == q.components

/-- The order of paths: by components, from the first to the last. -/
def compare (p q : Path) : Ordering := go p.components q.components
where
  go : List Component → List Component → Ordering
    | [], [] => .eq
    | [], _ :: _ => .lt
    | _ :: _, [] => .gt
    | a :: as, b :: bs => (a.compare b).then (go as bs)

def le (p q : Path) : Bool := (p.compare q).isLE

/-! ## Joining and taking apart -/

/-- The path `entry` as seen from `base`. An absolute path stays as it is; an empty one leaves a
slash at the end. -/
def join (base entry : Path) : Path :=
  if entry.isAbsolute then entry
  else if base.text.toList.getLast?.all (· == '/') then ⟨base.text ++ entry.text⟩
  else ⟨base.text ++ "/" ++ entry.text⟩

/-- The last component, if it is a name. -/
def fileName? (p : Path) : Option String :=
  match p.components.getLast? with
  | some (.name n) => some n
  | _ => none

/-- What follows the last dot of the name, unless that dot comes first. -/
def extension? (p : Path) : Option String := do
  let name ← p.fileName?
  let reversed := name.toList.reverse
  match reversed.dropWhile (· != '.') with
  | '.' :: _ :: _ => some (String.ofList (reversed.takeWhile (· != '.')).reverse)
  | _ => none

/-- The rest of the path below `base`, if it lies there. -/
def relativeTo? (p base : Path) : Option Path :=
  (base.components.isPrefixOf? p.components).map ofComponents

end Path

end Rewrap
