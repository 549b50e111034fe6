import Rewrap.FileTree.Basic

/-! # Resolving paths

A path is followed step by step from the working directory or from the top. Links on the way are
followed, and so is a link at the end if that is asked for. The place found is that of an entry, or
a vacant place in a folder. -/

namespace Rewrap

/-- The steps of a path. Dots are kept, and a slash at the end stands for one: what comes before it
has to be a folder. -/
def Path.steps (p : Path) : List Path.Component :=
  let cs := p.text.toList
  let names := (Path.segments cs).filterMap fun s =>
    if s = ['.'] then some .here else Path.componentOf? s
  let names := if cs.getLast? = some '/' then names ++ [.here] else names
  if p.isAbsolute then .root :: names else names

namespace FileTree

/-- The longest name, in bytes. -/
def nameLimit : Nat := 255

/-- The longest path, in bytes. -/
def pathLimit : Nat := 4095

/-- The number of links that one path may lead through. -/
def linkLimit : Nat := 40

/-- Follows steps from a place up to a link that has to be followed, where `onLink` goes on from the
link's folder with the link's path and the remaining steps. -/
def followSteps (t : FileTree) (followLast : Bool)
    (onLink : Place → Path → List Path.Component → Except FileError Place) :
    Place → List Path.Component → Except FileError Place
  | k, [] => .ok k
  | _, .root :: rest => followSteps t followLast onLink [] rest
  | k, .here :: rest => followSteps t followLast onLink k rest
  | k, .up :: rest => followSteps t followLast onLink k.dropLast rest
  | k, .name n :: rest =>
      if nameLimit < n.utf8ByteSize then .error .nameTooLong
      else
        match t.get? (k ++ [n]) with
        | some .folder => followSteps t followLast onLink (k ++ [n]) rest
        | some (.file _) => if rest.isEmpty then .ok (k ++ [n]) else .error .notFolder
        | some (.link target) =>
            if rest.isEmpty && !followLast then .ok (k ++ [n]) else onLink k target rest
        | none => if rest.isEmpty then .ok (k ++ [n]) else .error .notFound

/-- Follows steps through at most `n` links. -/
def follow (t : FileTree) (followLast : Bool) :
    Nat → Place → List Path.Component → Except FileError Place
  | 0 => t.followSteps followLast fun _ _ _ => .error .tooManyLinks
  | n + 1 => t.followSteps followLast fun k target rest =>
      follow t followLast n k (target.steps ++ rest)

/-- The place at the end of the steps, seen from the working directory. -/
def placeOf (t : FileTree) (followLast : Bool) (steps : List Path.Component) :
    Except FileError Place :=
  t.follow followLast linkLimit t.cwd steps

/-- The steps of a path that can be looked up. -/
def stepsOf (p : Path) : Except FileError (List Path.Component) :=
  if p.text.isEmpty then .error .notFound
  else if p.text.toList.contains '\x00' then .error .nulInName
  else if pathLimit < p.text.utf8ByteSize then .error .nameTooLong
  else .ok p.steps

/-- The place that a path leads to. -/
def resolve (t : FileTree) (followLast : Bool) (p : Path) : Except FileError Place := do
  t.placeOf followLast (← stepsOf p)

/-- The entry that a path leads to, through any links. -/
def find? (t : FileTree) (p : Path) : Except FileError Entry := do
  match t.get? (← t.resolve true p) with
  | some e => .ok e
  | none => .error .notFound

end FileTree

end Rewrap
