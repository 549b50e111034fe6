import Rewrap.FileTree.Resolution

/-! # Reading and changing files

Files are read and written through links. An operation that fails gives its error; what it did
before that stays done, so every change gives the tree that it leaves behind too. -/

namespace Rewrap.FileTree

/-- The outcome of a change, and the tree after it. -/
abbrev Changed := Except FileError Unit × FileTree

/-- A change that is made, or fails and leaves the tree as it is. -/
def changing (t : FileTree) (change : Except FileError FileTree) : Changed :=
  match change with
  | .ok t => (.ok (), t)
  | .error e => (.error e, t)

/-! ## Looking -/

/-- Whether a path leads to something. -/
def isPresent (t : FileTree) (p : Path) : Bool := (t.find? p).toBool

/-- Whether a path leads to a file. -/
def isFile (t : FileTree) (p : Path) : Bool :=
  match t.find? p with
  | .ok (.file _) => true
  | _ => false

/-- The bytes of a file. -/
def read (t : FileTree) (p : Path) : Except FileError ByteArray := do
  match ← t.find? p with
  | .file content => .ok content
  | .folder => .error .isFolder
  | .link _ => .error .tooManyLinks

/-- The names of what stands in a folder, in their order. -/
def namesIn (t : FileTree) (k : Place) : List String :=
  let names := t.entries.filterMap fun (k', _) =>
    match k.isPrefixOf? k' with
    | some [n] => some n
    | _ => none
  names.mergeSort fun n n' => (compare n n').isLE

/-- The files that are found where a name is visited: a file itself, or the files in a folder. A
link is passed over. -/
def visit (n : String) (e : Option Entry) (inFolder : List Place) : List Place :=
  match e with
  | some (.file _) => [[n]]
  | some .folder => inFolder.map (n :: ·)
  | _ => []

/-- The files that stand at most so many levels below a folder, as names that lead to them from
there. What stands in a folder is visited by name, and a folder is gone through when it is
visited. -/
def filesWithin (t : FileTree) : Nat → Place → List Place
  | 0, _ => []
  | levels + 1, k => (t.namesIn k).flatMap fun n =>
      visit n (t.get? (k ++ [n])) (filesWithin t levels (k ++ [n]))

/-- The number of levels of the tree. -/
def height (t : FileTree) : Nat := t.entries.foldr (fun (k, _) n => max k.length n) 0

/-- The files that a walk from `root` finds: `root` itself if it is a file, otherwise all files
below it. Their paths begin with `root` as it is spelled. -/
def walk (t : FileTree) (root : Path) : Except FileError (List Path) := do
  let k ← t.resolve true root
  match t.get? k with
  | some .folder =>
      return (t.filesWithin t.height k).map fun names =>
        names.foldl (fun p n => p.join ⟨n⟩) root
  | some _ => return [root]
  | none => .error .notFound

/-! ## Changing -/

/-- Writes a file, which is made if it is not there but its folder is. -/
def write (t : FileTree) (p : Path) (content : ByteArray) : Changed :=
  t.changing do
    let steps ← stepsOf p
    if p.text.toList.getLast? = some '/' then
      let _ ← t.placeOf true (steps.dropLast.dropLast ++ [.here])
      .error .isFolder
    else
      let k ← t.placeOf true steps
      match t.get? k with
      | some .folder => .error .isFolder
      | _ => return t.put k (.file content)

/-- Makes the folder at the end of the steps. -/
def addFolder (t : FileTree) (steps : List Path.Component) : Except FileError FileTree := do
  let k ← t.placeOf false steps
  match t.get? k with
  | some _ => .error .alreadyThere
  | none => return t.put k .folder

/-- Makes a folder, unless it is there. -/
def ensureFolder (t : FileTree) (steps : List Path.Component) : Changed :=
  match t.addFolder steps with
  | .ok t => (.ok (), t)
  | .error e =>
      match (t.placeOf true steps).toOption.bind t.get? with
      | some .folder => (.ok (), t)
      | _ => (.error e, t)

/-- Makes the folder at the end of the steps; if it has no place yet, the folders above it are made
first. -/
def ensureFolderBelow (t : FileTree) (steps : List Path.Component)
    (ensureAbove : FileTree → Changed) : Changed :=
  match t.ensureFolder steps with
  | (.error .notFound, _) =>
      match ensureAbove t with
      | (.ok (), t) => t.ensureFolder steps
      | failed => failed
  | done => done

/-- Makes a folder and those above it as far as they are missing; the steps are given from the last
to the first. -/
def ensureFolders (t : FileTree) : List Path.Component → Changed
  | [] => (.ok (), t)
  | c :: above => t.ensureFolderBelow (c :: above).reverse fun t => t.ensureFolders above

/-- Makes the folder of a path and those above it as far as they are missing. A dot at the end
stands for a folder that has to be there, and a slash at the end does not count. -/
def createFolders (t : FileTree) (p : Path) : Changed :=
  match p.components.reverse, stepsOf p with
  | [], _ => (.ok (), t)
  | _, .error e => (.error e, t)
  | _ :: above, .ok steps =>
      let steps := if p.text.toList.getLast? = some '/' then steps.dropLast else steps
      t.ensureFolderBelow steps fun t => t.ensureFolders above

/-- Removes a file or a link. -/
def removeFile (t : FileTree) (p : Path) : Changed :=
  t.changing do
    let k ← t.resolve false p
    match t.get? k with
    | some .folder => .error .isFolder
    | some _ => return t.erase k
    | none => .error .notFound

/-- Removes a folder with all that is in it, or a link. A folder that is named by a dot is emptied,
and then cannot be removed. -/
def removeFolder (t : FileTree) (p : Path) : Changed :=
  match t.resolve false p with
  | .error e => (.error e, t)
  | .ok k =>
      match t.get? k with
      | none => (.error .notFound, t)
      | some (.file _) => (.error .notFolder, t)
      | some (.link _) => (.ok (), t.erase k)
      | some .folder =>
          let emptied := t.clear k
          match (Path.segments p.text.toList).filter (· ≠ []) |>.getLast? with
          | some ['.'] => (.error .invalid, emptied)
          | some ['.', '.'] => (.ok (), emptied)
          | _ => (.ok (), emptied.erase k)

/-- Moves a file or a link to another path, where it takes the place of what is no folder. -/
def rename (t : FileTree) (source target : Path) : Changed :=
  t.changing do
    let k ← t.resolve false source
    let k' ← t.resolve false target
    match t.get? k, t.get? k' with
    | none, _ => .error .notFound
    | some _, some .folder => .error .isFolder
    | some e, _ => return (t.erase k).put k' e

end Rewrap.FileTree
