import Rewrap.Exclusion.Glob
import Rewrap.Path.Normal
import Rewrap.Text.Quoted

/-! # Excluded paths

An exclusion entry names a path, relative to the root or absolute. Paths are compared by their
canonical forms, so every spelling of an excluded path is excluded. An entry with a wildcard also
excludes what its canonical form matches as a pattern, in which brackets stand for themselves. -/

namespace Rewrap

/-- The paths that a run leaves alone. -/
structure Exclusions where
  cwd : Path
  paths : List Path
  globs : List Glob

namespace Exclusions

/-- An entry whose wildcards cannot be read. -/
structure Error where
  entry : String
  cause : Glob.Error
deriving DecidableEq

def Error.message (e : Error) : String :=
  "invalid exclude pattern " ++ Quoted.quote e.entry ++ ": " ++ e.cause.message

/-- Whether an entry is to be read as a pattern too. -/
def hasWildcard (entry : String) : Bool := entry.toList.any fun c => c == '*' || c == '?'

/-- Adds one entry. -/
def add (root : Path) (s : Exclusions) (entry : String) : Except Error Exclusions := do
  let place := (root.join ⟨entry⟩).canonical s.cwd
  let paths := if s.paths.contains place then s.paths else s.paths ++ [place]
  if hasWildcard entry then
    match Glob.ofText (Glob.quoteBrackets place.text.toList) with
    | .ok glob => return { s with paths, globs := s.globs ++ [glob] }
    | .error cause => .error ⟨entry, cause⟩
  else return { s with paths }

/-- The exclusions that a list of entries describes. -/
def ofEntries (cwd root : Path) (entries : List String) : Except Error Exclusions :=
  entries.foldlM (add root) ⟨cwd, [], []⟩

/-- Whether the path is excluded. -/
def contains (s : Exclusions) (p : Path) : Bool :=
  let place := p.canonical s.cwd
  s.paths.contains place || s.globs.any (·.accepts place.text.toList)

/-- The number of different places that the entries name. -/
def size (s : Exclusions) : Nat := s.paths.length

end Exclusions

end Rewrap
