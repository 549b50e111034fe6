import Rewrap.Path.Basic

/-! # Normal forms of paths

The normal form of a path has no dots, and has parent steps only where a relative path begins with
them. It is found without looking at any file, so it exists for paths that lead nowhere. -/

namespace Rewrap.Path

/-- Adds a component to a normal form, which is given from its last component to its first. -/
def normalStep (done : List Component) (c : Component) : List Component :=
  match c, done with
  | .here, done => done
  | .up, .name _ :: done => done
  | .up, done => if done.contains .root then done else .up :: done
  | c, done => c :: done

/-- The components of the normal form. -/
def normalComponents (cs : List Component) : List Component := (cs.foldl normalStep []).reverse

/-- The normal form of a path. -/
def normalize (p : Path) : Path := ofComponents (normalComponents p.components)

/-- The normal form of a path as seen from the directory `cwd`, so that every spelling of one place
has the same form. The empty path is no place and stays empty. -/
def canonical (p cwd : Path) : Path :=
  if p.text.isEmpty then p.normalize
  else (cwd.join p).normalize

end Rewrap.Path
