import Rewrap.Exclusion.Basic
import Rewrap.Spec

/-! # Selection

A file is selected if it is not excluded and its text holds the retiring import. -/

namespace Rewrap

/-- Picks the files that still import the retiring component. -/
structure Selector where
  retiring : Import
  exclusions : Exclusions

namespace Selector

/-- The selector for a spec with the given exclusions. -/
def ofSpec (s : Spec) (exclusions : Exclusions) : Selector := ⟨s.retiring, exclusions⟩

def isExcluded (s : Selector) (p : Path) : Bool := s.exclusions.contains p

/-- Whether the text holds the retiring import. -/
def accepts (s : Selector) (t : Text) : Bool := s.retiring.clause.occursIn t

/-- The selected paths, in the order in which the files are given. -/
def select (s : Selector) (files : List (Path × Text)) : List Path :=
  (files.filter fun (p, t) => !s.isExcluded p && s.accepts t).map Prod.fst

end Selector

end Rewrap
