import Rewrap.Import
import Rewrap.Text.Quoted

/-! # Specs

A spec says which component is retired, which wrapper takes its place, and where the wrapper goes.
It can be used if its names can be tags and imports. -/

namespace Rewrap

/-- Which import to retire, which wrapper replaces it, the guard tags that the wrapper nests inside,
the file extensions to look at and the paths to leave alone. -/
structure Spec where
  oldComponent : String := "NavBar"
  oldModule : String := "@/components/NavBar"
  newComponent : String := "AppShell"
  newModule : String := "@/components/AppShell"
  guards : List String := ["ProtectedRoute", "AdminRoute"]
  extensions : List String := ["tsx", "ts"]
  exclude : List String := []
deriving DecidableEq

instance : Inhabited Spec := ⟨{}⟩

namespace Spec

/-- Why a spec cannot be used. -/
inductive Fault where
  | notTagName (field name : String)
  | sameComponent
  | emptyModule
deriving DecidableEq

def Fault.message : Fault → String
  | .notTagName field name => field ++ " must be a JSX identifier, got " ++ Quoted.quote name
  | .sameComponent => "old_component and new_component must differ"
  | .emptyModule => "module specifiers cannot be empty"

/-- Whether the name consists of ASCII letters, digits, underscores and dollar signs. -/
def isTagName (name : String) : Bool :=
  !name.isEmpty && name.toList.all fun c => c.isAlphanum || c == '_' || c == '$'

/-- The first fault of the spec, if it has one. -/
def fault? (s : Spec) : Option Fault :=
  if !isTagName s.oldComponent then some (.notTagName "old_component" s.oldComponent)
  else if !isTagName s.newComponent then some (.notTagName "new_component" s.newComponent)
  else if s.oldComponent == s.newComponent then some .sameComponent
  else if s.oldModule.isEmpty || s.newModule.isEmpty then some .emptyModule
  else none

/-- The exclusion entries of the spec and then the extra ones. -/
def exclusionsWith (s : Spec) (extra : List String) : List String := s.exclude ++ extra

/-- The import that is retired. -/
def retiring (s : Spec) : Import := ⟨s.oldComponent, s.oldModule⟩

/-- The import that replaces it. -/
def replacement (s : Spec) : Import := ⟨s.newComponent, s.newModule⟩

end Spec

end Rewrap
