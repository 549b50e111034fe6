import Rewrap.Text.Pattern

/-! # Default imports

A default import binds a local name to a module, as in `import NavBar from "@/components/NavBar"`.
Any white space may stand between its words, and the quotes need not agree. -/

namespace Rewrap

/-- A local name and the module from which it is imported. -/
structure Import where
  name : String
  module : String
deriving DecidableEq

namespace Import

/-- One spelling of the import, then `next`. -/
def spelling (i : Import) (next : Text → Option Text) : Text → Option Text :=
  open Pattern in
  word "import".toList <| gap <| word i.name.toList <| gap <| word "from".toList <| gap <|
    quote <| word i.module.toList <| quote next

/-- The import up to its closing quote. -/
def clause (i : Import) : Pattern := fun _ => i.spelling some

/-- The text after the blanks and the semicolon, if any, that end a statement. -/
def dropTerminator (t : Text) : Text :=
  match t.dropIndent with
  | ';' :: rest => rest
  | rest => rest

/-- The import with the blanks after it and its terminator. -/
def statement (i : Import) : Pattern := fun _ => i.spelling fun t => some (dropTerminator t)

/-- The spelling used for new imports: single spaces, double quotes and a semicolon. -/
def canonical (i : Import) : String := "import " ++ i.name ++ " from \"" ++ i.module ++ "\";"

end Import

end Rewrap
