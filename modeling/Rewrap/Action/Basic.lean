import Rewrap.FileTree.Basic

/-! # Actions

What the tool does to its surroundings is an action: a request, and what to do with the reply, until
a result is there. An action says nothing about where it is carried out, so it can be run on a file
tree and on the files of a machine. -/

namespace Rewrap

/-- What an action can ask for. Source files are the ones that a migration looks at and changes;
they are asked for apart from the tool's own files. -/
inductive Request where
  | walk (root : Path)
  | readSource (p : Path)
  | writeSource (p : Path) (t : Text)
  | isPresent (p : Path)
  | read (p : Path)
  | write (p : Path) (content : ByteArray)
  | createFolders (p : Path)
  | removeFile (p : Path)
  | removeFolder (p : Path)
  | rename (source target : Path)
  | print (s : String)
  | warn (s : String)

/-- The reply to a request. -/
abbrev Request.Reply : Request → Type
  | .walk _ => Except FileError (List Path)
  | .readSource _ => Except FileError Text
  | .isPresent _ => Bool
  | .read _ => Except FileError ByteArray
  | .writeSource .. | .write .. | .createFolders _ | .removeFile _ | .removeFolder _ | .rename .. =>
      Except FileError Unit
  | .print _ | .warn _ => Unit

/-- A result, or a request and the action that follows its reply. -/
inductive Action (α : Type) where
  | done (a : α)
  | request (r : Request) (next : r.Reply → Action α)

namespace Action

variable {α β : Type}

/-- Does one thing after another. -/
def bind : Action α → (α → Action β) → Action β
  | .done a, f => f a
  | .request r next, f => .request r fun reply => (next reply).bind f

instance : Monad Action where
  pure := .done
  bind := bind

@[simp] theorem pure_eq (a : α) : (pure a : Action α) = .done a := rfl

@[simp] theorem bind_done (a : α) (f : α → Action β) : Action.done a >>= f = f a := rfl

@[simp] theorem bind_request (r : Request) (next : r.Reply → Action α) (f : α → Action β) :
    Action.request r next >>= f = .request r fun reply => next reply >>= f := rfl

instance : LawfulMonad Action := LawfulMonad.mk' Action
  (by
    intro α x
    change x.bind .done = x
    induction x with
    | done a => rfl
    | request r next ih => exact congrArg (Action.request r) (funext ih))
  (by intros; rfl)
  (by
    intro α β γ x f g
    change (x.bind f).bind g = x.bind fun a => (f a).bind g
    induction x with
    | done a => rfl
    | request r next ih => exact congrArg (Action.request r) (funext ih))

/-- Asks for one thing. -/
def ask (r : Request) : Action r.Reply := .request r .done

/-- Writes to the output. -/
def print (s : String) : Action Unit := ask (.print s)

/-- Writes to the error output. -/
def warn (s : String) : Action Unit := ask (.warn s)

/-- Whether a path leads to something. -/
def isPresent (p : Path) : Action Bool := ask (.isPresent p)

/-- The text of one of the tool's own files. -/
def readText (p : Path) : Action (Except FileError Text) := do
  return (← ask (.read p)).bind Text.ofBytes

/-- Writes a text to one of the tool's own files. -/
def writeText (p : Path) (t : Text) : Action (Except FileError Unit) := ask (.write p t.toBytes)

end Action

/-- An action that can fail. What it did before it failed stays done. -/
abbrev Attempt (ε : Type) := ExceptT ε Action

namespace Attempt

variable {α ε : Type}

/-- Asks for something, and says what a failure of it means. -/
def orFail (a : Action (Except FileError α)) (failure : FileError → ε) : Attempt ε α :=
  ExceptT.mk do return (← a).mapError failure

/-- Does something that cannot fail. -/
def always (a : Action α) : Attempt ε α := ExceptT.lift a

end Attempt

end Rewrap
