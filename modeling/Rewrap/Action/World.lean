import Rewrap.Action.Basic
import Rewrap.FileTree.Access

/-! # Running actions on a file tree

A world is a file tree with what has been written to the outputs. Reading and writing source files
can be made to fail, and a source file can be made to look different when it is read again; the
tool's own files are not affected. -/

namespace Rewrap

/-- The source files that cannot be read or written, and those that give another text, or none, from
the second reading on. -/
structure Faults where
  unreadable : List Path := []
  unwritable : List Path := []
  altered : List (Path × Option Text) := []

/-- The error of a source file that was made to fail. -/
def Faults.error : FileError := .refused "denied"

/-- The surroundings of an action. -/
structure World where
  tree : FileTree
  faults : Faults := {}
  sourcesRead : List Path := []
  out : String := ""
  err : String := ""

namespace World

/-- The text of a source file. -/
def source (w : World) (p : Path) : Except FileError Text :=
  if w.faults.unreadable.contains p then .error Faults.error
  else
    match w.sourcesRead.contains p, w.faults.altered.lookup p with
    | true, some (some t) => .ok t
    | true, some none => .error Faults.error
    | _, _ => (w.tree.read p).bind Text.ofBytes

/-- The world after a change of its tree. -/
def changed (w : World) (c : FileTree.Changed) : Except FileError Unit × World :=
  (c.1, { w with tree := c.2 })

/-- The reply to a request, and the world after it. -/
def reply (w : World) : (r : Request) → r.Reply × World
  | .walk root => (w.tree.walk root, w)
  | .readSource p => (w.source p, { w with sourcesRead := p :: w.sourcesRead })
  | .writeSource p t =>
      if w.faults.unwritable.contains p then (.error Faults.error, w)
      else w.changed (w.tree.write p t.toBytes)
  | .isPresent p => (w.tree.isPresent p, w)
  | .read p => (w.tree.read p, w)
  | .write p content => w.changed (w.tree.write p content)
  | .createFolders p => w.changed (w.tree.createFolders p)
  | .removeFile p => w.changed (w.tree.removeFile p)
  | .removeFolder p => w.changed (w.tree.removeFolder p)
  | .rename source target => w.changed (w.tree.rename source target)
  | .print s => ((), { w with out := w.out ++ s })
  | .warn s => ((), { w with err := w.err ++ s })

end World

namespace Action

variable {α β : Type}

/-- The result of an action, and the world after it. -/
def run : Action α → World → α × World
  | .done a, w => (a, w)
  | .request r next, w => (next (w.reply r).1).run (w.reply r).2

@[simp] theorem run_done (a : α) (w : World) : (Action.done a).run w = (a, w) := rfl

@[simp] theorem run_pure (a : α) (w : World) : (pure a : Action α).run w = (a, w) := rfl

@[simp] theorem run_ask (r : Request) (w : World) : (ask r).run w = w.reply r := rfl

/-- Doing one thing after another runs the second in the world that the first leaves behind. -/
@[simp] theorem run_bind (x : Action α) (f : α → Action β) (w : World) :
    (x >>= f).run w = (f (x.run w).1).run (x.run w).2 := by
  induction x generalizing w with
  | done a => rfl
  | request r next ih => exact ih (w.reply r).1 (w.reply r).2

end Action

end Rewrap
