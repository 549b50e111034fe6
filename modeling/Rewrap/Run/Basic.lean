import Rewrap.Path.Basic
import Rewrap.Timestamp.Basic

/-! # Runs

A run is one migration that wrote files. It is recorded with what each file was before and after, so
that it can be reverted. An index holds the recorded runs by their ids. -/

namespace Rewrap

/-- A file that a run wrote: the hashes of its text before and after, and where its text from before
is kept, inside the run's own folder. -/
structure Change where
  path : Path
  hashBefore : String
  hashAfter : String
  backup : Path
deriving DecidableEq

/-- Whether a run still stands. -/
inductive RunStatus where
  | applied
  | reverted
deriving DecidableEq

/-- A recorded run. -/
structure Run where
  id : String
  timestamp : Timestamp
  command : String
  root : Path
  changes : List Change
  status : RunStatus
  canRevert : Bool
deriving DecidableEq

/-- The run after it was reverted. -/
def Run.reverted (r : Run) : Run := { r with status := .reverted, canRevert := false }

/-- The recorded runs by id. -/
structure RunIndex where
  entries : List (String × Run)
deriving DecidableEq

namespace RunIndex

def empty : RunIndex := ⟨[]⟩

/-- The run with the given id. -/
def find? (i : RunIndex) (id : String) : Option Run := i.entries.lookup id

/-- Enters a run under an id, in the place of the run that was there. -/
def insert (i : RunIndex) (id : String) (r : Run) : RunIndex :=
  ⟨i.entries.filter (·.1 != id) ++ [(id, r)]⟩

/-- Enters a run under its own id. -/
def add (i : RunIndex) (r : Run) : RunIndex := i.insert r.id r

/-- The index that a list of entries describes. The last entry of an id counts. -/
def ofEntries (entries : List (String × Run)) : RunIndex :=
  entries.foldl (fun i e => i.insert e.1 e.2) empty

/-- The runs in the order in which they were entered. -/
def runs (i : RunIndex) : List Run := i.entries.map Prod.snd

/-- The runs, the latest first. -/
def newestFirst (i : RunIndex) : List Run := i.runs.mergeSort fun r s => s.timestamp.le r.timestamp

end RunIndex

end Rewrap
