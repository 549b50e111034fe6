import Rewrap.Run.Store

/-! # Journals

A journal collects the files that a run writes. The text of a file is kept before the file is
written, and the file joins the run once it has been written. -/

namespace Rewrap

/-- A run that is being made. -/
structure Journal where
  store : RunStore
  runId : String
  command : String
  root : Path
  changes : List Change := []

namespace Journal

/-- The id of a run that begins at the given time of a clock: the start of the hash of the time's
sixteen bytes, the lowest first. -/
def idAt (clock : Nat) : String :=
  let bytes := (List.range 16).map fun i => (clock >>> (8 * i)).toUInt8
  String.ofList ((Blake3.hexDigest ⟨bytes.toArray⟩).toList.take 7)

/-- Keeps the text that a file has before it is written. -/
def backup (j : Journal) (p : Path) (before after : Text) : Attempt Run.Error Change := do
  let name ← j.store.saveBackup j.runId p before
  return ⟨p, before.hash, after.hash, name⟩

/-- Adds a file that has been written. -/
def commit (j : Journal) (c : Change) : Journal := { j with changes := j.changes ++ [c] }

/-- Keeps the text that a file had before, and adds the file at once. -/
def record (j : Journal) (p : Path) (before after : Text) : Attempt Run.Error Journal := do
  return j.commit (← j.backup p before after)

/-- The run that the journal has collected. -/
def toRun (j : Journal) (now : Timestamp) : Run :=
  ⟨j.runId, now, j.command, j.root, j.changes, .applied, true⟩

/-- Stores the run, and gives its id. A run that wrote nothing is not stored. -/
def finish (j : Journal) (now : Timestamp) : Attempt Run.Error (Option String) := do
  if j.changes.isEmpty then return none
  else
    j.store.saveRun (j.toRun now)
    return some j.runId

end Journal

end Rewrap
