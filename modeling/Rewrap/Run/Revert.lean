import Rewrap.Run.Store

/-! # Reverting runs

A run is reverted by writing back the texts that its files had before. Unless it is forced, that is
refused if a file is not as the run left it; all files are checked before the first one is
written. -/

namespace Rewrap.RunStore

/-- Checks that a file is as the run left it. -/
def checkUnchanged (id : String) (c : Change) : Attempt Run.Error Unit := do
  if ← Attempt.always (Action.isPresent c.path) then
    let found ← hashFile c.path
    if found != c.hashAfter then throw (.fileChanged c.path id c.hashAfter found)
  else throw (.fileGone c.path)

/-- Writes back the text that a file had before the run. -/
def restore (s : RunStore) (id : String) (c : Change) : Attempt Run.Error Unit := do
  let before ← Attempt.orFail (Action.readText ((s.backupFolder id).join c.backup))
    (.backupMissing c.path)
  Attempt.orFail (Action.writeText c.path before) (.restoreFailed c.path)
  Attempt.always (Action.print ("  ✓ Restored: " ++ c.path.text ++ "\n"))

/-- Reverts a run, and stores that it is reverted. -/
def revert (s : RunStore) (id : String) (force : Bool) : Attempt Run.Error Unit := do
  let run ← s.loadRun id
  if run.status = .reverted then throw (.alreadyReverted id)
  if !run.canRevert then throw (.notRevertible id)
  if !force then run.changes.forM (checkUnchanged id)
  Attempt.always (Action.print ("Reverting " ++ toString run.changes.length ++ " file(s)...\n"))
  run.changes.forM (s.restore id)
  s.saveRun run.reverted
  Attempt.always (Action.print ("✓ Run " ++ id ++ " reverted successfully\n"))

end Rewrap.RunStore
