import Rewrap.Run.Store

/-! # The history of runs

The latest runs are listed one to a line, and old ones can be removed together with their
backups. -/

namespace Rewrap

namespace Run

/-- The text, filled up with blanks to the given width. -/
def column (width : Nat) (s : String) : String :=
  s ++ String.ofList (List.replicate (width - s.length) ' ')

/-- The text, or its end after three dots if it is longer than the given width. -/
def tail (width : Nat) (s : String) : String :=
  if s.length ≤ width then s
  else "..." ++ String.ofList (s.toList.drop (s.length - (width - 3)))

/-- How the status of a run is shown. -/
def statusText (r : Run) : String :=
  match r.status with
  | .applied => if r.canRevert then "[can revert]" else "[applied]"
  | .reverted => "[reverted]"

def filesText (r : Run) : String :=
  if r.changes.length = 1 then "1 file" else toString r.changes.length ++ " files"

/-- The line that shows the run. -/
def historyLine (r : Run) : String :=
  r.id ++ "  " ++ r.timestamp.minuteText ++ "  " ++ column 30 (tail 30 r.root.text) ++ "  "
    ++ column 10 r.filesText ++ "  " ++ r.statusText ++ "\n"

end Run

/-- The listing of at most the given number of runs, the latest first. -/
def RunIndex.history (i : RunIndex) (limit : Nat) : String :=
  if i.entries.isEmpty then "No runs found\n"
  else
    "Recent runs (showing up to " ++ toString limit ++ "):\n\n"
      ++ String.join ((i.newestFirst.take limit).map Run.historyLine)

namespace RunStore

/-- Lists the latest runs. -/
def showHistory (s : RunStore) (limit : Nat) : Attempt Run.Error Unit := do
  let index ← s.loadIndexOrReset
  Attempt.always (Action.print (index.history limit))

/-- Removes what is stored of a run. -/
def discard (s : RunStore) (r : Run) : Attempt Run.Error Unit := do
  if ← Attempt.always (Action.isPresent (s.backupFolder r.id)) then
    Attempt.orFail (Action.ask (.removeFolder (s.backupFolder r.id))) .file
  if ← Attempt.always (Action.isPresent (s.runPath r.id)) then
    Attempt.orFail (Action.ask (.removeFile (s.runPath r.id))) .file

/-- Removes the runs from before the last `keepDays` days, and gives their number. -/
def clean (s : RunStore) (keepDays : Nat) (now : Timestamp) : Attempt Run.Error Nat := do
  let index ← s.loadIndexOrReset
  match now.daysBefore? keepDays with
  | none => throw .beforeCalendar
  | some cutoff =>
      let (kept, old) := index.runs.partition fun r => cutoff.le r.timestamp
      old.forM s.discard
      s.saveIndex (kept.foldl RunIndex.add RunIndex.empty)
      return old.length

end RunStore

end Rewrap
