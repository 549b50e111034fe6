import Rewrap.Action.Basic
import Rewrap.Blake3
import Rewrap.Run.Encoding

/-! # The run store

A store is a folder that holds the index of runs, a file for each run, and for each run a folder
with the texts of its files from before. Files are stored under another name first and then moved,
so that none is ever half written. -/

namespace Rewrap

/-- Why the store cannot do what it is asked for. -/
inductive Run.Error where
  | file (e : FileError)
  | backupFailed (p : Path) (e : FileError)
  | unhashable (p : Path) (e : FileError)
  | indexUnreadable (e : FileError)
  | indexMalformed (f : Json.Fault)
  | resetFailed (e : FileError)
  | runUnreadable (e : FileError)
  | runMalformed (f : Json.Fault)
  | unknownRun (id : String)
  | alreadyReverted (id : String)
  | notRevertible (id : String)
  | fileGone (p : Path)
  | fileChanged (p : Path) (id expected found : String)
  | backupMissing (p : Path) (e : FileError)
  | restoreFailed (p : Path) (e : FileError)
  | beforeCalendar
deriving DecidableEq

/-- What is said about an error, and then about what caused it. -/
def Run.Error.messages : Run.Error → List String
  | .file e => [e.message]
  | .backupFailed p e => ["Failed to back up " ++ p.text, e.message]
  | .unhashable p e => ["Failed to read file for hashing: " ++ p.text, e.message]
  | .indexUnreadable e => ["Failed to read runs index", e.message]
  | .indexMalformed f => ["Failed to parse runs index: " ++ f.message]
  | .resetFailed e => ["Failed to remove old state directory", e.message]
  | .runUnreadable e => ["Failed to read run metadata", e.message]
  | .runMalformed f => ["Failed to parse run metadata", f.message]
  | .unknownRun id => ["Run " ++ id ++ " not found"]
  | .alreadyReverted id => ["Run " ++ id ++ " has already been reverted"]
  | .notRevertible id => ["Run " ++ id ++ " cannot be reverted"]
  | .fileGone p => ["File " ++ p.text ++ " no longer exists (use --force to ignore)"]
  | .fileChanged p id expected found =>
      ["File " ++ p.text ++ " has changed since run " ++ id ++
          " (use --force to ignore)\nExpected hash: "
        ++ expected ++ "\nCurrent hash: " ++ found]
  | .backupMissing p e => ["Missing backup for " ++ p.text, e.message]
  | .restoreFailed p e => ["Failed to write restored file: " ++ p.text, e.message]
  | .beforeCalendar => ["the date lies before the first day of the calendar"]

/-- The error and its causes on one line. -/
def Run.Error.message (e : Run.Error) : String := ": ".intercalate e.messages

/-- The hash of a text. -/
def Text.hash (t : Text) : String := Blake3.hexDigest t.toBytes

/-- A folder of recorded runs. -/
structure RunStore where
  folder : Path

namespace RunStore

/-! ## Names -/

def indexPath (s : RunStore) : Path := s.folder.join ⟨"runs.json"⟩

/-- The name of the file that a run is stored in. -/
def runFileName (id : String) : String := id ++ ".json"

def runPath (s : RunStore) (id : String) : Path := s.folder.join ⟨runFileName id⟩

/-- The folder of a run's backups. -/
def backupFolder (s : RunStore) (id : String) : Path := s.folder.join ⟨id⟩

/-- The name of a file's backup: the start of the hash of the whole path, and the file's own
name. -/
def backupName (p : Path) : Path :=
  ⟨String.ofList ((Text.hash p.text.toList).toList.take 16) ++ "-" ++
    p.fileName?.getD "" ++ ".orig"⟩

/-! ## Files -/

/-- The hash of a file's bytes. -/
def hashFile (p : Path) : Attempt Run.Error String := do
  let content ← Attempt.orFail (Action.ask (.read p)) (.unhashable p)
  return Blake3.hexDigest content

/-- Stores a text under a name, in one step. -/
def store (s : RunStore) (name : String) (t : Text) : Attempt Run.Error Unit := do
  Attempt.orFail (Action.ask (.createFolders s.folder)) .file
  let temporary := s.folder.join ⟨name ++ ".tmp"⟩
  Attempt.orFail (Action.writeText temporary t) .file
  Attempt.orFail (Action.ask (.rename temporary (s.folder.join ⟨name⟩))) .file

/-- Keeps the text that a file had before a run. -/
def saveBackup (s : RunStore) (id : String) (p : Path) (before : Text) :
    Attempt Run.Error Path := do
  let folder := s.backupFolder id
  Attempt.orFail (Action.ask (.createFolders folder)) .file
  let name := backupName p
  Attempt.orFail (Action.writeText (folder.join name) before) (.backupFailed p)
  return name

/-! ## The index -/

/-- The stored index, or an empty one if there is none. An index of an older format is announced. -/
def loadIndex (s : RunStore) : Attempt Run.Error RunIndex := do
  if ← Attempt.always (Action.isPresent s.indexPath) then
    let t ← Attempt.orFail (Action.readText s.indexPath) .indexUnreadable
    match RunIndex.ofText t with
    | .ok index => return index
    | .error f =>
        if f.isOldFormat then
          Attempt.always (Action.warn
              ("⚠️  Incompatible state format detected from a previous version.\n"
            ++ "   The state directory will be reset.\n"
            ++ "   Location: " ++ s.folder.text ++ "\n"))
        throw (.indexMalformed f)
  else return RunIndex.empty

/-- Removes the store. -/
def reset (s : RunStore) : Attempt Run.Error Unit := do
  Attempt.always (Action.warn "🔄 Resetting incompatible state format...\n")
  if ← Attempt.always (Action.isPresent s.folder) then
    Attempt.orFail (Action.ask (.removeFolder s.folder)) .resetFailed
  Attempt.always (Action.warn "✓ State directory cleared\n")

/-- The stored index. A store with an index of an older format is removed. -/
def loadIndexOrReset (s : RunStore) : Attempt Run.Error RunIndex := do
  match ← Attempt.always s.loadIndex.run with
  | .ok index => return index
  | .error (.indexMalformed f) =>
      if f.isOldFormat then
        s.reset
        return RunIndex.empty
      else throw (.indexMalformed f)
  | .error e => throw e

def saveIndex (s : RunStore) (i : RunIndex) : Attempt Run.Error Unit := s.store "runs.json" i.text

/-! ## Runs -/

/-- Stores a run, and enters it into the index. -/
def saveRun (s : RunStore) (r : Run) : Attempt Run.Error Unit := do
  s.store (runFileName r.id) r.text
  let index ← s.loadIndex
  s.saveIndex (index.add r)

/-- The stored run with the given id. -/
def loadRun (s : RunStore) (id : String) : Attempt Run.Error Run := do
  if ← Attempt.always (Action.isPresent (s.runPath id)) then
    let t ← Attempt.orFail (Action.readText (s.runPath id)) .runUnreadable
    match Run.ofText t with
    | .ok r => return r
    | .error f => throw (.runMalformed f)
  else throw (.unknownRun id)

end RunStore

end Rewrap
