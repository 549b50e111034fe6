import Rewrap.Command.Basic
import Std.Time.DateTime.Timestamp

/-! # The program

Carries out the actions of a command on the files of the machine. Nothing is decided here. -/

open Rewrap

namespace Rewrap.Machine

/-- What went wrong, by the number that the system gives it, or the negative of that number. -/
def errorOf (code : UInt32) (details : String) : FileError :=
  let code := if 0x80000000 ≤ code then 0 - code else code
  if code == 2 then .notFound
  else if code == 17 then .alreadyThere
  else if code == 20 then .notFolder
  else if code == 21 then .isFolder
  else if code == 22 then .invalid
  else if code == 36 then .nameTooLong
  else if code == 40 then .tooManyLinks
  else .refused (details ++ " (os error " ++ toString code ++ ")")

/-- What went wrong with a file. -/
def fileError : IO.Error → FileError
  | .noFileOrDirectory _ code details | .interrupted _ code details
  | .alreadyExists _ code details | .invalidArgument _ code details
  | .permissionDenied _ code details | .resourceExhausted _ code details
  | .inappropriateType _ code details | .noSuchThing _ code details
  | .otherError code details | .resourceBusy code details | .resourceVanished code details
  | .unsupportedOperation code details | .hardwareFault code details
  | .unsatisfiedConstraints code details | .illegalOperation code details
  | .protocolError code details | .timeExpired code details => errorOf code details
  | .unexpectedEof => .refused "unexpected end of file"
  | .userError message => .refused message

/-- The result of something that can fail. -/
def trying {α : Type} (x : IO α) : IO (Except FileError α) := do
  try return .ok (← x)
  catch e => return .error (fileError e)

/-- The files below a folder, through no link. What stands in a folder is visited by name. -/
partial def filesBelow (folder : Path) : IO (List Path) := do
  let entries ← ((← IO.currentDir) / folder.text).readDir
  let found ← (entries.qsort fun e e' => e.fileName < e'.fileName).toList.mapM fun entry => do
    let path := folder.join ⟨entry.fileName⟩
    match (← entry.path.symlinkMetadata).type with
    | .dir => try filesBelow path catch _ => pure []
    | .file => pure [path]
    | _ => pure []
  return found.flatten

/-- The files that a walk from a path finds. -/
def walk (root : Path) : IO (List Path) := do
  if root.text.isEmpty then throw (.noFileOrDirectory "" 2 "")
  match (← ((← IO.currentDir) / root.text).metadata).type with
  | .dir => filesBelow root
  | .file => return [root]
  | _ => return []

/-- The reply to a request. -/
def reply : (r : Request) → IO r.Reply
  | .walk root => trying (walk root)
  | .readSource p => do return (← trying (IO.FS.readBinFile p.text)).bind Text.ofBytes
  | .writeSource p t => trying (IO.FS.writeBinFile p.text t.toBytes)
  | .isPresent p => do
      if p.text.isEmpty then return false
      else ((← IO.currentDir) / p.text).pathExists
  | .read p => trying (IO.FS.readBinFile p.text)
  | .write p content => trying (IO.FS.writeBinFile p.text content)
  | .createFolders p => trying (IO.FS.createDirAll p.text)
  | .removeFile p => trying (IO.FS.removeFile p.text)
  | .removeFolder p => trying (IO.FS.removeDirAll p.text)
  | .rename source target => trying (IO.FS.rename source.text target.text)
  | .print s => IO.print s
  | .warn s => IO.eprint s

/-- Carries out an action. -/
def perform {α : Type} : Action α → IO α
  | .done a => return a
  | .request r next => do perform (next (← reply r))

/-- The folder of the program in the user's data folder. -/
def dataFolder : IO Path := do
  let shared ← match ← IO.getEnv "XDG_DATA_HOME" with
    | some folder =>
        if (Path.mk folder).isAbsolute then pure (Path.mk folder) else homeFolder
    | none => homeFolder
  return shared.join ⟨Command.programName⟩
where
  homeFolder : IO Path := do
    return (Path.mk ((← IO.getEnv "HOME").getD "/")).join ⟨".local/share"⟩

/-- What the machine gives to a command. -/
def environment : IO Command.Environment := do
  let clock ← Std.Time.Timestamp.now
  let nanoseconds := clock.toNanosecondsSinceUnixEpoch.val
  let now := Timestamp.ofSeconds (nanoseconds / 1000000000) (nanoseconds % 1000000000).toNat
  return {
    cwd := ⟨(← IO.currentDir).toString⟩
    storeFolder := (← IO.getEnv "APPSHELL_MIGRATE_STATE_DIR").map Path.mk
    dataFolder := ← dataFolder
    now
    newRunId := Journal.idAt nanoseconds.toNat
    newRunTime := now }

end Rewrap.Machine

def main (words : List String) : IO UInt32 := do
  let code ← Machine.perform (Command.program (← Machine.environment) words)
  return code.toUInt32
