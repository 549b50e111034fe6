import Rewrap.Command.Arguments
import Rewrap.Migration.Basic
import Rewrap.Run.History
import Rewrap.Run.Revert
import Rewrap.SpecFile

/-! # Commands

What each command does, what it prints, and the code that it exits with. -/

namespace Rewrap.Command

/-- What a command finds around it: the working directory, the folder that is set for the run store,
the user's data folder, the time, and the id and time for a new run. -/
structure Environment where
  cwd : Path
  storeFolder : Option Path
  dataFolder : Path
  now : Timestamp
  newRunId : String
  newRunTime : Timestamp

/-- The run store: in the folder that is set for it, otherwise in the working directory if that is
asked for, otherwise in the user's data folder. -/
def Environment.store (env : Environment) (localState : Bool) : RunStore :=
  ⟨match env.storeFolder with
    | some folder => folder
    | none => (if localState then env.cwd.join ⟨".appshell-migrate"⟩ else env.dataFolder)⟩

/-! ## Errors -/

/-- Why a command fails. -/
inductive Error where
  | unknownFormat (name : String)
  | spec (p : Path) (e : Spec.LoadError)
  | setup (f : Migration.SetupFault)
  | walk (e : Migration.WalkError)
  | unreadable (p : Path) (e : FileError)
  | misfit (p : Path) (f : Swap.Fault)
  | run (e : Run.Error)

/-- What is said about an error, and then about what caused it. -/
def Error.messages : Error → List String
  | .unknownFormat name => [PreviewFormat.unknownName name]
  | .spec p e => ["Failed to load migration spec " ++ p.text, e.message]
  | .setup f => [f.message]
  | .walk e => [e.message, e.operation, e.cause.message]
  | .unreadable p e => ["Failed to read " ++ p.text, e.message]
  | .misfit p f => ["Failed to rewrite " ++ p.text, f.message]
  | .run e => e.messages

/-- The code that a failing command exits with. -/
def Error.exitCode : Error → Nat
  | .run .beforeCalendar => 101
  | _ => 1

/-- A text whose further lines begin with the given margin. -/
def hanging (margin : String) (s : String) : String :=
  String.ofList (s.toList.flatMap fun c => if c = '\n' then '\n' :: margin.toList else [c])

/-- Causes under each other, with their numbers. -/
def numberedCauses : Nat → List String → String
  | _, [] => ""
  | n, c :: cs =>
      "\n" ++ String.ofList (List.replicate (5 - (toString n).length) ' ') ++ toString n ++ ": "
        ++ hanging "       " c ++ numberedCauses (n + 1) cs

/-- What is printed about an error: the message and then the causes, which are numbered if there are
several. -/
def errorText : List String → String
  | [] => ""
  | [message] => "Error: " ++ message ++ "\n"
  | [message, cause] =>
      "Error: " ++ message ++ "\n\nCaused by:\n    " ++ hanging "    " cause ++ "\n"
  | message :: causes =>
      "Error: " ++ message ++ "\n\nCaused by:" ++ numberedCauses 0 causes ++ "\n"

/-! ## The commands -/

/-- Prints as a part of an attempt. -/
def print (s : String) : Attempt Error Unit := Attempt.always (Action.print s)

/-- The spec in the given file, or the default one. -/
def loadSpec (config : Option Path) : Attempt Error Spec :=
  match config with
  | some p => (Spec.load p).adapt (.spec p)
  | none => return {}

/-- The migration that the command line asks for. -/
def migrationOf (env : Environment) (c : CommandLine) (root : Path) : Attempt Error Migration := do
  let s ← loadSpec c.config
  MonadExcept.ofExcept ((Migration.ofSpec env.cwd s root c.exclude).mapError .setup)

/-- Lists the files that would be migrated, and those that could not be read. -/
def scan (env : Environment) (c : CommandLine) (root : Path) : Attempt Error Unit := do
  let m ← migrationOf env c root
  let d ← m.discover.adapt .walk
  print ("Found " ++ toString d.candidates.length ++ " files to migrate\n")
  d.candidates.forM fun p => print ("  " ++ ((p.relativeTo? root).getD p).text ++ "\n")
  d.errors.forM fun (p, e) =>
    print ("  ERR " ++ p.text ++ ": " ++ (Migration.FileFailure.undiscoverable p e).message ++ "\n")

/-- Migrates all files, and records the run if they are written; `recorded` is the command that the
record names. -/
def migrate (env : Environment) (c : CommandLine) (format : PreviewFormat) (recorded : String)
    (root : Path) (apply : Bool) : Attempt Error Unit := do
  let m ← migrationOf env c root
  let journal : Option Journal :=
    if apply then some ⟨env.store c.localState, env.newRunId, recorded, root, []⟩ else none
  let (report, journal) ← (m.run ⟨apply, format⟩ journal).adapt .walk
  let runId ← match journal with
    | some j => (j.finish env.newRunTime).adapt .run
    | none => pure none
  let report := { report with runId }
  if format ≠ .quiet && c.summary then print report.stats.summary
  print report.text

/-- Prints what the swap would make of a file. -/
def preview (c : CommandLine) (format : PreviewFormat) (file : Path) : Attempt Error Unit := do
  let s ← loadSpec c.config
  let before ← Attempt.orFail (Action.readText file) (.unreadable file)
  let swap ← MonadExcept.ofExcept ((s.check).mapError fun f => Error.setup (.spec f))
  let r ← MonadExcept.ofExcept ((swap.apply before).mapError (.misfit file))
  if !r.changed then
    print ("No changes: " ++ file.text ++ " does not import " ++ s.oldComponent ++ "\n")
  else
    let (shown, stats) := format.preview file before r.text
    match format with
    | .quiet => print (String.ofList r.text)
    | .summary => print shown
    | .diff =>
        print shown
        if c.summary then print stats.summary

/-- Runs the command of a command line; `recorded` is the command that a run's record names. -/
def perform (env : Environment) (recorded : String) (c : CommandLine) : Attempt Error Unit := do
  match PreviewFormat.ofName? c.format with
  | none => throw (.unknownFormat c.format)
  | some format =>
      let store := env.store c.localState
      match c.invocation with
      | .scan root => scan env c root
      | .migrate root apply => migrate env c format recorded root apply
      | .preview file => preview c format file
      | .history limit => (store.showHistory limit).adapt .run
      | .revert id force => (store.revert id force).adapt .run
      | .clean keepDays => do
          let cleaned ← (store.clean keepDays env.now).adapt .run
          print ("✓ Cleaned " ++ toString cleaned ++ " old run(s)\n")

/-! ## The program -/

/-- The name under which the program is called. -/
def programName : String := "appshell-migrate"

/-- The program's name and version. -/
def versionText : String := programName ++ " 0.1.0\n"

/-- How the program is used. -/
def usageText : String :=
  "Usage: " ++ programName ++ " [OPTIONS] <COMMAND>\n\n"
    ++ "Commands: scan <ROOT>, migrate <ROOT> [--apply], rewrite <FILE>, history [-n <LIMIT>], "
    ++ "revert <RUN_ID> [--force], clean [--keep-days <DAYS>]\n"
    ++ "Options: --local-state, --format <default|diff|summary>, --summary, --exclude <PATH>, "
    ++ "--config <FILE>, --verbose, --help, --version\n"

/-- Runs the program with the given words, and gives the code that it exits with. -/
def program (env : Environment) (words : List String) : Action Nat := do
  match CommandLine.ofWords words with
  | .error .help => do
      Action.print usageText
      return 0
  | .error .version => do
      Action.print versionText
      return 0
  | .error .wrong => do
      Action.warn usageText
      return 2
  | .ok c =>
      match ← (perform env (" ".intercalate (programName :: words)) c).run with
      | .ok () => return 0
      | .error e => do
          Action.warn (errorText e.messages)
          return e.exitCode

end Rewrap.Command
