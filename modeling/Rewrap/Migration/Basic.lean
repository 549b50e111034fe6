import Rewrap.Migration.Report
import Rewrap.Run.Journal
import Rewrap.Selection
import Rewrap.Swap

/-! # Migrations

A migration first reads all files below its root and selects those that hold the retiring import,
and then makes the swap in these one after the other. A file that fails is reported, and the
migration goes on. -/

namespace Rewrap

/-- A swap to be made below a root. -/
structure Migration where
  root : Path
  swap : Swap
  selector : Selector

namespace Migration

/-! ## Failures -/

/-- Why a migration cannot be set up. -/
inductive SetupFault where
  | exclusion (e : Exclusions.Error)
  | spec (f : Spec.Fault)
deriving DecidableEq

def SetupFault.message : SetupFault → String
  | .exclusion e => "invalid migration spec: " ++ e.message
  | .spec f => "invalid migration spec: " ++ f.message

/-- A root that cannot be walked. -/
structure WalkError where
  root : Path
  cause : FileError
deriving DecidableEq

/-- The part of the error that says what failed. -/
def WalkError.operation (e : WalkError) : String :=
  "IO error for operation on " ++ e.root.text ++ ": " ++ e.cause.message

def WalkError.message (e : WalkError) : String :=
  "could not walk " ++ e.root.text ++ ": " ++ e.operation

/-- Why a file is not migrated. -/
inductive FileFailure where
  | undiscoverable (p : Path) (e : FileError)
  | unreadable (p : Path) (e : FileError)
  | misfit (f : Swap.Fault)
  | notBackedUp (e : Run.Error)
  | unwritable (p : Path) (e : FileError)

def FileFailure.message : FileFailure → String
  | .undiscoverable p e => "could not read " ++ p.text ++ " during discovery: " ++ e.message
  | .unreadable p e => "could not read " ++ p.text ++ ": " ++ e.message
  | .misfit f => f.message ++ (if f.isStructural then " (needs manual migration)" else "")
  | .notBackedUp e => e.message
  | .unwritable p e => "could not write " ++ p.text ++ ": " ++ e.message

/-! ## Setting up -/

/-- The migration that a spec describes, with extra paths left alone; `cwd` is the working
directory. -/
def ofSpec (cwd : Path) (s : Spec) (root : Path) (extra : List String) :
    Except SetupFault Migration := do
  let exclusions ← (Exclusions.ofEntries cwd root (s.exclusionsWith extra)).mapError .exclusion
  let swap ← s.check.mapError .spec
  return ⟨root, swap, Selector.ofSpec s exclusions⟩

/-! ## Discovery -/

/-- The selected files in the order of their paths, and the files that could not be read. -/
structure Discovery where
  candidates : List Path
  errors : List (Path × FileError)
deriving DecidableEq

/-- Whether a file has one of the extensions. -/
def hasExtension (extensions : List String) (p : Path) : Bool :=
  match p.extension? with
  | some e => extensions.contains e
  | none => false

/-- The files below a root that have one of the extensions. -/
def listFiles (extensions : List String) (root : Path) : Attempt WalkError (List Path) := do
  let paths ← Attempt.orFail (Action.ask (.walk root)) (WalkError.mk root)
  return paths.filter (hasExtension extensions)

/-- Reads files one after the other. -/
def readAll : List Path → Action (List (Path × Except FileError Text))
  | [] => return []
  | p :: ps => do
      let t ← Action.ask (.readSource p)
      return (p, t) :: (← readAll ps)

/-- What the reading of all files that are not excluded shows. -/
def discoveryOf (m : Migration) (readings : List (Path × Except FileError Text)) : Discovery :=
  let texts := readings.filterMap fun (p, r) => r.toOption.map (p, ·)
  let errors := readings.filterMap fun (p, r) =>
    match r with
    | .error e => some (p, e)
    | .ok _ => none
  ⟨(m.selector.select texts).mergeSort Path.le, errors⟩

/-- Lists the files, reads those that are not excluded, and selects. -/
def discover (m : Migration) : Attempt WalkError Discovery := do
  let files ← listFiles m.swap.spec.extensions m.root
  let readings ← Attempt.always (readAll (files.filter fun p => !m.selector.isExcluded p))
  return m.discoveryOf readings

/-! ## Making the swap -/

/-- Whether files are written, and how changes are shown. -/
structure Options where
  apply : Bool := false
  format : PreviewFormat := .quiet

/-- A path as it is shown: below the root where possible. -/
def relative (m : Migration) (p : Path) : Path :=
  match p.relativeTo? m.root with
  | some q => if q.text.isEmpty then p else q
  | none => p

/-- The state of a migration between two files. -/
structure Progress where
  results : List (Path × Outcome)
  stats : DiffStats
  journal : Option Journal

/-- Writes the new text of a file. If there is a journal, the text from before is kept first, and
the file joins the journal's run afterwards. -/
def writeFile (journal : Option Journal) (p : Path) (before after : Text) :
    Attempt FileFailure (Option Journal) := do
  match journal with
  | none =>
      Attempt.orFail (Action.ask (.writeSource p after)) (.unwritable p)
      return none
  | some j =>
      let change ← (j.backup p before after).adapt .notBackedUp
      Attempt.orFail (Action.ask (.writeSource p after)) (.unwritable p)
      return some (j.commit change)

/-- The outcome of a file, and the journal after it. -/
def concluded (journal : Option Journal) (r : Except FileFailure (Option Journal)) :
    Outcome × Option Journal :=
  match r with
  | .ok journal => (.migrated, journal)
  | .error f => (.errored f.message, journal)

/-- Reads a file again, makes the swap, shows the change, and writes the file if that is asked
for. -/
def migrateFile (m : Migration) (o : Options) (journal : Option Journal) (p : Path) :
    Action (Outcome × DiffStats × Option Journal) := do
  match ← Action.ask (.readSource p) with
  | .error e => return (.errored (FileFailure.unreadable p e).message, {}, journal)
  | .ok before =>
      match m.swap.apply before with
      | .error f => return (.errored (FileFailure.misfit f).message, {}, journal)
      | .ok r =>
          if !r.changed then return (.skipped, {}, journal)
          else
            let (shown, stats) := o.format.preview (m.relative p) before r.text
            Action.print shown
            if o.apply then
              let (outcome, journal) :=
                concluded journal (← (writeFile journal p before r.text).run)
              return (outcome, stats, journal)
            else return (.migrated, stats, journal)

/-- Migrates files one after the other. -/
def migrateAll (m : Migration) (o : Options) : Progress → List Path → Action Progress
  | done, [] => return done
  | done, p :: ps => do
      let (outcome, stats, journal) ← m.migrateFile o done.journal p
      migrateAll m o
        ⟨done.results ++ [(m.relative p, outcome)], done.stats.add stats, journal⟩ ps

/-- Discovers and then migrates. The report lists the files that could not be read and then the
candidates; the journal is given back with what was written. -/
def run (m : Migration) (o : Options) (journal : Option Journal) :
    Attempt WalkError (Report × Option Journal) := do
  let d ← m.discover
  let unread := d.errors.map fun (p, e) =>
    (m.relative p, Outcome.errored (FileFailure.undiscoverable p e).message)
  let done ← Attempt.always (m.migrateAll o ⟨unread, {}, journal⟩ d.candidates)
  return (⟨!o.apply, d.candidates.length, done.results, done.stats, none⟩, done.journal)

end Migration

end Rewrap
