import Rewrap.LineDiff.Preview
import Rewrap.Path.Basic

/-! # Reports

A report says what became of each file of a migration. -/

namespace Rewrap

/-- How changes are shown while a migration goes on. -/
inductive PreviewFormat where
  | quiet
  | diff
  | summary
deriving DecidableEq

namespace PreviewFormat

/-- The format of the given name. -/
def ofName? (name : String) : Option PreviewFormat :=
  if name = "default" then some .quiet
  else if name = "diff" then some .diff
  else if name = "summary" then some .summary
  else none

/-- What is said about a name that no format has. -/
def unknownName (name : String) : String :=
  "Invalid format: " ++ name ++ ". Use 'default', 'diff', or 'summary'"

/-- What is shown of a changed text, and the number of its changes, which are counted only if they
are shown. -/
def preview (format : PreviewFormat) (shown : Path) (before after : Text) : String × DiffStats :=
  match format with
  | .quiet => ("", {})
  | .diff =>
      let blocks := LineDiff.ofTexts before after
      let stats := LineDiff.stats blocks
      (if stats.filesChanged = 0 then "" else LineDiff.unified shown.text blocks 3, stats)
  | .summary =>
      let blocks := LineDiff.ofTexts before after
      let stats := LineDiff.stats blocks
      (if stats.filesChanged = 0 then "" else LineDiff.summary shown.text blocks, stats)

end PreviewFormat

/-- What became of a file. A file is skipped if the swap leaves it as it is. -/
inductive Outcome where
  | migrated
  | skipped
  | errored (message : String)
deriving DecidableEq

/-- What became of all files. -/
structure Report where
  dryRun : Bool := false
  candidates : Nat := 0
  results : List (Path × Outcome) := []
  stats : DiffStats := {}
  runId : Option String := none
deriving DecidableEq

namespace Report

def migrated (r : Report) : Nat := r.results.countP (·.2 = .migrated)

def skipped (r : Report) : Nat := r.results.countP (·.2 = .skipped)

/-- The files that failed, and why. -/
def errors (r : Report) : List (Path × String) :=
  r.results.filterMap fun (p, outcome) =>
    match outcome with
    | .errored message => some (p, message)
    | _ => none

/-- The line for one file. -/
def resultLine : Path × Outcome → String
  | (p, .migrated) => "  OK  " ++ p.text ++ "\n"
  | (p, .skipped) => "  SKIP " ++ p.text ++ " (no changes)\n"
  | (p, .errored message) => "  ERR " ++ p.text ++ ": " ++ message ++ "\n"

/-- The report as it is printed. -/
def text (r : Report) : String :=
  "Found " ++ toString r.candidates ++ " files to migrate\n"
    ++ String.join (r.results.map resultLine)
    ++ "\nDone: " ++ toString r.migrated ++ " files "
    ++ (if r.dryRun then "would be migrated" else "migrated") ++ ", "
    ++ toString r.errors.length ++ " errors\n"
    ++ String.join (r.errors.map fun (p, message) => "  " ++ p.text ++ ": " ++ message ++ "\n")
    ++ (if r.dryRun && 0 < r.migrated then
          "\n🔍 Dry run complete. Use --apply to make changes.\n"
        else "")
    ++ (match r.runId with
        | some id =>
            "\n📝 Run ID: " ++ id ++ " (use 'appshell-migrate revert " ++ id ++ "' to undo)\n"
        | none => "")

end Report

end Rewrap
