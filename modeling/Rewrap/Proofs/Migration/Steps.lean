import Rewrap.Migration.Basic
import Rewrap.Proofs.Action.Overwriting

/-! # What a migration does with a file

A file is read, and then nothing more is asked for, or the change of its text is shown and, if files
are written, made. What is asked for does not depend on what was done with other files. A migration
does this with one candidate after the other, once they are discovered. -/

namespace Rewrap

namespace Migration

variable {m : Migration}

/-- Shows the change of a text, and makes it if that is asked for. -/
def makeChange (m : Migration) (o : Options) (journal : Option Journal) (p : Path)
    (before after : Text) :
    Action (Outcome × DiffStats × Option Journal) := do
  let (shown, stats) := o.format.preview (m.relative p) before after
  Action.print shown
  if o.apply then
    let (outcome, journal) := concluded journal (← (writeFile journal p before after).run)
    return (outcome, stats, journal)
  else return (.migrated, stats, journal)

/-- What is done with a file once it was read. -/
def useReading (m : Migration) (o : Options) (journal : Option Journal) (p : Path) :
    Except FileError Text → Action (Outcome × DiffStats × Option Journal)
  | .error e => return (.errored (FileFailure.unreadable p e).message, {}, journal)
  | .ok before =>
      match m.swap.apply before with
      | .error f => return (.errored (FileFailure.misfit f).message, {}, journal)
      | .ok r =>
          if !r.changed then return (.skipped, {}, journal)
            else m.makeChange o journal p before r.text

theorem migrateFile_eq (m : Migration) (o : Options) (journal : Option Journal) (p : Path) :
    m.migrateFile o journal p = Action.ask (.readSource p) >>= m.useReading o journal p := by
  unfold migrateFile
  congr 1
  funext x
  cases x with
  | error e => rfl
  | ok before => rfl

theorem run_migrateFile (m : Migration) (o : Options) (journal : Option Journal) (p : Path)
    (w : World) :
    (m.migrateFile o journal p).run w =
      (m.useReading o journal p (w.source p)).run (w.reply (.readSource p)).2 := by
  rw [migrateFile_eq, Action.run_bind]
  rfl

/-- A text in which the swap is made is changed. -/
theorem useReading_of_apply {before : Text} {r : Swapped} (happly : m.swap.apply before = .ok r)
    (hchanged : r.changed = true) (o : Options) (journal : Option Journal) (p : Path) :
    m.useReading o journal p (.ok before) = m.makeChange o journal p before r.text := by
  simp only [useReading, happly, hchanged, Bool.not_true, Bool.false_eq_true, if_false]

/-- Either nothing is done with a file that was read, and it is not reported as migrated, or the
swap changes its text. -/
theorem useReading_cases (m : Migration) (p : Path) (x : Except FileError Text) :
    (∃ outcome, outcome ≠ .migrated ∧
        ∀ o journal, m.useReading o journal p x = return (outcome, {}, journal)) ∨
      ∃ before r, x = .ok before ∧ m.swap.apply before = .ok r ∧ r.changed = true ∧
        ∀ o journal, m.useReading o journal p x = m.makeChange o journal p before r.text := by
  cases x with
  | error e => exact .inl ⟨.errored (FileFailure.unreadable p e).message, nofun, fun _ _ => rfl⟩
  | ok before =>
      cases happly : m.swap.apply before with
      | error f =>
          refine .inl ⟨.errored (FileFailure.misfit f).message, nofun, fun _ _ => ?_⟩
          simp only [useReading, happly]
      | ok r =>
          cases hchanged : r.changed with
          | false =>
              refine .inl ⟨.skipped, nofun, fun _ _ => ?_⟩
              simp only [useReading, happly, hchanged, Bool.not_false, if_true]
          | true =>
              exact .inr ⟨before, r, rfl, happly, hchanged,
                fun _ _ => useReading_of_apply happly hchanged _ _ _⟩

/-! ## A whole migration -/

/-- What is reported of the files that could not be read while files were discovered. -/
def unread (m : Migration) (d : Discovery) : List (Path × Outcome) :=
  d.errors.map fun e => (m.relative e.1, .errored (FileFailure.undiscoverable e.1 e.2).message)

theorem unread_paths (m : Migration) (d : Discovery) :
    (m.unread d).map Prod.fst = (d.errors.map Prod.fst).map m.relative := by
  unfold unread
  rw [List.map_map, List.map_map]
  rfl

/-- A migration that has discovered reports the files that failed, and goes through its
candidates. -/
theorem run_discovered {d : Discovery} {w start : World} (h : m.discover.run.run w = (.ok d, start))
    (o : Options) (journal : Option Journal) :
    (m.run o journal).run.requests w = m.discover.run.requests w ++
        (m.migrateAll o ⟨m.unread d, {}, journal⟩ d.candidates).requests start ∧
      (m.run o journal).run.run w =
        (.ok (⟨!o.apply, d.candidates.length,
            ((m.migrateAll o ⟨m.unread d, {}, journal⟩ d.candidates).run start).1.results,
            ((m.migrateAll o ⟨m.unread d, {}, journal⟩ d.candidates).run start).1.stats,
              none⟩,
          ((m.migrateAll o ⟨m.unread d, {}, journal⟩ d.candidates).run start).1.journal),
          ((m.migrateAll o ⟨m.unread d, {}, journal⟩ d.candidates).run start).2) := by
  unfold run
  rw [Attempt.requests_bind h, Attempt.bind_of_ok h, Attempt.requests_bind (Attempt.run_always _ _),
    Attempt.bind_of_ok (Attempt.run_always _ _), Attempt.requests_pure, List.append_nil,
      Attempt.requests_always]
  exact ⟨rfl, rfl⟩

/-- What is reported before the candidates are gone through has the paths of the files that failed,
and is not that they are migrated. -/
theorem run_of_discover {d : Discovery} {w start : World}
    (h : m.discover.run.run w = (.ok d, start)) (o : Options) (journal : Option Journal) :
    ∃ unread : List (Path × Outcome), unread.map Prod.fst =
        (d.errors.map Prod.fst).map m.relative ∧
      (∀ e ∈ unread, e.2 ≠ .migrated) ∧
      (m.run o journal).run.requests w = m.discover.run.requests w ++
        (m.migrateAll o ⟨unread, {}, journal⟩ d.candidates).requests start ∧
      (m.run o journal).run.run w =
        (.ok (⟨!o.apply, d.candidates.length,
            ((m.migrateAll o ⟨unread, {}, journal⟩ d.candidates).run start).1.results,
            ((m.migrateAll o ⟨unread, {}, journal⟩ d.candidates).run start).1.stats, none⟩,
          ((m.migrateAll o ⟨unread, {}, journal⟩ d.candidates).run start).1.journal),
          ((m.migrateAll o ⟨unread, {}, journal⟩ d.candidates).run start).2) := by
  refine ⟨m.unread d, m.unread_paths d, fun e he => ?_, run_discovered h o journal⟩
  obtain ⟨x, -, rfl⟩ := List.mem_map.mp he
  simp

end Migration

end Rewrap
