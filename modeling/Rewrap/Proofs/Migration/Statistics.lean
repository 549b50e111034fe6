import Rewrap.Proofs.LineDiff.Script
import Rewrap.Proofs.Migration.Undoing
import Rewrap.Proofs.Migration.Accounting

/-! # What the statistics count

A change is counted when it is shown, which is before the file is backed up and written. So the
statistics count the candidates whose text the swap changes: those that are migrated, and those
whose backup or write fails. -/

namespace Rewrap

theorem PreviewFormat.filesChanged_preview {format : PreviewFormat} (hformat : format ≠ .quiet)
    (shown : Path) {before after : Text} (hne : before ≠ after) :
    (format.preview shown before after).2.filesChanged = 1 := by
  cases format with
  | quiet => exact absurd rfl hformat
  | diff => exact LineDiff.filesChanged_ofTexts hne
  | summary => exact LineDiff.filesChanged_ofTexts hne

namespace Migration

variable {m : Migration} {o : Options} {journal : Option Journal} {p : Path} {w w' : World}

/-! ## Failures of a write -/

/-- A file could not be backed up or written. -/
def FileFailure.isOfWriting : FileFailure → Bool
  | .notBackedUp _ | .unwritable .. => true
  | _ => false

theorem isOfWriting_of_writeFile {x y : Text} {f : FileFailure}
    (h : (writeFile journal p x y).run.run w = (.error f, w')) : f.isOfWriting = true := by
  have hwrite : ∀ {w w'},
      (Attempt.orFail (Action.ask (.writeSource p y)) (FileFailure.unwritable p)).run.run w =
      (.error f, w') → f.isOfWriting = true := by
    intro w w' h
    rw [Attempt.run_orFail] at h
    obtain ⟨e, -, rfl⟩ := Except.mapError_eq_error.mp (Prod.mk.inj h).1
    rfl
  unfold writeFile at h
  cases journal with
  | none =>
      rcases Attempt.bind_eq_error h with h | ⟨_, _, -, h⟩
      · exact hwrite h
      · cases h
  | some j =>
      rcases Attempt.bind_eq_error h with h | ⟨change, w₁, -, h⟩
      · rw [Attempt.run_adapt] at h
        obtain ⟨e, -, rfl⟩ := Except.mapError_eq_error.mp (Prod.mk.inj h).1
        rfl
      · rcases Attempt.bind_eq_error h with h | ⟨_, _, -, h⟩
        · exact hwrite h
        · cases h

/-! ## What becomes of a reading -/

/-- The swap changes the text that was read. -/
def isChanged (m : Migration) (x : Except FileError Text) : Bool :=
  match x.toOption.bind fun t => (m.swap.apply t).toOption with
  | some r => r.changed
  | none => false

/-- What becomes of a candidate from which a text, or nothing, was read: it is left as it is, it is
migrated, or it could not be written. -/
inductive ComesTo (m : Migration) (apply : Bool) (x : Except FileError Text) :
    Outcome → Prop where
  | left {outcome : Outcome} (hchanged : m.isChanged x = false) (hne : outcome ≠ .migrated) :
      ComesTo m apply x outcome
  | migrated (hchanged : m.isChanged x = true) : ComesTo m apply x .migrated
  | unwritten {f : FileFailure} (hchanged : m.isChanged x = true) (happly : apply = true)
      (hf : f.isOfWriting = true) : ComesTo m apply x (.errored f.message)

theorem makeChange_comesTo {x : Except FileError Text} (hchanged : m.isChanged x = true)
    (o : Options) (journal : Option Journal) (p : Path) (before after : Text) (w : World) :
    m.ComesTo o.apply x ((m.makeChange o journal p before after).run w).1.1 ∧
      ((m.makeChange o journal p before after).run w).1.2.1 =
        (o.format.preview (m.relative p) before after).2 := by
  unfold makeChange
  rw [Action.run_bind]
  split
  · next happly =>
      rw [Action.run_bind]
      generalize hwrite : (writeFile journal p before after).run.run _ = result
      obtain ⟨r, w'⟩ := result
      cases r with
      | ok journal' => exact ⟨.migrated hchanged, rfl⟩
      | error f => exact ⟨.unwritten hchanged happly (isOfWriting_of_writeFile hwrite), rfl⟩
  · exact ⟨.migrated hchanged, rfl⟩

/-- What the swap changes is a text for which it gives another one. -/
theorem isChanged_iff {x : Except FileError Text} :
    m.isChanged x = true ↔ ∃ before r, x = .ok before ∧ m.swap.apply before = .ok r ∧
      r.changed = true := by
  cases x with
  | error e => simp [isChanged, Except.toOption]
  | ok before =>
      cases happly : m.swap.apply before with
      | error f => simp [isChanged, Except.toOption, happly]
      | ok r => simp [isChanged, Except.toOption, happly]

/-- What a file comes to goes by what was read from it, and it counts if the swap changes that. -/
theorem migrateFile_comesTo (m : Migration) (o : Options) (journal : Option Journal) (p : Path)
    (w : World) :
    m.ComesTo o.apply (w.source p) ((m.migrateFile o journal p).run w).1.1 ∧
      (o.format ≠ .quiet → ((m.migrateFile o journal p).run w).1.2.1.filesChanged =
        if m.isChanged (w.source p) then 1 else 0) := by
  rw [run_migrateFile]
  by_cases hchanged : m.isChanged (w.source p) = true
  · obtain ⟨before, r, hx, happly, hr⟩ := isChanged_iff.mp hchanged
    rw [if_pos hchanged]
    obtain ⟨hcomes, hstats⟩ :=
      makeChange_comesTo hchanged o journal p before r.text (w.reply (.readSource p)).2
    rw [hx] at hcomes ⊢
    rw [useReading_of_apply happly hr, hstats]
    have hne : before ≠ r.text := (Swap.text_ne_of_changed happly hr).symm
    exact ⟨hcomes, fun hformat => PreviewFormat.filesChanged_preview hformat _ hne⟩
  · rw [if_neg hchanged]
    rcases m.useReading_cases p (w.source p) with ⟨outcome, hne, huse⟩ |
      ⟨before, r, hx, happly, hr, -⟩
    · rw [huse]
      exact ⟨.left (by simpa using hchanged) hne, fun _ => rfl⟩
    · exact absurd (isChanged_iff.mpr ⟨before, r, hx, happly, hr⟩) hchanged

/-! ## Counting -/

/-- The candidates whose text is changed and that are not migrated. -/
def unwritten (m : Migration) (readings : List (Path × Except FileError Text))
    (results : List (Path × Outcome)) : Nat :=
  (readings.zip results).countP fun x => m.isChanged x.1.2 && x.2.2 ≠ .migrated

variable {readings : List (Path × Except FileError Text)} {results : List (Path × Outcome)}
  {apply : Bool}

/-- Each text that is changed belongs to a candidate that is migrated, or to one that could not be
written. -/
theorem countP_isChanged
    (h : List.Forall₂ (fun r e => m.ComesTo apply r.2 e.2) readings results) :
    readings.countP (m.isChanged ·.2) =
      results.countP (·.2 = .migrated) + m.unwritten readings results := by
  unfold unwritten
  induction h with
  | nil => rfl
  | @cons r e readings results hcomes _ ih =>
      obtain ⟨q, outcome⟩ := e
      dsimp only at hcomes
      rw [List.countP_cons, List.countP_cons, List.zip_cons_cons, List.countP_cons, ih]
      cases hcomes with
      | left hchanged hne => simp [hchanged, hne]
      | migrated hchanged => simp [hchanged]; omega
      | unwritten hchanged => simp [hchanged]; omega

/-- Where files are not written, or no write fails, each candidate whose text is changed is
migrated. -/
theorem unwritten_eq_zero (h : List.Forall₂ (fun r e => m.ComesTo apply r.2 e.2) readings results)
    (hno : apply = false ∨ ∀ e ∈ results, ∀ f : FileFailure, f.isOfWriting = true →
      e.2 ≠ .errored f.message) :
    m.unwritten readings results = 0 := by
  unfold unwritten
  induction h with
  | nil => rfl
  | @cons r e readings results hcomes _ ih =>
      obtain ⟨q, outcome⟩ := e
      dsimp only at hcomes
      rw [List.zip_cons_cons, List.countP_cons,
        ih (hno.imp_right fun h e he => h e (List.mem_cons_of_mem _ he))]
      cases hcomes with
      | left hchanged hne => simp [hchanged]
      | migrated hchanged => simp
      | @unwritten f hchanged happly hf =>
          rcases hno with hno | hno
          · rw [hno] at happly
            cases happly
          · exact absurd rfl (hno _ List.mem_cons_self f hf)

/-- What each candidate comes to goes by what was read from it, and the changes that were shown are
counted. -/
theorem migrateAll_comesTo (m : Migration) (o : Options) (progress : Progress) (ps : List Path)
    (w : World) :
    ∃ results, ((m.migrateAll o progress ps).run w).1.results = progress.results ++ results ∧
      List.Forall₂ (fun r e => m.ComesTo o.apply r.2 e.2)
        ((m.migrateAll o progress ps).readings w) results ∧
      (o.format ≠ .quiet → ((m.migrateAll o progress ps).run w).1.stats.filesChanged =
        progress.stats.filesChanged + ((m.migrateAll o progress ps).readings w).countP
          (m.isChanged ·.2)) := by
  induction ps generalizing progress w with
  | nil => exact ⟨[], (List.append_nil _).symm, .nil, fun _ => rfl⟩
  | cons p ps ih =>
      obtain ⟨hcomes, hcounts⟩ := m.migrateFile_comesTo o progress.journal p w
      unfold migrateAll
      rw [Action.run_bind, Action.readings_bind, readings_migrateFile]
      generalize (m.migrateFile o progress.journal p).run w = result at hcomes hcounts
      obtain ⟨⟨outcome, stats, journal⟩, w₁⟩ := result
      obtain ⟨results, hresults, hrest, hcounted⟩ :=
        ih ⟨progress.results ++ [(m.relative p, outcome)],
          progress.stats.add stats, journal⟩ w₁
      refine ⟨(m.relative p, outcome) :: results,
        by simpa using hresults, .cons hcomes hrest, fun hformat => ?_⟩
      dsimp only at hcounts hcounted ⊢
      rw [hcounted hformat, List.singleton_append, List.countP_cons, DiffStats.add, hcounts hformat]
      dsimp only
      omega

theorem migrated_of_results {report : Report} {d : Discovery}
    (h : report.results = m.unread d ++ results) :
    report.migrated = results.countP (·.2 = .migrated) := by
  have hunread : (m.unread d).countP (·.2 = .migrated) = 0 := by
    rw [List.countP_eq_zero]
    intro e he
    obtain ⟨x, -, rfl⟩ := List.mem_map.mp he
    simp
  rw [Report.migrated, h, List.countP_append, hunread, Nat.zero_add]

/-- The statistics count the candidates whose text the swap changes. These are the candidates that
are migrated and those that could not be written, so they are just the migrated ones where files are
not written or no write fails. -/
theorem filesChanged_of_run (hformat : o.format ≠ .quiet) {report : Report}
    {journal' : Option Journal}
    (hrun : (m.run o journal).run.run w = (.ok (report, journal'), w')) :
    ∃ d start rest results, m.discover.run.run w = (.ok d, start) ∧
      (m.run o journal).run.requests w = m.discover.run.requests w ++ rest ∧
      (start.readings rest).map Prod.fst = d.candidates ∧
      report.results = m.unread d ++ results ∧
      List.Forall₂ (fun r e => m.ComesTo o.apply r.2 e.2) (start.readings rest) results ∧
      report.stats.filesChanged = (start.readings rest).countP (m.isChanged ·.2) ∧
      report.stats.filesChanged = report.migrated + m.unwritten (start.readings rest) results ∧
      ((o.apply = false ∨ ∀ e ∈ results, ∀ f : FileFailure, f.isOfWriting = true →
        e.2 ≠ .errored f.message) → report.stats.filesChanged = report.migrated) := by
  obtain ⟨d, start, hdiscover, -⟩ := Attempt.bind_eq_ok hrun
  obtain ⟨hrequests, hmigrated⟩ := run_discovered hdiscover o journal
  obtain ⟨results, hresults, hrest, hcounted⟩ :=
    m.migrateAll_comesTo o ⟨m.unread d, {}, journal⟩ d.candidates start
  have hread := m.readings_migrateAll o ⟨m.unread d, {}, journal⟩ d.candidates start
  rw [Action.readings_eq] at hrest hcounted hread
  rw [hmigrated] at hrun
  obtain ⟨hreport, -⟩ := Prod.mk.inj (Except.ok.inj (Prod.mk.inj hrun).1)
  have hall : report.results = m.unread d ++ results := by rw [← hreport, ← hresults]
  have hcount := (hcounted hformat).trans (Nat.zero_add _)
  have hsum := hcount.trans (countP_isChanged hrest)
  rw [← migrated_of_results hall] at hsum
  rw [← hreport] at hsum ⊢
  refine ⟨d, start, _, results, hdiscover, hrequests, hread, hresults, hrest, hcount, hsum,
    fun hno => ?_⟩
  rwa [unwritten_eq_zero hrest hno, Nat.add_zero] at hsum

/-! ## A page that cannot be written -/

theorem writeFile_of_locked (x y : Text) (hlocked : w.faults.unwritable.contains p = true) :
    (writeFile none p x y).run.run w = (.error (.unwritable p Faults.error), w) := by
  unfold writeFile
  rw [Attempt.run_bind, Attempt.run_writeSource, if_pos hlocked]

theorem makeChange_of_locked (m : Migration) (apply : Bool) (format : PreviewFormat) (x y : Text)
    (hlocked : w.faults.unwritable.contains p = true) :
    ((m.makeChange ⟨apply, format⟩ none p x y).run w).1 =
      (if apply then .errored (FileFailure.unwritable p Faults.error).message else .migrated,
        (format.preview (m.relative p) x y).2, none) := by
  cases apply with
  | false => rfl
  | true =>
      have hwrite := writeFile_of_locked x y
        (w := (w.reply (.print (format.preview (m.relative p) x y).1)).2) hlocked
      unfold makeChange
      simp only [if_true, Action.run_bind]
      exact congrArg (fun r => ((concluded none r.1).1, _, (concluded none r.1).2)) hwrite

theorem run_of_locked {start : World} {x : Text} {r : Swapped}
    (hdiscover : m.discover.run.run w = (.ok ⟨[p], []⟩, start))
    (hsource : start.source p = .ok x) (happly : m.swap.apply x = .ok r)
    (hchanged : r.changed = true) (hlocked : start.faults.unwritable.contains p = true)
    (apply : Bool) (format : PreviewFormat) :
    ∃ w', (m.run ⟨apply, format⟩ none).run.run w =
      (.ok (⟨!apply, 1, [(m.relative p,
          if apply then .errored (FileFailure.unwritable p Faults.error).message else .migrated)],
        .add {} (format.preview (m.relative p) x r.text).2, none⟩, none), w') := by
  have hfile := m.run_migrateFile ⟨apply, format⟩ none p start
  rw [hsource, useReading_of_apply happly hchanged] at hfile
  have hmade := congrArg Prod.fst hfile
  rw [m.makeChange_of_locked (w := (start.reply (.readSource p)).2) apply format x r.text hlocked]
    at hmade
  obtain ⟨-, hrun⟩ := run_discovered hdiscover ⟨apply, format⟩ none
  refine ⟨_, hrun.trans (Prod.ext ?_ rfl)⟩
  unfold migrateAll
  simp only [Action.run_bind, hmade]
  rfl

/-- A page with a guard that cannot be written. -/
def lockedPage : World where
  tree := guardedPage
  faults := { unwritable := [⟨"/src/a.ts"⟩] }

theorem run_lockedPage (apply : Bool) :
    ∃ report w', (guardedRun.migration.run ⟨apply, .diff⟩ none).run.run lockedPage =
        (.ok (report, none), w') ∧
      report.stats.filesChanged = 1 ∧ report.migrated = if apply then 0 else 1 := by
  have hdiscover : guardedRun.migration.discover.run.run lockedPage =
      (.ok ⟨[⟨"/src/a.ts"⟩], []⟩, _) :=
    Except.pair_of_fst (by decide +kernel)
  obtain ⟨w', hrun⟩ :=
    run_of_locked hdiscover (by decide +kernel) guardedRun_apply rfl (by decide +kernel) apply .diff
  refine ⟨_, w', hrun, ?_, ?_⟩
  · have hne := (Swap.text_ne_of_changed guardedRun_apply rfl).symm
    exact (Nat.zero_add _).trans (PreviewFormat.filesChanged_preview (by decide) _ hne)
  · cases apply <;> rfl

/-- The page is counted as one that could not be written, or as one that would be migrated. -/
theorem filesChanged_of_run_lockedPage :
    (∃ report w' start rest results,
      (guardedRun.migration.run ⟨true, .diff⟩ none).run.run lockedPage =
          (.ok (report, none), w') ∧
        (start : World).readings rest ≠ [] ∧
        report.stats.filesChanged =
          report.migrated + guardedRun.migration.unwritten (start.readings rest) results ∧
        guardedRun.migration.unwritten (start.readings rest) results = 1) ∧
      ∃ report w', (guardedRun.migration.run ⟨false, .diff⟩ none).run.run lockedPage =
          (.ok (report, none), w') ∧
        report.stats.filesChanged = report.migrated ∧ report.migrated = 1 := by
  have hformat : PreviewFormat.diff ≠ .quiet := by decide
  constructor
  · obtain ⟨report, w', hrun, hcount, hmigrated⟩ := run_lockedPage true
    obtain ⟨d, start, rest, results, -, -, -, -, -, hchanged, hsum, -⟩ :=
      filesChanged_of_run hformat hrun
    have hone : guardedRun.migration.unwritten (start.readings rest) results = 1 := by
      simp only [if_true] at hmigrated
      omega
    refine ⟨report, w', start, rest, results, hrun, fun hnil => ?_, hsum, hone⟩
    rw [hnil, List.countP_nil] at hchanged
    omega
  · obtain ⟨report, w', hrun, -, hmigrated⟩ := run_lockedPage false
    obtain ⟨d, start, rest, results, -, -, -, -, -, -, -, hdry⟩ :=
      filesChanged_of_run hformat hrun
    exact ⟨report, w', hrun, hdry (.inl rfl), hmigrated⟩

/-- The page is counted where it is to be written, and is not migrated. -/
theorem filesChanged_ne_migrated : ∃ report w',
    (guardedRun.migration.run ⟨true, .diff⟩ none).run.run lockedPage =
        (.ok (report, none), w') ∧
      report.stats.filesChanged = 1 ∧ report.migrated = 0 :=
  run_lockedPage true

end Migration

end Rewrap
