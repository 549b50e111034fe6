import Rewrap.Proofs.Migration.Requests
import Rewrap.Proofs.Migration.Securing
import Rewrap.Proofs.Migration.Skipping

/-! # What a dry run shows

A dry run and a run that writes go through the same files. The second changes only files that it
will not read again, so both read, show and report the same as long as nothing that is asked for
fails. -/

namespace Rewrap

open FileTree (Frame Nowhere Anywhere)

/-! ## Writing files -/

namespace Migration

variable {m : Migration} {journal : Option Journal} {run : Option (RunStore × String)}
  {t : FileTree} {w : World} {p : Path} {k : Place} {x y : Text}

/-- Each request to change something is fulfilled. -/
abbrev Fulfilled {α : Type} (x : Action α) (w : World) : Prop :=
  x.Each (fun w r => w.fulfils r = true) w

theorem writeText_of_fulfilled {ε : Type} {failure : FileError → ε}
    (h : Fulfilled (Attempt.orFail (Action.writeText p x) failure).run w) :
    (Attempt.orFail (Action.writeText p x) failure).run.run w =
      (.ok (), { w with tree := (w.tree.write p x.toBytes).2 }) :=
  Attempt.orFail_of_fulfils _ _ ((Action.each_ask _ _).mp ((Attempt.each_orFail _ _).mp h))

theorem saveBackup_of_fulfilled {s : RunStore} {id : String}
    (h : Fulfilled (s.saveBackup id p x).run w) :
    ∃ w₁, (s.saveBackup id p x).run.run w = (.ok (RunStore.backupName p), w₁) := by
  unfold RunStore.saveBackup at h ⊢
  have hfolders := (Attempt.each_orFail _ _).mp (Attempt.each_of_bind h)
  have hcreated := Attempt.orFail_of_fulfils (Action.ask (.createFolders (s.backupFolder id)))
    Run.Error.file
    hfolders.1
  have hwritten := writeText_of_fulfilled
    (Attempt.each_of_bind ((Attempt.each_bind hcreated).mp h).2)
  exact ⟨_, (Attempt.bind_of_ok hcreated).trans
    ((Attempt.bind_of_ok hwritten).trans (Attempt.run_pure _ _))⟩

theorem writeFile_of_fulfilled (h : Fulfilled (writeFile journal p x y).run w) :
    ∃ journal' w₁, (writeFile journal p x y).run.run w = (.ok journal', w₁) ∧
      journal'.map Journal.key = journal.map Journal.key := by
  cases journal with
  | none =>
      have hwrite := (Attempt.each_orFail _ _).mp (Attempt.each_of_bind h)
      exact ⟨none, _, Attempt.bind_of_ok (Attempt.orFail_of_fulfils _ _ hwrite.1), rfl⟩
  | some j =>
      have hbackup := (Attempt.each_adapt _ _).mp (Attempt.each_of_bind h)
      obtain ⟨w₁, hsave⟩ := saveBackup_of_fulfilled (Attempt.each_of_bind hbackup)
      have hkept : ((j.backup p x y).adapt FileFailure.notBackedUp).run.run w =
          (.ok ⟨p, x.hash, y.hash, RunStore.backupName p⟩, w₁) := by
        rw [Attempt.run_adapt, Journal.backup, Attempt.bind_of_ok hsave]
        rfl
      have hwrite := (Attempt.each_orFail _ _).mp
        (Attempt.each_of_bind ((Attempt.each_bind hkept).mp h).2)
      exact ⟨_, _, (Attempt.bind_of_ok hkept).trans
        (Attempt.bind_of_ok (Attempt.orFail_of_fulfils _ _ hwrite.1)), rfl⟩

/-! ## Two worlds -/

/-- A backup of the run, if there is one. -/
def IsKeptBy (run : Option (RunStore × String)) (t : FileTree) (k : Place) : Prop :=
  ∃ s id, run = some (s, id) ∧ s.Below t (RunStore.IsBackup id) k

/-- The backups of the run, if there is one, are kept clear of the files that the migration
reads. -/
def IsClearOf (m : Migration) (run : Option (RunStore × String)) (t : FileTree) : Prop :=
  ∀ s id, run = some (s, id) → Run.IsId id ∧ s.KeepsClear id m t

/-- The world of a dry run and that of a run that writes, once both have gone through some of the
candidates: what was read and shown is the same, and only backups and these candidates have changed.
A candidate that is not made to look different can be read where the runs begin. -/
structure Mirrors (run : Option (RunStore × String)) (t : FileTree) (candidates done : List Path)
    (dry applied : World) : Prop where
  faults : applied.faults = dry.faults
  sourcesRead : applied.sourcesRead = dry.sourcesRead
  out : applied.out = dry.out
  unchanged : dry.tree = t
  wellFormed : applied.tree.WellFormed
  frame : Frame (fun k => IsKeptBy run t k ∨ ∃ p ∈ done, t.leadOf p = some k) Anywhere
    t applied.tree
  read : ∀ p ∈ candidates, p ∈ dry.sourcesRead ∧
    (dry.faults.altered.lookup p = none → ∃ b, t.read p = .ok b)

section

variable {candidates done : List Path} {v u : World}

theorem IsClearOf.not_isKeptBy (h : m.IsClearOf run t) (hp : m.Reads t p k) :
    ¬IsKeptBy run t k := by
  rintro ⟨s, id, hrun, hbelow⟩
  exact (h s id hrun).2.apart p k hp hbelow

theorem Mirrors.source_eq (h : Mirrors run t candidates done v u) (hclear : m.IsClearOf run t)
    (ht : t.WellFormed) (hp : m.Reads t p k) (hdone : ∀ q ∈ done, ∃ k, m.Reads t q k)
    (hnew : p ∉ done) (hmem : p ∈ candidates) : u.source p = v.source p := by
  obtain ⟨hread, hfile⟩ := h.read p hmem
  have hcontains : v.sourcesRead.contains p = true := by simpa using hread
  unfold World.source
  rw [h.faults, h.sourcesRead, hcontains]
  split
  · rfl
  · cases haltered : v.faults.altered.lookup p with
    | some x => cases x <;> rfl
    | none =>
        obtain ⟨b, hb⟩ := hfile haltered
        obtain ⟨k', hk', hget⟩ := FileTree.read_eq_ok hb
        have hlead := FileTree.leadOf_of_resolve hk'
        rw [hp.1.leadOf ht] at hlead
        cases hlead
        have hother : ¬(IsKeptBy run t k ∨ ∃ q ∈ done, t.leadOf q = some k) := by
          rintro (hkept | ⟨q, hq, hlead⟩)
          · exact hclear.not_isKeptBy hp hkept
          · obtain ⟨k', hq'⟩ := hdone q hq
            rw [hq'.1.leadOf ht] at hlead
            cases hlead
            exact hnew (hp.1.inj hq'.1 ▸ hq)
        have hafter : u.tree.read p = .ok b :=
          FileTree.read_of_resolve (h.frame.resolve hk') ((h.frame.file _ hother b).mpr hget)
        simp only [hafter, h.unchanged, hb]

theorem Mirrors.read_source (h : Mirrors run t candidates done v u) (p : Path) :
    Mirrors run t candidates done (v.reply (.readSource p)).2 (u.reply (.readSource p)).2 where
  faults := h.faults
  sourcesRead := congrArg (p :: ·) h.sourcesRead
  out := h.out
  unchanged := h.unchanged
  wellFormed := h.wellFormed
  frame := h.frame
  read := fun q hq => ⟨List.mem_cons_of_mem _ (h.read q hq).1, (h.read q hq).2⟩

theorem Mirrors.print (h : Mirrors run t candidates done v u) (shown : String) :
    Mirrors run t candidates done (v.reply (.print shown)).2 (u.reply (.print shown)).2 where
  faults := h.faults
  sourcesRead := h.sourcesRead
  out := congrArg (· ++ shown) h.out
  unchanged := h.unchanged
  wellFormed := h.wellFormed
  frame := h.frame
  read := h.read

theorem Mirrors.next (h : Mirrors run t candidates done v u) (p : Path) :
    Mirrors run t candidates (done ++ [p]) v u where
  faults := h.faults
  sourcesRead := h.sourcesRead
  out := h.out
  unchanged := h.unchanged
  wellFormed := h.wellFormed
  frame := h.frame.mono
    (fun _ hk => hk.imp_right fun ⟨q, hq, hlead⟩ => ⟨q, List.mem_append_left _ hq, hlead⟩)
    fun _ hk => hk
  read := h.read

theorem Mirrors.change (h : Mirrors run t candidates done v u) {r : Request} (hr : r.isQuiet = true)
    (hwf : (u.reply r).2.tree.WellFormed) {files : Place → Prop}
    (hframe : Frame files Anywhere u.tree (u.reply r).2.tree)
    (hfiles : ∀ k, files k → IsKeptBy run t k ∨ ∃ p ∈ done, t.leadOf p = some k) :
    Mirrors run t candidates done v (u.reply r).2 where
  faults := (u.reply_of_isQuiet hr).1.trans h.faults
  sourcesRead := (u.reply_of_isQuiet hr).2.1.trans h.sourcesRead
  out := (u.reply_of_isQuiet hr).2.2.trans h.out
  unchanged := h.unchanged
  wellFormed := hwf
  frame := h.frame.trans (hframe.mono hfiles fun _ hk => hk)
  read := h.read

theorem Mirrors.createFolders (h : Mirrors run t candidates done v u) (q : Path) :
    Mirrors run t candidates done v (u.reply (.createFolders q)).2 := by
  obtain ⟨hwf, hframe⟩ := (FileTree.createFolders_spec h.wellFormed q).1
  exact h.change rfl hwf hframe fun _ hk => hk.elim

theorem Mirrors.writeBackup {s : RunStore} {id : String}
    (h : Mirrors (some (s, id)) t candidates done v u) (hclear : m.IsClearOf (some (s, id)) t)
    (p : Path) (b : ByteArray) :
    Mirrors (some (s, id)) t candidates done v
      (u.reply (.write ((s.backupFolder id).join (RunStore.backupName p)) b)).2 := by
  obtain ⟨hid, hkeeps⟩ := hclear s id rfl
  have hkept : s.Kept (· = [id, (RunStore.backupName p).text]) Nowhere u
      (u.reply (.write ((s.backupFolder id).join (RunStore.backupName p)) b)).2 :=
    RunStore.Kept.writeBackup (hkeeps.unlinked.frame h.wellFormed h.frame) hid p b
  refine h.change rfl hkept.wellFormed (hkept.frame.mono (fun _ hk => hk) fun _ _ => trivial)
    fun k hk => .inl ?_
  exact ⟨s, id, rfl, ((RunStore.Below.frame h.frame).mp hk).mono fun r hr => ⟨_, hr⟩⟩

theorem Mirrors.writeSource (h : Mirrors run t candidates done v u) (ht : t.WellFormed)
    (hp : m.Reads t p k) (hmem : p ∈ done) (y : Text) :
    Mirrors run t candidates done v (u.reply (.writeSource p y)).2 := by
  have hlead := hp.1.leadOf ht
  obtain ⟨hwf, hframe⟩ :=
    World.frame_writeSource h.wellFormed ((h.frame.leadOf p).trans hlead) y
  refine h.change rfl hwf (hframe.mono (fun _ hk => hk) fun _ hk => hk.elim) ?_
  rintro _ rfl
  exact .inr ⟨p, hmem, hlead⟩

/-! ## One file after the other -/

/-- At each point of writing a file the worlds go together. -/
theorem Mirrors.along_writeFile (h : Mirrors run t candidates done v u) (hclear : m.IsClearOf run t)
    (ht : t.WellFormed) (hp : m.Reads t p k) (hmem : p ∈ done)
    (hrun : journal.map Journal.key = run) (past : List Request) :
    (writeFile journal p x y).run.Along (fun _ u => Mirrors run t candidates done v u) past u := by
  cases journal with
  | none =>
      have hwrite : (Attempt.orFail (Action.ask (.writeSource p y))
          (FileFailure.unwritable p)).run.Along
          (fun _ u => Mirrors run t candidates done v u) past u :=
        (Attempt.along_orFail _ _).mpr ⟨h, h.writeSource ht hp hmem y⟩
      exact Attempt.along_bind hwrite fun _ _ _ hend => hend
  | some j =>
      subst hrun
      have hsave : (j.store.saveBackup j.runId p x).run.Along
          (fun _ u => Mirrors (some j.key) t candidates done v u) past u := by
        have hfolders := h.createFolders (j.store.backupFolder j.runId)
        unfold RunStore.saveBackup
        refine Attempt.along_bind ((Attempt.along_orFail _ _).mpr ⟨h, hfolders⟩)
          fun _ u₁ _ hu₁ => ?_
        have hwrite := hu₁.writeBackup hclear p x.toBytes
        exact Attempt.along_bind ((Attempt.along_orFail _ _).mpr ⟨hu₁, hwrite⟩)
          fun _ _ _ hend => hend
      refine Attempt.along_bind
        ((Attempt.along_adapt _ _).mpr (Attempt.along_bind hsave fun _ _ _ hend => hend))
        fun _ u₁ _ hu₁ => ?_
      exact Attempt.along_bind
        ((Attempt.along_orFail _ _).mpr ⟨hu₁, hu₁.writeSource ht hp hmem y⟩)
        fun _ _ _ hend => hend

/-- Both runs do the same with a file, if all that is asked for is fulfilled. -/
theorem Mirrors.migrateFile (h : Mirrors run t candidates done v u) (hclear : m.IsClearOf run t)
    (ht : t.WellFormed) (hp : m.Reads t p k) (hdone : ∀ q ∈ done, ∃ k, m.Reads t q k)
    (hnew : p ∉ done) (hmem : p ∈ candidates) (hrun : journal.map Journal.key = run)
    {format : PreviewFormat} (hfulfilled : Fulfilled (m.migrateFile ⟨true, format⟩ journal p) u)
    (journal₀ : Option Journal) :
    ∃ outcome stats journal' v' u',
      (m.migrateFile ⟨false, format⟩ journal₀ p).run v =
        ((outcome, stats, journal₀), v') ∧
      (m.migrateFile ⟨true, format⟩ journal p).run u = ((outcome, stats, journal'), u') ∧
      journal'.map Journal.key = run ∧ Mirrors run t candidates (done ++ [p]) v' u' := by
  have hsource := h.source_eq hclear ht hp hdone hnew hmem
  have hread := (h.next p).read_source p
  rw [migrateFile_eq] at hfulfilled
  have hfulfilled : Fulfilled (m.useReading ⟨true, format⟩ journal p (u.source p))
      (u.reply (.readSource p)).2 :=
    ((Action.each_bind _ _ _).mp hfulfilled).2
  rw [run_migrateFile, run_migrateFile]
  rw [hsource] at hfulfilled ⊢
  rcases m.useReading_cases p (v.source p) with ⟨outcome, -, huse⟩ | ⟨x, r, -, -, -, huse⟩
  · rw [huse, huse]
    exact ⟨outcome, {}, journal, _, _, rfl, rfl, hrun, hread⟩
  · rw [huse] at hfulfilled
    rw [huse, huse]
    unfold makeChange at hfulfilled ⊢
    simp only [if_true] at hfulfilled ⊢
    have hprint := hread.print (format.preview (m.relative p) x r.text).1
    have hwrite : Fulfilled (writeFile journal p x r.text).run
        ((u.reply (.readSource p)).2.reply (.print (format.preview (m.relative p) x r.text).1)).2 :=
      ((Action.each_bind _ _ _).mp ((Action.each_bind _ _ _).mp hfulfilled).2).1
    obtain ⟨journal', u', hwritten, hkey⟩ := writeFile_of_fulfilled hwrite
    have halong := hprint.along_writeFile (x := x) (y := r.text) hclear ht hp
      (List.mem_append_right _ List.mem_cons_self) hrun []
    have hend := halong.finish
    rw [hwritten] at hend
    refine ⟨.migrated, (format.preview (m.relative p) x r.text).2, journal', _, u', rfl, ?_,
      hkey.trans hrun, hend⟩
    rw [Action.run_bind, Action.run_bind]
    have hwritten' : (writeFile journal p x r.text).run.run
        ((Action.print (format.preview (m.relative p) x r.text).1).run
            (u.reply (.readSource p)).2).2 =
          (.ok journal', u') := hwritten
    rw [hwritten']
    rfl

/-- Both runs do the same with all candidates, if all that is asked for is fulfilled. -/
theorem Mirrors.migrateAll {ps : List Path} (h : Mirrors run t candidates done v u)
    (hclear : m.IsClearOf run t) (ht : t.WellFormed) (hdone : ∀ q ∈ done, ∃ k, m.Reads t q k)
    (hps : ∀ q ∈ ps, ∃ k, m.Reads t q k) (hnodup : (done ++ ps).Nodup)
    (hsub : ps ⊆ candidates) {results : List (Path × Outcome)} {stats : DiffStats}
    (hrun : journal.map Journal.key = run) {format : PreviewFormat}
    (hfulfilled : Fulfilled (m.migrateAll ⟨true, format⟩ ⟨results, stats, journal⟩ ps) u)
    (journal₀ : Option Journal) :
    ∃ results' stats' journal' v' u',
      (m.migrateAll ⟨false, format⟩ ⟨results, stats, journal₀⟩ ps).run v =
        (⟨results', stats', journal₀⟩, v') ∧
      (m.migrateAll ⟨true, format⟩ ⟨results, stats, journal⟩ ps).run u =
        (⟨results', stats', journal'⟩, u') ∧
      Mirrors run t candidates (done ++ ps) v' u' := by
  induction ps generalizing done results stats journal v u with
  | nil => exact ⟨results, stats, journal, v, u, rfl, rfl, by rwa [List.append_nil]⟩
  | cons p ps ih =>
      obtain ⟨k, hp⟩ := hps p List.mem_cons_self
      have hnew : p ∉ done := fun hmem =>
        (List.nodup_append.mp hnodup).2.2 p hmem p List.mem_cons_self rfl
      unfold Migration.migrateAll at hfulfilled ⊢
      obtain ⟨hfirst, hrest⟩ := (Action.each_bind _ _ _).mp hfulfilled
      obtain ⟨outcome, fileStats, journal', v₁, u₁, hdry, happlied, hrun', hmirrors⟩ :=
        h.migrateFile hclear ht hp hdone hnew (hsub List.mem_cons_self) hrun hfirst journal₀
      rw [happlied] at hrest
      have hdone' : ∀ q ∈ done ++ [p], ∃ k, m.Reads t q k := by
        intro q hq
        rcases List.mem_append.mp hq with hq | hq
        · exact hdone q hq
        · obtain rfl := List.mem_singleton.mp hq
          exact ⟨k, hp⟩
      have hsplit : done ++ p :: ps = (done ++ [p]) ++ ps := by simp
      rw [hsplit] at hnodup ⊢
      rw [Action.run_bind, Action.run_bind, hdry, happlied]
      exact ih hmirrors hdone' (fun q hq => hps q (List.mem_cons_of_mem _ hq)) hnodup
        (fun q hq => hsub (List.mem_cons_of_mem _ hq)) hrun' hrest

end

/-! ## Whole runs -/

theorem read_of_source (h : w.source p = .ok x) (haltered : w.faults.altered.lookup p = none) :
    ∃ b, w.tree.read p = .ok b := by
  unfold World.source at h
  rw [haltered] at h
  split at h
  · cases h
  · split at h
    · next hnone => cases hnone
    · next hnone => cases hnone
    · obtain ⟨b, hb, -⟩ := Except.bind_eq_ok.mp h
      exact ⟨b, hb⟩

theorem read_of_readAll {ps : List Path} (h : (p, .ok x) ∈ ((readAll ps).run w).1) :
    p ∈ ps ∧ (w.faults.altered.lookup p = none → ∃ b, w.tree.read p = .ok b) := by
  induction ps generalizing w with
  | nil => cases h
  | cons q ps ih =>
      unfold readAll at h
      rw [Action.run_bind, Action.run_bind] at h
      rcases List.mem_cons.mp h with heq | hmem
      · obtain ⟨rfl, hsource⟩ := Prod.mk.inj heq
        exact ⟨List.mem_cons_self, read_of_source hsource.symm⟩
      · obtain ⟨hmem, hread⟩ := ih hmem
        exact ⟨List.mem_cons_of_mem _ hmem, hread⟩

/-- Where a migration begins once the candidates are discovered, a dry run and one that writes are
in the same world. -/
theorem mirrors_of_discover {d : Discovery} {w₁ : World} (hw : w.tree.WellFormed)
    (h : m.discover.run.run w = (.ok d, w₁)) (run : Option (RunStore × String)) :
    Mirrors run w.tree d.candidates [] w₁ w₁ := by
  obtain ⟨htree, hfaults, -⟩ := discover_reads hw h
  refine ⟨rfl, rfl, rfl, htree, htree ▸ hw, htree ▸ .refl _ _ _, ?_⟩
  unfold discover at h
  obtain ⟨files, w₂, hfiles, h⟩ := Attempt.bind_eq_ok h
  rw [Attempt.run_bind, Attempt.run_always] at h
  cases h
  have hw₂ : w₂.tree = w.tree ∧ w₂.faults = w.faults := by
    obtain ⟨hread, hsame, -⟩ :=
      readAll_tree (files.filter fun p => !m.selector.isExcluded p) w₂
    exact ⟨hread.symm.trans htree, hsame.symm.trans hfaults⟩
  intro p hp
  obtain ⟨x, hx, -⟩ := (mem_candidates.mp hp).2
  obtain ⟨hmem, hread⟩ := read_of_readAll hx
  rw [readAll_world]
  refine ⟨List.mem_append_left _ (List.mem_reverse.mpr hmem), fun haltered => ?_⟩
  rw [← hw₂.1]
  exact hread haltered

/-- A run that does not write changes no file. -/
theorem migrateAll_dry_tree (m : Migration) (format : PreviewFormat) (progress : Progress)
    (ps : List Path) (w : World) :
    ((m.migrateAll ⟨false, format⟩ progress ps).run w).2.tree = w.tree := by
  induction ps generalizing progress w with
  | nil => rfl
  | cons p ps ih =>
      have hfile : ((m.migrateFile ⟨false, format⟩ progress.journal p).run w).2.tree =
          w.tree := by
        rw [run_migrateFile]
        rcases m.useReading_cases p (w.source p) with ⟨outcome, -, huse⟩ |
          ⟨x, r, -, -, -, huse⟩
        · rw [huse]
          rfl
        · rw [huse]
          rfl
      unfold migrateAll
      rw [Action.run_bind]
      exact (ih _ _).trans hfile

theorem run_dry_tree {format : PreviewFormat} (hw : w.tree.WellFormed) :
    ((m.run ⟨false, format⟩ journal).run.run w).2.tree = w.tree := by
  unfold Migration.run
  cases hdiscover : m.discover.run.run w with
  | mk found w₁ =>
      obtain ⟨htree, -⟩ := discover_reads hw hdiscover
      cases found with
      | error e =>
          rw [Attempt.run_bind, hdiscover]
          exact htree
      | ok d =>
          rw [Attempt.bind_of_ok hdiscover, Attempt.run_bind, Attempt.run_always]
          exact (migrateAll_dry_tree m format _ _ _).trans htree

/-- A dry run shows and reports what the run that writes does, if all that this one asks for is
fulfilled and its backups are kept clear of what it reads. -/
theorem IsClearOf.run_eq (hclear : m.IsClearOf (journal.map Journal.key) w.tree)
    (hw : w.tree.WellFormed) {format : PreviewFormat} (journal₀ : Option Journal)
    (hfulfilled : Fulfilled (m.run ⟨true, format⟩ journal).run w) :
    ((m.run ⟨false, format⟩ journal₀).run.run w).2.out =
        ((m.run ⟨true, format⟩ journal).run.run w).2.out ∧
      ((m.run ⟨false, format⟩ journal₀).run.run w).1.map Prod.fst =
        ((m.run ⟨true, format⟩ journal).run.run w).1.map fun x =>
          { x.1 with dryRun := true } := by
  unfold Migration.run at hfulfilled ⊢
  cases hdiscover : m.discover.run.run w with
  | mk found w₁ =>
      obtain ⟨-, -, hcandidates⟩ := discover_reads hw hdiscover
      cases found with
      | error e =>
          rw [Attempt.run_bind, Attempt.run_bind, hdiscover]
          exact ⟨rfl, rfl⟩
      | ok d =>
          obtain ⟨hnodup, hreads⟩ := hcandidates d rfl
          have hall := Attempt.each_of_bind ((Attempt.each_bind hdiscover).mp hfulfilled).2
          obtain ⟨results, stats, journal', v, u, hdry, happlied, hmirrors⟩ :=
            (mirrors_of_discover hw hdiscover (journal.map Journal.key)).migrateAll hclear hw
              (by simp) hreads (by simpa using hnodup) (List.Subset.refl _) rfl
              ((Attempt.each_always _).mp hall) journal₀
          rw [Attempt.bind_of_ok hdiscover, Attempt.bind_of_ok hdiscover, Attempt.run_bind,
            Attempt.run_bind, Attempt.run_always, Attempt.run_always, hdry, happlied]
          exact ⟨hmirrors.out.symm, rfl⟩

theorem isClearOf_of_keepsClear
    (hjournal : ∀ j, journal = some j → Run.IsId j.runId ∧ j.store.KeepsClear j.runId m t) :
    m.IsClearOf (journal.map Journal.key) t := by
  intro s id hkey
  obtain ⟨j, hj, heq⟩ := Option.map_eq_some_iff.mp hkey
  cases heq
  exact hjournal j hj

/-- A dry run changes no file, and shows and reports what the run that writes does from the same
world, if all that this one asks for is fulfilled. -/
theorem run_dry (hw : w.tree.WellFormed)
    (hjournal : ∀ j, journal = some j → Run.IsId j.runId ∧
      j.store.KeepsClear j.runId m w.tree)
    (format : PreviewFormat) (journal₀ : Option Journal) :
    ((m.run ⟨false, format⟩ journal₀).run.run w).2.tree = w.tree ∧
      (Fulfilled (m.run ⟨true, format⟩ journal).run w →
        ((m.run ⟨false, format⟩ journal₀).run.run w).2.out =
          ((m.run ⟨true, format⟩ journal).run.run w).2.out ∧
        ((m.run ⟨false, format⟩ journal₀).run.run w).1.map Prod.fst =
          ((m.run ⟨true, format⟩ journal).run.run w).1.map
            fun x => { x.1 with dryRun := true }) :=
  ⟨run_dry_tree hw, (isClearOf_of_keepsClear hjournal).run_eq hw journal₀⟩

/-- The same for a run under a new id: where nothing stands yet, backups are clear of all files. -/
theorem run_dry_of_isFresh (hw : w.tree.WellFormed)
    (hfresh : ∀ j, journal = some j → Run.IsId j.runId ∧ j.store.IsFresh j.runId w.tree)
    (format : PreviewFormat) (journal₀ : Option Journal) :
    ((m.run ⟨false, format⟩ journal₀).run.run w).2.tree = w.tree ∧
      (Fulfilled (m.run ⟨true, format⟩ journal).run w →
        ((m.run ⟨false, format⟩ journal₀).run.run w).2.out =
          ((m.run ⟨true, format⟩ journal).run.run w).2.out ∧
        ((m.run ⟨false, format⟩ journal₀).run.run w).1.map Prod.fst =
          ((m.run ⟨true, format⟩ journal).run.run w).1.map
            fun x => { x.1 with dryRun := true }) := by
  have hclear := isClearOf_of_keepsClear fun j hj =>
    (hfresh j hj).imp_right fun h => h.keepsClear (m := m) hw
  exact ⟨run_dry_tree hw, hclear.run_eq hw journal₀⟩

/-! ## A page and a run -/

theorem fulfilled_guardedRun :
    Fulfilled (guardedRun.migration.run ⟨true, .quiet⟩
      (some (guardedRun.journal RunStore.beside))).run
      { tree := guardedPage } := by
  have hdiscover : guardedRun.migration.discover.run.run { tree := guardedPage } =
      (.ok ⟨[⟨"/src/a.ts"⟩], []⟩,
        (guardedRun.migration.discover.run.run { tree := guardedPage }).2) :=
    Except.pair_of_fst (by decide +kernel)
  have hsource : (guardedRun.migration.discover.run.run { tree := guardedPage }).2.source
      ⟨"/src/a.ts"⟩ = .ok "import A from 'a'\n<P></P>".toList := by decide +kernel
  rw [journal_guardedRun]
  refine (Attempt.each_bind hdiscover).mpr ⟨by decide +kernel, ?_⟩
  refine (Attempt.each_bind (Attempt.run_always _ _)).mpr
    ⟨(Attempt.each_always _).mpr ?_, trivial⟩
  unfold Migration.migrateAll
  refine (Action.each_bind _ _ _).mpr ⟨?_, trivial⟩
  rw [migrateFile_eq]
  refine (Action.each_bind _ _ _).mpr ⟨(Action.each_ask _ _).mpr rfl, ?_⟩
  have hmake : Fulfilled (guardedRun.migration.makeChange ⟨true, .quiet⟩
      (some ⟨RunStore.beside, "e572dff", "migrate", ⟨"/src"⟩, []⟩) ⟨"/src/a.ts"⟩
        "import A from 'a'\n<P></P>".toList
      "import B from \"b\";\n<P>\n  <B></B></P>".toList)
      ((guardedRun.migration.discover.run.run { tree := guardedPage }).2.reply
        (.readSource ⟨"/src/a.ts"⟩)).2 := by
    decide +kernel
  have huse := useReading_of_apply guardedRun_apply rfl ⟨true, .quiet⟩
    (some ⟨RunStore.beside, "e572dff", "migrate", ⟨"/src"⟩, []⟩) ⟨"/src/a.ts"⟩
  rw [← huse, ← hsource] at hmake
  exact hmake

/-- The dry run on the page shows and reports what the run does. -/
theorem run_dry_guardedPage :
    Fulfilled (guardedRun.migration.run ⟨true, .quiet⟩
      (some (guardedRun.journal RunStore.beside))).run
        { tree := guardedPage } ∧
      ((guardedRun.migration.run ⟨false, .quiet⟩ none).run.run { tree := guardedPage }).1.map
          Prod.fst =
        ((guardedRun.migration.run ⟨true, .quiet⟩
            (some (guardedRun.journal RunStore.beside))).run.run
          { tree := guardedPage }).1.map fun x => { x.1 with dryRun := true } := by
  have hplain : guardedPage.isPlain = true := by decide
  have hwf := FileTree.WellFormed.of_isPlain hplain
  have hkeeps : ∀ j, some (guardedRun.journal RunStore.beside) = some j →
      Run.IsId j.runId ∧ j.store.KeepsClear j.runId guardedRun.migration guardedPage := by
    intro j hj
    obtain rfl := Option.some.inj hj
    exact ⟨guardedRun.isId_id, isFresh_guardedPage.keepsClear hwf⟩
  obtain ⟨-, hsame⟩ := run_dry (w := { tree := guardedPage }) hwf hkeeps .quiet none
  exact ⟨fulfilled_guardedRun, (hsame fulfilled_guardedRun).2⟩

end Migration

end Rewrap
