import Rewrap.Proofs.Migration.Securing

/-! # Reports and journals

A migration fills its report and its journal at different steps. The two agree: the journal holds
just the files that are reported as migrated, in their order, with the hashes of what was read and
of what was written. -/

namespace Rewrap

open FileTree (Frame Anywhere)

variable {s : RunStore} {ids : List String} {id : String} {w w' : World} {t u : FileTree}
  {changes : List Change}

namespace Migration

variable {m : Migration} {o : Options} {format : PreviewFormat} {p q : Path} {k k' : Place}

/-! ## Paths as they are shown -/

theorem relative_below (m : Migration) {names : Place} (hnames : ∀ n ∈ names, Path.IsName n) :
    m.relative (m.root.below names) =
      if names = [] then m.root else Path.ofComponents (names.map .name) := by
  unfold relative
  rw [Path.relativeTo?_below m.root hnames]
  by_cases hne : names = []
  · subst hne
    rfl
  · simp [hne, Path.ofComponents_ne_empty hnames hne]

theorem relative_inj (h : t.WellFormed) (hp : t.IsSource m.root p k) (hq : t.IsSource m.root q k')
    (heq : m.relative p = m.relative q) : p = q := by
  obtain ⟨R, names, b, hR, rfl, rfl, hb⟩ := hp
  obtain ⟨R', names', b', hR', rfl, rfl, hb'⟩ := hq
  rw [hR] at hR'
  cases hR'
  have hsome : t.get? (R ++ names) ≠ none := by simp [hb]
  have hsome' : t.get? (R ++ names') ≠ none := by simp [hb']
  obtain ⟨hnames, hfolder⟩ := h.names_of_append hsome
  obtain ⟨hnames', hfolder'⟩ := h.names_of_append hsome'
  by_cases hnil : names = []
  · by_cases hnil' : names' = []
    · rw [hnil, hnil']
    · simp [hnil, hfolder' hnil'] at hb
  · by_cases hnil' : names' = []
    · simp [hnil', hfolder hnil] at hb'
    · rw [relative_below m hnames, relative_below m hnames', if_neg hnil, if_neg hnil'] at heq
      rw [Path.ofComponents_inj hnames hnames' hnil hnil' heq]

/-! ## What is read -/

theorem readings_writeFile (journal : Option Journal) (p : Path) (x y : Text) (w : World) :
    (writeFile journal p x y).run.readings w = [] := by
  have hwrite : ∀ w, (Attempt.orFail (Action.ask (.writeSource p y))
      (FileFailure.unwritable p)).run.readings w = [] :=
    fun w => Attempt.readings_orFail _ _
  cases journal with
  | none => exact Attempt.readings_bind_eq_nil (hwrite w) fun _ _ => rfl
  | some j =>
      have hfolder : ∀ w,
          (Attempt.orFail (Action.ask (.createFolders (j.store.backupFolder j.runId)))
          Run.Error.file).run.readings w = [] := fun w => Attempt.readings_orFail _ _
      have hbackup : (j.backup p x y).run.readings w = [] := by
        refine Attempt.readings_bind_eq_nil
          (Attempt.readings_bind_eq_nil (hfolder w) fun _ w' => ?_) fun _ _ => rfl
        exact Attempt.readings_bind_eq_nil (Attempt.readings_orFail _ _) fun _ _ => rfl
      refine Attempt.readings_bind_eq_nil (((j.backup p x y).readings_adapt _).trans hbackup)
        fun _ w' => ?_
      exact Attempt.readings_bind_eq_nil (hwrite w') fun _ _ => rfl

theorem readings_migrateFile (m : Migration) (o : Options) (journal : Option Journal) (p : Path)
    (w : World) : (m.migrateFile o journal p).readings w = [(p, w.source p)] := by
  rw [migrateFile_eq, Action.readings_bind]
  have hrest : ∀ w', (m.useReading o journal p (w.source p)).readings w' = [] := by
    intro w'
    rcases m.useReading_cases p (w.source p) with ⟨outcome, -, huse⟩ | ⟨x, r, -, -, -, huse⟩
    · rw [huse]
      rfl
    · rw [huse]
      unfold makeChange
      simp only [Action.readings_bind]
      split
      · rw [Action.readings_bind, readings_writeFile]
        rfl
      · rfl
  exact congrArg _ (hrest _)

/-- The candidates are read one after the other, each once. -/
theorem readings_migrateAll (m : Migration) (o : Options) (progress : Progress) (ps : List Path)
    (w : World) : ((m.migrateAll o progress ps).readings w).map Prod.fst = ps := by
  induction ps generalizing progress w with
  | nil => rfl
  | cons p ps ih =>
      unfold migrateAll
      rw [Action.readings_bind, readings_migrateFile, List.map_append, ih]
      rfl

/-! ## Results and changes -/

/-- The paths of the files that are reported as migrated. -/
def migratedPaths (results : List (Path × Outcome)) : List Path :=
  (results.filter (·.2 = .migrated)).map Prod.fst

theorem migratedPaths_append (results results' : List (Path × Outcome)) :
    migratedPaths (results ++ results') = migratedPaths results ++ migratedPaths results' := by
  unfold migratedPaths
  rw [List.filter_append, List.map_append]

theorem migratedPaths_eq_nil {results : List (Path × Outcome)} :
    migratedPaths results = [] ↔ ∀ e ∈ results, e.2 ≠ .migrated := by
  unfold migratedPaths
  rw [List.map_eq_nil_iff, List.filter_eq_nil_iff]
  simp

/-- The results of some files agree with the changes that were entered into the journal
meanwhile. -/
structure Account (m : Migration) (readings : List (Path × Except FileError Text))
    (results : List (Path × Outcome)) (changes : List Change) : Prop where
  paths : changes.map (m.relative ·.path) = migratedPaths results
  read : ∀ c ∈ changes, ∃ x, (c.path, .ok x) ∈ readings ∧ c.hashBefore = x.hash

theorem Account.nil (readings : List (Path × Except FileError Text)) : m.Account readings [] [] :=
  ⟨rfl, by simp⟩

theorem Account.append {readings readings' : List (Path × Except FileError Text)}
    {results results' : List (Path × Outcome)} {changes changes' : List Change}
    (h : m.Account readings results changes) (h' : m.Account readings' results' changes') :
    m.Account (readings ++ readings') (results ++ results') (changes ++ changes') where
  paths := by rw [List.map_append, h.paths, h'.paths, migratedPaths_append]
  read := by
    intro c hc
    rcases List.mem_append.mp hc with hc | hc
    · obtain ⟨x, hx, hhash⟩ := h.read c hc
      exact ⟨x, List.mem_append_left _ hx, hhash⟩
    · obtain ⟨x, hx, hhash⟩ := h'.read c hc
      exact ⟨x, List.mem_append_right _ hx, hhash⟩

variable {j : Journal}

/-- A file that is not reported as migrated changes nothing. -/
theorem Account.unchanged {readings : List (Path × Except FileError Text)} {outcome : Outcome}
    (h : outcome ≠ .migrated) (p : Path) : m.Account readings [(p, outcome)] [] :=
  ⟨by simp [migratedPaths, h], by simp⟩

/-- What migrating a file does: nothing is asked for once it was read, or it is written. -/
theorem migrateFile_cases (m : Migration) (format : PreviewFormat) (j : Journal) (p : Path)
    (w : World) :
    (∃ outcome, outcome ≠ .migrated ∧ (m.migrateFile ⟨true, format⟩ (some j) p).run w =
        ((outcome, {}, some j), (w.reply (.readSource p)).2)) ∨
      ∃ x y stats w₁, w.source p = .ok x ∧ w₁.tree = w.tree ∧
        (m.migrateFile ⟨true, format⟩ (some j) p).run w =
          (((concluded (some j) ((writeFile (some j) p x y).run.run w₁).1).1, stats,
            (concluded (some j) ((writeFile (some j) p x y).run.run w₁).1).2),
            ((writeFile (some j) p x y).run.run w₁).2) := by
  rw [run_migrateFile]
  rcases m.useReading_cases p (w.source p) with ⟨outcome, hne, huse⟩ |
    ⟨x, r, hx, -, -, huse⟩
  · rw [huse]
    exact .inl ⟨outcome, hne, rfl⟩
  · rw [huse]
    refine .inr ⟨x, r.text, (format.preview (m.relative p) x r.text).2,
      ((w.reply (.readSource p)).2.reply (.print (format.preview (m.relative p) x r.text).1)).2, hx,
        rfl, ?_⟩
    unfold makeChange
    simp only [if_true, Action.run_bind]
    rfl

/-- A file joins the journal if it is reported as migrated. -/
theorem migrateFile_account (m : Migration) (format : PreviewFormat) (j : Journal) (p : Path)
    (w : World) :
    ∃ cs, ((m.migrateFile ⟨true, format⟩ (some j) p).run w).1.2.2 =
        some { j with changes := j.changes ++ cs } ∧
      m.Account [(p, w.source p)]
        [(m.relative p, ((m.migrateFile ⟨true, format⟩ (some j) p).run w).1.1)] cs := by
  rcases m.migrateFile_cases format j p w with ⟨outcome, hne, hrun⟩ |
    ⟨x, y, stats, w₁, hx, -, hrun⟩
  · rw [hrun]
    exact ⟨[], by simp, .unchanged hne _⟩
  · rw [hrun]
    cases hwrite : ((writeFile (some j) p x y).run.run w₁).1 with
    | error f => exact ⟨[], by simp [concluded], .unchanged (by simp [concluded]) _⟩
    | ok journal =>
        obtain ⟨name, rfl⟩ := writeFile_journal hwrite
        refine ⟨[⟨p, x.hash, y.hash, name⟩], rfl, rfl, fun c hc => ⟨x, ?_, ?_⟩⟩
        · rw [List.mem_singleton.mp hc, hx]
          exact List.mem_cons_self
        · rw [List.mem_singleton.mp hc]

/-- The results of all candidates agree with the changes that join the journal. -/
theorem migrateAll_account (m : Migration) (format : PreviewFormat) (j : Journal)
    (progress : Progress) (hjournal : progress.journal = some j) (ps : List Path) (w : World) :
    ∃ results cs, ((m.migrateAll ⟨true, format⟩ progress ps).run w).1.results =
        progress.results ++ results ∧
      results.map Prod.fst = ps.map m.relative ∧
      ((m.migrateAll ⟨true, format⟩ progress ps).run w).1.journal =
        some { j with changes := j.changes ++ cs } ∧
      m.Account ((m.migrateAll ⟨true, format⟩ progress ps).readings w) results cs := by
  induction ps generalizing j progress w with
  | nil => exact ⟨[], [], by simp [migrateAll], rfl, by simp [migrateAll, hjournal], .nil _⟩
  | cons p ps ih =>
      obtain ⟨cs, hj, haccount⟩ := m.migrateFile_account format j p w
      unfold migrateAll
      rw [hjournal, Action.run_bind, Action.readings_bind, readings_migrateFile]
      generalize (m.migrateFile ⟨true, format⟩ (some j) p).run w = result at hj haccount
      obtain ⟨⟨outcome, stats, journal⟩, w₁⟩ := result
      obtain rfl : journal = _ := hj
      obtain ⟨results, cs', hresults, hpaths, hj', haccount'⟩ :=
        ih { j with changes := j.changes ++ cs }
        ⟨progress.results ++ [(m.relative p, outcome)], progress.stats.add stats, _⟩ rfl w₁
      refine ⟨(m.relative p, outcome) :: results, cs ++ cs', ?_,
        by simp [hpaths], ?_, haccount.append haccount'⟩
      · simpa using hresults
      · simpa using hj'

/-- Each candidate is read once, so what was read from it is known. -/
theorem Account.iff_read {readings : List (Path × Except FileError Text)}
    {results : List (Path × Outcome)} (h : m.Account readings results changes)
    (hnodup : (readings.map Prod.fst).Nodup) {c : Change} (hc : c ∈ changes) :
    ∃ x, (∀ y, (c.path, y) ∈ readings ↔ y = .ok x) ∧ c.hashBefore = x.hash := by
  obtain ⟨x, hx, hhash⟩ := h.read c hc
  refine ⟨x, fun y => ⟨fun hy => ?_, fun hy => hy ▸ hx⟩, hhash⟩
  exact congrArg Prod.snd (List.inj_on_of_nodup_map hnodup hy hx rfl)

/-- The report of a migration and its journal, whatever fails. -/
theorem run_account (hw : w.tree.WellFormed) (hnone : j.changes = []) {report : Report}
    {journal : Option Journal}
    (hrun : (m.run ⟨true, format⟩ (some j)).run.run w = (.ok (report, journal), w')) :
    ∃ d start mid cs, m.discover.run.run w = (.ok d, start) ∧
      (m.run ⟨true, format⟩ (some j)).run.requests w = m.discover.run.requests w ++ mid ∧
      journal = some { j with changes := cs } ∧ (report.results.map Prod.fst).Nodup ∧
      cs.map (m.relative ·.path) = migratedPaths report.results ∧
      ∀ c ∈ cs, ∃ x, (∀ y, (c.path, y) ∈ start.readings mid ↔ y = .ok x) ∧
        c.hashBefore = x.hash := by
  obtain ⟨d, start, hdiscover, -⟩ := Attempt.bind_eq_ok hrun
  obtain ⟨-, -, hfinds⟩ := discover_finds hw hdiscover
  obtain ⟨hnodup, hreads⟩ := hfinds d rfl
  obtain ⟨unread, hunreadPaths, hunread, hrequests, hmigrated⟩ :=
    run_of_discover hdiscover ⟨true, format⟩ (some j)
  rw [hmigrated] at hrun
  rw [hrequests]
  obtain ⟨results, cs, hresults, hpaths, hjournal, haccount⟩ :=
    m.migrateAll_account format j ⟨unread, {}, some j⟩ rfl d.candidates start
  have hread := m.readings_migrateAll ⟨true, format⟩ ⟨unread, {}, some j⟩ d.candidates start
  rw [Action.readings_eq] at haccount hread
  cases hrun
  refine ⟨d, start, _, cs, hdiscover, rfl,
    by simpa [hnone] using hjournal, ?_, ?_, fun c hc => ?_⟩
  · rw [hresults, List.map_append, hunreadPaths, hpaths, ← List.map_append]
    refine hnodup.map_on fun p hp q hq heq => ?_
    obtain ⟨k, hk, -⟩ := hreads p hp
    obtain ⟨k', hk', -⟩ := hreads q hq
    exact relative_inj hw hk hk' heq
  · have hnot : migratedPaths unread = [] := migratedPaths_eq_nil.mpr hunread
    rw [haccount.paths, hresults, migratedPaths_append, hnot, List.nil_append]
  · have hcandidates := (List.nodup_append.mp hnodup).2.1
    rw [← hread] at hcandidates
    exact haccount.iff_read hcandidates hc

end Migration

/-! ## What stands in the files -/

namespace RunStore

variable {m : Migration} {p : Path} {k : Place} {x y : Text}

/-- What holds while a migration goes on that began at `t`: only backups and the files in the
journal have changed, and what was written to these files stands there. -/
structure Written (s : RunStore) (id : String) (m : Migration) (t : FileTree)
    (changes : List Change) (u : FileTree) : Prop where
  wellFormed : u.WellFormed
  frame : Frame (fun k => s.Below t (IsBackup id) k ∨ LeadsTo t changes k) Anywhere t u
  stands : ∀ c ∈ changes, ∃ (k : Place) (y : Text), m.Reads t c.path k ∧
    u.resolve true c.path = .ok k ∧ u.get? k = some (.file y.toBytes) ∧ c.hashAfter = y.hash

theorem Written.start (h : t.WellFormed) : s.Written id m t [] t := ⟨h, .refl _ _ _, by simp⟩

/-- Keeping a backup changes no file that the migration reads. -/
theorem Written.keep (h : s.Written id m t changes w.tree) (hspared : s.Spared ids m t)
    (hid : id ∈ ids) {name : String} {folders : Place → Prop}
    (hkept : s.Kept (· = [id, name]) folders w w') : s.Written id m t changes w'.tree where
  wellFormed := hkept.wellFormed
  frame := frame_keep h.frame hkept.frame fun _ _ => trivial
  stands := by
    intro c hc
    obtain ⟨k, y, hsource, hk, hfile, hhash⟩ := h.stands c hc
    refine ⟨k, y, hsource, hkept.frame.resolve hk,
      (hkept.frame.file k (fun hbelow => ?_) _).mpr hfile, hhash⟩
    refine hspared _ k hsource (((Below.frame h.frame).mp hbelow).mono fun r hr => ?_)
    exact isOwn_of_isBackup hid ⟨_, hr⟩

/-- A file that is written joins the journal. -/
theorem Written.commit (h : s.Written id m t changes u) (ht : t.WellFormed) (hp : m.Reads t p k)
    (hnew : p ∉ changes.map Change.path) (hk : u.resolve true p = .ok k)
    (hfolder : u.get? k ≠ some .folder) (hlink : ∀ q, u.get? k ≠ some (.link q))
    (hwf : (u.put k (.file y.toBytes)).WellFormed) (hash : String) (name : Path) :
    s.Written id m t (changes ++ [⟨p, hash, y.hash, name⟩]) (u.put k (.file y.toBytes)) := by
  have hput := FileTree.frame_put_file (b := y.toBytes) hfolder hlink
  have hplace : k ≠ [] := by
    rintro rfl
    exact hfolder rfl
  refine ⟨hwf, frame_commit (c := ⟨p, hash, y.hash, name⟩) h.frame (hp.1.leadOf ht) hfolder
    hlink y.toBytes, fun c hc => ?_⟩
  rcases List.mem_append.mp hc with hc | hc
  · obtain ⟨k', y', hsource, hk', hfile, hhash⟩ := h.stands c hc
    refine ⟨k', y', hsource, hput.resolve hk', (hput.file k' ?_ _).mpr hfile, hhash⟩
    rintro rfl
    exact hnew (hsource.1.inj hp.1 ▸ List.mem_map_of_mem hc)
  · obtain rfl := List.mem_singleton.mp hc
    exact ⟨k, y, hp, hput.resolve hk, FileTree.get?_put_self hplace, rfl⟩

variable {j : Journal}

/-- Writing a file keeps what stands in the others, whether or not it succeeds. -/
theorem Written.writeFile (h : j.store.Written j.runId m t j.changes w.tree)
    (ht : j.store.Guarded ids t) (hids : ∀ id ∈ ids, Run.IsId id) (hid : j.runId ∈ ids)
    (hspared : j.store.Spared ids m t) (hp : m.Reads t p k)
    (hnew : p ∉ j.changes.map Change.path) :
    ∃ cs, (∀ c ∈ cs, c.path = p) ∧
      (Migration.concluded (some j) ((Migration.writeFile (some j) p x y).run.run w).1).2 =
        some { j with changes := j.changes ++ cs } ∧
      j.store.Written j.runId m t (j.changes ++ cs)
        ((Migration.writeFile (some j) p x y).run.run w).2.tree := by
  have hguarded := ht.frame h.wellFormed h.frame
  cases hrun : (Migration.writeFile (some j) p x y).run.run w with
  | mk r w₂ =>
    obtain ⟨w₁, hkept, -, ⟨f, rfl, rfl⟩ |
      ⟨k', -, hk', -, hfolder, hlink, hwf, rfl, rfl⟩⟩ :=
      Migration.writeFile_cases (hguarded.unlinked hid) (hids _ hid) hrun
    · exact ⟨[], by simp,
        by simp [Migration.concluded], by simpa using h.keep hspared hid hkept⟩
    · have hw₁ := h.keep hspared hid hkept
      have hlead := FileTree.leadOf_of_resolve hk'
      rw [hw₁.frame.leadOf, hp.1.leadOf ht.wellFormed] at hlead
      cases hlead
      exact ⟨_, by simp, rfl, hw₁.commit ht.wellFormed hp hnew hk' hfolder hlink hwf _ _⟩

/-- What was written goes on standing while files are migrated one after the other. -/
theorem Written.migrateAll (h : j.store.Written j.runId m t j.changes w.tree)
    (ht : j.store.Guarded ids t) (hids : ∀ id ∈ ids, Run.IsId id) (hid : j.runId ∈ ids)
    (hspared : j.store.Spared ids m t) {ps : List Path} (hps : ∀ p ∈ ps, ∃ k, m.Reads t p k)
    (hnodup : ps.Nodup) (hnew : ∀ p ∈ ps, p ∉ j.changes.map Change.path)
    (format : PreviewFormat) (progress : Migration.Progress)
    (hjournal : progress.journal = some j) :
    ∃ cs, ((m.migrateAll ⟨true, format⟩ progress ps).run w).1.journal =
        some { j with changes := cs } ∧
      j.store.Written j.runId m t cs
        ((m.migrateAll ⟨true, format⟩ progress ps).run w).2.tree := by
  induction ps generalizing j progress w with
  | nil => exact ⟨j.changes, hjournal, h⟩
  | cons p ps ih =>
      obtain ⟨k, hp⟩ := hps p List.mem_cons_self
      have hfile : ∃ cs, (∀ c ∈ cs, c.path = p) ∧
          ((m.migrateFile ⟨true, format⟩ (some j) p).run w).1.2.2 =
            some { j with changes := j.changes ++ cs } ∧
          j.store.Written j.runId m t (j.changes ++ cs)
            ((m.migrateFile ⟨true, format⟩ (some j) p).run w).2.tree := by
        rcases m.migrateFile_cases format j p w with ⟨outcome, -, hrun⟩ |
          ⟨x, y, stats, w₁, -, htree, hrun⟩
        · rw [hrun]
          exact ⟨[], by simp, by simp, (List.append_nil j.changes).symm ▸ h⟩
        · rw [hrun]
          exact Written.writeFile (htree ▸ h) ht hids hid hspared hp (hnew p List.mem_cons_self)
      obtain ⟨cs, hcs, hj, hwritten⟩ := hfile
      obtain ⟨hnot, hrest⟩ := List.nodup_cons.mp hnodup
      unfold Migration.migrateAll
      rw [hjournal, Action.run_bind]
      refine ih (j := { j with changes := j.changes ++ cs }) hwritten ht hid hspared
        (fun q hq => hps q (List.mem_cons_of_mem _ hq)) hrest (fun q hq hmem => ?_) _ hj
      obtain ⟨c, hc, rfl⟩ := List.mem_map.mp hmem
      rcases List.mem_append.mp hc with hc | hc
      · exact hnew _ (List.mem_cons_of_mem _ hq) (List.mem_map_of_mem hc)
      · exact hnot (hcs c hc ▸ hq)

/-- When a migration has ended, what it wrote stands in the files of its journal. -/
theorem written_of_run (ht : j.store.Guarded ids w.tree) (hids : ∀ id ∈ ids, Run.IsId id)
    (hid : j.runId ∈ ids) (hspared : j.store.Spared ids m w.tree) (hnone : j.changes = [])
    {format : PreviewFormat} {report : Report} {j' : Journal}
    (hrun : (m.run ⟨true, format⟩ (some j)).run.run w = (.ok (report, some j'), w')) :
    j'.store = j.store ∧ j'.runId = j.runId ∧
      j.store.Written j.runId m w.tree j'.changes w'.tree := by
  obtain ⟨d, start, hdiscover, -⟩ := Attempt.bind_eq_ok hrun
  obtain ⟨htree, -, hreads⟩ := Migration.discover_reads ht.wellFormed hdiscover
  obtain ⟨hnodup, hreads⟩ := hreads d rfl
  obtain ⟨unread, -, -, -, hmigrated⟩ :=
    Migration.run_of_discover hdiscover ⟨true, format⟩ (some j)
  rw [hmigrated] at hrun
  have hstart : j.store.Written j.runId m w.tree j.changes start.tree := by
    rw [hnone, htree]
    exact .start ht.wellFormed
  obtain ⟨cs, hjournal, hwritten⟩ :=
    hstart.migrateAll ht hids hid hspared hreads hnodup (by simp [hnone]) format
    ⟨unread, {}, some j⟩ rfl
  obtain ⟨hresult, rfl⟩ := Prod.mk.inj hrun
  have hj' := (Prod.mk.inj (Except.ok.inj hresult)).2
  rw [hjournal] at hj'
  cases hj'
  exact ⟨rfl, rfl, hwritten⟩

/-- A journal that holds changes is stored as a run, which changes only the store's texts. -/
theorem finish_spec (h : j.store.Guarded [j.runId] w.tree) (hid : Run.IsId j.runId)
    {now : Timestamp} (hnow : now.IsValid) (hne : j.changes ≠ []) {saved : Option String}
    (hfinish : (j.finish now).run.run w = (.ok saved, w')) :
    saved = some j.runId ∧ (j.store.loadRun j.runId).run.run w' = (.ok (j.toRun now), w') ∧
      j.store.Kept (IsRunText j.runId) FileTree.Nowhere w w' := by
  rw [Journal.finish_of_changes (by simpa using hne)] at hfinish
  obtain ⟨_, w₁, hsave, hdone⟩ := Attempt.bind_eq_ok hfinish
  cases hdone
  have hreceives := h.receives (by simpa using hid) List.mem_cons_self
  obtain ⟨hkept, hstored⟩ := saveRun_spec (r := j.toRun now) hreceives hnow hsave
  exact ⟨rfl, loadRun_of_stores hnow (hstored rfl).2.1.stored, hkept⟩

/-- What was written stands in the files when the store's texts are changed. -/
theorem Written.hashFile (h : s.Written id m t changes w.tree) (hid : id ∈ ids)
    (hspared : s.Spared ids m t) (hkept : s.Kept (IsRunText id) FileTree.Nowhere w w') :
    ∀ c ∈ changes, (hashFile c.path).run.run w' = (.ok c.hashAfter, w') := by
  intro c hc
  obtain ⟨k, y, hsource, hk, hfile, hhash⟩ := h.stands c hc
  have hother : ¬s.Below w.tree (IsRunText id) k := fun hbelow =>
    hspared _ k hsource (((Below.frame h.frame).mp hbelow).mono fun _ => isOwn_of_isRunText hid)
  have hread := FileTree.read_of_resolve (hkept.frame.resolve hk)
    ((hkept.frame.file k hother _).mpr hfile)
  unfold RunStore.hashFile
  rw [Attempt.run_bind, Attempt.run_read, hread, hhash]
  rfl

end RunStore

namespace Migration

variable {m : Migration} {j : Journal} {format : PreviewFormat}

/-- The journal of a migration lists the files that are reported as migrated, in the order of the
report, each with the hash of the text that was read from it once since the candidates were
discovered, and no other file that is reported. Once it is finished, no run is stored just if no
file is reported as migrated; otherwise, if the store has no links and none of the files that the
migration reads is its own, the stored run lists the journal's files, each with the hash of what
stands in it now. -/
theorem finish_of_run (hw : w.tree.WellFormed) (hid : Run.IsId j.runId) (hnone : j.changes = [])
    {report : Report} {journal : Option Journal}
    (hrun : (m.run ⟨true, format⟩ (some j)).run.run w = (.ok (report, journal), w')) :
    ∃ j' d start mid, journal = some j' ∧ m.discover.run.run w = (.ok d, start) ∧
      (m.run ⟨true, format⟩ (some j)).run.requests w = m.discover.run.requests w ++ mid ∧
      j'.changes.map (m.relative ·.path) =
        (report.results.filter (·.2 = .migrated)).map Prod.fst ∧
      (∀ e ∈ report.results, e.2 ≠ .migrated →
        e.1 ∉ j'.changes.map (m.relative ·.path)) ∧
      (∀ c ∈ j'.changes, ∃ x, (∀ y, (c.path, y) ∈ start.readings mid ↔ y = .ok x) ∧
        c.hashBefore = x.hash) ∧
      ∀ now saved w₁, now.IsValid → (j'.finish now).run.run w' = (.ok saved, w₁) →
        (saved = none ↔ ∀ e ∈ report.results, e.2 ≠ .migrated) ∧
        (saved ≠ none → j.store.Guarded [j.runId] w.tree →
          j.store.Spared [j.runId] m w.tree →
          ∃ r, saved = some j.runId ∧ (j.store.loadRun j.runId).run.run w₁ = (.ok r, w₁) ∧
            r.changes = j'.changes ∧
            ∀ c ∈ r.changes, (RunStore.hashFile c.path).run.run w₁ =
              (.ok c.hashAfter, w₁)) := by
  obtain ⟨d, start, mid, cs, hdiscover, hrequests, rfl, hnodup, hpaths, hread⟩ :=
    run_account hw hnone hrun
  refine ⟨_, d, start, mid, rfl, hdiscover, hrequests, hpaths, fun e he hne hmem => ?_, hread,
    fun now saved w₁ hnow hfinish => ?_⟩
  · rw [hpaths] at hmem
    obtain ⟨e', he', heq⟩ := List.mem_map.mp hmem
    obtain ⟨he', hmigrated⟩ := List.mem_filter.mp he'
    obtain rfl := List.inj_on_of_nodup_map hnodup he' he heq
    exact hne (by simpa using hmigrated)
  · have hempty : cs = [] ↔ ∀ e ∈ report.results, e.2 ≠ .migrated := by
      rw [← migratedPaths_eq_nil, ← hpaths, List.map_eq_nil_iff]
    rw [← hempty]
    by_cases hcs : cs = []
    · rw [Journal.finish_of_isEmpty (by simp [hcs])] at hfinish
      cases hfinish
      exact ⟨by simp [hcs], by simp⟩
    · have hsome : saved = some j.runId := by
        rw [Journal.finish_of_changes (by simpa using hcs)] at hfinish
        obtain ⟨_, w₂, -, hdone⟩ := Attempt.bind_eq_ok hfinish
        cases hdone
        rfl
      refine ⟨by simp [hcs, hsome], fun _ hguarded hspared => ?_⟩
      obtain ⟨-, -, hwritten⟩ :=
        RunStore.written_of_run hguarded (by simpa using hid) List.mem_cons_self hspared
        hnone hrun
      obtain ⟨-, hload, hkept⟩ := RunStore.finish_spec (j := { j with changes := cs })
        (hguarded.frame hwritten.wellFormed hwritten.frame) hid hnow hcs hfinish
      exact ⟨_, hsome, hload, rfl, hwritten.hashFile List.mem_cons_self hspared hkept⟩

/-- The run that is stored for the page lists it, with the hash of what stands there. -/
theorem finish_of_run_guardedPage :
    ∃ report j w w₁ r, (guardedRun.migration.run ⟨true, .quiet⟩
        (some (guardedRun.journal RunStore.beside))).run.run { tree := guardedPage } =
          (.ok (report, some j), w) ∧
      (j.finish guardedRun.now).run.run w = (.ok (some guardedRun.id), w₁) ∧
      (RunStore.beside.loadRun guardedRun.id).run.run w₁ = (.ok r, w₁) ∧
      r.changes.map (guardedRun.migration.relative ·.path) =
        (report.results.filter (·.2 = .migrated)).map Prod.fst ∧
      ∀ c ∈ r.changes, (RunStore.hashFile c.path).run.run w₁ = (.ok c.hashAfter, w₁) := by
  have hplain : guardedPage.isPlain = true := by decide
  have hnow : guardedRun.now.IsValid := ⟨by decide, by decide, by decide, by decide, by decide⟩
  obtain ⟨w, hrun, -, w₁, hfinish⟩ := run_guardedRun
  obtain ⟨j, d, start, mid, hj, -, -, hpaths, -, -, hstored⟩ :=
    finish_of_run (.of_isPlain hplain)
    guardedRun.isId_id rfl hrun
  cases hj
  obtain ⟨-, hrest⟩ := hstored _ _ _ hnow hfinish
  obtain ⟨r, -, hload, hchanges, hhash⟩ := hrest (by simp)
    ⟨.of_isPlain hplain, fun k _ => FileTree.get?_ne_link_of_isPlain hplain k⟩
    fun p k hp => apart_guardedPage.not_owns hp.1
  exact ⟨_, _, w, w₁, r, hrun, hfinish, hload, hchanges ▸ hpaths, hhash⟩

/-! ## A file of the store's own -/

/-- A folder of runs that holds a page, where the index is written before it is moved. -/
def temporaryPage : FileTree :=
  ⟨[], [(["s"], .folder),
    (["s", "runs.json.tmp"], .file (Text.toBytes "import A from 'a'\n<P></P>".toList))]⟩

/-- A run that swaps `A` for `B` in that folder. -/
def temporaryRun : AppliedRun :=
  { guardedRun with migration :=
    ⟨⟨"/s"⟩, ⟨⟨"A", "a", "B", "b", ["P"], ["tmp"], []⟩, by decide⟩,
      ⟨⟨"A", "a"⟩, ⟨⟨"/"⟩, [], []⟩⟩⟩ }

theorem temporaryRun_apply : temporaryRun.migration.swap.apply "import A from 'a'\n<P></P>".toList =
    .ok ⟨"import B from \"b\";\n<P>\n  <B></B></P>".toList, true, some (.guarded "P"),
      1, 0⟩ := by cbv

theorem backupName_temporaryPage :
    RunStore.backupName ⟨"/s/runs.json.tmp"⟩ = ⟨"7e49c8881e80517d-runs.json.tmp.orig"⟩ := by
      decide +kernel

theorem run_temporaryRun :
    ∃ report c w w₁, (temporaryRun.migration.run ⟨true, .quiet⟩
        (some (temporaryRun.journal RunStore.beside))).run.run { tree := temporaryPage } =
          (.ok (report, some ((temporaryRun.journal RunStore.beside).commit c)), w) ∧
      c.path = ⟨"/s/runs.json.tmp"⟩ ∧ w.tree.isPlain = true ∧
      (((temporaryRun.journal RunStore.beside).commit c).finish temporaryRun.now).run.run w =
        (.ok (some temporaryRun.id), w₁) ∧
      ((RunStore.hashFile ⟨"/s/runs.json.tmp"⟩).run.run w₁).1.toOption = none := by
  have hid : temporaryRun.id = "e572dff" := by
    unfold AppliedRun.id
    exact Journal.idAt_zero
  have hjournal : temporaryRun.journal RunStore.beside =
      ⟨RunStore.beside, "e572dff", "migrate", ⟨"/s"⟩, []⟩ := by
    unfold AppliedRun.journal
    rw [hid]
    rfl
  rw [hjournal, hid]
  refine ⟨_, _, _, _,
    run_of_single (Except.pair_of_fst ?_) ?_ temporaryRun_apply rfl ?_ backupName_temporaryPage
    (Except.pair_of_fst ?_) (Except.pair_of_fst ?_) (Except.pair_of_fst ?_), rfl, ?_,
      Except.pair_of_fst ?_, ?_⟩
  all_goals decide +kernel

/-- The page is migrated and recorded, but what was written does not stand there once the run is
stored: the index was written in its place and moved away. -/
theorem hashAfter_fails_temporaryPage :
    ∃ report j w w₁ r, (temporaryRun.migration.run ⟨true, .quiet⟩
        (some (temporaryRun.journal RunStore.beside))).run.run { tree := temporaryPage } =
          (.ok (report, some j), w) ∧
      (j.finish temporaryRun.now).run.run w = (.ok (some j.runId), w₁) ∧
      (RunStore.beside.loadRun j.runId).run.run w₁ = (.ok r, w₁) ∧
      ∃ c ∈ r.changes, ((RunStore.hashFile c.path).run.run w₁).1 ≠ .ok c.hashAfter := by
  obtain ⟨report, c, w, w₁, hrun, hpath, hplain, hfinish, hhash⟩ := run_temporaryRun
  have hguarded : RunStore.beside.Guarded [temporaryRun.id] w.tree :=
    ⟨.of_isPlain hplain, fun k _ => FileTree.get?_ne_link_of_isPlain hplain k⟩
  have hnow : temporaryRun.now.IsValid :=
    ⟨by decide, by decide, by decide, by decide, by decide⟩
  obtain ⟨-, hload, -⟩ :=
    RunStore.finish_spec (j := (temporaryRun.journal RunStore.beside).commit c) hguarded
    temporaryRun.isId_id hnow (by simp [Journal.commit]) hfinish
  refine ⟨report, _, w, w₁, _, hrun, hfinish, hload, c,
    List.mem_append_right _ List.mem_cons_self, ?_⟩
  rw [hpath]
  intro hok
  rw [hok] at hhash
  cases hhash

end Migration

end Rewrap
