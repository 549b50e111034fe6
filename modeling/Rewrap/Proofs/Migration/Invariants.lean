import Rewrap.Migration.Basic
import Rewrap.Proofs.FileTree.Walk
import Rewrap.Proofs.Run.Recording
import Rewrap.Proofs.Swap.Outcomes

/-! # What holds while a migration writes

A migration goes through its candidates one after the other. What each single file keeps, whatever
happens to it, holds at the end of the migration. With a journal a file is kept as a backup,
written, and then entered. -/

namespace Rewrap

open FileTree (Frame Anywhere)

variable {w w' : World} {t : FileTree}

/-! ## Reading source files -/

/-- Reading a source file can fail, but never gives a text that does not stand in the tree. -/
def Faults.AreHonest (f : Faults) : Prop := ∀ a ∈ f.altered, a.2 = none

theorem World.read_of_source (h : w.faults.AreHonest) {p : Path} {x : Text}
    (hx : w.source p = .ok x) : (w.tree.read p).bind Text.ofBytes = .ok x := by
  unfold World.source at hx
  split at hx
  · cases hx
  · split at hx
    · next x' hread hlookup =>
        obtain ⟨before, after, haltered, -⟩ := List.lookup_eq_some_iff.mp hlookup
        have hnone := h (p, some x') (by rw [haltered]; simp)
        simp at hnone
    · cases hx
    · exact hx

namespace Migration

/-- A file that a migration reads: it lies below the root, has one of the extensions, and is not
excluded. -/
def Reads (m : Migration) (t : FileTree) (p : Path) (k : Place) : Prop :=
  t.IsSource m.root p k ∧ hasExtension m.swap.spec.extensions p = true ∧
    m.selector.isExcluded p = false

/-- What holds while a migration that writes goes on, given the paths that it has gone through,
holds on when it goes through another file. -/
structure IsKept (m : Migration) (t : FileTree)
    (Holds : List Path → Option Journal → World → Prop) : Prop where
  honest : ∀ {done journal w}, Holds done journal w → w.faults.AreHonest
  congr : ∀ {done journal w w'}, Holds done journal w → w'.tree = w.tree →
    w'.faults = w.faults → Holds done journal w'
  skip : ∀ {done journal w p k}, m.Reads t p k → p ∉ done → Holds done journal w →
    Holds (done ++ [p]) journal w
  write : ∀ {done journal w p k x y}, m.Reads t p k → p ∉ done → Holds done journal w →
    w.tree.read p = .ok x.toBytes → y ≠ x →
    Holds (done ++ [p]) (concluded journal ((writeFile journal p x y).run.run w).1).2
      ((writeFile journal p x y).run.run w).2

variable {m : Migration} {Holds : List Path → Option Journal → World → Prop}
  {done : List Path} {journal : Option Journal} {format : PreviewFormat} {p : Path} {k : Place}

/-! ## One file after the other -/

/-- Migrating a file keeps what is kept, whatever happens to the file. -/
theorem migrateFile_keeps (h : m.IsKept t Holds) (hp : m.Reads t p k) (hnew : p ∉ done)
    (hw : Holds done journal w) (format : PreviewFormat) :
    Holds (done ++ [p]) ((m.migrateFile ⟨true, format⟩ journal p).run w).1.2.2
      ((m.migrateFile ⟨true, format⟩ journal p).run w).2 := by
  have hskip : ∀ w', w'.tree = w.tree → w'.faults = w.faults →
      Holds (done ++ [p]) journal w' :=
    fun w' htree hfaults => h.skip hp hnew (h.congr hw htree hfaults)
  unfold migrateFile
  rw [Action.run_bind, Action.run_ask]
  simp only [World.reply]
  cases hsource : w.source p with
  | error e => exact hskip _ rfl rfl
  | ok before =>
      simp only
      cases happly : m.swap.apply before with
      | error f => exact hskip _ rfl rfl
      | ok r =>
          simp only
          split
          · exact hskip _ rfl rfl
          · next hchanged =>
              have hread := World.read_of_source (h.honest hw) hsource
              obtain ⟨b, hb, hbefore⟩ := Except.bind_eq_ok.mp hread
              rw [← Text.toBytes_of_ofBytes hbefore] at hb
              rw [Action.run_bind, if_pos trivial, Action.run_bind]
              generalize hprinted :
                ((Action.print (format.preview (m.relative p) before r.text).1).run
                { w with sourcesRead := p :: w.sourcesRead }).2 = w₁
              have htree : w₁.tree = w.tree := by rw [← hprinted]; rfl
              have hfaults : w₁.faults = w.faults := by rw [← hprinted]; rfl
              exact h.write hp hnew (h.congr hw htree hfaults) (htree ▸ hb)
                (Swap.text_ne_of_changed happly (by simpa using hchanged))

/-- Migrating files one after the other keeps what is kept. -/
theorem migrateAll_keeps (h : m.IsKept t Holds) {ps : List Path}
    (hps : ∀ p ∈ ps, ∃ k, m.Reads t p k) (hnodup : (done ++ ps).Nodup) {progress : Progress}
    (hw : Holds done progress.journal w) :
    Holds (done ++ ps) ((m.migrateAll ⟨true, format⟩ progress ps).run w).1.journal
      ((m.migrateAll ⟨true, format⟩ progress ps).run w).2 := by
  induction ps generalizing done progress w with
  | nil =>
      rw [List.append_nil]
      exact hw
  | cons p ps ih =>
      obtain ⟨k, hp⟩ := hps p List.mem_cons_self
      have hnew : p ∉ done := fun hmem =>
        (List.nodup_append.mp hnodup).2.2 p hmem p List.mem_cons_self rfl
      have hfile := migrateFile_keeps h hp hnew hw format
      unfold migrateAll
      rw [Action.run_bind]
      generalize (m.migrateFile ⟨true, format⟩ progress.journal p).run w = result at hfile
      obtain ⟨⟨outcome, stats, journal⟩, w₁⟩ := result
      have hfile : Holds (done ++ [p]) (Progress.mk (progress.results ++ [(m.relative p, outcome)])
          (progress.stats.add stats) journal).journal w₁ := hfile
      have hrest := ih (fun q hq => hps q (List.mem_cons_of_mem _ hq))
        (by rwa [List.append_assoc]) hfile
      rw [List.append_assoc] at hrest
      exact hrest

/-! ## A whole migration -/

theorem readAll_tree (ps : List Path) (w : World) :
    ((readAll ps).run w).2.tree = w.tree ∧ ((readAll ps).run w).2.faults = w.faults ∧
      ((readAll ps).run w).1.map Prod.fst = ps := by
  induction ps generalizing w with
  | nil => exact ⟨rfl, rfl, rfl⟩
  | cons p ps ih =>
      obtain ⟨htree, hfaults, hpaths⟩ := ih (w.reply (.readSource p)).2
      unfold readAll
      rw [Action.run_bind, Action.run_bind]
      exact ⟨htree, hfaults, congrArg (p :: ·) hpaths⟩

/-- A file that was read has failed or given a text. -/
theorem perm_readings (m : Migration) (readings : List (Path × Except FileError Text)) :
    ((m.discoveryOf readings).errors.map Prod.fst ++
      (readings.filterMap fun r => r.2.toOption.map (r.1, ·)).map Prod.fst).Perm
        (readings.map Prod.fst) := by
  induction readings with
  | nil => exact .nil
  | cons r rs ih =>
      obtain ⟨p, x⟩ := r
      cases x with
      | error e => exact ih.cons p
      | ok x => exact List.perm_middle.trans (ih.cons p)

/-- The files that failed and the candidates are files that were read, each once. -/
theorem discoveryOf_spec (m : Migration) {readings : List (Path × Except FileError Text)}
    (hnodup : (readings.map Prod.fst).Nodup) :
    ((m.discoveryOf readings).errors.map Prod.fst ++ (m.discoveryOf readings).candidates).Nodup ∧
      ∀ p ∈ (m.discoveryOf readings).errors.map Prod.fst ++ (m.discoveryOf readings).candidates,
        p ∈ readings.map Prod.fst := by
  have hselected : (m.selector.select
      (readings.filterMap fun r => r.2.toOption.map (r.1, ·))).Sublist
      ((readings.filterMap fun r => r.2.toOption.map (r.1, ·)).map Prod.fst) :=
        List.filter_sublist.map _
  have hperm := (List.mergeSort_perm
    (m.selector.select (readings.filterMap fun r => r.2.toOption.map (r.1, ·)))
    Path.le).append_left ((m.discoveryOf readings).errors.map Prod.fst)
  have hsublist := hselected.append_left ((m.discoveryOf readings).errors.map Prod.fst)
  have hread := m.perm_readings readings
  exact ⟨hperm.nodup_iff.mpr ((hread.nodup_iff.mpr hnodup).sublist hsublist),
    fun p hp => hread.mem_iff.mp (hsublist.subset (hperm.mem_iff.mp hp))⟩

/-- Discovering changes no file. The files that fail and the candidates are files that the migration
reads, each once. -/
theorem discover_finds (hw : w.tree.WellFormed) {r : Except WalkError Discovery}
    (hrun : m.discover.run.run w = (r, w')) :
    w'.tree = w.tree ∧ w'.faults = w.faults ∧
      ∀ d, r = .ok d → (d.errors.map Prod.fst ++ d.candidates).Nodup ∧
        ∀ p ∈ d.errors.map Prod.fst ++ d.candidates, ∃ k, m.Reads w.tree p k := by
  unfold discover listFiles at hrun
  rw [Attempt.run_bind, Attempt.run_bind] at hrun
  have hwalk : (Attempt.orFail (Action.ask (.walk m.root)) (WalkError.mk m.root)).run.run w =
      ((w.tree.walk m.root).mapError (WalkError.mk m.root), w) := rfl
  rw [hwalk] at hrun
  cases hpaths : w.tree.walk m.root with
  | error e =>
      simp only [hpaths, Except.mapError] at hrun
      cases hrun
      exact ⟨rfl, rfl, by simp⟩
  | ok paths =>
      simp only [hpaths, Except.mapError, Attempt.run_pure] at hrun
      obtain ⟨hnodup, hsources⟩ := FileTree.walk_spec hw hpaths
      rw [Attempt.run_bind, Attempt.run_always] at hrun
      obtain ⟨htree, hfaults, hread⟩ := readAll_tree
        ((paths.filter (hasExtension m.swap.spec.extensions)).filter
          fun p => !m.selector.isExcluded p) w
      generalize (readAll ((paths.filter (hasExtension m.swap.spec.extensions)).filter
        fun p => !m.selector.isExcluded p)).run w = result at hrun htree hfaults hread
      obtain ⟨readings, w₁⟩ := result
      simp only [Attempt.run_pure] at hrun
      cases hrun
      refine ⟨htree, hfaults, fun d hd => ?_⟩
      cases hd
      have hdistinct : (readings.map Prod.fst).Nodup := by
        rw [hread]
        exact (hnodup.filter _).filter _
      obtain ⟨honce, hmem⟩ := m.discoveryOf_spec hdistinct
      refine ⟨honce, fun p hp => ?_⟩
      have hp := hmem p hp
      rw [hread] at hp
      obtain ⟨hp, hexcluded⟩ := List.mem_filter.mp hp
      obtain ⟨hp, hextension⟩ := List.mem_filter.mp hp
      obtain ⟨k, hk⟩ := hsources p hp
      exact ⟨k, hk, hextension, by simpa using hexcluded⟩

theorem discover_reads (hw : w.tree.WellFormed) {r : Except WalkError Discovery}
    (hrun : m.discover.run.run w = (r, w')) :
    w'.tree = w.tree ∧ w'.faults = w.faults ∧
      ∀ d, r = .ok d → d.candidates.Nodup ∧ ∀ p ∈ d.candidates, ∃ k,
        m.Reads w.tree p k := by
  obtain ⟨htree, hfaults, hreads⟩ := discover_finds hw hrun
  refine ⟨htree, hfaults, fun d hd => ?_⟩
  obtain ⟨hnodup, hmem⟩ := hreads d hd
  exact ⟨(List.nodup_append.mp hnodup).2.1, fun p hp => hmem p (List.mem_append_right _ hp)⟩

/-- A migration fails before it writes, or ends with what is kept. -/
theorem run_keeps (hw : w.tree.WellFormed) (h : m.IsKept w.tree Holds) (hstart : Holds [] journal w)
    {r : Except WalkError (Report × Option Journal)}
    (hrun : (m.run ⟨true, format⟩ journal).run.run w = (r, w')) :
    (∃ e, r = .error e ∧ w'.tree = w.tree) ∨
      ∃ report journal' done, r = .ok (report, journal') ∧ Holds done journal' w' := by
  unfold run at hrun
  rw [Attempt.run_bind] at hrun
  cases hdiscover : m.discover.run.run w with
  | mk found w₁ =>
      obtain ⟨htree, hfaults, hcandidates⟩ := discover_reads hw hdiscover
      rw [hdiscover] at hrun
      cases found with
      | error e =>
          cases hrun
          exact .inl ⟨e, rfl, htree⟩
      | ok d =>
          obtain ⟨hnodup, hreads⟩ := hcandidates d rfl
          simp only at hrun
          rw [Attempt.run_bind, Attempt.run_always] at hrun
          cases hrun
          have hw₁ := h.congr hstart htree hfaults
          exact .inr ⟨_, _, [] ++ d.candidates, rfl,
            migrateAll_keeps h hreads (by simpa using hnodup) hw₁⟩

/-! ## With a journal -/

open RunStore

variable {s : RunStore} {ids : List String} {id : String} {Good : List Change → FileTree → Prop}
  {j : Journal}

/-- What writing a file does: a backup is kept, and then the file is written and joins the journal,
or nothing else is changed. -/
theorem writeFile_cases {x y : Text} {r : Except FileFailure (Option Journal)}
    (h : j.store.Unlinked j.runId w.tree) (hid : Run.IsId j.runId)
    (hrun : (writeFile (some j) p x y).run.run w = (r, w')) :
    ∃ w₁, j.store.Kept (· = [j.runId, (backupName p).text]) (· = [j.runId]) w w₁ ∧
      Frame Anywhere (j.store.MakesWay w.tree j.runId) w.tree w₁.tree ∧
      ((∃ f, r = .error f ∧ w' = w₁) ∨
        ∃ k, j.store.BackedUp w₁.tree j.runId (backupName p) x ∧
          w₁.tree.resolve true p = .ok k ∧
          p.text.toList.getLast? ≠ some '/' ∧ w₁.tree.get? k ≠ some .folder ∧
          (∀ q, w₁.tree.get? k ≠ some (.link q)) ∧
          (w₁.tree.put k (.file y.toBytes)).WellFormed ∧
          r = .ok (some (j.commit ⟨p, x.hash, y.hash, backupName p⟩)) ∧
          w' = { w₁ with tree := w₁.tree.put k (.file y.toBytes) }) := by
  unfold writeFile Journal.backup at hrun
  simp only at hrun
  rw [Attempt.run_bind, Attempt.run_adapt, Attempt.run_bind] at hrun
  cases hsave : (j.store.saveBackup j.runId p x).run.run w with
  | mk res w₁ =>
    obtain ⟨hkept, hbackup⟩ := saveBackup_spec h hid hsave
    have hfolders := saveBackup_folders h.wellFormed hid hsave
    rw [hsave] at hrun
    refine ⟨w₁, hkept, hfolders, ?_⟩
    cases res with
    | error e =>
        cases hrun
        exact .inl ⟨_, rfl, rfl⟩
    | ok name =>
        obtain ⟨rfl, hbackup⟩ := hbackup name rfl
        simp only [Attempt.run_pure, Except.mapError] at hrun
        rw [Attempt.run_bind, Attempt.run_writeSource] at hrun
        by_cases hrefused : w₁.faults.unwritable.contains p = true
        · rw [if_pos hrefused] at hrun
          cases hrun
          exact .inl ⟨_, rfl, rfl⟩
        · rw [if_neg hrefused] at hrun
          rcases FileTree.write_cases hkept.wellFormed p y.toBytes with ⟨e, herror⟩ |
            ⟨k, hk, hslash, hfolder, hlink, hwrite, hwf⟩
          · rw [herror] at hrun
            cases hrun
            exact .inl ⟨_, rfl, rfl⟩
          · rw [hwrite] at hrun
            cases hrun
            exact .inr ⟨k, hbackup, hk, hslash, hfolder, hlink, hwf, rfl, rfl⟩

/-- What the changes in a journal and the tree keep while a migration goes on that began at `t`:
when a backup is kept, and when a file is written and joins the journal. -/
structure IsJournalKept (m : Migration) (s : RunStore) (ids : List String) (id : String)
    (t : FileTree) (Good : List Change → FileTree → Prop) : Prop where
  guarded : ∀ {changes u}, Good changes u → s.Guarded ids u
  leadOf : ∀ {changes u}, Good changes u → ∀ p, u.leadOf p = t.leadOf p
  same : ∀ {changes u p k}, Good changes u → m.Reads t p k → p ∉ changes.map Change.path →
    ∀ b, u.get? k = some (.file b) ↔ t.get? k = some (.file b)
  backup : ∀ {changes w w' p k}, Good changes w.tree → m.Reads t p k →
    p ∉ changes.map Change.path → s.Kept (· = [id, (backupName p).text]) (· = [id]) w w' →
    Frame Anywhere (s.MakesWay w.tree id) w.tree w'.tree → Good changes w'.tree
  commit : ∀ {changes u p k x y}, Good changes u → m.Reads t p k →
    p ∉ changes.map Change.path →
    t.get? k = some (.file x.toBytes) → y ≠ x → s.BackedUp u id (backupName p) x →
      u.resolve true p = .ok k →
    p.text.toList.getLast? ≠ some '/' → u.get? k ≠ some .folder →
      (∀ q, u.get? k ≠ some (.link q)) →
    (u.put k (.file y.toBytes)).WellFormed →
    Good (changes ++ [⟨p, x.hash, y.hash, backupName p⟩]) (u.put k (.file y.toBytes))

/-- What holds of a migration with a journal, once it has gone through some paths. -/
structure Journals (s : RunStore) (id : String) (Good : List Change → FileTree → Prop)
    (done : List Path) (journal : Option Journal) (w : World) : Prop where
  journal : ∃ j, journal = some j ∧ j.store = s ∧ j.runId = id ∧ Good j.changes w.tree ∧
    ∀ c ∈ j.changes, c.path ∈ done
  faults : w.faults.AreHonest

/-- Writing a file keeps what the journal keeps, whether or not it succeeds. -/
theorem IsJournalKept.writeFile (h : m.IsJournalKept s ids id t Good)
    (hids : ∀ id ∈ ids, Run.IsId id) (hid : id ∈ ids) (ht : t.WellFormed) (hp : m.Reads t p k)
    (hnew : p ∉ done) (hw : Journals s id Good done journal w) {x y : Text}
    (hx : w.tree.read p = .ok x.toBytes) (hne : y ≠ x) :
    Journals s id Good (done ++ [p]) (concluded journal ((writeFile journal p x y).run.run w).1).2
      ((writeFile journal p x y).run.run w).2 := by
  obtain ⟨⟨j, rfl, rfl, rfl, hgood, hdone⟩, hfaults⟩ := hw
  have hfresh : p ∉ j.changes.map Change.path := by
    intro hmem
    obtain ⟨c, hc, rfl⟩ := List.mem_map.mp hmem
    exact hnew (hdone c hc)
  have hlead : ∀ {changes u k'}, Good changes u → u.resolve true p = .ok k' → k' = k := by
    intro changes u k' hu hk'
    have hlead := FileTree.leadOf_of_resolve hk'
    rw [h.leadOf hu, hp.1.leadOf ht] at hlead
    exact (Option.some.inj hlead).symm
  cases hrun : (Migration.writeFile (some j) p x y).run.run w with
  | mk r w₂ =>
    obtain ⟨w₁, hkept, hway, ⟨f, rfl, rfl⟩ |
      ⟨k', hbackup, hk', hslash, hfolder, hlink, hwf, rfl, rfl⟩⟩ :=
      writeFile_cases ((h.guarded hgood).unlinked hid) (hids _ hid) hrun
    · exact ⟨⟨j, rfl, rfl, rfl, h.backup hgood hp hfresh hkept hway,
        fun c hc => List.mem_append_left _ (hdone c hc)⟩, hkept.faults ▸ hfaults⟩
    · have hgood₁ := h.backup hgood hp hfresh hkept hway
      obtain rfl := hlead hgood₁ hk'
      obtain ⟨k, hk, hfile⟩ := FileTree.read_eq_ok hx
      obtain rfl := hlead hgood hk
      have hbefore := (h.same hgood hp hfresh _).mp hfile
      refine ⟨⟨_, rfl, rfl, rfl,
        h.commit hgood₁ hp hfresh hbefore hne hbackup hk' hslash hfolder hlink hwf,
        fun c hc => ?_⟩, hkept.faults ▸ hfaults⟩
      rcases List.mem_append.mp hc with hc | hc
      · exact List.mem_append_left _ (hdone c hc)
      · obtain rfl := List.mem_singleton.mp hc
        exact List.mem_append_right _ List.mem_cons_self

theorem IsJournalKept.isKept (h : m.IsJournalKept s ids id t Good)
    (hids : ∀ id ∈ ids, Run.IsId id) (hid : id ∈ ids) (ht : t.WellFormed) :
    m.IsKept t (Journals s id Good) where
  honest := Journals.faults
  congr := by
    rintro done journal w w' ⟨⟨j, hj, hstore, hrun, hgood, hdone⟩, hhonest⟩ htree hfaults
    exact ⟨⟨j, hj, hstore, hrun, htree ▸ hgood, hdone⟩, hfaults ▸ hhonest⟩
  skip := by
    rintro done journal w p k - - ⟨⟨j, hj, hstore, hrun, hgood, hdone⟩, hhonest⟩
    exact ⟨⟨j, hj, hstore, hrun, hgood, fun c hc => List.mem_append_left _ (hdone c hc)⟩,
      hhonest⟩
  write := fun hp hnew hw hx hne => h.writeFile hids hid ht hp hnew hw hx hne

/-- A migration with a new journal fails before it writes, or ends with what the journal keeps. -/
theorem IsJournalKept.run (h : m.IsJournalKept j.store ids j.runId w.tree Good)
    (hids : ∀ id ∈ ids, Run.IsId id) (hid : j.runId ∈ ids) (hfaults : w.faults.AreHonest)
    (hnone : j.changes = []) (hstart : Good [] w.tree)
    {r : Except WalkError (Report × Option Journal)}
    (hrun : (m.run ⟨true, format⟩ (some j)).run.run w = (r, w')) :
    (∃ e, r = .error e ∧ w'.tree = w.tree) ∨
      ∃ report j', r = .ok (report, some j') ∧ j'.store = j.store ∧ j'.runId = j.runId ∧
        Good j'.changes w'.tree := by
  have hwf := (h.guarded hstart).wellFormed
  have hjournals : Journals j.store j.runId Good [] (some j) w :=
    ⟨⟨j, rfl, rfl, rfl, hnone ▸ hstart, by simp [hnone]⟩, hfaults⟩
  rcases run_keeps hwf (h.isKept hids hid hwf) hjournals hrun with herror |
    ⟨report, journal, done, rfl, hdone⟩
  · exact .inl herror
  · obtain ⟨j', rfl, hstore, hrunId, hgood, -⟩ := hdone.journal
    exact .inr ⟨report, j', rfl, hstore, hrunId, hgood⟩

end Migration

end Rewrap
