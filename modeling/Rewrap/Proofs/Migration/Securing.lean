import Rewrap.Proofs.Migration.Recording
import Rewrap.Proofs.Migration.Steps
import Rewrap.Proofs.Migration.Undoing

/-! # Backups before writes

A migration can be stopped at any point. By then it has written some of its candidates, each once,
and has kept the text that it read from each of them as a backup before; all other source files are
as they were. -/

namespace Rewrap

open FileTree (Frame Nowhere Anywhere)

variable {s : RunStore} {id : String} {t : FileTree} {m : Migration}

/-! ## Backups and source files -/

/-- No link stands where the backups of a run are kept, and none of the files that the migration
reads is one of them. -/
structure RunStore.KeepsClear (s : RunStore) (id : String) (m : Migration)
    (t : FileTree) : Prop where
  unlinked : s.Unlinked id t
  apart : ∀ p k, m.Reads t p k → ¬s.Below t (IsBackup id) k

/-- Where nothing stands no file can be in the way. -/
theorem RunStore.IsFresh.keepsClear (h : s.IsFresh id t) (ht : t.WellFormed) :
    s.KeepsClear id m t where
  unlinked := h.unlinked ht
  apart := by
    rintro p k ⟨⟨R, names, b, -, -, -, hb⟩, -⟩ ⟨S, r, hS, ⟨n, rfl⟩, rfl⟩
    rw [h.get?_eq_none ht hS] at hb
    cases hb

namespace Migration

/-- The backups of the files that a migration reads have different names. -/
def NamesApart (m : Migration) (t : FileTree) : Prop :=
  ∀ p q k k', m.Reads t p k → m.Reads t q k' →
    RunStore.backupName p = RunStore.backupName q → p = q

/-! ## What holds at each point -/

/-- What holds at a point of a migration that has gone through some paths since it discovered them:
each file that it has written was read once, and what was read is kept; no other file has changed,
but for backups. -/
structure Secured (m : Migration) (s : RunStore) (id : String) (t : FileTree) (start : World)
    (done : List Path) (past : List Request) (w : World) : Prop where
  here : start.after past = w
  wellFormed : w.tree.WellFormed
  frame : Frame (fun k => s.Below t (RunStore.IsBackup id) k ∨ ∃ p ∈ Request.written past,
    t.leadOf p = some k)
    Anywhere t w.tree
  nodup : (Request.written past).Nodup
  source : ∀ p ∈ done, ∃ k, m.Reads t p k
  read : ∀ e ∈ start.readings past, e.1 ∈ done
  kept : ∀ p ∈ Request.written past, p ∈ done ∧
    ∃ x, (∀ y, (p, y) ∈ start.readings past ↔ y = .ok x) ∧
      s.BackedUp w.tree id (RunStore.backupName p) x

section

variable {start w : World} {done : List Path} {past : List Request} {p : Path} {k : Place}

theorem Secured.init (ht : start.tree = t) (hwf : t.WellFormed) :
    m.Secured s id t start [] [] start where
  here := rfl
  wellFormed := ht ▸ hwf
  frame := ht ▸ .refl _ _ _
  nodup := List.nodup_nil
  source := by simp
  read := by simp [World.readings]
  kept := by simp [Request.written]

theorem Secured.next (h : m.Secured s id t start done past w) (hp : m.Reads t p k) :
    m.Secured s id t start (done ++ [p]) past w where
  here := h.here
  wellFormed := h.wellFormed
  frame := h.frame
  nodup := h.nodup
  source := by
    intro q hq
    rcases List.mem_append.mp hq with hq | hq
    · exact h.source q hq
    · obtain rfl := List.mem_singleton.mp hq
      exact ⟨k, hp⟩
  read := fun e he => List.mem_append_left _ (h.read e he)
  kept := fun q hq => ⟨List.mem_append_left _ (h.kept q hq).1, (h.kept q hq).2⟩

/-- A file was read and has not been written yet. -/
structure Opened (m : Migration) (s : RunStore) (id : String) (t : FileTree) (start : World)
    (done : List Path) (p : Path) (x : Text) (past : List Request) (w : World) : Prop where
  secured : m.Secured s id t start done past w
  mem : p ∈ done
  new : p ∉ Request.written past
  once : ∀ y, (p, y) ∈ start.readings past ↔ y = .ok x

theorem Secured.read_source (h : m.Secured s id t start done past w) (hp : m.Reads t p k)
    (hnew : p ∉ done) :
    m.Secured s id t start (done ++ [p]) (past ++ [.readSource p]) (w.reply (.readSource p)).2 ∧
      ∀ x, w.source p = .ok x →
        m.Opened s id t start (done ++ [p]) p x (past ++ [.readSource p])
        (w.reply (.readSource p)).2 := by
  have hwritten : Request.written (past ++ [.readSource p]) = Request.written past := by
    simp [Request.written, Request.written?]
  have hreadings : start.readings (past ++ [.readSource p]) =
      start.readings past ++ [(p, w.source p)] := by
    simp [World.readings_append, World.readings, h.here, Action.readingOf]
  have hnext := h.next hp
  have hsecured : m.Secured s id t start (done ++ [p]) (past ++ [.readSource p])
      (w.reply (.readSource p)).2 := by
    refine ⟨by rw [World.after_append, h.here]; rfl, h.wellFormed, hwritten ▸ h.frame,
      hwritten ▸ h.nodup, hnext.source, ?_, ?_⟩
    · rw [hreadings]
      intro e he
      rcases List.mem_append.mp he with he | he
      · exact hnext.read e he
      · obtain rfl := List.mem_singleton.mp he
        exact List.mem_append_right _ List.mem_cons_self
    · rw [hwritten, hreadings]
      intro q hq
      obtain ⟨hdone, x, hx, hbackup⟩ := h.kept q hq
      refine ⟨List.mem_append_left _ hdone, x, fun y => ?_, hbackup⟩
      have hne : q ≠ p := fun heq => hnew (heq ▸ hdone)
      simp [hx y, hne]
  refine ⟨hsecured, fun x hx => ⟨hsecured, List.mem_append_right _ List.mem_cons_self,
    ?_, fun y => ?_⟩⟩
  · rw [hwritten]
    exact fun hmem => hnew (h.kept p hmem).1
  · have hunread : (p, y) ∉ start.readings past := fun hmem => hnew (h.read _ hmem)
    simp [hreadings, hunread, hx]

/-- A request that is not about source files, and changes only backups that are not kept yet. -/
theorem Opened.step {x : Text} (h : m.Opened s id t start done p x past w) {r : Request}
    (hread : Action.readingOf w r = []) (hwritten : r.written? = none)
    (hwf : (w.reply r).2.tree.WellFormed) {files : Place → Prop}
    (hframe : Frame files Anywhere w.tree (w.reply r).2.tree)
    (hfiles : ∀ k, files k → s.Below t (RunStore.IsBackup id) k)
    (hkept : ∀ q ∈ Request.written past, ∀ x,
      s.BackedUp w.tree id (RunStore.backupName q) x →
        s.BackedUp (w.reply r).2.tree id (RunStore.backupName q) x) :
    m.Opened s id t start done p x (past ++ [r]) (w.reply r).2 := by
  have hsame : Request.written (past ++ [r]) = Request.written past := by
    simp [Request.written, hwritten]
  have hreadings : start.readings (past ++ [r]) = start.readings past := by
    simp [World.readings_append, World.readings, h.secured.here, hread]
  refine ⟨⟨by rw [World.after_append, h.secured.here]; rfl, hwf, ?_, hsame ▸ h.secured.nodup,
    h.secured.source,
    hreadings ▸ h.secured.read, ?_⟩, h.mem, hsame ▸ h.new, hreadings ▸ h.once⟩
  · rw [hsame]
    exact h.secured.frame.trans (hframe.mono (fun k hk => .inl (hfiles k hk)) fun _ hk => hk)
  · rw [hsame, hreadings]
    intro q hq
    obtain ⟨hdone, x, hx, hbackup⟩ := h.secured.kept q hq
    exact ⟨hdone, x, hx, hkept q hq x hbackup⟩

theorem Secured.unlinked (h : m.Secured s id t start done past w) (hclear : s.KeepsClear id m t) :
    s.Unlinked id w.tree :=
  hclear.unlinked.frame h.wellFormed h.frame

theorem Opened.print {x : Text} (h : m.Opened s id t start done p x past w) (shown : String) :
    m.Opened s id t start done p x (past ++ [.print shown]) (w.reply (.print shown)).2 :=
  h.step rfl rfl h.secured.wellFormed (.refl Nowhere _ _) (fun _ hk => hk.elim)
    fun _ _ _ hbackup => hbackup

theorem Opened.createFolders {x : Text} (h : m.Opened s id t start done p x past w)
    (hclear : s.KeepsClear id m t) (hid : Run.IsId id) (q : Path) :
    m.Opened s id t start done p x (past ++ [.createFolders q]) (w.reply (.createFolders q)).2 := by
  obtain ⟨hwf, hframe⟩ := (FileTree.createFolders_spec h.secured.wellFormed q).1
  refine h.step rfl rfl hwf hframe (fun _ hk => hk.elim) fun q _ x hbackup => ?_
  exact hbackup.frame (h.secured.unlinked hclear) (RunStore.isName_of_isId hid)
    (RunStore.isName_backupName q)
    hframe fun _ _ hno => hno

theorem Opened.writeBackup {x : Text} (h : m.Opened s id t start done p x past w)
    (hclear : s.KeepsClear id m t) (hid : Run.IsId id) (hnames : m.NamesApart t) (b : ByteArray) :
    m.Opened s id t start done p x
      (past ++ [.write ((s.backupFolder id).join (RunStore.backupName p)) b])
      (w.reply (.write ((s.backupFolder id).join (RunStore.backupName p)) b)).2 := by
  have hunlinked := h.secured.unlinked hclear
  have hkept : s.Kept (· = [id, (RunStore.backupName p).text]) Nowhere w
      (w.reply (.write ((s.backupFolder id).join (RunStore.backupName p)) b)).2 :=
    RunStore.Kept.writeBackup hunlinked hid p b
  refine h.step rfl rfl hkept.wellFormed
    (hkept.frame.mono (fun _ hk => hk) fun _ _ => trivial) ?_ ?_
  · exact fun k hk => ((RunStore.Below.frame h.secured.frame).mp hk).mono fun r hr => ⟨_, hr⟩
  · intro q hq x hbackup
    refine hbackup.frame hunlinked (RunStore.isName_of_isId hid) (RunStore.isName_backupName q)
      hkept.frame fun S hS hbelow => ?_
    have heq := (RunStore.below_append hS).mp hbelow
    simp only [List.cons.injEq, and_true, true_and] at heq
    obtain ⟨k, hk⟩ := h.secured.source q (h.secured.kept q hq).1
    obtain ⟨k', hk'⟩ := h.secured.source p h.mem
    exact h.new (hnames _ _ _ _ hk hk' (congrArg Path.mk heq) ▸ hq)

/-- A file is written whose backup is kept. -/
theorem Opened.writeSource {x : Text} (h : m.Opened s id t start done p x past w)
    (hclear : s.KeepsClear id m t) (ht : t.WellFormed) (hid : Run.IsId id)
    (hbackup : s.BackedUp w.tree id (RunStore.backupName p) x) (y : Text) :
    m.Secured s id t start done (past ++ [.writeSource p y]) (w.reply (.writeSource p y)).2 := by
  obtain ⟨k, hp⟩ := h.secured.source p h.mem
  have hwritten : Request.written (past ++ [.writeSource p y]) = Request.written past ++ [p] := by
    simp [Request.written, Request.written?]
  have hreadings : start.readings (past ++ [.writeSource p y]) = start.readings past := by
    simp [World.readings_append, World.readings, Action.readingOf]
  have hlead : w.tree.leadOf p = some k := (h.secured.frame.leadOf p).trans (hp.1.leadOf ht)
  obtain ⟨hwf, hframe⟩ := World.frame_writeSource h.secured.wellFormed hlead y
  have hstays : ∀ q x, s.BackedUp w.tree id (RunStore.backupName q) x →
      s.BackedUp (w.reply (.writeSource p y)).2.tree id (RunStore.backupName q) x := by
    intro q x hx
    refine hx.frame (h.secured.unlinked hclear) (RunStore.isName_of_isId hid)
      (RunStore.isName_backupName q)
      hframe fun S hS heq => ?_
    rw [h.secured.frame.leadOf] at hS
    exact hclear.apart p k hp ⟨S, _, hS, ⟨_, rfl⟩, heq.symm⟩
  refine ⟨by rw [World.after_append, h.secured.here]; rfl, hwf, ?_, ?_, h.secured.source,
    hreadings ▸ h.secured.read, ?_⟩
  · rw [hwritten]
    refine (h.secured.frame.mono (fun k' hk' => hk'.imp_right ?_) fun _ hk => hk).trans
      (hframe.mono ?_ fun _ hk => hk.elim)
    · rintro ⟨q, hq, hlead⟩
      exact ⟨q, List.mem_append_left _ hq, hlead⟩
    · rintro _ rfl
      exact .inr ⟨p, List.mem_append_right _ List.mem_cons_self, hp.1.leadOf ht⟩
  · rw [hwritten, ← List.concat_eq_append]
    exact h.secured.nodup.concat h.new
  · rw [hwritten, hreadings]
    intro q hq
    rcases List.mem_append.mp hq with hq | hq
    · obtain ⟨hdone, x, hx, hkept⟩ := h.secured.kept q hq
      exact ⟨hdone, x, hx, hstays q x hkept⟩
    · obtain rfl := List.mem_singleton.mp hq
      exact ⟨h.mem, x, h.once, hstays q x hbackup⟩

/-! ## One file after the other -/

variable {j : Journal}

theorem Opened.along_saveBackup {x : Text} (h : m.Opened j.store j.runId t start done p x past w)
    (hclear : j.store.KeepsClear j.runId m t) (hid : Run.IsId j.runId) (hnames : m.NamesApart t) :
    (j.store.saveBackup j.runId p x).run.Along
      (m.Opened j.store j.runId t start done p x) past w := by
  have hfolders := h.createFolders hclear hid (j.store.backupFolder j.runId)
  unfold RunStore.saveBackup
  refine Attempt.along_bind ((Attempt.along_orFail _ _).mpr ⟨h, hfolders⟩)
    fun _ w₁ _ hpoint => ?_
  have hwrite := hpoint.writeBackup hclear hid hnames x.toBytes
  exact Attempt.along_bind ((Attempt.along_orFail _ _).mpr ⟨hpoint, hwrite⟩)
    fun _ w₂ _ hend => hend

/-- At each point of writing a file the backups are kept. -/
theorem Opened.along_writeFile {x : Text} (h : m.Opened j.store j.runId t start done p x past w)
    (hclear : j.store.KeepsClear j.runId m t) (ht : t.WellFormed) (hid : Run.IsId j.runId)
    (hnames : m.NamesApart t) (y : Text) :
    (writeFile (some j) p x y).run.Along (m.Secured j.store j.runId t start done) past w := by
  have hsave := h.along_saveBackup hclear hid hnames
  have hbackup : (j.backup p x y).run.Along (m.Opened j.store j.runId t start done p x) past w :=
    Attempt.along_bind hsave fun _ _ _ hpoint => hpoint
  unfold writeFile
  refine Attempt.along_bind
    ((Attempt.along_adapt _ _).mpr (hbackup.mono fun _ _ hpoint => hpoint.secured))
    fun c w₁ hrun _ => ?_
  have hopened := ((Attempt.along_adapt (j.backup p x y) FileFailure.notBackedUp).mpr
    hbackup).finish
  rw [hrun] at hopened
  rw [Attempt.run_adapt] at hrun
  obtain ⟨name, w₂, hrunSave, hrunDone⟩ :=
    Attempt.bind_eq_ok
      (Prod.ext (Except.mapError_eq_ok.mp (Prod.mk.inj hrun).1) (Prod.mk.inj hrun).2)
  cases hrunDone
  obtain ⟨-, hkept⟩ := RunStore.saveBackup_spec (h.secured.unlinked hclear) hid hrunSave
  obtain ⟨rfl, hkept⟩ := hkept name rfl
  have hwritten := hopened.writeSource hclear ht hid hkept y
  exact Attempt.along_bind ((Attempt.along_orFail _ _).mpr ⟨hopened.secured, hwritten⟩)
    fun _ _ _ hend => hend

/-- A file that was written joins the journal. -/
theorem writeFile_journal {x y : Text} {journal : Option Journal}
    (h : ((writeFile (some j) p x y).run.run w).1 = .ok journal) :
    ∃ name, journal = some (j.commit ⟨p, x.hash, y.hash, name⟩) := by
  obtain ⟨c, w₁, hbackup, hwrite⟩ := Attempt.bind_eq_ok (Prod.ext h rfl)
  obtain ⟨_, w₂, -, hdone⟩ := Attempt.bind_eq_ok hwrite
  rw [Attempt.run_adapt] at hbackup
  obtain ⟨name, w₃, -, hchange⟩ :=
    Attempt.bind_eq_ok
      (Prod.ext (Except.mapError_eq_ok.mp (Prod.mk.inj hbackup).1) (Prod.mk.inj hbackup).2)
  cases hchange
  cases hdone
  exact ⟨name, rfl⟩

/-- At each point of migrating a file the backups are kept. -/
theorem Secured.along_migrateFile (h : m.Secured j.store j.runId t start done past w)
    (hclear : j.store.KeepsClear j.runId m t) (ht : t.WellFormed) (hid : Run.IsId j.runId)
    (hnames : m.NamesApart t) (hp : m.Reads t p k) (hnew : p ∉ done) (format : PreviewFormat) :
    (m.migrateFile ⟨true, format⟩ (some j) p).Along
        (m.Secured j.store j.runId t start (done ++ [p])) past w ∧
      ∃ j', ((m.migrateFile ⟨true, format⟩ (some j) p).run w).1.2.2 = some j' ∧
        j'.store = j.store ∧ j'.runId = j.runId := by
  obtain ⟨hsecured, hopened⟩ := h.read_source hp hnew
  have hrest : (m.useReading ⟨true, format⟩ (some j) p (w.source p)).Along
      (m.Secured j.store j.runId t start (done ++ [p])) (past ++ [.readSource p])
        (w.reply (.readSource p)).2 ∧
      ∃ j', ((m.useReading ⟨true, format⟩ (some j) p (w.source p)).run
          (w.reply (.readSource p)).2).1.2.2 =
        some j' ∧ j'.store = j.store ∧ j'.runId = j.runId := by
    rcases m.useReading_cases p (w.source p) with ⟨outcome, -, huse⟩ |
      ⟨x, r, hx, -, -, huse⟩
    · rw [huse]
      exact ⟨hsecured, j, rfl, rfl, rfl⟩
    · have hprint := (hopened x hx).print (format.preview (m.relative p) x r.text).1
      have hwrite := hprint.along_writeFile hclear ht hid hnames r.text
      rw [huse]
      unfold makeChange
      simp only [if_true, Action.along_bind, Action.run_bind]
      refine ⟨⟨⟨(hopened x hx).secured, hprint.secured⟩, hwrite, hwrite.finish⟩, ?_⟩
      cases hrun : ((writeFile (some j) p x r.text).run.run _).1 with
      | error f => exact ⟨j, rfl, rfl, rfl⟩
      | ok journal =>
          obtain ⟨name, rfl⟩ := writeFile_journal hrun
          exact ⟨_, rfl, rfl, rfl⟩
  rw [run_migrateFile, migrateFile_eq, Action.along_bind, and_assoc]
  exact ⟨⟨h.next hp, hsecured⟩, hrest⟩

/-- At each point of migrating files one after the other the backups are kept. -/
theorem Secured.along_migrateAll (h : m.Secured j.store j.runId t start done past w)
    (format : PreviewFormat) {ps : List Path} (progress : Progress)
    (hjournal : progress.journal = some j) (hclear : j.store.KeepsClear j.runId m t)
    (ht : t.WellFormed) (hid : Run.IsId j.runId) (hnames : m.NamesApart t)
    (hps : ∀ p ∈ ps, ∃ k, m.Reads t p k) (hnodup : (done ++ ps).Nodup) :
    (m.migrateAll ⟨true, format⟩ progress ps).Along
      (fun past w => ∃ done', done' ⊆ done ++ ps ∧
        m.Secured j.store j.runId t start done' past w) past w := by
  induction ps generalizing done progress j past w with
  | nil => exact ⟨done, List.subset_append_left _ _, h⟩
  | cons p ps ih =>
      obtain ⟨k, hp⟩ := hps p List.mem_cons_self
      have hnew : p ∉ done := fun hmem =>
        (List.nodup_append.mp hnodup).2.2 p hmem p List.mem_cons_self rfl
      obtain ⟨hfile, j', hj', hstore, hrunId⟩ :=
        h.along_migrateFile hclear ht hid hnames hp hnew format
      have hend := hfile.finish
      have hsplit : done ++ p :: ps = (done ++ [p]) ++ ps := by simp
      rw [hsplit] at hnodup ⊢
      unfold migrateAll
      rw [hjournal, Action.along_bind]
      refine ⟨hfile.mono fun _ _ hpoint => ⟨_, List.subset_append_left _ _, hpoint⟩, ?_⟩
      rw [← hstore, ← hrunId] at hclear hend ⊢
      rw [← hrunId] at hid
      exact ih hend _ hj' hclear hid (fun q hq => hps q (List.mem_cons_of_mem _ hq)) hnodup

/-! ## A whole migration -/

theorem along_readAll (ps : List Path) (hw : w.tree = t ∧ Request.written past = []) :
    (readAll ps).Along (fun past w => w.tree = t ∧ Request.written past = []) past w := by
  induction ps generalizing past w with
  | nil => exact hw
  | cons p ps ih =>
      have hnext : Request.written (past ++ [.readSource p]) = [] := by
        simpa [Request.written, Request.written?] using hw.2
      have hrest := ih (w := (w.reply (.readSource p)).2) ⟨hw.1, hnext⟩
      unfold readAll
      rw [Action.along_bind, Action.along_bind]
      exact ⟨⟨hw, hw.1, hnext⟩, hrest, hrest.finish⟩

theorem along_discover (m : Migration) (past : List Request)
    (hw : w.tree = t ∧ Request.written past = []) :
    m.discover.run.Along (fun past w => w.tree = t ∧ Request.written past = []) past w := by
  have hwalk : Request.written (past ++ [.walk m.root]) = [] := by
    simpa [Request.written, Request.written?] using hw.2
  unfold discover listFiles
  refine Attempt.along_bind
    (Attempt.along_bind ((Attempt.along_orFail _ _).mpr ⟨hw, hw.1, hwalk⟩)
    fun _ _ _ hend => hend) fun files w₁ _ hfiles => ?_
  exact Attempt.along_bind ((Attempt.along_always _).mpr (along_readAll _ hfiles))
    fun _ _ _ hend => hend

theorem Secured.filter_written (h : m.Secured s id t start done past w) (ht : t.WellFormed)
    (hp : p ∈ Request.written past) (hk : t.leadOf p = some k) :
    (Request.written past).filter (t.leadOf · = some k) = [p] := by
  have hsource : ∀ q ∈ Request.written past, t.leadOf q = some k → t.IsSource m.root q k := by
    intro q hq hlead
    obtain ⟨k', hreads⟩ := h.source q (h.kept q hq).1
    rw [hreads.1.leadOf ht] at hlead
    cases hlead
    exact hreads.1
  refine List.perm_singleton.mp
    ((List.perm_ext_iff_of_nodup (h.nodup.filter _) (List.nodup_singleton p)).mpr ?_)
  intro q
  rw [List.mem_filter, List.mem_singleton, decide_eq_true_eq]
  constructor
  · rintro ⟨hq, hlead⟩
    exact (hsource q hq hlead).inj (hsource p hp hk)
  · rintro rfl
    exact ⟨hp, hk⟩

/-- A point of two things that are done one after the other lies in the first or in the second. -/
theorem prefix_append_cases {α : Type} {pre as bs : List α} (h : pre <+: as ++ bs) :
    pre <+: as ∨ ∃ mid, pre = as ++ mid ∧ mid <+: bs := by
  rcases List.prefix_or_prefix_of_prefix h (List.prefix_append as bs) with hpre | ⟨mid, rfl⟩
  · exact .inl hpre
  · exact .inr ⟨mid, rfl, (List.prefix_append_right_inj as).mp h⟩

/-- At each point of a migration, a file that is not as it was at the start, and is no backup, is a
candidate. It was written once, no other path was written that leads to it, and its backup holds
what was read from it once since the candidates were discovered. -/
theorem backedUp_of_differsAt {format : PreviewFormat} (hw : w.tree.WellFormed)
    (hid : Run.IsId j.runId) (hfresh : j.store.IsFresh j.runId w.tree)
    (hnames : m.NamesApart w.tree) {pre : List Request}
    (hpre : pre <+: (m.run ⟨true, format⟩ (some j)).run.requests w)
    (hk : ¬j.store.Below w.tree (RunStore.IsBackup j.runId) k)
    (hdiffers : w.tree.DiffersAt (w.after pre).tree k) :
    ∃ d start mid p x, m.discover.run.run w = (.ok d, start) ∧
      pre = m.discover.run.requests w ++ mid ∧
      p ∈ d.candidates ∧ (Request.written pre).filter (w.tree.leadOf · = some k) = [p] ∧
      (∀ y, (p, y) ∈ start.readings mid ↔ y = .ok x) ∧
      j.store.BackedUp (w.after pre).tree j.runId (RunStore.backupName p) x := by
  have hclear : j.store.KeepsClear j.runId m w.tree := hfresh.keepsClear hw
  have hdiscover := along_discover m [] ⟨(rfl : w.tree = w.tree), rfl⟩
  have hunchanged : ∀ pre, pre <+: m.discover.run.requests w →
      ¬w.tree.DiffersAt (w.after pre).tree k := by
    intro pre hpre hdiffers
    rw [(hdiscover.of_prefix hpre).1] at hdiffers
    exact hdiffers rfl
  cases hrun : m.discover.run.run w with
  | mk found start =>
      obtain ⟨htree, -, hcandidates⟩ := discover_reads hw hrun
      cases found with
      | error e =>
          unfold run at hpre
          rw [ExceptT.run_bind, Action.requests_bind, hrun] at hpre
          exact absurd hdiffers (hunchanged pre (by simpa [Action.requests] using hpre))
      | ok d =>
          obtain ⟨hnodup, hreads⟩ := hcandidates d rfl
          obtain ⟨unread, -, -, hrequests, -⟩ :=
            run_of_discover hrun ⟨true, format⟩ (some j)
          rw [hrequests] at hpre
          rcases prefix_append_cases hpre with hpre | ⟨mid, rfl, hmid⟩
          · exact absurd hdiffers (hunchanged pre hpre)
          · have hafter : w.after (m.discover.run.requests w ++ mid) = start.after mid := by
              rw [World.after_append, Action.after_requests, hrun]
            rw [hafter] at hdiffers ⊢
            have halong := (Secured.init htree hw).along_migrateAll format ⟨unread, {}, some j⟩
              rfl hclear hw hid hnames hreads (by simpa using hnodup)
            obtain ⟨done, hdone, hsecured⟩ := halong.of_prefix hmid
            obtain ⟨p, hp, hlead⟩ := (hsecured.frame.of_differsAt hdiffers).resolve_left hk
            obtain ⟨hmem, x, hx, hbackup⟩ := hsecured.kept p hp
            refine ⟨d, start, mid, p, x, rfl, rfl, by simpa using hdone hmem, ?_, hx, hbackup⟩
            have hquiet : Request.written (m.discover.run.requests w) = [] := hdiscover.finish.2
            rw [Request.written_append, hquiet, List.nil_append]
            exact hsecured.filter_written hw hp hlead

end

/-! ## A page and a run -/

theorem journal_guardedRun :
    guardedRun.journal RunStore.beside =
      ⟨RunStore.beside, "e572dff", "migrate", ⟨"/src"⟩, []⟩ := by
  unfold AppliedRun.journal
  rw [guardedRun_id]
  rfl

theorem run_guardedRun :
    ∃ w, (guardedRun.migration.run ⟨true, .quiet⟩
      (some (guardedRun.journal RunStore.beside))).run.run
        { tree := guardedPage } =
        (.ok (⟨false, 1, [(guardedRun.migration.relative ⟨"/src/a.ts"⟩, .migrated)], {},
          none⟩, some ((guardedRun.journal RunStore.beside).commit ⟨⟨"/src/a.ts"⟩,
            Text.hash "import A from 'a'\n<P></P>".toList,
            Text.hash "import B from \"b\";\n<P>\n  <B></B></P>".toList,
              ⟨"1a4f417f2577f9b2-a.ts.orig"⟩⟩)), w) ∧
      w.tree.fileAt? ["src", "a.ts"] =
        some (Text.toBytes "import B from \"b\";\n<P>\n  <B></B></P>".toList) ∧
      ∃ w₁, (((guardedRun.journal RunStore.beside).commit ⟨⟨"/src/a.ts"⟩,
        Text.hash "import A from 'a'\n<P></P>".toList,
        Text.hash "import B from \"b\";\n<P>\n  <B></B></P>".toList,
          ⟨"1a4f417f2577f9b2-a.ts.orig"⟩⟩).finish
          guardedRun.now).run.run w = (.ok (some guardedRun.id), w₁) := by
  rw [journal_guardedRun, guardedRun_id]
  refine ⟨_, run_of_single (Except.pair_of_fst ?_) ?_ guardedRun_apply rfl ?_
    RunStore.backupName_page
    (Except.pair_of_fst ?_) (Except.pair_of_fst ?_) (Except.pair_of_fst ?_), ?_, _,
      Except.pair_of_fst ?_⟩
  all_goals decide +kernel

theorem namesApart_guardedPage : guardedRun.migration.NamesApart guardedPage :=
  fun p q k k' hp hq => apart_guardedPage.names p q k k' hp.1 hq.1

theorem leadOf_beside : guardedPage.leadOf RunStore.beside.folder = some ["s"] := by decide

theorem isFresh_guardedPage : RunStore.beside.IsFresh guardedRun.id guardedPage := by
  have hvacant : guardedPage.get? ["s", "e572dff"] = none := by decide
  intro S hS
  rw [leadOf_beside] at hS
  cases hS
  rw [guardedRun_id]
  exact hvacant

/-- The run on the page writes it and keeps its backup. -/
theorem backedUp_of_differsAt_guardedPage :
    ∃ pre, pre <+: (guardedRun.migration.run ⟨true, .quiet⟩
      (some (guardedRun.journal RunStore.beside))).run.requests
        { tree := guardedPage } ∧
      guardedPage.DiffersAt (World.after { tree := guardedPage } pre).tree ["src", "a.ts"] ∧
      ∃ d start mid p x, guardedRun.migration.discover.run.run { tree := guardedPage } =
          (.ok d, start) ∧
        pre = guardedRun.migration.discover.run.requests { tree := guardedPage } ++ mid ∧
        p ∈ d.candidates ∧
        (Request.written pre).filter (guardedPage.leadOf · = some ["src", "a.ts"]) = [p] ∧
        (∀ y, (p, y) ∈ start.readings mid ↔ y = .ok x) ∧
        RunStore.beside.BackedUp (World.after { tree := guardedPage } pre).tree guardedRun.id
          (RunStore.backupName p) x := by
  have hplain : guardedPage.isPlain = true := by decide
  have hbelow : ¬RunStore.beside.Below guardedPage (RunStore.IsBackup guardedRun.id)
      ["src", "a.ts"] := by
    rintro ⟨S, r, hS, -, heq⟩
    rw [leadOf_beside] at hS
    cases hS
    simp at heq
  have hbefore : guardedPage.fileAt? ["src", "a.ts"] =
      some (Text.toBytes "import A from 'a'\n<P></P>".toList) := by
    decide
  obtain ⟨w, hrun, hafter, -⟩ := run_guardedRun
  have hdiffers : guardedPage.DiffersAt (World.after { tree := guardedPage }
      ((guardedRun.migration.run ⟨true, .quiet⟩
          (some (guardedRun.journal RunStore.beside))).run.requests
        { tree := guardedPage })).tree ["src", "a.ts"] := by
    rw [Action.after_requests, hrun, FileTree.DiffersAt, hbefore, hafter]
    decide
  have hkept := backedUp_of_differsAt (m := guardedRun.migration)
    (j := guardedRun.journal RunStore.beside)
    (w := { tree := guardedPage }) (.of_isPlain hplain) guardedRun.isId_id isFresh_guardedPage
      namesApart_guardedPage
    List.prefix_rfl hbelow hdiffers
  exact ⟨_, List.prefix_rfl, hdiffers, hkept⟩

end Migration

end Rewrap
