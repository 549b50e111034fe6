import Rewrap.Proofs.Action.Trace
import Rewrap.Proofs.FileTree.Plain
import Rewrap.Proofs.FileTree.Walk
import Rewrap.Proofs.Run.Folder
import Rewrap.Run.History
import Rewrap.Run.Journal

/-! # Keeping the runs and the index together

A run is kept in three places: its own file, its entry in the index, and the folder of its backups.
Each operation of the store changes them one after the other. Where nothing fails that the store
asks for in its own folder, the three agree again at the end. -/

namespace Rewrap

/-! ## Entries of an index -/

namespace RunIndex

variable {i : RunIndex} {id : String} {r : Run}

theorem find?_add_of_ne (i : RunIndex) (h : id ≠ r.id) : (i.add r).find? id = i.find? id := by
  have hbeq : (id == r.id) = false := by simpa using h
  unfold find? add insert
  rw [List.lookup_append, lookup_filter_fst i.entries (· != r.id), if_pos (by simpa using h),
    List.lookup_cons, hbeq]
  simp

theorem find?_iff (h : i.IsSound) : i.find? id = some r ↔ (id, r) ∈ i.entries := by
  refine ⟨fun hfind => ?_, FileTree.lookup_of_mem h.nodup⟩
  obtain ⟨before, after, heq, -⟩ := List.lookup_eq_some_iff.mp hfind
  rw [heq]
  exact List.mem_append_right _ List.mem_cons_self

theorem IsSound.filter (h : i.IsSound) (q : String × Run → Bool) :
    IsSound ⟨i.entries.filter q⟩ :=
  ⟨h.nodup.sublist (List.filter_sublist.map _), fun e he => h.valid e (List.mem_filter.mp he).1⟩

theorem find?_filter_iff (h : i.IsSound) (q : Run → Bool) :
    find? ⟨i.entries.filter (q ·.2)⟩ id = some r ↔ i.find? id = some r ∧ q r = true := by
  rw [find?_iff (h.filter _), find?_iff h, List.mem_filter]

/-- Entering some of the runs of an index into an empty one keeps their entries. -/
theorem foldl_add_filter (h : i.IsSound) (hids : ∀ e ∈ i.entries, e.2.id = e.1)
    (q : Run → Bool) : (i.runs.filter q).foldl add empty = ⟨i.entries.filter (q ·.2)⟩ := by
  have hruns : i.runs.filter q = (i.entries.filter (q ·.2)).map Prod.snd := by
    rw [runs, List.filter_map]
    rfl
  have hnodup := (h.filter (q ·.2)).nodup
  rw [hruns, List.foldl_map]
  have hadd : ∀ (es : List (String × Run)) (i' : RunIndex), (∀ e ∈ es, e.2.id = e.1) →
      es.foldl (fun i e => i.add e.2) i' = es.foldl (fun i e => i.insert e.1 e.2) i' := by
    intro es
    induction es with
    | nil => exact fun _ _ => rfl
    | cons e es ih =>
        intro i' hes
        rw [List.foldl_cons, List.foldl_cons, add, hes e List.mem_cons_self]
        exact ih _ fun e' he' => hes e' (List.mem_cons_of_mem _ he')
  rw [hadd _ _ fun e he => hids e (List.mem_filter.mp he).1,
    foldl_insert (by simpa [empty] using hnodup)]
  rfl

end RunIndex

/-! ## Requests that are granted -/

/-- Whether a request to change something at or below a place is fulfilled. Other requests may
fail. -/
def World.Grants (S : Place) (w : World) (r : Request) : Prop :=
  (r.targets.any fun p => (w.tree.leadOf p).any S.isPrefixOf) = true → w.fulfils r = true

instance (S : Place) (w : World) (r : Request) : Decidable (w.Grants S r) :=
  inferInstanceAs (Decidable (_ → _))

theorem World.Grants.fulfils {S k : Place} {w : World} {r : Request} (h : World.Grants S w r)
    {p : Path} (hp : p ∈ r.targets) (hk : w.tree.leadOf p = some k) (hS : S <+: k) :
    w.fulfils r = true := by
  refine h (List.any_eq_true.mpr ⟨p, hp, ?_⟩)
  rw [hk, Option.any_some, List.isPrefixOf_iff_prefix]
  exact hS

theorem World.toBool_writeText {S k : Place} {w : World} {p : Path} {x : Text}
    (h : (Action.writeText p x).Each (World.Grants S) w) (hk : w.tree.leadOf p = some k)
    (hS : S <+: k) : ((Action.writeText p x).run w).1.toBool = true :=
  h.1.fulfils List.mem_cons_self hk hS

namespace RunStore

open FileTree (Frame Nowhere IsInside)

variable {s : RunStore} {S : Place} {ids : List String} {id : String} {t u : FileTree}
  {w w' : World} {changed : Place → Prop}

/-! ## Storing -/

theorem Placed.createFolders_run (h : s.Placed S w.tree)
    (hrun : (Action.ask (.createFolders s.folder)).run w = (.ok (), w')) :
    s.Housed S w'.tree ∧ s.Alters S Nowhere w.tree w'.tree ∧
      (Action.ask (.createFolders s.folder)).run w' = (.ok (), w') := by
  obtain ⟨hmade, rfl⟩ := Prod.mk.inj hrun
  obtain ⟨hhoused, halters⟩ := h.createFolders hmade
  refine ⟨hhoused, halters, ?_⟩
  have hthere := FileTree.createFolders_of_hasFolder hhoused.hasFolder
  exact congrArg (World.changed { w with tree := (w.tree.createFolders s.folder).2 }) hthere

/-- A text is stored if all is granted, whether or not the store's folder is there. -/
theorem store_of_grants (h : s.Placed S w.tree) (hids : ∀ id ∈ ids, Run.IsId id) {name : String}
    (hn : name ∈ fileNames ids) {x : Text}
    (hgrants : (s.store name x).run.Each (World.Grants S) w) :
    ∃ w', (s.store name x).run.run w = (.ok (), w') ∧
      s.Alters S (IsText name) w.tree w'.tree ∧ s.Stores w'.tree name x := by
  obtain ⟨-, hownTmp⟩ := mem_ownNames_of_mem_fileNames hn
  have htmp := isName_of_mem_ownNames hids hownTmp
  unfold store at hgrants
  obtain ⟨w₁, hcreate, hrun₁, hgrants⟩ := Attempt.bind_of_each hgrants fun hcreate =>
    hcreate.1.fulfils List.mem_cons_self h.lead List.prefix_rfl
  obtain ⟨hhoused, halters, hagain⟩ := h.createFolders_run hcreate
  have hplaced : s.Placed S w₁.tree := .inl hhoused
  obtain ⟨w₂, hwrite, hrun₂, hgrants⟩ := Attempt.bind_of_each hgrants fun hwrite =>
    World.toBool_writeText hwrite (hplaced.leadOf_join htmp) (List.prefix_append _ _)
  have hkept₂ : s.Kept (IsText name) Nowhere w₁ w₂ := by
    have hw₂ : w₂ =
        { w₁ with tree := (w₁.tree.write (s.folder.join ⟨temporaryName name⟩) x.toBytes).2 } :=
      (congrArg Prod.snd hwrite).symm
    rcases writeTemporary_spec ((hplaced.guarded ids).direct hids hn) x with ⟨e, herror⟩ |
      ⟨u, hok, hkept, -⟩
    · rw [hw₂, herror]
      exact .refl hplaced.wellFormed
    · rw [hw₂, hok]
      exact hkept
  have hplaced₂ := (hkept₂.alters hhoused).placed
  obtain ⟨w₃, -, hrename⟩ := Attempt.run_of_each hgrants fun hrename =>
    hrename.1.fulfils List.mem_cons_self (hplaced₂.leadOf_join htmp) (List.prefix_append _ _)
  have hstored : (s.store name x).run.run w₁ = (.ok (), w₃) := by
    unfold store
    rw [Attempt.run_bind, Attempt.run_orFail, hagain]
    exact hrun₂.trans hrename
  obtain ⟨hkept, hstores⟩ := store_spec ((hplaced.guarded ids).direct hids hn) hstored
  refine ⟨w₃, ?_, halters.mono (fun _ hno => hno.elim) |>.trans ?_, (hstores rfl).1⟩
  · exact hrun₁.trans (hrun₂.trans hrename)
  · exact (hkept.alters hhoused).mono fun r hr => hr.elim (fun h => h) fun hno => hno.elim

theorem saveBackup_of_grants (h : s.Placed S w.tree) (hid : Run.IsId id) {p : Path} {x : Text}
    (hgrants : (s.saveBackup id p x).run.Each (World.Grants S) w) :
    ∃ w', (s.saveBackup id p x).run.run w = (.ok (backupName p), w') ∧
      s.Alters S (fun r => r = [id] ∨ r = [id, (backupName p).text]) w.tree w'.tree ∧
      s.BackedUp w'.tree id (backupName p) x := by
  have hname := isName_of_isId hid
  have hlead : w.tree.leadOf (s.backupFolder id) = some (S ++ [id]) := h.leadOf_join hname
  unfold saveBackup at hgrants
  obtain ⟨w₁, hcreate, hrun₁, hgrants⟩ := Attempt.bind_of_each hgrants fun hcreate =>
    hcreate.1.fulfils List.mem_cons_self hlead (List.prefix_append _ _)
  obtain ⟨hmade, -⟩ := Prod.mk.inj hcreate
  obtain ⟨v, hhoused, halters, hsame⟩ := h.createFolders_join hname hmade
  -- the same happens where the store's folder was made before
  have hcreate' : (Action.ask (.createFolders (s.backupFolder id))).run { w with tree := v } =
      (.ok (), w₁) := by
    rw [← hcreate]
    exact congrArg (World.changed w) hsame
  have hkept₁ : s.Kept Nowhere (· = [id]) { w with tree := v } w₁ := by
    have hw₁ : w₁ = { w with tree := (v.createFolders (s.backupFolder id)).2 } :=
      (congrArg Prod.snd hcreate').symm
    rw [hw₁]
    exact Kept.createBackupFolder (w := { w with tree := v }) hhoused.wellFormed hid
  have hplaced₁ := (hkept₁.alters hhoused).placed
  obtain ⟨w₂, -, hrun₂, -⟩ := Attempt.bind_of_each hgrants fun hwrite =>
    World.toBool_writeText hwrite (hplaced₁.leadOf_join_join hname (isName_backupName p))
      (List.prefix_append _ _)
  have hrun : (s.saveBackup id p x).run.run { w with tree := v } = (.ok (backupName p), w₂) := by
    unfold saveBackup
    rw [Attempt.run_bind, Attempt.run_orFail, hcreate']
    exact hrun₂
  obtain ⟨hkept, hbackup⟩ := saveBackup_spec (Placed.unlinked (.inl hhoused) id) hid hrun
  refine ⟨w₂, hrun₁.trans hrun₂, (halters.mono fun _ hno => hno.elim).trans ?_,
    (hbackup _ rfl).2⟩
  exact (hkept.alters hhoused).mono fun r hr => hr.symm

/-! ## What is kept of the runs -/

/-- A change to a file outside the store's folder, whose text from before is kept. -/
structure Backed (s : RunStore) (S : Place) (t : FileTree) (id : String) (c : Change) : Prop where
  backup : c.backup = backupName c.path
  kept : ∃ x, s.BackedUp t id c.backup x
  outside : LeadsOutside S t c.path

/-- What is kept of the run that the index has under an id. -/
structure Filed (s : RunStore) (S : Place) (t : FileTree) (id : String) (r : Run) : Prop where
  id_eq : r.id = id
  isId : Run.IsId id
  valid : r.timestamp.IsValid
  stored : s.Stores t (runFileName id) r.text
  backed : ∀ c ∈ r.changes, s.Backed S t id c
  status : r.status = .reverted ↔ r.canRevert = false

/-- The index is stored unless it is empty, each of its runs is kept, and no others have files. -/
structure InOrder (s : RunStore) (S : Place) (t : FileTree) (i : RunIndex) : Prop where
  placed : s.Placed S t
  sound : i.IsSound
  listed : s.Stores t "runs.json" i.text ∨ (i = .empty ∧ t.get? (S ++ ["runs.json"]) = none)
  filed : ∀ id r, i.find? id = some r → s.Filed S t id r
  only : ∀ id, t.get? (S ++ [runFileName id]) ≠ none → id = "runs" ∨
    (i.find? id).isSome = true

variable {i : RunIndex} {r : Run} {c : Change}

theorem eq_of_isRunText {id' : String} (h : IsRunText id [runFileName id']) :
    id' = id ∨ id' = "runs" := by
  rcases h with (h | h) | (h | h)
  · exact .inl (runFileName_inj (List.singleton_inj.mp h))
  · exact absurd (List.singleton_inj.mp h) (runFileName_ne_temporaryName _ _)
  · exact .inr (runFileName_inj (List.singleton_inj.mp h))
  · exact absurd (List.singleton_inj.mp h) (runFileName_ne_temporaryName _ _)

theorem not_isRunText_pair (id m n : String) : ¬IsRunText id [m, n] := by
  rintro ((h | h) | (h | h))
  all_goals simp at h

/-! ## What a change leaves in order -/

theorem Backed.alters (hc : s.Backed S t id c) (ht : s.Placed S t) (hu : s.Alters S changed t u)
    (hid : Run.IsId id) (hno : ¬changed [id, c.backup.text]) : s.Backed S u id c := by
  obtain ⟨x, hx⟩ := hc.kept
  exact ⟨hc.backup, ⟨x, hx.alters ht hu hid (hc.backup ▸ isName_backupName c.path) hno⟩,
    hu.outside _ hc.outside⟩

theorem isName_runFileName_of_isId (h : Run.IsId id) : Path.IsName (runFileName id) :=
  isName_runFileName (isName_of_isId h).2.2.2

theorem Filed.alters (hr : s.Filed S t id r) (ht : s.Placed S t) (hu : s.Alters S changed t u)
    (hno : ¬changed [runFileName id]) (hbackups : ∀ n, ¬changed [id, n]) :
    s.Filed S u id r where
  id_eq := hr.id_eq
  isId := hr.isId
  valid := hr.valid
  stored := hr.stored.alters ht hu (isName_runFileName_of_isId hr.isId) hno
  backed := fun c hc => (hr.backed c hc).alters ht hu hr.isId (hbackups _)
  status := hr.status

theorem isName_index : Path.IsName "runs.json" := by decide

/-- A change that touches neither the files of runs nor backups of the runs in the index. -/
theorem InOrder.alters (h : s.InOrder S t i) (hu : s.Alters S changed t u)
    (hno : ∀ id, ¬changed [runFileName id])
    (hbackups : ∀ id n, (i.find? id).isSome = true → ¬changed [id, n]) : s.InOrder S u i where
  placed := hu.placed
  sound := h.sound
  listed := by
    have hsame := hu.inside ["runs.json"] (by simp) (hno "runs")
    rcases h.listed with hstored | ⟨hempty, hnone⟩
    · exact .inl (hstored.alters h.placed hu isName_index (hno "runs"))
    · exact .inr ⟨hempty, hsame.trans hnone⟩
  filed := fun id r hr => (h.filed id r hr).alters h.placed hu (hno id) fun n =>
    hbackups id n (by simp [hr])
  only := by
    intro id hsome
    rw [hu.inside _ (by simp) (hno id)] at hsome
    exact h.only id hsome

theorem loadIndex_of_listed (h : s.Placed S w.tree) (hsound : i.IsSound)
    (hlisted : s.Stores w.tree "runs.json" i.text ∨
      (i = .empty ∧ w.tree.get? (S ++ ["runs.json"]) = none)) :
    s.loadIndex.run.run w = (.ok i, w) := by
  rcases hlisted with hstored | ⟨rfl, hnone⟩
  · exact loadIndex_of_stores hsound hstored
  · have hpresent : w.tree.isPresent s.indexPath = false := h.not_isPresent isName_index hnone
    unfold loadIndex
    rw [Attempt.bind_of_ok (Attempt.run_isPresent _ _), hpresent]
    rfl

/-- A run is saved if all is granted, and then the index has it. -/
theorem saveRun_of_grants (h : s.InOrder S w.tree i) (hid : Run.IsId r.id)
    (hvalid : r.timestamp.IsValid) (hbacked : ∀ c ∈ r.changes, s.Backed S w.tree r.id c)
    (hstatus : r.status = .reverted ↔ r.canRevert = false)
    (hgrants : (s.saveRun r).run.Each (World.Grants S) w) :
    ∃ w', (s.saveRun r).run.run w = (.ok (), w') ∧
      s.Alters S (IsRunText r.id) w.tree w'.tree ∧ s.InOrder S w'.tree (i.add r) := by
  have hids : ∀ id ∈ [r.id], Run.IsId id := by simpa using hid
  have hname := isName_runFileName_of_isId hid
  have hruns := ne_runs_of_isId hid
  have hindex := not_isText_index hruns
  unfold saveRun at hgrants
  obtain ⟨w₁, hstore, halters₁, hstored⟩ :=
    store_of_grants h.placed hids (mem_fileNames List.mem_cons_self)
    (Attempt.each_of_bind hgrants)
  have hlisted : s.Stores w₁.tree "runs.json" i.text ∨
      (i = .empty ∧ w₁.tree.get? (S ++ ["runs.json"]) = none) := by
    rcases h.listed with hindexed | ⟨hempty, hnone⟩
    · exact .inl (hindexed.alters h.placed halters₁ isName_index hindex)
    · exact .inr ⟨hempty, (halters₁.inside _ (by simp) hindex).trans hnone⟩
  have hload := loadIndex_of_listed halters₁.placed h.sound hlisted
  have hgrants := ((Attempt.each_bind hstore).mp hgrants).2
  obtain ⟨w₂, hsave, halters₂, hindexed⟩ :=
    store_of_grants halters₁.placed hids List.mem_cons_self
    ((Attempt.each_bind hload).mp hgrants).2
  have halters : s.Alters S (IsRunText r.id) w.tree w₂.tree :=
    (halters₁.mono fun _ hr => .inl hr).trans (halters₂.mono fun _ hr => .inr hr)
  refine ⟨w₂, ?_, halters, halters₂.placed, h.sound.insert r.id hvalid, .inl hindexed,
    fun id r' hr' => ?_, fun id hsome => ?_⟩
  · unfold saveRun
    exact (Attempt.bind_of_ok hstore).trans ((Attempt.bind_of_ok hload).trans hsave)
  · by_cases heq : id = r.id
    · subst heq
      rw [RunIndex.find?_add] at hr'
      cases hr'
      exact ⟨rfl, hid, hvalid,
        hstored.alters halters₁.placed halters₂ hname (not_isText_runFileName hruns),
        fun c hc => (hbacked c hc).alters h.placed halters hid (not_isRunText_pair _ _ _),
          hstatus⟩
    · rw [RunIndex.find?_add_of_ne i heq] at hr'
      have hfiled := h.filed id r' hr'
      refine hfiled.alters h.placed halters (fun htext => ?_) fun n => not_isRunText_pair _ _ _
      rcases eq_of_isRunText htext with hsame | rfl
      · exact heq hsame
      · exact absurd rfl (ne_runs_of_isId hfiled.isId)
  · by_cases heq : id = r.id
    · subst heq
      exact .inr (by rw [RunIndex.find?_add]; rfl)
    · rw [RunIndex.find?_add_of_ne i heq]
      by_cases hruns : id = "runs"
      · exact .inl hruns
      · have htext : ¬IsRunText r.id [runFileName id] := fun htext =>
          (eq_of_isRunText htext).elim heq hruns
        rw [halters.inside _ (by simp) htext] at hsome
        exact h.only id hsome

end RunStore

end Rewrap
