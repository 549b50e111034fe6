import Rewrap.Proofs.Run.Encoding
import Rewrap.Proofs.Run.Storing

/-! # Recording runs

What is stored of a run: its file, its entry in the index, and the backups of the files that it
wrote. -/

namespace Rewrap

theorem RunIndex.find?_add (i : RunIndex) (r : Run) : (i.add r).find? r.id = some r := by
  have hnone : (i.entries.filter (·.1 != r.id)).lookup r.id = none := by
    rw [List.lookup_eq_none_iff]
    intro e he
    have hne : e.1 ≠ r.id := by simpa using (List.mem_filter.mp he).2
    exact bne_iff_ne.mpr hne.symm
  unfold find? add insert
  rw [List.lookup_append, hnone, List.lookup_cons, beq_self_eq_true]
  rfl

namespace RunStore

open FileTree (Frame)

variable {s : RunStore} {ids : List String} {w w' : World} {t u : FileTree}

/-! ## Reading what is stored -/

theorem Stores.read {name : String} {x : Text} (h : s.Stores t name x) :
    t.read (s.folder.join ⟨name⟩) = .ok x.toBytes := by
  obtain ⟨k, hk, hfile⟩ := h
  exact FileTree.read_of_resolve hk hfile

theorem Stores.isPresent {name : String} {x : Text} (h : s.Stores t name x) :
    t.isPresent (s.folder.join ⟨name⟩) = true := by
  obtain ⟨k, hk, hfile⟩ := h
  exact FileTree.isPresent_of_resolve hk hfile

/-! ## The index -/

/-- An index is stored, and can be stored again. -/
structure Indexed (s : RunStore) (t : FileTree) : Prop where
  stored : ∃ i : RunIndex, i.IsSound ∧ s.Stores t "runs.json" i.text
  again : s.Storable t "runs.json"

/-- Loading the index changes no file, and only a sound index is loaded. -/
theorem loadIndex_spec {r : Except Run.Error RunIndex} (h : s.loadIndex.run.run w = (r, w')) :
    w'.tree = w.tree ∧ w'.faults = w.faults ∧ ∀ i, r = .ok i → i.IsSound := by
  unfold loadIndex at h
  rw [Attempt.run_bind, Attempt.run_isPresent] at h
  simp only at h
  split at h
  · rw [Attempt.run_bind, Attempt.run_readText] at h
    cases hread : (w.tree.read s.indexPath).bind Text.ofBytes with
    | error e =>
        simp only [hread, Except.mapError] at h
        cases h
        exact ⟨rfl, rfl, by simp⟩
    | ok x =>
        simp only [hread, Except.mapError] at h
        cases hindex : RunIndex.ofText x with
        | ok i =>
            simp only [hindex, Attempt.run_pure] at h
            cases h
            refine ⟨rfl, rfl, fun i' hi => ?_⟩
            cases hi
            exact RunIndex.isSound_of_ofText hindex
        | error f =>
            simp only [hindex] at h
            split at h
            · cases h
              exact ⟨rfl, rfl, by simp⟩
            · cases h
              exact ⟨rfl, rfl, by simp⟩
  · cases h
    refine ⟨rfl, rfl, fun i hi => ?_⟩
    cases hi
    exact RunIndex.isSound_empty

/-- An index that is loaded is the stored one, or the empty one if none is found. -/
theorem loadIndex_eq_ok {i : RunIndex} (h : s.loadIndex.run.run w = (.ok i, w')) :
    w' = w ∧ (w.tree.isPresent s.indexPath = false ∧ i = .empty ∨
      ∃ b x, w.tree.read s.indexPath = .ok b ∧ Text.ofBytes b = .ok x ∧
        RunIndex.ofText x = .ok i) := by
  unfold loadIndex at h
  rw [Attempt.bind_of_ok (Attempt.run_isPresent _ _)] at h
  cases hpresent : w.tree.isPresent s.indexPath with
  | false =>
      rw [hpresent] at h
      cases h
      exact ⟨rfl, .inl ⟨rfl, rfl⟩⟩
  | true =>
      rw [hpresent, if_pos rfl] at h
      obtain ⟨x, w₁, hread, h⟩ := Attempt.bind_eq_ok h
      rw [Attempt.run_readText] at hread
      obtain ⟨hx, rfl⟩ := Prod.mk.inj hread
      obtain ⟨b, hb, hx⟩ := Except.bind_eq_ok.mp (Except.mapError_eq_ok.mp hx)
      cases hindex : RunIndex.ofText x with
      | ok i' =>
          simp only [hindex] at h
          cases h
          exact ⟨rfl, .inr ⟨b, x, hb, hx, hindex⟩⟩
      | error f =>
          simp only [hindex] at h
          split at h
          · obtain ⟨-, w₂, -, h⟩ := Attempt.bind_eq_ok h
            cases h
          · cases h

theorem loadIndex_of_stores {i : RunIndex} (h : i.IsSound)
    (hi : s.Stores w.tree "runs.json" i.text) : s.loadIndex.run.run w = (.ok i, w) := by
  have hpresent : w.tree.isPresent s.indexPath = true := hi.isPresent
  have hread : w.tree.read s.indexPath = .ok i.text.toBytes := hi.read
  unfold loadIndex
  rw [Attempt.bind_of_ok (Attempt.run_isPresent _ _), if_pos hpresent,
    Attempt.bind_of_ok (Attempt.readText_of_ok hread), RunIndex.ofText_text h]
  rfl

/-- The index can be loaded: where it belongs there is no file, or one that can be read. -/
def IndexLoads (s : RunStore) (t : FileTree) : Prop :=
  ∀ S b, t.leadOf s.folder = some S → t.get? (S ++ ["runs.json"]) = some (.file b) →
    ∃ x i, Text.ofBytes b = .ok x ∧ RunIndex.ofText x = .ok i

theorem loadIndex_of_loads (h : s.Guarded ids w.tree) (hids : ∀ id ∈ ids, Run.IsId id)
    (hfree : s.IsFree w.tree "runs.json") (hloads : s.IndexLoads w.tree) :
    ∃ i, s.loadIndex.run.run w = (.ok i, w) := by
  have hindexName : "runs.json" ∈ fileNames ids := List.mem_cons_self
  obtain ⟨hown, -⟩ := mem_ownNames_of_mem_fileNames hindexName
  obtain ⟨k, hk, hfolder⟩ := hfree
  obtain ⟨S, hS, rfl⟩ := h.eq_of_resolve hids hown hk
  unfold loadIndex
  cases hget : w.tree.get? (S ++ ["runs.json"]) with
  | none =>
      have hpresent : w.tree.isPresent s.indexPath = false := FileTree.isPresent_of_vacant hk hget
      rw [Attempt.bind_of_ok (Attempt.run_isPresent _ _), hpresent]
      exact ⟨_, rfl⟩
  | some e =>
      cases e with
      | folder => exact absurd hget hfolder
      | link q => exact absurd hget (h.not_link hS hown q)
      | file b =>
          obtain ⟨x, i, hx, hi⟩ := hloads S b hS hget
          have hpresent : w.tree.isPresent s.indexPath = true :=
            FileTree.isPresent_of_resolve hk hget
          have hread : w.tree.read s.indexPath = .ok x.toBytes := by
            rw [Text.toBytes_of_ofBytes hx]
            exact FileTree.read_of_resolve hk hget
          rw [Attempt.bind_of_ok (Attempt.run_isPresent _ _), if_pos hpresent,
            Attempt.bind_of_ok (Attempt.readText_of_ok hread), hi]
          exact ⟨i, rfl⟩

theorem Indexed.loads (h : s.Guarded ids t) (hids : ∀ id ∈ ids, Run.IsId id)
    (hx : s.Indexed t) : s.IndexLoads t := by
  have hindexName : "runs.json" ∈ fileNames ids := List.mem_cons_self
  obtain ⟨hown, -⟩ := mem_ownNames_of_mem_fileNames hindexName
  obtain ⟨i, hsound, k, hk, hfile⟩ := hx.stored
  intro S b hS hb
  obtain ⟨S', hS', rfl⟩ := h.eq_of_resolve hids hown hk
  rw [hS] at hS'
  cases hS'
  rw [hfile] at hb
  cases hb
  exact ⟨_, i, Text.ofBytes_toBytes _, RunIndex.ofText_text hsound⟩

theorem IndexLoads.frame {files folders : Place → Prop} (h : s.IndexLoads t)
    (hframe : Frame files folders t u)
    (hfiles : ∀ S, t.leadOf s.folder = some S → ¬files (S ++ ["runs.json"])) :
    s.IndexLoads u := by
  intro S b hS hb
  rw [hframe.leadOf] at hS
  exact h S b hS ((hframe.file _ (hfiles S hS) b).mp hb)

theorem IndexLoads.keep {files folders : Place → Prop} (h : s.IndexLoads w.tree)
    (hkept : s.Kept files folders w w') (hfiles : ¬files ["runs.json"]) : s.IndexLoads w'.tree :=
  h.frame hkept.frame fun _ hS hbelow => hfiles ((below_append hS).mp hbelow)

/-! ## Runs -/

/-- A run is stored, and can be stored again. -/
structure Records (s : RunStore) (t : FileTree) (r : Run) : Prop where
  stored : s.Stores t (runFileName r.id) r.text
  again : s.Storable t (runFileName r.id)

theorem loadRun_of_stores {r : Run} (h : r.timestamp.IsValid) {id : String}
    (hr : s.Stores w.tree (runFileName id) r.text) : (s.loadRun id).run.run w = (.ok r, w) := by
  have hpresent : w.tree.isPresent (s.runPath id) = true := hr.isPresent
  have hread : w.tree.read (s.runPath id) = .ok r.text.toBytes := hr.read
  unfold loadRun
  rw [Attempt.bind_of_ok (Attempt.run_isPresent _ _), if_pos hpresent,
    Attempt.bind_of_ok (Attempt.readText_of_ok hread), Run.ofText_text h]
  rfl

theorem mem_fileNames {id : String} (hid : id ∈ ids) : runFileName id ∈ fileNames ids :=
  List.mem_cons_of_mem _ (List.mem_map_of_mem hid)

/-- The places, seen from the store's folder, that saving a run uses. -/
def IsRunText (id : String) (r : Place) : Prop := IsText (runFileName id) r ∨ IsText "runs.json" r

theorem Records.frame {r : Run} {files folders : Place → Prop} (h : s.Guarded ids t)
    (hids : ∀ id ∈ ids, Run.IsId id) (hr : r.id ∈ ids) (hx : s.Records t r)
    (hframe : Frame files folders t u)
    (hfiles : ∀ S, t.leadOf s.folder = some S → ¬files (S ++ [runFileName r.id]))
    (hfolders : ∀ S n, t.leadOf s.folder = some S → n = runFileName r.id ∨
      n = temporaryName (runFileName r.id) → ¬folders (S ++ [n])) : s.Records u r := by
  have hdirect := h.direct hids (mem_fileNames hr)
  exact ⟨hx.stored.frame hdirect.target hframe hfiles, hx.again.frame hdirect hframe hfolders⟩

theorem Indexed.frame {files folders : Place → Prop} (h : s.Guarded ids t)
    (hids : ∀ id ∈ ids, Run.IsId id) (hx : s.Indexed t) (hframe : Frame files folders t u)
    (hfiles : ∀ S, t.leadOf s.folder = some S → ¬files (S ++ ["runs.json"]))
    (hfolders : ∀ S n, t.leadOf s.folder = some S → n = "runs.json" ∨
      n = temporaryName "runs.json" → ¬folders (S ++ [n])) : s.Indexed u := by
  have hdirect := h.direct hids List.mem_cons_self
  obtain ⟨i, hsound, hi⟩ := hx.stored
  exact ⟨⟨i, hsound, hi.frame hdirect.target hframe hfiles⟩,
    hx.again.frame hdirect hframe hfolders⟩

theorem Stores.keep {name : String} {files folders : Place → Prop} {x : Text}
    (h : s.Bare w.tree name) (hx : s.Stores w.tree name x) (hkept : s.Kept files folders w w')
    (hfiles : ¬files [name]) : s.Stores w'.tree name x :=
  hx.frame h hkept.frame fun _ hS hbelow => hfiles ((below_append hS).mp hbelow)

theorem Storable.keep {name : String} {files folders : Place → Prop} (h : s.Direct name w.tree)
    (hx : s.Storable w.tree name) (hkept : s.Kept files folders w w')
    (hfolders : ∀ r, IsText name r → ¬folders r) : s.Storable w'.tree name := by
  refine hx.frame h hkept.frame fun S n hS hn hmakes => ?_
  have htext : IsText name [n] := by
    rcases hn with rfl | rfl
    · exact .inl rfl
    · exact .inr rfl
  rcases hmakes with hno | hbelow
  · exact hno hx.folder
  · exact hfolders [n] htext ((below_append hS).mp hbelow)

/-- A well-formed tree in which no link stands where a run and the index are stored. -/
structure Receives (s : RunStore) (id : String) (t : FileTree) : Prop where
  run : s.Direct (runFileName id) t
  index : s.Direct "runs.json" t
  ne_runs : id ≠ "runs"

theorem ne_runs_of_isId {id : String} (h : Run.IsId id) : id ≠ "runs" := by
  rintro rfl
  exact absurd (h.2 'r' (by decide)) (by decide)

theorem Guarded.receives (h : s.Guarded ids t) (hids : ∀ id ∈ ids, Run.IsId id) {id : String}
    (hid : id ∈ ids) : s.Receives id t :=
  ⟨h.direct hids (mem_fileNames hid), h.direct hids List.mem_cons_self,
    ne_runs_of_isId (hids id hid)⟩

theorem Kept.receives {files folders : Place → Prop} {id : String}
    (hkept : s.Kept files folders w w') (h : s.Receives id w.tree) : s.Receives id w'.tree :=
  ⟨hkept.direct h.run, hkept.direct h.index, h.ne_runs⟩

theorem not_isText_runFileName {id : String} (h : id ≠ "runs") :
    ¬IsText "runs.json" [runFileName id] := by
  rintro (heq | heq)
  · exact h (runFileName_inj (List.singleton_inj.mp heq))
  · exact runFileName_ne_temporaryName _ _ (List.singleton_inj.mp heq)

theorem not_isText_index {id : String} (h : id ≠ "runs") :
    ¬IsText (runFileName id) ["runs.json"] := by
  rintro (heq | heq)
  · exact h (runFileName_inj (List.singleton_inj.mp heq.symm))
  · exact runFileName_ne_temporaryName "runs" _ (List.singleton_inj.mp heq)

/-- Saving a run changes only its text and the index; when it succeeds, the run is recorded, and it
is added to the index that is found once its text was stored. -/
theorem saveRun_spec {r : Run} (h : s.Receives r.id w.tree) (hvalid : r.timestamp.IsValid)
    {res : Except Run.Error Unit} (hrun : (s.saveRun r).run.run w = (res, w')) :
    s.Kept (IsRunText r.id) FileTree.Nowhere w w' ∧
      (res = .ok () → s.Indexed w'.tree ∧ s.Records w'.tree r ∧
        ∃ w₁ i, s.Kept (IsText (runFileName r.id)) FileTree.Nowhere w w₁ ∧
          s.loadIndex.run.run w₁ = (.ok i, w₁) ∧ (i.add r).IsSound ∧
            s.Stores w'.tree "runs.json" (i.add r).text) := by
  unfold saveRun at hrun
  rw [Attempt.run_bind] at hrun
  cases hstore : (s.store (runFileName r.id) r.text).run.run w with
  | mk res₁ w₁ =>
    obtain ⟨hkept₁, hstored⟩ := store_spec h.run hstore
    have hmono : ∀ {w₂}, s.Kept (IsText (runFileName r.id)) FileTree.Nowhere w w₂ →
        s.Kept (IsRunText r.id) FileTree.Nowhere w w₂ := fun hkept =>
          hkept.mono (fun _ hr => .inl hr) fun _ hr => hr
    rw [hstore] at hrun
    cases res₁ with
    | error e =>
        cases hrun
        exact ⟨hmono hkept₁, by simp⟩
    | ok _ =>
        obtain ⟨hstores, hstorable⟩ := hstored rfl
        simp only at hrun
        rw [Attempt.run_bind] at hrun
        cases hload : s.loadIndex.run.run w₁ with
        | mk res₂ w₂ =>
          obtain ⟨htree, hfaults, hsound⟩ := loadIndex_spec hload
          rw [hload] at hrun
          cases res₂ with
          | error e =>
              cases hrun
              exact ⟨hmono (hkept₁.trans (Kept.of_tree_eq hkept₁.wellFormed htree hfaults)),
                by simp⟩
          | ok i =>
              simp only at hrun
              obtain rfl := (loadIndex_eq_ok hload).1
              have hreceives := hkept₁.receives h
              obtain ⟨hkept₂, hindex⟩ := store_spec hreceives.index hrun
              refine ⟨(hmono hkept₁).trans (hkept₂.mono (fun _ hr => .inr hr) fun _ hr => hr),
                fun hok => ?_⟩
              obtain ⟨hi, hagain⟩ := hindex hok
              have hadded : (i.add r).IsSound := (hsound i rfl).insert r.id hvalid
              exact ⟨⟨⟨_, hadded, hi⟩, hagain⟩,
                ⟨hstores.keep hreceives.run.target hkept₂ (not_isText_runFileName h.ne_runs),
                  hstorable.keep hreceives.run hkept₂ fun _ _ hno => hno⟩, _, i, hkept₁,
                    hload, hadded, hi⟩

/-- A run can be saved where its text and the index can be stored, if the index can be loaded. -/
theorem saveRun_of_storable {r : Run} (h : s.Guarded ids w.tree)
    (hids : ∀ id ∈ ids, Run.IsId id) (hr : r.id ∈ ids)
    (hrun : s.Storable w.tree (runFileName r.id)) (hindex : s.Storable w.tree "runs.json")
    (hloads : s.IndexLoads w.tree) : ∃ w', (s.saveRun r).run.run w = (.ok (), w') := by
  have hreceives := h.receives hids hr
  obtain ⟨w₁, hstore⟩ := store_of_storable hreceives.run hrun r.text
  obtain ⟨hkept, -⟩ := store_spec hreceives.run hstore
  have hagain := hindex.keep hreceives.index hkept fun _ _ hno => hno
  obtain ⟨i, hload⟩ := loadIndex_of_loads (hkept.guarded h) hids hagain.target
    (hloads.keep hkept (not_isText_index hreceives.ne_runs))
  obtain ⟨w₂, hsave⟩ :=
    store_of_storable (hkept.receives hreceives).index hagain (i.add r).text
  refine ⟨w₂, ?_⟩
  unfold saveRun
  rw [Attempt.bind_of_ok hstore, Attempt.bind_of_ok hload]
  exact hsave

theorem saveRun_of_records {r r' : Run} (h : s.Guarded ids w.tree)
    (hids : ∀ id ∈ ids, Run.IsId id) (hr : r.id ∈ ids) (hrecords : s.Records w.tree r)
    (hindexed : s.Indexed w.tree) (hid : r'.id = r.id) :
    ∃ w', (s.saveRun r').run.run w = (.ok (), w') :=
  saveRun_of_storable h hids (hid ▸ hr) (hid ▸ hrecords.again) hindexed.again
    (hindexed.loads h hids)

/-! ## Backups -/

/-- A text is kept as a backup of a run. -/
def BackedUp (s : RunStore) (t : FileTree) (id : String) (name : Path) (x : Text) : Prop :=
  ∃ k, t.resolve true ((s.backupFolder id).join name) = .ok k ∧
    t.get? k = some (.file x.toBytes)

theorem BackedUp.read {id : String} {name : Path} {x : Text} (h : s.BackedUp t id name x) :
    t.read ((s.backupFolder id).join name) = .ok x.toBytes := by
  obtain ⟨k, hk, hfile⟩ := h
  exact FileTree.read_of_resolve hk hfile

theorem BackedUp.frame {files folders : Place → Prop} {id : String} (h : s.Unlinked id t)
    (hid : Path.IsName id) {name : Path} (hname : Path.IsName name.text) {x : Text}
    (hx : s.BackedUp t id name x) (hframe : Frame files folders t u)
    (hfiles : ∀ S, t.leadOf s.folder = some S → ¬files (S ++ [id, name.text])) :
    s.BackedUp u id name x := by
  obtain ⟨k, hk, hfile⟩ := hx
  obtain ⟨S, hS, rfl⟩ := h.eq_of_resolve hid hname hk
  exact ⟨_, hframe.resolve hk, (hframe.file _ (hfiles S hS) _).mpr hfile⟩

theorem isName_backupName (p : Path) : Path.IsName (backupName p).text := by
  have hfile : '/' ∉ (p.fileName?.getD "").toList := by
    unfold Path.fileName?
    split
    · next n hn =>
        have hmem : Path.Component.name n ∈ p.components := List.mem_of_getLast? hn
        exact (Path.areProper_components p n hmem).2.2.2
    · simp
  have hhash : '/' ∉ ((Text.hash p.text.toList).toList.take 16) := fun hmem =>
    absurd (Blake3.mem_hexDigits (List.mem_of_mem_take hmem)) (by decide)
  have hslash : '/' ∉ (backupName p).text.toList := by
    have horig : '/' ∉ ".orig".toList := by decide
    have hdash : '/' ∉ "-".toList := by decide
    simp only [backupName, String.toList_append, String.toList_ofList, List.mem_append, not_or]
    exact ⟨⟨⟨hhash, hdash⟩, hfile⟩, horig⟩
  have hlength : 5 ≤ (backupName p).text.toList.length := by
    simp [backupName, String.toList_append]
    omega
  refine ⟨?_, ?_, ?_, hslash⟩
  · intro h
    simp [h] at hlength
  · intro h
    simp [h] at hlength
  · intro h
    simp [h] at hlength

theorem Kept.writeBackup {id : String} (h : s.Unlinked id w.tree) (hid : Run.IsId id) (p : Path)
    (b : ByteArray) {folders : Place → Prop} : s.Kept (· = [id, (backupName p).text]) folders w
      { w with tree := (w.tree.write ((s.backupFolder id).join (backupName p)) b).2 } := by
  refine Kept.write h.wellFormed (fun k hk => ?_) b
  obtain ⟨S, hS, rfl⟩ := h.eq_of_resolve (isName_of_isId hid) (isName_backupName p) hk
  exact ⟨S, _, hS, rfl, rfl⟩

/-- Keeping a backup changes only its own file; when it succeeds the backup is there. -/
theorem saveBackup_spec {id : String} {p : Path} {x : Text} (h : s.Unlinked id w.tree)
    (hid : Run.IsId id) {r : Except Run.Error Path}
    (hrun : (s.saveBackup id p x).run.run w = (r, w')) :
    s.Kept (· = [id, (backupName p).text]) (· = [id]) w w' ∧
      ∀ name, r = .ok name → name = backupName p ∧ s.BackedUp w'.tree id name x := by
  have hcreate : s.Kept (· = [id, (backupName p).text]) (· = [id]) w
      { w with tree := (w.tree.createFolders (s.backupFolder id)).2 } :=
    (Kept.createBackupFolder h.wellFormed hid).mono (fun _ hr => hr.elim) fun _ hr => hr
  have hunlinked := h.frame hcreate.wellFormed hcreate.frame
  unfold saveBackup at hrun
  rw [Attempt.run_bind, Attempt.run_createFolders] at hrun
  cases hcreated : (w.tree.createFolders (s.backupFolder id)).1 with
  | error e =>
      simp only [hcreated, Except.mapError] at hrun
      cases hrun
      exact ⟨hcreate, by simp⟩
  | ok _ =>
      simp only [hcreated, Except.mapError] at hrun
      generalize ({ w with tree := (w.tree.createFolders (s.backupFolder id)).2 } : World) = w₁
        at hcreate hunlinked hrun
      rw [Attempt.run_bind, Attempt.run_writeText] at hrun
      have hwrite : s.Kept (· = [id, (backupName p).text]) (· = [id]) w₁ _ :=
        Kept.writeBackup hunlinked hid p x.toBytes
      rcases FileTree.write_cases hcreate.wellFormed ((s.backupFolder id).join (backupName p))
        x.toBytes with ⟨e, herror⟩ | ⟨k, hk, -, hkfolder, -, hwritten, -⟩
      · simp only [herror, Except.mapError] at hrun
        cases hrun
        exact ⟨hcreate, by simp⟩
      · rw [hwritten] at hwrite
        simp only [hwritten, Except.mapError, Attempt.run_pure, Prod.mk.injEq] at hrun
        obtain ⟨rfl, rfl⟩ := hrun
        refine ⟨hcreate.trans hwrite, fun name hname => ?_⟩
        obtain rfl := Except.ok.inj hname
        refine ⟨rfl, k, hwrite.frame.resolve hk, FileTree.get?_put_self ?_⟩
        rintro rfl
        exact hkfolder rfl

theorem saveBackup_folders {id : String} {p : Path} {x : Text} (h : w.tree.WellFormed)
    (hid : Run.IsId id) {r : Except Run.Error Path}
    (hrun : (s.saveBackup id p x).run.run w = (r, w')) :
    Frame FileTree.Anywhere (s.MakesWay w.tree id) w.tree w'.tree := by
  have hname := isName_of_isId hid
  have hcreate : Frame FileTree.Anywhere (s.MakesWay w.tree id) w.tree
      (w.tree.createFolders (s.backupFolder id)).2 := by
    refine (FileTree.frame_createFolders_join hname).mono (fun _ hk => hk.elim) fun k hk =>
      hk.imp_right ?_
    rintro ⟨S, hS, rfl⟩
    exact ⟨S, [id], hS, rfl, rfl⟩
  have hwf := (FileTree.createFolders_spec h (s.backupFolder id)).1.1
  unfold saveBackup at hrun
  rw [Attempt.run_bind, Attempt.run_createFolders] at hrun
  cases hcreated : (w.tree.createFolders (s.backupFolder id)).1 with
  | error e =>
      simp only [hcreated, Except.mapError] at hrun
      cases hrun
      exact hcreate
  | ok _ =>
      simp only [hcreated, Except.mapError] at hrun
      rw [Attempt.run_bind, Attempt.run_writeText] at hrun
      rcases FileTree.write_cases hwf ((s.backupFolder id).join (backupName p)) x.toBytes with
        ⟨e, hwrite⟩ | ⟨k, -, -, hfolder, hlink, hwrite, -⟩
      · simp only [hwrite, Except.mapError] at hrun
        cases hrun
        exact hcreate
      · simp only [hwrite, Except.mapError, Attempt.run_pure] at hrun
        cases hrun
        exact hcreate.trans
          ((FileTree.frame_put_file hfolder hlink).mono (fun _ _ => trivial) fun _ hno => hno.elim)

end RunStore

/-! ## Finishing a journal -/

namespace Journal

variable {j : Journal}

theorem finish_of_isEmpty (h : j.changes.isEmpty = true) (now : Timestamp) (w : World) :
    (j.finish now).run.run w = (.ok none, w) := by
  unfold finish
  rw [if_pos h, Attempt.run_pure]

/-- Where files were written their run is stored. -/
theorem finish_of_changes (h : ¬j.changes.isEmpty = true) (now : Timestamp) :
    j.finish now = (do
      j.store.saveRun (j.toRun now)
      return some j.runId) := by
  unfold finish
  rw [if_neg h]

end Journal

end Rewrap
