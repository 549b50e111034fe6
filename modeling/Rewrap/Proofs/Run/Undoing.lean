import Rewrap.Proofs.Run.Reverting

/-! # Undoing a run

A recorded run whose files are as it left them is reverted without fail, and each of its files gets
back the text that is kept as its backup. -/

namespace Rewrap.RunStore

open FileTree (Frame Nowhere)

variable {s : RunStore} {ids : List String} {id : String} {w w' : World} {t u : FileTree}
  {c : Change} {k : Place} {x y : Text}

/-- A file that is as a run left it: it stands at `k` with the text `y`, and its text from before,
`x`, is kept as a backup. -/
structure Restorable (s : RunStore) (id : String) (t : FileTree) (c : Change) (k : Place)
    (x y : Text) : Prop where
  after : t.get? k = some (.file y.toBytes)
  found : t.resolve true c.path = .ok k
  slash : c.path.text.toList.getLast? ≠ some '/'
  hashAfter : c.hashAfter = y.hash
  backup : c.backup = backupName c.path
  kept : s.BackedUp t id c.backup x

theorem Restorable.keep {files folders : Place → Prop} (h : s.Restorable id t c k x y)
    (ht : s.Guarded ids t) (hids : ∀ id ∈ ids, Run.IsId id) (hid : id ∈ ids)
    (hframe : Frame files folders t u) (hk : ¬files k)
    (hbackup : ∀ S, t.leadOf s.folder = some S → ¬files (S ++ [id, c.backup.text])) :
    s.Restorable id u c k x y where
  after := (hframe.file k hk _).mpr h.after
  found := hframe.resolve h.found
  slash := h.slash
  hashAfter := h.hashAfter
  backup := h.backup
  kept := h.kept.frame (ht.unlinked hid) (isName_of_isId (hids id hid))
    (h.backup ▸ isName_backupName c.path) hframe hbackup

theorem Restorable.isUnchanged (h : s.Restorable id t c k x y) : IsUnchanged t c :=
  ⟨y.toBytes, FileTree.read_of_resolve h.found h.after, h.hashAfter.symm⟩

/-! ## Restoring -/

theorem restore_ok (h : s.Restorable id w.tree c k x y) :
    ∃ w₁, (s.restore id c).run.run w = (.ok (), w₁) ∧
      w.tree.write c.path x.toBytes = (.ok (), w₁.tree) := by
  have hwrite := FileTree.write_of_resolve h.found (by simp [h.after]) h.slash x.toBytes
  refine ⟨_, (Attempt.bind_of_ok (Attempt.readText_of_ok h.kept.read)).trans
    ((Attempt.bind_of_ok (Attempt.writeText_of_ok hwrite)).trans (Attempt.run_print _ _)), hwrite⟩

/-- Files at different places are all restored. -/
theorem forM_restore_ok {cs : List Change} (ht : s.Guarded ids w.tree)
    (hids : ∀ id ∈ ids, Run.IsId id) (hid : id ∈ ids)
    (h : ∀ c ∈ cs, ∃ k x y, s.Restorable id w.tree c k x y ∧ ¬s.Owns w.tree ids k)
    (hdistinct : (cs.map fun c => w.tree.leadOf c.path).Nodup) :
    ∃ w₁, (cs.forM (s.restore id)).run.run w = (.ok (), w₁) ∧
      s.Restored id cs w.tree w₁.tree := by
  induction cs generalizing w with
  | nil => exact ⟨w, rfl, .nil _⟩
  | cons c cs ih =>
      obtain ⟨k, x, y, hc, hk⟩ := h c List.mem_cons_self
      obtain ⟨w₁, hrestore, hwrite⟩ := restore_ok hc
      obtain ⟨hwf, hframe⟩ := Restored.frame (.cons hc.kept hwrite (.nil _)) ht.wellFormed
      have hlead := FileTree.leadOf_of_resolve hc.found
      rw [List.map_cons, List.nodup_cons] at hdistinct
      have hrest : ∀ c' ∈ cs, ∃ k x y, s.Restorable id w₁.tree c' k x y ∧
          ¬s.Owns w₁.tree ids k := by
        intro c' hc'
        obtain ⟨k', x', y', hc₁, hk'⟩ := h c' (List.mem_cons_of_mem _ hc')
        refine ⟨k', x', y', hc₁.keep ht hids hid hframe ?_ fun S hS hleads => ?_,
          fun hown => hk' ((Below.frame hframe).mp hown)⟩
        · rintro ⟨c₂, hc₂, hlead₂⟩
          obtain rfl := List.mem_singleton.mp hc₂
          refine hdistinct.1 (List.mem_map.mpr ⟨c', hc', ?_⟩)
          rw [hlead₂, FileTree.leadOf_of_resolve hc₁.found]
        · obtain ⟨c₂, hc₂, hlead₂⟩ := hleads
          obtain rfl := List.mem_singleton.mp hc₂
          rw [hlead] at hlead₂
          cases hlead₂
          exact hk ⟨S, _, hS, ⟨id, _, mem_ownNames hid, rfl⟩, rfl⟩
      have hdistinct' : (cs.map fun c => w₁.tree.leadOf c.path).Nodup := by
        simpa only [hframe.leadOf] using hdistinct.2
      obtain ⟨w₂, hforM, hrestored⟩ := ih (ht.frame hwf hframe) hrest hdistinct'
      refine ⟨w₂, ?_, .cons hc.kept hwrite hrestored⟩
      rw [Attempt.run_forM_cons, hrestore]
      exact hforM

theorem not_owns_of_leadsTo {cs : List Change}
    (h : ∀ c ∈ cs, ∃ k x y, s.Restorable id t c k x y ∧ ¬s.Owns t ids k)
    (hk : LeadsTo t cs k) : ¬s.Owns t ids k := by
  obtain ⟨c, hc, hlead⟩ := hk
  obtain ⟨k', x, y, hc, hk'⟩ := h c hc
  rw [FileTree.leadOf_of_resolve hc.found] at hlead
  cases hlead
  exact hk'

theorem BackedUp.unique {name : Path} {x x' : Text} (h : s.BackedUp t id name x)
    (h' : s.BackedUp t id name x') : x.toBytes = x'.toBytes := by
  have hread := h.read
  rw [h'.read] at hread
  exact (Except.ok.inj hread).symm

theorem pairwise_places {pre post : List Change}
    (h : ((pre ++ c :: post).map fun c => t.leadOf c.path).Nodup) (hk : t.leadOf c.path = some k) :
    ¬LeadsTo t post k := by
  rintro ⟨c', hc', hlead⟩
  rw [List.map_append, List.map_cons, List.nodup_append, List.nodup_cons] at h
  refine h.2.1.1 (List.mem_map.mpr ⟨c', hc', ?_⟩)
  rw [hlead, hk]

theorem Restored.get?_of_restorable {cs : List Change} (h : s.Restored id cs t u)
    (ht : s.Guarded [id] t) (hid : Run.IsId id)
    (houtside : ∀ k, LeadsTo t cs k → ¬s.Owns t [id] k)
    (hdistinct : (cs.map fun c => t.leadOf c.path).Nodup) (hc : c ∈ cs)
    (hr : s.Restorable id t c k x y) : u.get? k = some (.file x.toBytes) := by
  have hlead := FileTree.leadOf_of_resolve hr.found
  obtain ⟨pre, post, rfl⟩ := List.append_of_mem hc
  have hpre : ∀ k, LeadsTo t pre k → ¬s.Owns t [id] k := fun k ⟨c', hc', hlead'⟩ =>
    houtside k ⟨c', List.mem_append_left _ hc', hlead'⟩
  obtain ⟨x', hx', hfile⟩ :=
    Restored.get? ht.wellFormed h (fun k => ht.not_leadsTo_backup hid hr.backup hpre) hlead
    (pairwise_places hdistinct hlead)
  rw [hr.kept.unique hx']
  exact hfile

/-! ## Reverting -/

/-- A recorded run whose backups are there is restored and recorded as reverted, and its files get
back their texts. -/
theorem restoreAll_ok {r : Run} (hw : s.Guarded ids w.tree) (hids : ∀ id ∈ ids, Run.IsId id)
    (hr : r.id ∈ ids) (hvalid : r.timestamp.IsValid) (hrecords : s.Records w.tree r)
    (hindexed : s.Indexed w.tree)
    (hchanges : ∀ c ∈ r.changes, ∃ k x y, s.Restorable r.id w.tree c k x y ∧
      ¬s.Owns w.tree ids k)
    (hdistinct : (r.changes.map fun c => w.tree.leadOf c.path).Nodup) :
    ∃ w', (s.restoreAll r.id r).run.run w = (.ok (), w') ∧ w'.tree.WellFormed ∧
      s.Indexed w'.tree ∧
      Frame (fun k => s.Below w.tree (IsRunText r.id) k ∨ LeadsTo w.tree r.changes k) Nowhere
        w.tree w'.tree ∧
      ∀ c ∈ r.changes, ∀ k x y, s.Restorable r.id w.tree c k x y →
        w'.tree.get? k = some (.file x.toBytes) := by
  -- the output is all that is changed before the first file is restored
  have hprint := Attempt.run_print (ε := Run.Error)
    ("Reverting " ++ toString r.changes.length ++ " file(s)...\n") w
  generalize hprinted : ({ w with out := _ } : World) = w₀ at hprint
  have htree : w₀.tree = w.tree := by rw [← hprinted]
  obtain ⟨w₁, hrestore, hrestored⟩ :=
    forM_restore_ok (htree ▸ hw) hids hr (htree ▸ hchanges) (htree ▸ hdistinct)
  rw [htree] at hrestored
  obtain ⟨hwf₁, hframe₁⟩ := hrestored.frame hw.wellFormed
  have hguarded := hw.frame hwf₁ hframe₁
  have houtside : ∀ k, LeadsTo w.tree r.changes k → ¬s.Owns w.tree ids k := fun k =>
    not_owns_of_leadsTo hchanges
  have hfile : ∀ name ∈ fileNames ids, ∀ S, w.tree.leadOf s.folder = some S →
      ¬LeadsTo w.tree r.changes (S ++ [name]) := by
    intro name hname S hS hleads
    obtain ⟨hown, -⟩ := mem_ownNames_of_mem_fileNames hname
    exact houtside _ hleads ⟨S, [name], hS, ⟨name, [], hown, rfl⟩, rfl⟩
  have hrecords₁ := hrecords.frame hw hids hr hframe₁ (hfile _ (mem_fileNames hr))
    fun _ _ _ _ hno => hno
  have hindexed₁ := hindexed.frame hw hids hframe₁ (hfile _ List.mem_cons_self)
    fun _ _ _ _ hno => hno
  obtain ⟨w₂, hsave⟩ :=
    saveRun_of_records hguarded hids hr hrecords₁ hindexed₁ (show r.reverted.id = r.id from rfl)
  obtain ⟨hkept, hstored⟩ :=
    saveRun_spec (r := r.reverted) (hguarded.receives hids hr) hvalid hsave
  have hrun : (s.restoreAll r.id r).run.run w = (.ok (), _) :=
    (Attempt.bind_of_ok hprint).trans ((Attempt.bind_of_ok hrestore).trans
      ((Attempt.bind_of_ok hsave).trans (Attempt.run_print _ _)))
  refine ⟨_, hrun, hkept.wellFormed, (hstored rfl).1, ?_, fun c hc k x y hrestorable => ?_⟩
  · refine (hframe₁.mono (fun k hk => .inr hk) fun _ hk => hk).trans (hkept.frame.mono ?_ ?_)
    · exact fun k hk => .inl ((Below.frame hframe₁).mp hk)
    · rintro k (hno | ⟨S, r, -, hno, -⟩)
      · exact hno hindexed₁.again.folder
      · exact hno
  · have hone : ∀ id ∈ [r.id], id ∈ ids := by simpa using hr
    have hfile := hrestored.get?_of_restorable (hw.mono hone) (hids r.id hr)
      (fun k hk hown => houtside k hk (hown.mono fun _ => IsOwn.mono hone)) hdistinct hc hrestorable
    have hk : ¬s.Below w₁.tree (IsRunText r.id) k := fun hbelow =>
      houtside k ⟨c, hc, FileTree.leadOf_of_resolve hrestorable.found⟩
        (((Below.frame hframe₁).mp hbelow).mono fun _ => isOwn_of_isRunText hr)
    exact (hkept.frame.file k hk _).mpr hfile

/-- A recorded run whose files are as it left them can be reverted, and its files get back their
texts. -/
theorem revert_ok {r : Run} (hw : s.Guarded ids w.tree) (hids : ∀ id ∈ ids, Run.IsId id)
    (hr : r.id ∈ ids) (hvalid : r.timestamp.IsValid) (hrecords : s.Records w.tree r)
    (hindexed : s.Indexed w.tree) (hstatus : r.status = .applied) (hcan : r.canRevert = true)
    (hchanges : ∀ c ∈ r.changes, ∃ k x y, s.Restorable r.id w.tree c k x y ∧
      ¬s.Owns w.tree ids k)
    (hdistinct : (r.changes.map fun c => w.tree.leadOf c.path).Nodup) :
    ∃ w', (s.revert r.id false).run.run w = (.ok (), w') ∧ w'.tree.WellFormed ∧
      s.Indexed w'.tree ∧
      Frame (fun k => s.Below w.tree (IsRunText r.id) k ∨ LeadsTo w.tree r.changes k) Nowhere
        w.tree w'.tree ∧
      ∀ c ∈ r.changes, ∀ k x y, s.Restorable r.id w.tree c k x y →
        w'.tree.get? k = some (.file x.toBytes) := by
  have hrevert := revert_of_unchanged (loadRun_of_stores hvalid hrecords.stored) hstatus hcan
    fun c hc => by
    obtain ⟨k, x, y, hc, -⟩ := hchanges c hc
    exact hc.isUnchanged
  obtain ⟨w', hrestore, hrest⟩ :=
    restoreAll_ok hw hids hr hvalid hrecords hindexed hchanges hdistinct
  exact ⟨w', hrevert.trans hrestore, hrest⟩

end Rewrap.RunStore
