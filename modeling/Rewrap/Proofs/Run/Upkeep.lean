import Rewrap.Proofs.Run.Keeping
import Rewrap.Proofs.Run.Reverting

/-! # Reverting and cleaning in order

A revert that fails leaves all that is kept of the runs as it was, and one that succeeds saves the
run again. Cleaning takes away all that is kept of some runs, and then stores the index of the
others. -/

namespace Rewrap.RunStore

open FileTree (Frame Nowhere IsInside)

variable {s : RunStore} {S : Place} {id : String} {t u : FileTree} {w w' : World} {i : RunIndex}
  {r : Run}

theorem Filed.housed (h : s.Filed S t id r) (ht : s.Placed S t) : s.Housed S t :=
  ht.housed (h.stored.get?_eq ht (isName_runFileName_of_isId h.isId)) (FileTree.isInside_cons _ _ _)

theorem Filed.isPresent (h : s.Filed S t id r) : t.isPresent (s.runPath id) = true :=
  h.stored.isPresent

/-- The runs that are found are those of the index. -/
theorem InOrder.isPresent_iff (h : s.InOrder S t i) (hid : '/' ∉ id.toList)
    (hruns : id ≠ "runs") : t.isPresent (s.runPath id) = true ↔ (i.find? id).isSome = true := by
  constructor
  · intro hpresent
    refine (h.only id fun hnone => ?_).resolve_left hruns
    have habsent := h.placed.not_isPresent (isName_runFileName hid) hnone
    rw [show s.folder.join ⟨runFileName id⟩ = s.runPath id from rfl, hpresent] at habsent
    cases habsent
  · intro hsome
    obtain ⟨r, hr⟩ := Option.isSome_iff_exists.mp hsome
    exact (h.filed id r hr).isPresent

/-- Only a run of the index is loaded. -/
theorem InOrder.loadRun_cases (h : s.InOrder S w.tree i) (hid : '/' ∉ id.toList) :
    (∃ e, (s.loadRun id).run.run w = (.error e, w)) ∨
      ∃ r, i.find? id = some r ∧ (s.loadRun id).run.run w = (.ok r, w) := by
  cases hfind : i.find? id with
  | some r =>
      have hfiled := h.filed id r hfind
      exact .inr ⟨r, rfl, loadRun_of_stores hfiled.valid hfiled.stored⟩
  | none =>
      left
      unfold loadRun
      rw [Attempt.bind_of_ok (Attempt.run_isPresent _ _)]
      cases hpresent : w.tree.isPresent (s.runPath id) with
      | false => exact ⟨_, rfl⟩
      | true =>
          obtain rfl : id = "runs" := by
            by_contra hruns
            have hsome := (h.isPresent_iff hid hruns).mp hpresent
            rw [hfind] at hsome
            cases hsome
          rw [if_pos rfl]
          -- the index is no run
          rcases h.listed with hstored | ⟨-, hnone⟩
          · obtain ⟨f, hf⟩ := i.run_ofText_text
            have hread : w.tree.read (s.runPath "runs") = .ok i.text.toBytes := hstored.read
            rw [Attempt.bind_of_ok (Attempt.readText_of_ok hread), hf]
            exact ⟨_, rfl⟩
          · have habsent : w.tree.isPresent (s.runPath "runs") = false :=
              h.placed.not_isPresent isName_index hnone
            rw [hpresent] at habsent
            cases habsent

/-! ## Reverting -/

theorem Restored.alters {cs : List Change} (h : s.Restored id cs t u) (ht : s.Housed S t)
    (houtside : ∀ c ∈ cs, LeadsOutside S t c.path) :
    u.WellFormed ∧ s.Alters S Nowhere t u := by
  obtain ⟨hwf, hframe⟩ := h.frame ht.wellFormed
  refine ⟨hwf, ht.alters hwf hframe fun r _ hr => ?_⟩
  rcases hr with ⟨c, hc, hlead⟩ | hno
  · exact houtside c hc _ hlead (List.prefix_append _ _)
  · exact hno

/-- What restoring the files of a run and saving it again keeps in order. -/
theorem restoreAll_of_grants (h : s.InOrder S w.tree i) (hr : i.find? id = some r)
    (hgrants : (s.restoreAll id r).run.Each (World.Grants S) w) :
    ∃ w', (∃ e, (s.restoreAll id r).run.run w = (.error e, w') ∧
      s.Alters S Nowhere w.tree w'.tree) ∨
      ((s.restoreAll id r).run.run w = (.ok (), w') ∧ s.Alters S (IsRunText id) w.tree w'.tree ∧
        s.InOrder S w'.tree (i.add r.reverted)) := by
  have hfiled := h.filed id r hr
  obtain rfl := hfiled.id_eq
  unfold restoreAll at hgrants ⊢
  have hgrants := ((Attempt.each_bind (Attempt.run_print _ _)).mp hgrants).2
  rw [Attempt.bind_of_ok (Attempt.run_print _ _)]
  generalize hprinted : ({ w with out := _ } : World) = w₀ at hgrants ⊢
  have htree : w₀.tree = w.tree := by rw [← hprinted]
  obtain ⟨done, rest, w₁, hchanges, hrestored, -, hcases⟩ :=
    forM_restore_cases (s := s) (htree ▸ h.placed.wellFormed) r.id r.changes
  rw [htree] at hrestored
  have hdone : ∀ c ∈ done, c ∈ r.changes := by
    rw [hchanges]
    exact fun c hc => List.mem_append_left _ hc
  obtain ⟨-, halters⟩ :=
    hrestored.alters (hfiled.housed h.placed) fun c hc => (hfiled.backed c (hdone c hc)).outside
  rcases hcases with ⟨-, hforM⟩ | ⟨c, rest', e, -, hforM, -⟩
  · have hrestoredAll := h.alters halters (fun _ hno => hno) fun _ _ _ hno => hno
    rw [Attempt.bind_of_ok hforM]
    have hgrants := ((Attempt.each_bind hforM).mp hgrants).2
    obtain ⟨w₂, hsave, hsaved, hinOrder⟩ :=
      saveRun_of_grants (r := r.reverted) hrestoredAll hfiled.isId hfiled.valid
      (fun c hc => (hfiled.backed c hc).alters h.placed halters hfiled.isId fun hno => hno)
      ⟨fun _ => rfl, fun _ => rfl⟩ (Attempt.each_of_bind hgrants)
    rw [Attempt.bind_of_ok hsave, Attempt.run_print]
    exact ⟨_, .inr ⟨rfl, (halters.mono fun _ hno => hno.elim).trans hsaved, hinOrder⟩⟩
  · rw [Attempt.run_bind, hforM]
    exact ⟨w₁, .inl ⟨e, rfl, halters⟩⟩

/-- A revert that fails changes nothing that is kept of the runs; one that succeeds saves the run,
which could be reverted, as one that no longer can. -/
theorem revert_of_grants (h : s.InOrder S w.tree i) (hid : '/' ∉ id.toList) {force : Bool}
    (hgrants : (s.revert id force).run.Each (World.Grants S) w) :
    ∃ w', (∃ e, (s.revert id force).run.run w = (.error e, w') ∧
      s.Alters S Nowhere w.tree w'.tree) ∨
      ∃ r, i.find? id = some r ∧ r.canRevert = true ∧
        (s.revert id force).run.run w = (.ok (), w') ∧
        s.Alters S (IsRunText id) w.tree w'.tree ∧ s.InOrder S w'.tree (i.add r.reverted) := by
  rw [revert_eq] at hgrants ⊢
  rcases h.loadRun_cases hid with ⟨e, hload⟩ | ⟨r, hr, hload⟩
  · rw [Attempt.run_bind, hload]
    exact ⟨w, .inl ⟨e, rfl, .refl h.placed⟩⟩
  · have hgrants := ((Attempt.each_bind hload).mp hgrants).2
    rw [Attempt.bind_of_ok hload]
    by_cases hreverted : r.status = .reverted
    · rw [if_pos hreverted]
      exact ⟨w, .inl ⟨_, rfl, .refl h.placed⟩⟩
    · cases hcan : r.canRevert with
      | false => exact absurd ((h.filed id r hr).status.mpr hcan) hreverted
      | true =>
          rw [if_neg hreverted, if_neg (by simp [hcan])] at hgrants ⊢
          have hrestore : ∀ {w₁ : World}, w₁ = w →
              (s.restoreAll id r).run.Each (World.Grants S) w₁ →
              ∃ w', (∃ e, (s.restoreAll id r).run.run w₁ = (.error e, w') ∧
                s.Alters S Nowhere w.tree w'.tree) ∨
                ∃ r', i.find? id = some r' ∧ r'.canRevert = true ∧
                  (s.restoreAll id r).run.run w₁ = (.ok (), w') ∧
                  s.Alters S (IsRunText id) w.tree w'.tree ∧
                  s.InOrder S w'.tree (i.add r'.reverted) := by
            rintro w₁ rfl hgrants
            obtain ⟨w', hfailed | ⟨hrun, halters, hinOrder⟩⟩ :=
              restoreAll_of_grants h hr hgrants
            · exact ⟨w', .inl hfailed⟩
            · exact ⟨w', .inr ⟨r, hr, hcan, hrun, halters, hinOrder⟩⟩
          cases force with
          | true => exact hrestore rfl hgrants
          | false =>
              have hworld := forM_checkUnchanged_world id r.changes w
              rw [if_neg (by simp)] at hgrants ⊢
              cases hcheck : (r.changes.forM (checkUnchanged id)).run.run w with
              | mk res w₁ =>
                  rw [hcheck] at hworld
                  cases res with
                  | error e =>
                      obtain rfl : w₁ = w := hworld
                      rw [Attempt.run_bind, hcheck]
                      exact ⟨w₁, .inl ⟨e, rfl, .refl h.placed⟩⟩
                  | ok _ =>
                      rw [Attempt.bind_of_ok hcheck]
                      exact hrestore hworld ((Attempt.each_bind hcheck).mp hgrants).2

/-! ## Taking runs away -/

/-- The places, seen from the store's folder, at which a run is kept. -/
def IsOf (id : String) (k : Place) : Prop := (∃ rest, k = id :: rest) ∨ k = [runFileName id]

theorem runFileName_ne_of_isId (hid : Run.IsId id) (id' : String) : runFileName id' ≠ id := by
  intro h
  refine absurd (hid.2 '.' ?_) (by decide)
  rw [← h]
  simp [runFileName, String.toList_append]

theorem eq_of_isOf {id' : String} (hid : Run.IsId id) (h : IsOf id [runFileName id']) :
    id' = id := by
  rcases h with ⟨rest, h⟩ | h
  · exact absurd (List.cons.inj h).1 (runFileName_ne_of_isId hid id')
  · exact runFileName_inj (List.singleton_inj.mp h)

theorem eq_of_isOf_pair {id' n : String} (h : IsOf id [id', n]) : id' = id := by
  rcases h with ⟨rest, h⟩ | h
  · exact (List.cons.inj h).1
  · simp at h

/-- Removes the file of a run. -/
def discardFile (s : RunStore) (r : Run) : Attempt Run.Error Unit := do
  if ← Attempt.always (Action.isPresent (s.runPath r.id)) then
    Attempt.orFail (Action.ask (.removeFile (s.runPath r.id))) .file

theorem discard_eq (s : RunStore) (r : Run) :
    s.discard r = (do
      if ← Attempt.always (Action.isPresent (s.backupFolder r.id)) then
        Attempt.orFail (Action.ask (.removeFolder (s.backupFolder r.id))) .file
        s.discardFile r
      else s.discardFile r) := rfl

theorem discardFile_of_grants (h : s.Housed S w.tree) (hid : Run.IsId r.id) {x : Text}
    (hx : s.Stores w.tree (runFileName r.id) x)
    (hgrants : (s.discardFile r).run.Each (World.Grants S) w) :
    ∃ w', (s.discardFile r).run.run w = (.ok (), w') ∧ s.Alters S (IsOf r.id) w.tree w'.tree ∧
      w'.tree.get? (S ++ [runFileName r.id]) = none := by
  have hname := isName_runFileName_of_isId hid
  have hpresent : w.tree.isPresent (s.runPath r.id) = true := hx.isPresent
  unfold discardFile at hgrants ⊢
  have hgrants := ((Attempt.each_bind (Attempt.run_isPresent _ _)).mp hgrants).2
  rw [Attempt.bind_of_ok (Attempt.run_isPresent _ _)]
  rw [if_pos hpresent] at hgrants ⊢
  obtain ⟨w₁, hremove, hrun⟩ := Attempt.run_of_each hgrants fun hremove =>
    hremove.1.fulfils List.mem_cons_self (Placed.leadOf_join (.inl h) hname)
      (List.prefix_append _ _)
  have hremoved : w.tree.removeFile (s.folder.join ⟨runFileName r.id⟩) =
      (.ok (), w₁.tree) := by
    obtain ⟨hok, rfl⟩ := Prod.mk.inj hremove
    exact Prod.ext hok rfl
  obtain ⟨halters, hgone⟩ := h.removeFile hname hremoved
  exact ⟨w₁, hrun, halters.mono fun _ hr => .inr hr, hgone⟩

theorem discard_of_grants (h : s.Placed S w.tree) (hr : s.Filed S w.tree r.id r)
    (hgrants : (s.discard r).run.Each (World.Grants S) w) :
    ∃ w', (s.discard r).run.run w = (.ok (), w') ∧ s.Alters S (IsOf r.id) w.tree w'.tree ∧
      w'.tree.get? (S ++ [runFileName r.id]) = none := by
  have hhoused := hr.housed h
  rw [discard_eq] at hgrants ⊢
  have hgrants := ((Attempt.each_bind (Attempt.run_isPresent _ _)).mp hgrants).2
  rw [Attempt.bind_of_ok (Attempt.run_isPresent _ _)]
  cases hpresent : w.tree.isPresent (s.backupFolder r.id) with
  | false =>
      rw [if_neg (by simp [hpresent])] at hgrants ⊢
      exact discardFile_of_grants hhoused hr.isId hr.stored hgrants
  | true =>
      have hname := isName_of_isId hr.isId
      rw [if_pos hpresent] at hgrants
      obtain ⟨w₁, hremove, hrun, hgrants⟩ := Attempt.bind_of_each hgrants fun hremove =>
        hremove.1.fulfils List.mem_cons_self (h.leadOf_join hname) (List.prefix_append _ _)
      have hremoved : w.tree.removeFolder (s.folder.join ⟨r.id⟩) = (.ok (), w₁.tree) := by
        obtain ⟨hok, rfl⟩ := Prod.mk.inj hremove
        exact Prod.ext hok rfl
      have halters := hhoused.removeFolder hname hremoved
      have hfile : s.Stores w₁.tree (runFileName r.id) r.text := by
        refine hr.stored.alters h halters (isName_runFileName_of_isId hr.isId) ?_
        rintro ⟨rest, hrest⟩
        exact runFileName_ne_of_isId hr.isId r.id (List.cons.inj hrest).1
      have hhoused₁ := halters.placed.housed
        (hfile.get?_eq halters.placed (isName_runFileName_of_isId hr.isId))
        (FileTree.isInside_cons _ _ _)
      obtain ⟨w₂, hrun₂, halters₂, hgone⟩ :=
        discardFile_of_grants hhoused₁ hr.isId hfile hgrants
      exact ⟨w₂, hrun.trans hrun₂,
        (halters.mono fun _ hr => .inl hr).trans halters₂, hgone⟩

theorem forM_discard_of_grants {rs : List Run} (h : s.Placed S w.tree)
    (hrs : ∀ r ∈ rs, s.Filed S w.tree r.id r) (hnodup : (rs.map Run.id).Nodup)
    (hgrants : (rs.forM s.discard).run.Each (World.Grants S) w) :
    ∃ w', (rs.forM s.discard).run.run w = (.ok (), w') ∧
      s.Alters S (fun k => ∃ r ∈ rs, IsOf r.id k) w.tree w'.tree ∧
      ∀ r ∈ rs, w'.tree.get? (S ++ [runFileName r.id]) = none := by
  induction rs generalizing w with
  | nil => exact ⟨w, rfl, .refl h, by simp⟩
  | cons r rs ih =>
      have hcons : (r :: rs).forM s.discard = (s.discard r >>= fun _ => rs.forM s.discard) := rfl
      have hr := hrs r List.mem_cons_self
      rw [hcons] at hgrants ⊢
      rw [List.map_cons, List.nodup_cons] at hnodup
      obtain ⟨w₁, hrun₁, halters₁, hgone₁⟩ :=
        discard_of_grants h hr (Attempt.each_of_bind hgrants)
      have hother : ∀ r' ∈ rs, r'.id ≠ r.id := fun r' hr' heq =>
        hnodup.1 (heq ▸ List.mem_map_of_mem hr')
      have hrs₁ : ∀ r' ∈ rs, s.Filed S w₁.tree r'.id r' := fun r' hr' =>
        (hrs r' (List.mem_cons_of_mem _ hr')).alters h halters₁
          (fun hof => hother r' hr' (eq_of_isOf hr.isId hof))
          fun n hof => hother r' hr' (eq_of_isOf_pair hof)
      obtain ⟨w₂, hrun₂, halters₂, hgone₂⟩ :=
        ih halters₁.placed hrs₁ hnodup.2 ((Attempt.each_bind hrun₁).mp hgrants).2
      refine ⟨w₂, (Attempt.bind_of_ok hrun₁).trans hrun₂,
        (halters₁.mono fun k hk => ⟨r, List.mem_cons_self, hk⟩).trans
          (halters₂.mono fun k ⟨r', hr', hk⟩ => ⟨r', List.mem_cons_of_mem _ hr', hk⟩),
            fun r' hr' => ?_⟩
      rcases List.mem_cons.mp hr' with rfl | hr'
      · rw [halters₂.inside _ (by simp), hgone₁]
        rintro ⟨r₂, hr₂, hof⟩
        exact hother r₂ hr₂ (eq_of_isOf (hrs₁ r₂ hr₂).isId hof).symm
      · exact hgone₂ r' hr'

/-! ## Cleaning -/

theorem loadIndexOrReset_of_inOrder (h : s.InOrder S w.tree i) :
    s.loadIndexOrReset.run.run w = (.ok i, w) := by
  unfold loadIndexOrReset
  rw [Attempt.run_bind, Attempt.run_always, loadIndex_of_listed h.placed h.sound h.listed]
  rfl

theorem InOrder.mem_runs_iff (h : s.InOrder S t i) : r ∈ i.runs ↔ i.find? r.id = some r := by
  rw [RunIndex.runs, List.mem_map]
  constructor
  · rintro ⟨⟨id, r⟩, he, rfl⟩
    have hfind := (RunIndex.find?_iff h.sound).mpr he
    rwa [(h.filed id r hfind).id_eq]
  · exact fun hr => ⟨(r.id, r), (RunIndex.find?_iff h.sound).mp hr, rfl⟩

/-- Once all that was kept of some runs is gone and the index of the others is stored, these are in
order. -/
theorem InOrder.filter (h : s.InOrder S t i) {q : Run → Bool} {v : FileTree}
    (hu : s.Alters S (fun k => ∃ r ∈ i.runs.filter (!q ·), IsOf r.id k) t u)
    (hgone : ∀ r ∈ i.runs.filter (!q ·), u.get? (S ++ [runFileName r.id]) = none)
    (hv : s.Alters S (IsText "runs.json") u v)
    (hstored : s.Stores v "runs.json" (RunIndex.text ⟨i.entries.filter (q ·.2)⟩)) :
    s.InOrder S v ⟨i.entries.filter (q ·.2)⟩ := by
  have hold : ∀ {r}, r ∈ i.runs.filter (!q ·) ↔ i.find? r.id = some r ∧ q r = false := by
    intro r
    rw [List.mem_filter, h.mem_runs_iff, Bool.not_eq_true']
  have hother : ∀ {id r}, i.find? id = some r → q r = true → ∀ r' ∈ i.runs.filter (!q ·),
      id ≠ r'.id := by
    rintro id r hr hq r' hr' rfl
    obtain ⟨hr', hq'⟩ := hold.mp hr'
    rw [hr', Option.some.injEq] at hr
    rw [hr, hq] at hq'
    cases hq'
  refine ⟨hv.placed, h.sound.filter _, .inl hstored, fun id r hr => ?_, fun id hsome => ?_⟩
  · obtain ⟨hr, hq⟩ := (RunIndex.find?_filter_iff h.sound q).mp hr
    have hfiled := h.filed id r hr
    have hfiled₁ : s.Filed S u id r := hfiled.alters h.placed hu
      (fun ⟨r', hr', hof⟩ => hother hr hq r' hr'
        (eq_of_isOf (h.filed _ _ (hold.mp hr').1).isId hof))
      fun n ⟨r', hr', hof⟩ => hother hr hq r' hr' (eq_of_isOf_pair hof)
    refine hfiled₁.alters hu.placed hv (not_isText_runFileName (ne_runs_of_isId hfiled.isId))
      fun n hn => ?_
    rcases hn with hn | hn
    all_goals simp at hn
  · by_cases hruns : id = "runs"
    · exact .inl hruns
    · right
      rw [hv.inside _ (by simp) (not_isText_runFileName hruns)] at hsome
      -- the file was there before, and its run is not one of those that are gone
      have hnot : ¬∃ r ∈ i.runs.filter (!q ·), IsOf r.id [runFileName id] := by
        rintro ⟨r, hr, hof⟩
        obtain rfl := eq_of_isOf (h.filed _ _ (hold.mp hr).1).isId hof
        exact hsome (hgone r hr)
      have hbefore := hsome
      rw [hu.inside _ (by simp) hnot] at hbefore
      obtain ⟨r, hr⟩ := Option.isSome_iff_exists.mp ((h.only id hbefore).resolve_left hruns)
      obtain rfl := (h.filed id r hr).id_eq
      refine Option.isSome_iff_exists.mpr
        ⟨r, (RunIndex.find?_filter_iff h.sound q).mpr ⟨hr, ?_⟩⟩
      by_contra hq
      exact hsome (hgone r (hold.mpr ⟨hr, by simpa using hq⟩))

/-- Cleaning leaves the runs in order that it does not take away, and touches nothing that is kept
of them. -/
theorem clean_of_grants (h : s.InOrder S w.tree i) {keepDays : Nat} {now : Timestamp}
    (hgrants : (s.clean keepDays now).run.Each (World.Grants S) w) :
    ∃ res w' i', (s.clean keepDays now).run.run w = (res, w') ∧
      s.Alters S (fun k => IsText "runs.json" k ∨
        ∃ id, (i.find? id).isSome = true ∧ i'.find? id = none ∧ IsOf id k) w.tree w'.tree ∧
      s.InOrder S w'.tree i' ∧ ∀ id r, i'.find? id = some r → i.find? id = some r := by
  unfold clean at hgrants ⊢
  have hload := loadIndexOrReset_of_inOrder h
  have hgrants := ((Attempt.each_bind hload).mp hgrants).2
  rw [Attempt.bind_of_ok hload]
  cases hcutoff : now.daysBefore? keepDays with
  | none => exact ⟨_, w, i, rfl, .refl h.placed, h, fun _ _ hr => hr⟩
  | some cutoff =>
      simp only [hcutoff, List.partition_eq_filter_filter] at hgrants ⊢
      generalize hq : (fun r : Run => cutoff.le r.timestamp) = q at hgrants ⊢
      have hids : ∀ e ∈ i.entries, e.2.id = e.1 := fun e he =>
        (h.filed _ _ ((RunIndex.find?_iff h.sound).mpr he)).id_eq
      rw [RunIndex.foldl_add_filter h.sound hids] at hgrants ⊢
      have hfiled : ∀ r ∈ i.runs.filter (!q ·), s.Filed S w.tree r.id r := fun r hr =>
        h.filed _ _ (h.mem_runs_iff.mp (List.mem_filter.mp hr).1)
      have hnodup : ((i.runs.filter (!q ·)).map Run.id).Nodup := by
        have hids : i.runs.map Run.id = i.entries.map Prod.fst := by
          rw [RunIndex.runs, List.map_map]
          exact List.map_congr_left hids
        exact (hids ▸ h.sound.nodup : (i.runs.map Run.id).Nodup).sublist
          (List.filter_sublist.map _)
      obtain ⟨w₁, hdiscard, halters₁, hgone⟩ :=
        forM_discard_of_grants h.placed hfiled hnodup
        (Attempt.each_of_bind hgrants)
      have hgrants := ((Attempt.each_bind hdiscard).mp hgrants).2
      have hnone : ∀ id ∈ ([] : List String), Run.IsId id := by simp
      obtain ⟨w₂, hsave, halters₂, hstored⟩ :=
        store_of_grants halters₁.placed hnone List.mem_cons_self
        (Attempt.each_of_bind hgrants)
      refine ⟨.ok _, w₂, _, (Attempt.bind_of_ok hdiscard).trans (Attempt.bind_of_ok hsave), ?_,
        h.filter halters₁ hgone halters₂ hstored,
          fun id r hr => ((RunIndex.find?_filter_iff h.sound q).mp hr).1⟩
      refine (halters₁.mono ?_).trans (halters₂.mono fun _ hk => .inl hk)
      rintro k ⟨r, hr, hk⟩
      have hfind := h.mem_runs_iff.mp (List.mem_filter.mp hr).1
      have hgone : RunIndex.find? ⟨i.entries.filter (q ·.2)⟩ r.id = none := by
        refine Option.eq_none_iff_forall_ne_some.mpr fun r' hr' => ?_
        obtain ⟨hfind', hkept⟩ := (RunIndex.find?_filter_iff h.sound q).mp hr'
        rw [hfind, Option.some.injEq] at hfind'
        simp [hfind', hkept] at hr
      exact .inr ⟨r.id, Option.isSome_iff_exists.mpr ⟨r, hfind⟩, hgone, hk⟩

end Rewrap.RunStore
