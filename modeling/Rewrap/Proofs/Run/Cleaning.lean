import Rewrap.Proofs.Run.Absolute
import Rewrap.Proofs.Run.Confined
import Rewrap.Proofs.Timestamp.Cutoff

/-! # Cleaning

Cleaning takes away the runs from before a point in time and enters the others into a new index. In
what order the runs of the index are gone through makes no difference. A point in time before the
calendar cannot be gone back to, and then nothing is cleaned. -/

namespace Rewrap

/-! ## Indexes by the ids of their runs -/

namespace RunIndex

variable {i : RunIndex} {id : String} {r : Run} {rs : List Run}

/-- Every run stands under its own id. -/
def IsKeyed (i : RunIndex) : Prop := ∀ e ∈ i.entries, e.2.id = e.1

theorem isKeyed_map (rs : List Run) : IsKeyed ⟨rs.map fun r => (r.id, r)⟩ := by
  intro e he
  obtain ⟨r, -, rfl⟩ := List.mem_map.mp he
  rfl

theorem IsKeyed.map_runs (h : i.IsKeyed) : i.runs.map (fun r => (r.id, r)) = i.entries := by
  rw [runs, List.map_map]
  conv_rhs => rw [← List.map_id i.entries]
  exact List.map_congr_left fun e he => Prod.ext (h e he) rfl

theorem IsKeyed.nodup_runs (h : i.IsKeyed) (hsound : i.IsSound) : (i.runs.map Run.id).Nodup := by
  have hids : i.runs.map Run.id = i.entries.map Prod.fst := by
    rw [runs, List.map_map]
    exact List.map_congr_left h
  exact hids ▸ hsound.nodup

theorem IsKeyed.find?_iff (h : i.IsKeyed) (hsound : i.IsSound) :
    i.find? id = some r ↔ r ∈ i.runs ∧ r.id = id := by
  rw [RunIndex.find?_iff hsound]
  constructor
  · exact fun he => ⟨List.mem_map_of_mem he, h _ he⟩
  · rintro ⟨hr, rfl⟩
    obtain ⟨e, he, rfl⟩ := List.mem_map.mp hr
    rw [h e he]
    exact he

theorem foldl_add_of_nodup (h : (rs.map Run.id).Nodup) :
    rs.foldl add empty = ⟨rs.map fun r => (r.id, r)⟩ := by
  have hinsert : rs.foldl add empty =
      (rs.map fun r => (r.id, r)).foldl (fun i e => i.insert e.1 e.2) empty := by
    rw [List.foldl_map]
    rfl
  have hkeys : (rs.map fun r => (r.id, r)).map Prod.fst = rs.map Run.id := by
    rw [List.map_map]
    rfl
  rw [hinsert, foldl_insert (by rw [empty, List.nil_append, hkeys]; exact h)]
  rfl

/-- Entering the runs of an index anew gives the same index. -/
theorem IsKeyed.foldl_add (h : i.IsKeyed) (hsound : i.IsSound) : i.runs.foldl add empty = i := by
  rw [foldl_add_of_nodup (h.nodup_runs hsound), h.map_runs]

theorem isSound_map (h : (rs.map Run.id).Nodup) (hvalid : ∀ r ∈ rs, r.timestamp.IsValid) :
    IsSound ⟨rs.map fun r => (r.id, r)⟩ := by
  refine ⟨?_, fun e he => ?_⟩
  · rw [List.map_map]
    exact h
  · obtain ⟨r, hr, rfl⟩ := List.mem_map.mp he
    exact hvalid r hr

theorem runs_map (rs : List Run) : runs ⟨rs.map fun r => (r.id, r)⟩ = rs := by
  rw [runs, List.map_map]
  exact List.map_id rs

end RunIndex

/-- Whether a run was made before a point in time. -/
def Run.isBefore (cutoff : Timestamp) (r : Run) : Bool := r.timestamp.compare cutoff == .lt

theorem Run.isBefore_eq (cutoff : Timestamp) (r : Run) :
    r.isBefore cutoff = !cutoff.le r.timestamp := by
  have hle : cutoff.le r.timestamp = false ↔ r.timestamp.compare cutoff = .lt :=
    Timestamp.le_eq_false_iff
  unfold isBefore
  cases hcompare : cutoff.le r.timestamp with
  | false => simp [hle.mp hcompare]
  | true =>
      have hnot : r.timestamp.compare cutoff ≠ .lt := by
        intro hlt
        rw [hle.mpr hlt] at hcompare
        cases hcompare
      simpa using hnot

namespace RunStore

open FileTree (IsInside)

variable {s : RunStore} {S : Place} {w w' : World} {i : RunIndex} {r : Run}
  {order : List Run → List Run} {keepDays n : Nat} {now cutoff : Timestamp}

/-! ## The parts of a cleaning -/

/-- Cleaning, with the runs of the index gone through in some order. -/
def cleanInOrder (s : RunStore) (order : List Run → List Run) (keepDays : Nat) (now : Timestamp) :
    Attempt Run.Error Nat := do
  let index ← s.loadIndexOrReset
  match now.daysBefore? keepDays with
  | none => throw .beforeCalendar
  | some cutoff =>
      let (kept, old) := (order index.runs).partition fun r => cutoff.le r.timestamp
      old.forM s.discard
      s.saveIndex (kept.foldl RunIndex.add RunIndex.empty)
      return old.length

/-- Cleaning goes through the runs in the order in which they were entered. -/
theorem clean_eq_cleanInOrder (s : RunStore) : s.clean = s.cleanInOrder fun rs => rs := by
  unfold clean cleanInOrder
  rfl

/-- Takes away the runs from before a point in time, and stores an index of the others. -/
def sweep (s : RunStore) (cutoff : Timestamp) (rs : List Run) : Attempt Run.Error Nat := do
  (rs.filter (·.isBefore cutoff)).forM s.discard
  s.saveIndex ((rs.filter (!·.isBefore cutoff)).foldl RunIndex.add RunIndex.empty)
  return (rs.filter (·.isBefore cutoff)).length

/-- Where no run is old, all of them are stored. -/
theorem sweep_of_not_isBefore {rs : List Run} (hnew : ∀ r ∈ rs, r.isBefore cutoff = false) :
    s.sweep cutoff rs = do s.saveIndex (rs.foldl .add .empty); return 0 := by
  have hold : rs.filter (·.isBefore cutoff) = [] := List.filter_eq_nil_iff.mpr fun r hr => by
    simp [hnew r hr]
  have hkept : rs.filter (!·.isBefore cutoff) = rs := List.filter_eq_self.mpr fun r hr => by
    simp [hnew r hr]
  unfold sweep
  rw [hold, hkept]
  rfl

/-- An index that can be loaded is swept, if the calendar goes back far enough. -/
theorem cleanInOrder_of_loadIndex (hload : s.loadIndex.run.run w = (.ok i, w)) :
    (s.cleanInOrder order keepDays now).run.run w =
      match now.daysBefore? keepDays with
      | none => (.error .beforeCalendar, w)
      | some cutoff => (s.sweep cutoff (order i.runs)).run.run w := by
  have hindex : s.loadIndexOrReset.run.run w = (.ok i, w) := by
    unfold loadIndexOrReset
    rw [Attempt.run_bind, Attempt.run_always, hload]
    rfl
  unfold cleanInOrder
  rw [Attempt.bind_of_ok hindex]
  cases now.daysBefore? keepDays with
  | none => rfl
  | some cutoff =>
      simp only [sweep, Run.isBefore_eq, Bool.not_not, List.partition_eq_filter_filter]
      rfl

/-! ## What cleaning leaves behind -/

/-- A sweep takes the old runs away and stores an index of the others. -/
theorem sweep_of_ok {rs : List Run} (h : s.Placed S w.tree)
    (hids : ∀ r ∈ rs, Run.IsShortId r.id) (hrun : (s.sweep cutoff rs).run.run w = (.ok n, w')) :
    n = (rs.filter (·.isBefore cutoff)).length ∧
      ∃ t, s.Takes S (fun k => ∃ r ∈ rs.filter (·.isBefore cutoff), IsOf r.id k) w.tree t ∧
        s.Saved S ((rs.filter (!·.isBefore cutoff)).foldl .add .empty) t w'.tree := by
  unfold sweep at hrun
  obtain ⟨_, w₁, hdiscard, hrest⟩ := Attempt.bind_eq_ok hrun
  obtain ⟨_, w₂, hsave, hreturn⟩ := Attempt.bind_eq_ok hrest
  obtain ⟨hn, rfl⟩ := Prod.mk.inj hreturn
  have htakes := forM_discard_of_ok h (fun r hr => hids r (List.mem_filter.mp hr).1) hdiscard
  exact ⟨(Except.ok.inj hn).symm, w₁.tree, htakes,
    htakes.confined.placed.saveIndex_of_ok hsave⟩

/-- Of the runs of an index that are from before a point in time nothing is left, and of the others
everything. Nothing else that stands anywhere is changed but the stored index. -/
structure Cleaned (s : RunStore) (S : Place) (cutoff : Timestamp) (i : RunIndex)
    (w w' : World) : Prop where
  index : ∃ j, s.loadIndex.run.run w' = (.ok j, w') ∧
    ∀ id r, j.find? id = some r ↔ i.find? id = some r ∧ r.isBefore cutoff = false
  gone : ∀ id r, i.find? id = some r → r.isBefore cutoff = true → ∀ k, IsOf id k →
    w'.tree.get? (S ++ k) = none
  kept : ∀ id r, i.find? id = some r → r.isBefore cutoff = false →
    (∀ k, IsOf id k → w'.tree.get? (S ++ k) = w.tree.get? (S ++ k)) ∧
      (∀ x, s.Stores w.tree (runFileName id) x → s.Stores w'.tree (runFileName id) x) ∧
      ∀ name x, Path.IsName name.text → s.BackedUp w.tree id name x →
        s.BackedUp w'.tree id name x
  others : ∀ k, w.tree.get? k ≠ none →
    (∀ id r k', i.find? id = some r → r.isBefore cutoff = true → IsOf id k' →
      k ≠ S ++ k') →
      (∀ k', IsText "runs.json" k' → k ≠ S ++ k') → w'.tree.get? k = w.tree.get? k

theorem IsOf.ne_nil {id : String} {k : Place} (h : IsOf id k) : k ≠ [] := by
  rcases h with ⟨rest, rfl⟩ | rfl
  · exact List.cons_ne_nil _ _
  · exact List.cons_ne_nil _ _

theorem find?_foldl_add_filter {rs : List Run} (hsound : i.IsSound) (hkeyed : i.IsKeyed)
    (hperm : rs.Perm i.runs) (q : Run → Bool) :
    ((rs.filter q).foldl RunIndex.add .empty).IsSound ∧
      ((rs.filter q).foldl RunIndex.add .empty).IsKeyed ∧
      ((rs.filter q).foldl RunIndex.add .empty).runs = rs.filter q ∧
      ∀ id r, ((rs.filter q).foldl RunIndex.add .empty).find? id = some r ↔
        i.find? id = some r ∧ q r = true := by
  have hnodup : ((rs.filter q).map Run.id).Nodup :=
    ((hperm.map Run.id).nodup_iff.mpr (hkeyed.nodup_runs hsound)).sublist
      (List.filter_sublist.map _)
  have hvalid : ∀ r ∈ rs.filter q, r.timestamp.IsValid := by
    intro r hr
    obtain ⟨e, he, rfl⟩ := List.mem_map.mp (hperm.mem_iff.mp (List.mem_filter.mp hr).1)
    exact hsound.valid e he
  rw [RunIndex.foldl_add_of_nodup hnodup]
  have hsound' := RunIndex.isSound_map hnodup hvalid
  have hkeyed' := RunIndex.isKeyed_map (rs.filter q)
  refine ⟨hsound', hkeyed', RunIndex.runs_map _, fun id r => ?_⟩
  rw [hkeyed'.find?_iff hsound', hkeyed.find?_iff hsound, RunIndex.runs_map, List.mem_filter,
    hperm.mem_iff]
  tauto

/-- What is kept of a run that is not old is not taken away with the old runs. -/
theorem not_isOf_of_not_isBefore {rs : List Run} (hsound : i.IsSound) (hkeyed : i.IsKeyed)
    (hids : ∀ r ∈ i.runs, Run.IsShortId r.id) (hperm : rs.Perm i.runs) {id : String} {k : Place}
    (hr : i.find? id = some r) (hnew : r.isBefore cutoff = false) (hk : IsOf id k) :
    ¬∃ r' ∈ rs.filter (·.isBefore cutoff), IsOf r'.id k := by
  obtain ⟨hlisted, rfl⟩ := (hkeyed.find?_iff hsound).mp hr
  rintro ⟨r', hr', hk'⟩
  obtain ⟨hr', hold⟩ := List.mem_filter.mp hr'
  have hlisted' := hperm.mem_iff.mp hr'
  have heq : r'.id = r.id := eq_of_isOf_both (hids r' hlisted') (hids r hlisted) hk' hk
  have hfound : i.find? r.id = some r' := (hkeyed.find?_iff hsound).mpr ⟨hlisted', heq⟩
  obtain rfl := Option.some.inj (hfound.symm.trans hr)
  rw [hnew] at hold
  cases hold

/-- What was taken away and stored is a cleaning. -/
theorem Saved.cleaned {rs : List Run} {t : FileTree} (hplaced : s.Placed S w.tree)
    (hsound : i.IsSound) (hkeyed : i.IsKeyed) (hids : ∀ r ∈ i.runs, Run.IsShortId r.id)
    (hperm : rs.Perm i.runs)
    (htakes : s.Takes S (fun k => ∃ r ∈ rs.filter (·.isBefore cutoff), IsOf r.id k) w.tree t)
    (hsaved : s.Saved S ((rs.filter (!·.isBefore cutoff)).foldl .add .empty) t w'.tree) :
    s.Cleaned S cutoff i w w' := by
  obtain ⟨hsound', -, -, hfind⟩ :=
    find?_foldl_add_filter hsound hkeyed hperm (!·.isBefore cutoff)
  have hmem : ∀ {id r}, i.find? id = some r → r ∈ rs ∧ r.id = id ∧ Run.IsShortId id := by
    intro id r hr
    obtain ⟨hlisted, rfl⟩ := (hkeyed.find?_iff hsound).mp hr
    exact ⟨hperm.mem_iff.mpr hlisted, rfl, hids r hlisted⟩
  have hsame : ∀ {id r k}, i.find? id = some r → r.isBefore cutoff = false → IsOf id k →
      w'.tree.get? (S ++ k) = w.tree.get? (S ++ k) := by
    intro id r k hr hnew hk
    obtain ⟨-, -, hid⟩ := hmem hr
    rw [hsaved.confined.inside k hk.ne_nil (hk.not_isText_index hid),
      htakes.confined.inside k hk.ne_nil
        (not_isOf_of_not_isBefore hsound hkeyed hids hperm hr hnew hk)]
  have hplaced' := hsaved.confined.placed
  refine ⟨⟨_, loadIndex_of_stores hsound' hsaved.stored,
    fun id r => by simpa using hfind id r⟩, ?_, ?_, ?_⟩
  · intro id r hr hold k hk
    obtain ⟨hrs, rfl, hid⟩ := hmem hr
    rw [hsaved.confined.inside k hk.ne_nil (hk.not_isText_index hid)]
    exact htakes.gone hsaved.reaches k hk.ne_nil ⟨r, List.mem_filter.mpr ⟨hrs, hold⟩, hk⟩
  · intro id r hr hnew
    obtain ⟨-, -, hid⟩ := hmem hr
    refine ⟨fun k => hsame hr hnew, fun x hx => ?_, fun name x hname hx => ?_⟩
    · exact hx.of_get?_eq hplaced hplaced' hid.isName_runFileName (hsame hr hnew (.inr rfl))
    · exact hx.of_get?_eq hplaced hplaced' hid.isName hname (hsame hr hnew (.inl ⟨_, rfl⟩))
  · intro k hsome hold hindex
    have htaken : ∀ k', k = S ++ k' → ¬∃ r ∈ rs.filter (·.isBefore cutoff),
        IsOf r.id k' := by
      rintro k' hk ⟨r, hr, hof⟩
      obtain ⟨hr, hbefore⟩ := List.mem_filter.mp hr
      have hfound := (hkeyed.find?_iff hsound).mpr ⟨hperm.mem_iff.mp hr, rfl⟩
      exact hold r.id r k' hfound hbefore hof hk
    by_cases hinside : IsInside S k
    · obtain ⟨k', hne, rfl⟩ := hinside.exists_append
      rw [hsaved.confined.inside k' hne fun htext => hindex k' htext rfl,
        htakes.confined.inside k' hne (htaken k' rfl)]
    · have hfirst := htakes.confined.around k hinside hsome
      rw [hsaved.confined.around k hinside (hfirst ▸ hsome), hfirst]

/-- Where no run is old, a sweep only stores the index again. -/
theorem sweep_again {j : RunIndex} {rs : List Run} {t : FileTree} (hsaved : s.Saved S j t w.tree)
    (hsound : j.IsSound) (hkeyed : j.IsKeyed) (hperm : rs.Perm j.runs)
    (hnew : ∀ r ∈ j.runs, r.isBefore cutoff = false) :
    ∃ w', (s.sweep cutoff rs).run.run w = (.ok 0, w') ∧
      (∀ k, k ≠ S ++ ["runs.json"] → w'.tree.get? k = w.tree.get? k) ∧
      (∃ j', s.loadIndex.run.run w' = (.ok j', w') ∧ ∀ id, j'.find? id = j.find? id) ∧
      (rs = j.runs → ∀ k, w'.tree.get? k = w.tree.get? k) := by
  obtain ⟨hsound', -, -, hfind⟩ := find?_foldl_add_filter hsound hkeyed hperm fun _ => true
  rw [List.filter_true] at hsound' hfind
  have hplaced : s.Placed S w.tree := .inl hsaved.housed
  obtain ⟨w', hsave⟩ :=
    store_of_storable hplaced.direct_index hsaved.again (rs.foldl RunIndex.add .empty).text
  obtain ⟨hsaved', helsewhere⟩ := hsaved.housed.saveIndex_of_ok hsave
  have hothers : ∀ k, k ≠ S ++ ["runs.json"] → w'.tree.get? k = w.tree.get? k := by
    intro k hk
    by_cases htmp : k = S ++ [temporaryName "runs.json"]
    · -- the text under the other name was moved away both times
      rw [htmp, hsaved'.vacated, hsaved.vacated]
    · exact helsewhere k hk htmp
  refine ⟨w', ?_, hothers, ⟨_, loadIndex_of_stores hsound' hsaved'.stored, fun id => ?_⟩,
    fun hsame k => ?_⟩
  · rw [sweep_of_not_isBefore fun r hr => hnew r (hperm.mem_iff.mp hr)]
    exact Attempt.bind_of_ok hsave
  · exact Option.ext fun r => (hfind id r).trans (and_iff_left rfl)
  · by_cases hk : k = S ++ ["runs.json"]
    · have hindex : rs.foldl RunIndex.add .empty = j := by
        rw [hsame]
        exact hkeyed.foldl_add hsound
      rw [hk, hsaved'.stored.get?_eq (.inl hsaved'.housed) isName_index, hindex,
        hsaved.stored.get?_eq hplaced isName_index]
    · exact hothers k hk

/-- What cleaning leaves behind where the path of the store leads to its folder from the working
directory. -/
theorem Placed.cleaned (hplaced : s.Placed S w.tree) (hload : s.loadIndex.run.run w = (.ok i, w))
    (hids : ∀ e ∈ i.entries, e.2.id = e.1 ∧ Run.IsShortId e.1)
    (horder : ∀ rs, (order rs).Perm rs) (hcutoff : now.daysBefore? keepDays = some cutoff)
    (hclean : (s.cleanInOrder order keepDays now).run.run w = (.ok n, w')) :
    n = (i.runs.filter (·.isBefore cutoff)).length ∧ s.Cleaned S cutoff i w w' ∧
      ∀ again : List Run → List Run, (∀ rs, (again rs).Perm rs) →
        ∃ w'', (s.cleanInOrder again keepDays now).run.run w' = (.ok 0, w'') ∧
          (∀ k, k ≠ S ++ ["runs.json"] → w''.tree.get? k = w'.tree.get? k) ∧
          (∃ j j', s.loadIndex.run.run w' = (.ok j, w') ∧
            s.loadIndex.run.run w'' = (.ok j', w'') ∧ ∀ id, j'.find? id = j.find? id) ∧
          ((∀ rs, again rs = rs) → ∀ k, w''.tree.get? k = w'.tree.get? k) := by
  obtain ⟨-, -, hsound⟩ := loadIndex_spec hload
  have hsound := hsound i rfl
  have hkeyed : i.IsKeyed := fun e he => (hids e he).1
  have hshort : ∀ r ∈ i.runs, Run.IsShortId r.id := by
    intro r hr
    obtain ⟨e, he, rfl⟩ := List.mem_map.mp hr
    rw [(hids e he).1]
    exact (hids e he).2
  have hperm := horder i.runs
  rw [cleanInOrder_of_loadIndex hload, hcutoff] at hclean
  obtain ⟨hn, t, htakes, hsaved⟩ :=
    sweep_of_ok hplaced (fun r hr => hshort r (hperm.mem_iff.mp hr)) hclean
  refine ⟨?_, hsaved.cleaned hplaced hsound hkeyed hshort hperm htakes, fun again hagain => ?_⟩
  · rw [hn]
    exact (hperm.filter _).length_eq
  · obtain ⟨hsound', hkeyed', hruns, -⟩ :=
      find?_foldl_add_filter hsound hkeyed hperm (!·.isBefore cutoff)
    have hload' := loadIndex_of_stores hsound' hsaved.stored
    have hnew : ∀ r ∈ (((order i.runs).filter (!·.isBefore cutoff)).foldl RunIndex.add .empty).runs,
        r.isBefore cutoff = false := by
      intro r hr
      rw [hruns] at hr
      simpa using (List.mem_filter.mp hr).2
    obtain ⟨w'', hsweep, hothers, ⟨j', hj', hfind⟩, hsame⟩ :=
      sweep_again hsaved hsound' hkeyed' (hagain _) hnew
    refine ⟨w'', ?_, hothers, ⟨_, j', hload', hj', hfind⟩, fun hid => hsame (hid _)⟩
    rw [cleanInOrder_of_loadIndex hload', hcutoff]
    exact hsweep

/-! ## A store with an absolute path -/

section

variable (hs : s.folder.isAbsolute = true)

include hs

theorem isAbsolute_cleanInOrder (order : List Run → List Run) (keepDays : Nat) (now : Timestamp) :
    (s.cleanInOrder order keepDays now).run.IsAbsolute := by
  unfold cleanInOrder
  refine Attempt.isAbsolute_bind (isAbsolute_loadIndexOrReset hs) fun index => ?_
  split
  · exact Attempt.isAbsolute_throw _
  · refine Attempt.isAbsolute_bind (Attempt.isAbsolute_forM _ fun r _ => isAbsolute_discard hs r)
      fun _ => ?_
    exact Attempt.isAbsolute_bind (isAbsolute_saveIndex hs _) fun _ => Attempt.isAbsolute_pure _

/-- What was cleaned is cleaned wherever it is looked at from. -/
theorem Cleaned.of_seenFrom {d : Place} (h : s.Cleaned S cutoff i (w.seenFrom d) (w'.seenFrom d)) :
    s.Cleaned S cutoff i w w' where
  index := by
    obtain ⟨j, hload, hj⟩ := h.index
    exact ⟨j, loadIndex_of_seenFrom hs hload, hj⟩
  gone := h.gone
  kept := by
    intro id r hr hnew
    obtain ⟨hsame, hstores, hbackups⟩ := h.kept id r hr hnew
    refine ⟨hsame, fun x => ?_, fun name x hname => ?_⟩
    · have hstores := hstores x
      simp only [Stores, World.tree_seenFrom, FileTree.get?_seenFrom,
        FileTree.resolve_seenFrom (isAbsolute_join hs _)] at hstores
      exact hstores
    · have hbackups := hbackups name x hname
      have hname : ((s.backupFolder id).join name).isAbsolute = true :=
        Path.isAbsolute_join _ name (isAbsolute_join hs id)
      simp only [BackedUp, World.tree_seenFrom, FileTree.get?_seenFrom,
        FileTree.resolve_seenFrom hname] at hbackups
      exact hbackups
  others := h.others

end

/-- A store with its folder, or an empty one. If its path is absolute it is looked at from the top,
since the working directory makes no difference then and may stand in the store's folder. -/
def Settled (s : RunStore) (S : Place) (t : FileTree) : Prop :=
  s.Placed S t ∨ s.folder.isAbsolute = true ∧ s.Placed S (t.seenFrom [])

/-- Where nothing in the store's folder is a link and its path does not lead through it, cleaning
that succeeds takes away exactly the runs from before the cutoff, whatever the order in which it
goes through the runs. Cleaning again, in any order, then takes away none and changes nothing but
the order in the stored index. -/
theorem cleaned_of_cleanInOrder (hsettled : s.Settled S w.tree)
    (hload : s.loadIndex.run.run w = (.ok i, w))
    (hids : ∀ e ∈ i.entries, e.2.id = e.1 ∧ Run.IsShortId e.1)
    (horder : ∀ rs, (order rs).Perm rs) (hcutoff : now.daysBefore? keepDays = some cutoff)
    (hclean : (s.cleanInOrder order keepDays now).run.run w = (.ok n, w')) :
    n = (i.runs.filter (·.isBefore cutoff)).length ∧ s.Cleaned S cutoff i w w' ∧
      ∀ again : List Run → List Run, (∀ rs, (again rs).Perm rs) →
        ∃ w'', (s.cleanInOrder again keepDays now).run.run w' = (.ok 0, w'') ∧
          (∀ k, k ≠ S ++ ["runs.json"] → w''.tree.get? k = w'.tree.get? k) ∧
          (∃ j j', s.loadIndex.run.run w' = (.ok j, w') ∧
            s.loadIndex.run.run w'' = (.ok j', w'') ∧ ∀ id, j'.find? id = j.find? id) ∧
          ((∀ rs, again rs = rs) → ∀ k, w''.tree.get? k = w'.tree.get? k) := by
  rcases hsettled with hplaced | ⟨hs, hplaced⟩
  · exact hplaced.cleaned hload hids horder hcutoff hclean
  · -- the same happens where everything is looked at from the top
    have hclean₀ := Action.run_seenFrom (isAbsolute_cleanInOrder hs order keepDays now w) []
    have hload₀ := Action.run_seenFrom (isAbsolute_loadIndex hs w) []
    rw [hclean] at hclean₀
    rw [hload] at hload₀
    obtain ⟨hn, hcleaned, hagain⟩ :=
      Placed.cleaned (w := w.seenFrom []) hplaced hload₀ hids horder hcutoff hclean₀
    refine ⟨hn, hcleaned.of_seenFrom hs, fun again hperm => ?_⟩
    obtain ⟨w'', hrun, hothers, ⟨j, j', hj, hj', hfind⟩, hsame⟩ := hagain again hperm
    have hj₀ := Action.run_seenFrom (isAbsolute_loadIndex hs w'') w'.tree.cwd
    rw [hj'] at hj₀
    exact ⟨w''.seenFrom w'.tree.cwd,
      (isAbsolute_cleanInOrder hs again keepDays now).run_of_seenFrom hrun, hothers,
      ⟨j, j', loadIndex_of_seenFrom hs hj, hj₀, hfind⟩, hsame⟩

/-! ## A store with two runs -/

/-- A run that was made long ago. -/
def agedRun : Run :=
  ⟨"aaaaaaa", ⟨2000, 1, 1, 0, 0, 0, 0⟩, "migrate", ⟨"/"⟩, [], .applied, true⟩

/-- A later run that wrote a file. -/
def laterRun (backup : String) : Run :=
  ⟨"bbbbbbb", ⟨2024, 1, 30, 0, 0, 0, 0⟩, "migrate", ⟨"/"⟩,
    [⟨⟨"/a.tsx"⟩, "", "", ⟨backup⟩⟩], .applied, true⟩

def bothListed (backup : String) : RunIndex :=
  ⟨[("aaaaaaa", agedRun), ("bbbbbbb", laterRun backup)]⟩

/-- A store with the two runs, and a file in the folder of the first one. -/
def twoRuns (backup : String) (rest : List (Place × Entry)) : World :=
  { tree := ⟨[], (["s"], .folder) ::
        (["s", "runs.json"], .file (bothListed backup).text.toBytes) ::
      (["s", "aaaaaaa.json"], .file agedRun.text.toBytes) ::
      (["s", "bbbbbbb.json"], .file (laterRun backup).text.toBytes) ::
        (["s", "aaaaaaa"], .folder) ::
      (["s", "aaaaaaa", "x.orig"], .file (Text.toBytes "x".toList)) :: rest⟩ }

/-- Each run has its own backup. -/
def ownBackups : World :=
  twoRuns "x.orig" [(["s", "bbbbbbb"], .folder),
    (["s", "bbbbbbb", "x.orig"], .file (Text.toBytes "x".toList))]

/-- The folder of the later run's backups is a link to that of the earlier run. -/
def linkedBackups : World := twoRuns "x.orig" [(["s", "bbbbbbb"], .link ⟨"aaaaaaa"⟩)]

/-- The later run has its backup in the folder of the earlier one. -/
def foreignBackup : World := twoRuns "../aaaaaaa/x.orig" [(["s", "bbbbbbb"], .folder)]

/-- The store, by a path that leads through the folder of the earlier run. -/
def throughAged : RunStore := ⟨⟨"/s/aaaaaaa/.."⟩⟩

def lastOfJanuary : Timestamp := ⟨2024, 1, 31, 12, 0, 0, 0⟩

theorem isSound_bothListed (backup : String) : (bothListed backup).IsSound := by
  have hlater : Timestamp.IsValid ⟨2024, 1, 30, 0, 0, 0, 0⟩ :=
    ⟨by decide, by decide, by decide, by decide, by decide⟩
  refine ⟨by simp [bothListed], fun e he => ?_⟩
  simp only [bothListed, List.mem_cons, List.not_mem_nil, or_false] at he
  rcases he with rfl | rfl
  · exact ⟨by decide, by decide, by decide, by decide, by decide⟩
  · exact hlater

theorem isKeyed_bothListed (backup : String) : (bothListed backup).IsKeyed :=
  RunIndex.isKeyed_map [agedRun, laterRun backup]

theorem isShortId_bothListed {backup : String} {e : String × Run}
    (he : e ∈ (bothListed backup).entries) : Run.IsShortId e.1 := by
  have haged : Run.IsShortId "aaaaaaa" := ⟨by decide, List.forall_iff_forall_mem.mp (by decide)⟩
  have hlater : Run.IsShortId "bbbbbbb" :=
    ⟨by decide, List.forall_iff_forall_mem.mp (by decide)⟩
  simp only [bothListed, List.mem_cons, List.not_mem_nil, or_false] at he
  rcases he with rfl | rfl
  · exact haged
  · exact hlater

theorem loadIndex_ownBackups :
    beside.loadIndex.run.run ownBackups = (.ok (bothListed "x.orig"), ownBackups) :=
  loadIndex_of_stores (isSound_bothListed _) ⟨["s", "runs.json"], by decide, rfl⟩

theorem cleaned_of_cleanInOrder_ownBackups :
    ∃ w', (beside.cleanInOrder List.reverse 30 lastOfJanuary).run.run ownBackups = (.ok 1, w') ∧
      beside.Cleaned ["s"] ⟨2024, 1, 1, 12, 0, 0, 0⟩ (bothListed "x.orig") ownBackups w' ∧
      ∃ w'', (beside.clean 30 lastOfJanuary).run.run w' = (.ok 0, w'') ∧
        ∀ k, w''.tree.get? k = w'.tree.get? k := by
  have hplain : ownBackups.tree.isPlain = true := by decide +kernel
  have hplaced : beside.Placed ["s"] ownBackups.tree := .inl {
    wellFormed := .of_isPlain hplain
    lead := by decide
    cwd := fun hinside => absurd (List.prefix_nil.mp hinside.1) (by decide)
    noLink := fun k _ => FileTree.get?_ne_link_of_isPlain hplain k
    found := .inr ⟨by decide, ["s"], by decide, rfl⟩ }
  have hcutoff : lastOfJanuary.daysBefore? 30 = some ⟨2024, 1, 1, 12, 0, 0, 0⟩ := by
    decide +kernel
  have hclean : ((beside.cleanInOrder List.reverse 30 lastOfJanuary).run.run ownBackups).1 =
      .ok 1 := by
    rw [cleanInOrder_of_loadIndex loadIndex_ownBackups, hcutoff]
    decide +kernel
  obtain ⟨-, hcleaned, hagain⟩ := cleaned_of_cleanInOrder (.inl hplaced) loadIndex_ownBackups
    (fun e he => ⟨isKeyed_bothListed _ e he, isShortId_bothListed he⟩)
      (fun rs => rs.reverse_perm) hcutoff
    (Except.pair_of_fst hclean)
  obtain ⟨w'', hrun, -, -, hsame⟩ := hagain (fun rs => rs) fun rs => .refl rs
  rw [← clean_eq_cleanInOrder] at hrun
  exact ⟨_, Except.pair_of_fst hclean, hcleaned, w'', hrun, hsame fun _ => rfl⟩

/-- The index is loaded, and each of its runs stands under its own id of seven digits and has a
file. -/
structure Lists (s : RunStore) (w : World) (i : RunIndex) : Prop where
  loads : s.loadIndex.run.run w = (.ok i, w)
  keyed : i.IsKeyed
  short : ∀ e ∈ i.entries, Run.IsShortId e.1
  filed : ∀ e ∈ i.entries, w.tree.isFile (s.runPath e.1) = true

theorem lists_bothListed {backup : String}
    (hstored : s.Stores w.tree "runs.json" (bothListed backup).text)
    (hfiled : ∀ id ∈ ["aaaaaaa", "bbbbbbb"], w.tree.isFile (s.runPath id) = true) :
    s.Lists w (bothListed backup) where
  loads := loadIndex_of_stores (isSound_bothListed _) hstored
  keyed := isKeyed_bothListed _
  short := fun _ => isShortId_bothListed
  filed := fun _ he => hfiled _ (List.mem_map_of_mem he)

/-- Where a link leads from the later run's backups to those of the earlier one, or the later run's
backup is kept in the folder of the earlier one, cleaning takes away the later run's backup. Where
the store's path leads through the folder of the earlier run, that run's file is left, although it
is counted. -/
theorem clean_takes_others :
    (beside.Lists linkedBackups (bothListed "x.orig") ∧
        ((beside.clean 30 lastOfJanuary).run.run linkedBackups).1 = .ok 1 ∧
        linkedBackups.tree.isFile ((beside.backupFolder "bbbbbbb").join ⟨"x.orig"⟩) = true ∧
        ((beside.clean 30 lastOfJanuary).run.run linkedBackups).2.tree.isFile
          ((beside.backupFolder "bbbbbbb").join ⟨"x.orig"⟩) = false) ∧
      (beside.Lists foreignBackup (bothListed "../aaaaaaa/x.orig") ∧
        ((beside.clean 30 lastOfJanuary).run.run foreignBackup).1 = .ok 1 ∧
        foreignBackup.tree.isFile ((beside.backupFolder "bbbbbbb").join ⟨"../aaaaaaa/x.orig"⟩) =
          true ∧
        ((beside.clean 30 lastOfJanuary).run.run foreignBackup).2.tree.isFile
          ((beside.backupFolder "bbbbbbb").join ⟨"../aaaaaaa/x.orig"⟩) = false) ∧
      (throughAged.Lists ownBackups (bothListed "x.orig") ∧
        ((throughAged.clean 30 lastOfJanuary).run.run ownBackups).1 = .ok 1 ∧
        ((throughAged.clean 30 lastOfJanuary).run.run ownBackups).2.tree.isFile
            (beside.runPath "aaaaaaa") =
          true) := by
  have hcutoff : lastOfJanuary.daysBefore? 30 = some ⟨2024, 1, 1, 12, 0, 0, 0⟩ := by
    decide +kernel
  have hlinked : beside.Lists linkedBackups (bothListed "x.orig") :=
    lists_bothListed ⟨["s", "runs.json"], by decide, rfl⟩ (by decide)
  have hforeign : beside.Lists foreignBackup (bothListed "../aaaaaaa/x.orig") :=
    lists_bothListed ⟨["s", "runs.json"], by decide, rfl⟩ (by decide)
  have hthrough : throughAged.Lists ownBackups (bothListed "x.orig") :=
    lists_bothListed ⟨["s", "runs.json"], by decide, rfl⟩ (by decide)
  refine ⟨⟨hlinked, ?_⟩, ⟨hforeign, ?_⟩, hthrough, ?_⟩
  · rw [clean_eq_cleanInOrder, cleanInOrder_of_loadIndex hlinked.loads, hcutoff]
    decide +kernel
  · rw [clean_eq_cleanInOrder, cleanInOrder_of_loadIndex hforeign.loads, hcutoff]
    decide +kernel
  · rw [clean_eq_cleanInOrder, cleanInOrder_of_loadIndex hthrough.loads, hcutoff]
    decide +kernel

/-! ## Cutoffs that the calendar does not have -/

/-- An attempt that fails only at a file. -/
def FailsAtFile {α : Type} (x : Attempt Run.Error α) : Prop :=
  ∀ w e w', x.run.run w = (.error e, w') → ∃ f, e = .file f

section

variable {α β : Type} {x : Attempt Run.Error α} {f : α → Attempt Run.Error β}

theorem FailsAtFile.bind (hx : FailsAtFile x) (hf : ∀ a, FailsAtFile (f a)) :
    FailsAtFile (x >>= f) := by
  intro w e w' hrun
  rcases Attempt.bind_eq_error hrun with hfirst | ⟨a, w₁, -, hrest⟩
  · exact hx w e w' hfirst
  · exact hf a w₁ e w' hrest

theorem failsAtFile_pure (a : α) : FailsAtFile (pure a) := nofun

theorem failsAtFile_always (a : Action α) : FailsAtFile (Attempt.always a) := by
  intro w e w' hrun
  rw [Attempt.run_always] at hrun
  cases hrun

theorem failsAtFile_orFail (a : Action (Except FileError α)) :
    FailsAtFile (Attempt.orFail a .file) := by
  intro w e w' hrun
  rw [Attempt.run_orFail] at hrun
  obtain ⟨f, -, rfl⟩ := Except.mapError_eq_error.mp (Prod.mk.inj hrun).1
  exact ⟨f, rfl⟩

theorem failsAtFile_forM {g : α → Attempt Run.Error PUnit} (hg : ∀ a, FailsAtFile (g a))
    (as : List α) : FailsAtFile (as.forM g) := by
  induction as with
  | nil => exact failsAtFile_pure _
  | cons a as ih => exact (hg a).bind fun _ => ih

end

theorem failsAtFile_discard (s : RunStore) (r : Run) : FailsAtFile (s.discard r) := by
  have hfile : FailsAtFile (s.discardFile r) := by
    refine (failsAtFile_always _).bind fun present => ?_
    split
    · exact failsAtFile_orFail _
    · exact failsAtFile_pure _
  rw [discard_eq]
  refine (failsAtFile_always _).bind fun present => ?_
  split
  · exact (failsAtFile_orFail _).bind fun _ => hfile
  · exact hfile

theorem failsAtFile_store (s : RunStore) (name : String) (x : Text) :
    FailsAtFile (s.store name x) :=
  (failsAtFile_orFail _).bind fun _ => (failsAtFile_orFail _).bind fun _ => failsAtFile_orFail _

theorem failsAtFile_sweep (s : RunStore) (cutoff : Timestamp) (rs : List Run) :
    FailsAtFile (s.sweep cutoff rs) :=
  (failsAtFile_forM (failsAtFile_discard s) _).bind fun _ =>
    (failsAtFile_store s _ _).bind fun _ => failsAtFile_pure _

/-- Cleaning comes to a day before the calendar exactly if so many days lead there, and then nothing
is done, although no run was made so early. If the calendar goes back far enough, and past every
run, then no run is taken away: the runs are entered into a new index, which is the old one if each
stood under its own id. -/
theorem clean_of_reachesBack (hnow : now.IsValid) (hload : s.loadIndex.run.run w = (.ok i, w))
    (keepDays : Nat) :
    ((∃ w', (s.clean keepDays now).run.run w = (.error .beforeCalendar, w')) ↔
        now.dayCount - keepDays < Timestamp.firstDay) ∧
      (now.dayCount - keepDays < Timestamp.firstDay →
        (s.clean keepDays now).run.run w = (.error .beforeCalendar, w) ∧
          ∀ r ∈ i.runs, now.ReachesBack keepDays r.timestamp) ∧
      (Timestamp.firstDay ≤ now.dayCount - keepDays →
        (∀ r ∈ i.runs, now.ReachesBack keepDays r.timestamp) →
        (s.clean keepDays now).run.run w =
            (do s.saveIndex (i.runs.foldl .add .empty); return 0 : Attempt Run.Error Nat).run.run
              w ∧
          (i.IsKeyed → i.runs.foldl .add .empty = i)) := by
  obtain ⟨-, -, hsound⟩ := loadIndex_spec hload
  have hsound := hsound i rfl
  have hvalid : ∀ r ∈ i.runs, r.timestamp.IsValid := by
    intro r hr
    obtain ⟨e, he, rfl⟩ := List.mem_map.mp hr
    exact hsound.valid e he
  have hnone : now.daysBefore? keepDays = none ↔ _ := Timestamp.daysBefore?_eq_none_iff hnow
  rw [clean_eq_cleanInOrder, cleanInOrder_of_loadIndex hload]
  refine ⟨?_, fun hearly => ?_, fun hlate hreaches => ?_⟩
  · rw [← hnone]
    cases now.daysBefore? keepDays with
    | none => exact iff_of_true ⟨w, rfl⟩ rfl
    | some cutoff =>
        refine iff_of_false ?_ (by simp)
        -- a sweep that fails does so at a file
        rintro ⟨w', hrun⟩
        obtain ⟨f, hf⟩ := failsAtFile_sweep s cutoff _ w _ w' hrun
        cases hf
  · rw [hnone.mpr hearly]
    refine ⟨rfl, fun r hr => ?_⟩
    have hfirst := (hvalid r hr).dayCount_bounds.1
    exact Timestamp.reachesBack_of_dayCount_lt (by omega)
  · cases hcutoff : now.daysBefore? keepDays with
    | none => exact absurd (hnone.mp hcutoff) (by omega)
    | some cutoff =>
        have hnot : ∀ r ∈ i.runs, r.isBefore cutoff = false := by
          intro r hr
          rw [r.isBefore_eq,
            (Timestamp.le_iff_reachesBack hcutoff (hvalid r hr)).mpr (hreaches r hr)]
          rfl
        refine ⟨?_, fun hkeyed => hkeyed.foldl_add hsound⟩
        change (s.sweep cutoff i.runs).run.run w = _
        rw [sweep_of_not_isBefore hnot]

theorem clean_of_reachesBack_ownBackups :
    (beside.clean 10000 lastOfJanuary).run.run ownBackups =
        (do beside.saveIndex (bothListed "x.orig"); return 0 : Attempt Run.Error Nat).run.run
          ownBackups ∧
      (beside.clean 4294967295 lastOfJanuary).run.run ownBackups =
        (.error .beforeCalendar, ownBackups) := by
  have hnow : lastOfJanuary.IsValid := ⟨by decide, by decide, by decide, by decide, by decide⟩
  obtain ⟨-, -, hlate⟩ := clean_of_reachesBack hnow loadIndex_ownBackups 10000
  obtain ⟨-, hearly, -⟩ := clean_of_reachesBack hnow loadIndex_ownBackups 4294967295
  obtain ⟨hclean, hsame⟩ := hlate (by decide +kernel) (by decide +kernel)
  refine ⟨?_, (hearly (by decide +kernel)).1⟩
  rw [hclean, hsame (isKeyed_bothListed _)]

/-- So many days lead back past both runs, and out of the calendar. -/
theorem clean_beforeCalendar :
    beside.loadIndex.run.run ownBackups = (.ok (bothListed "x.orig"), ownBackups) ∧
      (∀ r ∈ (bothListed "x.orig").runs, lastOfJanuary.ReachesBack 4294967295 r.timestamp) ∧
      (beside.clean 4294967295 lastOfJanuary).run.run ownBackups =
        (.error .beforeCalendar, ownBackups) := by
  have hcutoff : lastOfJanuary.daysBefore? 4294967295 = none := by decide +kernel
  refine ⟨loadIndex_ownBackups, by decide +kernel, ?_⟩
  rw [clean_eq_cleanInOrder, cleanInOrder_of_loadIndex loadIndex_ownBackups, hcutoff]

end RunStore

end Rewrap
