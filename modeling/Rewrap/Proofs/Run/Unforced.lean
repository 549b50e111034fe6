import Rewrap.Proofs.Run.Folder
import Rewrap.Proofs.Run.Rereading
import Rewrap.Proofs.Run.Undoing

/-! # Reverting without force

A revert that is not forced looks at all files of the run before it writes the first one. It goes on
only if each of them is as the run left it, and then each gets back the text of its backup. -/

namespace Rewrap.RunStore

open FileTree (Frame Nowhere)

variable {s : RunStore} {id : String} {w w' : World} {t u : FileTree} {c : Change} {r : Run}

/-! ## Checking all files first -/

/-- A revert without force of a run with a changed file fails before anything happens. -/
theorem revert_of_changed (hload : (s.loadRun id).run.run w = (.ok r, w))
    (h : ∃ c ∈ r.changes, ¬IsUnchanged w.tree c) :
    ∃ e, (s.revert id false).run.run w = (.error e, w) := by
  rw [revert_eq, Attempt.bind_of_ok hload]
  split
  · exact ⟨_, rfl⟩
  · split
    · exact ⟨_, rfl⟩
    · rw [if_neg (by simp)]
      rcases forM_checkUnchanged_cases id r.changes w with
        ⟨hall, -⟩ | ⟨_, _, _, e, -, -, -, hcheck⟩
      · obtain ⟨c, hc, hchanged⟩ := h
        exact absurd (hall c hc) hchanged
      · rw [Attempt.run_bind, hcheck]
        exact ⟨e, rfl⟩

/-- A revert without force that succeeds found all files unchanged, and restored them. -/
theorem revert_eq_ok (hload : (s.loadRun id).run.run w = (.ok r, w))
    (hrun : (s.revert id false).run.run w = (.ok (), w')) :
    (∀ c ∈ r.changes, IsUnchanged w.tree c) ∧
      (s.restoreAll id r).run.run w = (.ok (), w') := by
  rw [revert_eq, Attempt.bind_of_ok hload] at hrun
  split at hrun
  · cases hrun
  · split at hrun
    · cases hrun
    · rw [if_neg (by simp)] at hrun
      rcases forM_checkUnchanged_cases id r.changes w with
        ⟨hall, hcheck⟩ | ⟨_, _, _, e, -, -, -, hcheck⟩
      · rw [Attempt.bind_of_ok hcheck] at hrun
        exact ⟨hall, hrun⟩
      · rw [Attempt.run_bind, hcheck] at hrun
        cases hrun

/-! ## Restoring -/

/-- Restoring that succeeds has restored every file and saved the run. -/
theorem restoreAll_eq_ok (hw : w.tree.WellFormed)
    (hrun : (s.restoreAll id r).run.run w = (.ok (), w')) :
    ∃ w₁ w₂, s.Restored id r.changes w.tree w₁.tree ∧ w₁.tree.WellFormed ∧
      (s.saveRun r.reverted).run.run w₁ = (.ok (), w₂) ∧ w'.tree = w₂.tree := by
  unfold restoreAll at hrun
  rw [Attempt.bind_of_ok (Attempt.run_print _ _)] at hrun
  generalize hprinted : ({ w with out := _ } : World) = w₀ at hrun
  have htree : w₀.tree = w.tree := by rw [← hprinted]
  obtain ⟨done, rest, w₁, hchanges, hrestored, hwf, ⟨rfl, hforM⟩ |
    ⟨c, rest', e, -, hforM, -⟩⟩ := forM_restore_cases (s := s) (htree ▸ hw) id r.changes
  · rw [List.append_nil] at hchanges
    rw [Attempt.bind_of_ok hforM] at hrun
    obtain ⟨_, w₂, hsave, hprint⟩ := Attempt.bind_eq_ok hrun
    rw [Attempt.run_print, Prod.mk.injEq] at hprint
    exact ⟨w₁, w₂, htree ▸ hchanges ▸ hrestored, hwf, hsave, by rw [← hprint.2]⟩
  · rw [Attempt.run_bind, hforM] at hrun
    cases hrun

theorem isValid_of_loadRun (h : (s.loadRun id).run.run w = (.ok r, w')) : r.timestamp.IsValid := by
  unfold loadRun at h
  obtain ⟨present, w₁, -, h⟩ := Attempt.bind_eq_ok h
  cases present with
  | false => cases h
  | true =>
      rw [if_pos rfl] at h
      obtain ⟨x, w₂, -, h⟩ := Attempt.bind_eq_ok h
      cases hx : Run.ofText x with
      | error f =>
          simp only [hx] at h
          cases h
      | ok r' =>
          simp only [hx] at h
          cases h
          obtain ⟨j, hj⟩ := Json.exists_of_decodeText hx
          exact Run.isValid_of_decode hj

/-! ## Reverting -/

/-- A revert without force protects what was changed since the run. If it succeeds, each file of the
run was as the run left it, and has the text of its backup now; no other file is changed, and the
run is stored as it was but reverted. If a file is missing or changed, the revert fails and nothing
happens. -/
theorem revert_unforced (hreceives : s.Receives r.id w.tree)
    (hload : (s.loadRun r.id).run.run w = (.ok r, w))
    (hbackups : ∀ c ∈ r.changes, ∀ k, w.tree.resolve true
      ((s.backupFolder r.id).join c.backup) = .ok k → ¬LeadsTo w.tree r.changes k)
    (houtside : ∀ c ∈ r.changes, ∀ S, w.tree.leadOf s.folder = some S →
      LeadsOutside S w.tree c.path)
    (hdistinct : r.changes.Pairwise fun c c' => ∀ k, w.tree.leadOf c.path = some k →
      w.tree.leadOf c'.path ≠ some k) :
    (∀ w', (s.revert r.id false).run.run w = (.ok (), w') →
      (∀ c ∈ r.changes, IsUnchanged w.tree c ∧
        ∃ x, s.BackedUp w.tree r.id c.backup x ∧ w'.tree.read c.path = .ok x.toBytes) ∧
      (∀ k, ¬LeadsTo w.tree r.changes k → ¬s.Below w.tree (IsRunText r.id) k →
        ∀ b, w'.tree.get? k = some (.file b) ↔ w.tree.get? k = some (.file b)) ∧
      (s.loadRun r.id).run.run w' = (.ok r.reverted, w') ∧
      ∃ i, s.loadIndex.run.run w' = (.ok i, w') ∧ i.find? r.id = some r.reverted) ∧
    ((∃ c ∈ r.changes, ¬IsUnchanged w.tree c) → ∃ e, (s.revert r.id false).run.run w =
      (.error e, w)) := by
  refine ⟨fun w' hrun => ?_, revert_of_changed hload⟩
  obtain ⟨hunchanged, hrestore⟩ := revert_eq_ok hload hrun
  obtain ⟨w₁, w₂, hrestored, hwf₁, hsave, htree⟩ :=
    restoreAll_eq_ok hreceives.run.wellFormed hrestore
  obtain ⟨-, hframe₁⟩ := hrestored.frame hreceives.run.wellFormed
  have hreceives₁ : s.Receives r.reverted.id w₁.tree :=
    ⟨hreceives.run.frame hwf₁ hframe₁, hreceives.index.frame hwf₁ hframe₁,
      hreceives.ne_runs⟩
  have hvalid : r.timestamp.IsValid := isValid_of_loadRun hload
  obtain ⟨hkept, hsaved⟩ := saveRun_spec (r := r.reverted) hreceives₁ hvalid hsave
  obtain ⟨-, hrecords, -, i, -, -, hsound, hindexed⟩ := hsaved rfl
  have hbelow : ∀ {k}, s.Below w₁.tree (IsRunText r.id) k →
      s.Below w.tree (IsRunText r.id) k :=
    (Below.frame hframe₁).mp
  have hstored : s.Stores w'.tree (runFileName r.id) r.reverted.text := by
    rw [htree]
    exact hrecords.stored
  rw [← htree] at hindexed
  refine ⟨fun c hc => ⟨hunchanged c hc, ?_⟩, fun k hleads hown b => ?_,
    loadRun_of_stores (r := r.reverted) hvalid hstored, _, loadIndex_of_stores hsound hindexed,
    RunIndex.find?_add i r.reverted⟩
  · obtain ⟨b, hread, -⟩ := hunchanged c hc
    obtain ⟨k, hk, -⟩ := FileTree.read_eq_ok hread
    have hlead := FileTree.leadOf_of_resolve hk
    obtain ⟨pre, post, hchanges⟩ := List.append_of_mem hc
    have hpre : ∀ k, w.tree.resolve true ((s.backupFolder r.id).join c.backup) = .ok k →
        ¬LeadsTo w.tree pre k := by
      rintro k hk ⟨c', hc', hlead'⟩
      exact hbackups c hc k hk ⟨c', hchanges ▸ List.mem_append_left _ hc', hlead'⟩
    rw [hchanges] at hrestored hdistinct
    have hpost : ¬LeadsTo w.tree post k := by
      rintro ⟨c', hc', hlead'⟩
      obtain ⟨-, hdistinct, -⟩ := List.pairwise_append.mp hdistinct
      exact (List.pairwise_cons.mp hdistinct).1 c' hc' k hlead hlead'
    obtain ⟨x, hx, hfile⟩ := hrestored.get? hreceives.run.wellFormed hpre hlead hpost
    have hk₂ : w₂.tree.get? k = some (.file x.toBytes) := by
      refine (hkept.frame.file k (fun hown => ?_) _).mpr hfile
      obtain ⟨S, n, hS, -, rfl⟩ := hbelow hown
      exact houtside c hc S hS _ hlead (List.prefix_append _ _)
    refine ⟨x, hx, htree ▸ FileTree.read_of_resolve ?_ hk₂⟩
    exact hkept.frame.resolve (hframe₁.resolve hk)
  · rw [htree]
    exact (hkept.frame.file k (fun hown' => hown (hbelow hown')) b).trans
      (hframe₁.file k hleads b)

/-! ## Two files -/

/-- The recorded run whose two files are as it left them. -/
def bothKept : World :=
  { tree := ⟨[], [(["a.tsx"], .file (Text.toBytes "new".toList)),
    (["b.tsx"], .file (Text.toBytes "new".toList)),
      (["s"], .folder), (["s", "0a1b2c3.json"], .file bothWritten.text.toBytes),
        (["s", "0a1b2c3"], .folder),
      (["s", "0a1b2c3", (backupName ⟨"/a.tsx"⟩).text], .file (Text.toBytes "old".toList)),
      (["s", "0a1b2c3", (backupName ⟨"/b.tsx"⟩).text], .file (Text.toBytes "old".toList))]⟩ }

theorem loadRun_bothKept :
    (beside.loadRun bothWritten.id).run.run bothKept = (.ok bothWritten, bothKept) :=
  loadRun_of_stores isValid_bothWritten ⟨["s", "0a1b2c3.json"], by decide, rfl⟩

theorem restoreAll_bothKept :
    ((beside.restoreAll bothWritten.id bothWritten).run.run bothKept).1 = .ok () := by
  decide +kernel

/-- The run is reverted, and both files get back their texts. -/
theorem revert_unforced_bothKept :
    ∃ w', (beside.revert bothWritten.id false).run.run bothKept = (.ok (), w') ∧
      (∀ c ∈ bothWritten.changes, IsUnchanged bothKept.tree c ∧
        ∃ x, beside.BackedUp bothKept.tree bothWritten.id c.backup x ∧
          w'.tree.read c.path = .ok x.toBytes) ∧
      (beside.loadRun bothWritten.id).run.run w' = (.ok bothWritten.reverted, w') := by
  have hplain : bothKept.tree.isPlain = true := by decide +kernel
  have hguarded : beside.Guarded [bothWritten.id] bothKept.tree :=
    ⟨.of_isPlain hplain, fun k _ => FileTree.get?_ne_link_of_isPlain hplain k⟩
  have hid : Run.IsId bothWritten.id := ⟨by decide, List.forall_iff_forall_mem.mp (by decide)⟩
  have hfirst : bothKept.tree.leadOf ⟨"/a.tsx"⟩ = some ["a.tsx"] := by decide
  have hsecond : bothKept.tree.leadOf ⟨"/b.tsx"⟩ = some ["b.tsx"] := by decide
  have hstore : bothKept.tree.leadOf beside.folder = some ["s"] := by decide
  have hchanges : bothWritten.changes = [rewritten ⟨"/a.tsx"⟩, rewritten ⟨"/b.tsx"⟩] := rfl
  have hunchanged : ∀ c ∈ bothWritten.changes, IsUnchanged bothKept.tree c := by
    rw [hchanges]
    intro c hc
    simp only [List.mem_cons, List.not_mem_nil, or_false] at hc
    rcases hc with rfl | rfl
    · exact ⟨Text.toBytes "new".toList, by decide, rfl⟩
    · exact ⟨Text.toBytes "new".toList, by decide, rfl⟩
  have hrun := (revert_of_unchanged loadRun_bothKept rfl rfl hunchanged).trans
    (Except.pair_of_fst restoreAll_bothKept)
  have houtside : ∀ c ∈ bothWritten.changes, ∀ S,
      bothKept.tree.leadOf beside.folder = some S → LeadsOutside S bothKept.tree c.path := by
    rw [hchanges]
    intro c hc S hS k hlead
    obtain rfl := Option.some.inj (hstore.symm.trans hS)
    simp only [List.mem_cons, List.not_mem_nil, or_false] at hc
    rcases hc with rfl | rfl
    · obtain rfl := Option.some.inj (hfirst.symm.trans hlead)
      decide
    · obtain rfl := Option.some.inj (hsecond.symm.trans hlead)
      decide
  have hbackup : ∀ c ∈ bothWritten.changes, c.backup = backupName c.path := by
    rw [hchanges]
    intro c hc
    simp only [List.mem_cons, List.not_mem_nil, or_false] at hc
    rcases hc with rfl | rfl
    · rfl
    · rfl
  obtain ⟨hok, -⟩ :=
    revert_unforced (hguarded.receives (by simpa using hid) List.mem_cons_self) loadRun_bothKept
    (fun c hc k => hguarded.not_leadsTo_backup hid (hbackup c hc)
        fun k ⟨c', hc', hlead⟩ ⟨S, _, hS, _, hk⟩ =>
      houtside c' hc' S hS k hlead (hk ▸ List.prefix_append _ _))
    houtside
    (by
      rw [hchanges, List.pairwise_pair]
      intro k hlead hlead'
      obtain rfl := Option.some.inj (hfirst.symm.trans hlead)
      simp [rewritten, hsecond] at hlead')
  obtain ⟨hrestored, -, hstored, -⟩ := hok _ hrun
  exact ⟨_, hrun, hrestored, hstored⟩

/-! ## Paths that lead to other files -/

/-- A run that wrote one file by two paths. -/
def twiceWritten : Run :=
  (Journal.mk beside "0a1b2c3" "migrate" ⟨"/"⟩
    [⟨⟨"/a.tsx"⟩, Text.hash "one".toList, Text.hash "new".toList,
      backupName ⟨"/a.tsx"⟩⟩,
      ⟨⟨"/d/../a.tsx"⟩, Text.hash "two".toList, Text.hash "new".toList,
        backupName ⟨"/d/../a.tsx"⟩⟩]).toRun
    ⟨2024, 1, 31, 12, 0, 0, 0⟩

def twiceKept : World :=
  { tree := ⟨[], [(["a.tsx"], .file (Text.toBytes "new".toList)), (["d"], .folder),
    (["s"], .folder),
      (["s", "0a1b2c3.json"], .file twiceWritten.text.toBytes), (["s", "0a1b2c3"], .folder),
      (["s", "0a1b2c3", (backupName ⟨"/a.tsx"⟩).text], .file (Text.toBytes "one".toList)),
      (["s", "0a1b2c3", (backupName ⟨"/d/../a.tsx"⟩).text],
        .file (Text.toBytes "two".toList))]⟩ }

/-- A store in which a link to a file stands where the run is stored first. -/
def linkedRun : World :=
  { tree := ⟨[], [(["c.tsx"], .file (Text.toBytes "other".toList)), (["s"], .folder),
      (["s", "0a1b2c3.json"], .file nothingWritten.text.toBytes),
        (["s", "0a1b2c3.json.tmp"], .link ⟨"/c.tsx"⟩)]⟩ }

theorem restoreAll_twiceKept :
    ((beside.restoreAll twiceWritten.id twiceWritten).run.run twiceKept).1 = .ok () ∧
      ((beside.restoreAll twiceWritten.id twiceWritten).run.run twiceKept).2.tree.read
          ⟨"/a.tsx"⟩ =
        .ok (Text.toBytes "two".toList) := by
  decide +kernel

theorem restoreAll_linkedRun :
    ((beside.restoreAll nothingWritten.id nothingWritten).run.run linkedRun).1 = .ok () ∧
      ((beside.restoreAll nothingWritten.id nothingWritten).run.run linkedRun).2.tree.read
        ⟨"/c.tsx"⟩ ≠
        .ok (Text.toBytes "other".toList) := by
  decide +kernel

/-- Where two paths lead to one file, it gets the text of one backup only. Where a link stands in
the store's folder, a file is changed that is not one of the run. -/
theorem revert_unforced_fails :
    (∃ w', (beside.revert twiceWritten.id false).run.run twiceKept = (.ok (), w') ∧
      twiceKept.tree.read ((beside.backupFolder twiceWritten.id).join (backupName ⟨"/a.tsx"⟩)) =
        .ok (Text.toBytes "one".toList) ∧
          w'.tree.read ⟨"/a.tsx"⟩ = .ok (Text.toBytes "two".toList)) ∧
    ∃ w', (beside.revert nothingWritten.id false).run.run linkedRun = (.ok (), w') ∧
      linkedRun.tree.read ⟨"/c.tsx"⟩ = .ok (Text.toBytes "other".toList) ∧
      w'.tree.read ⟨"/c.tsx"⟩ ≠ .ok (Text.toBytes "other".toList) := by
  have hvalid : Timestamp.IsValid ⟨2024, 1, 31, 12, 0, 0, 0⟩ :=
    ⟨by decide, by decide, by decide, by decide, by decide⟩
  constructor
  · have hload : (beside.loadRun twiceWritten.id).run.run twiceKept =
        (.ok twiceWritten, twiceKept) :=
      loadRun_of_stores hvalid ⟨["s", "0a1b2c3.json"], by decide, rfl⟩
    have hchanges : twiceWritten.changes =
        [⟨⟨"/a.tsx"⟩, Text.hash "one".toList, Text.hash "new".toList,
          backupName ⟨"/a.tsx"⟩⟩,
          ⟨⟨"/d/../a.tsx"⟩, Text.hash "two".toList, Text.hash "new".toList,
            backupName ⟨"/d/../a.tsx"⟩⟩] := rfl
    have hunchanged : ∀ c ∈ twiceWritten.changes, IsUnchanged twiceKept.tree c := by
      rw [hchanges]
      intro c hc
      simp only [List.mem_cons, List.not_mem_nil, or_false] at hc
      rcases hc with rfl | rfl
      · exact ⟨Text.toBytes "new".toList, by decide, rfl⟩
      · exact ⟨Text.toBytes "new".toList, by decide, rfl⟩
    obtain ⟨hok, hread⟩ := restoreAll_twiceKept
    exact ⟨_, (revert_of_unchanged hload rfl rfl hunchanged).trans (Except.pair_of_fst hok),
      by decide +kernel, hread⟩
  · have hload : (beside.loadRun nothingWritten.id).run.run linkedRun =
        (.ok nothingWritten, linkedRun) :=
      loadRun_of_stores hvalid ⟨["s", "0a1b2c3.json"], by decide, rfl⟩
    obtain ⟨hok, hread⟩ := restoreAll_linkedRun
    exact ⟨_, (revert_of_unchanged hload rfl rfl nofun).trans (Except.pair_of_fst hok),
      by decide, hread⟩

end Rewrap.RunStore
