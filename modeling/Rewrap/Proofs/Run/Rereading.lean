import Rewrap.Proofs.Run.Keeping
import Rewrap.Proofs.Run.Reverting

/-! # Reading saved runs again

A run that was saved is read as it was, and the index is read as it was before with the run entered.
The store follows links, so this needs its own files to be no links: a link from the one to the
other makes the index take the place of the run. -/

namespace Rewrap.RunStore

open FileTree (Frame)

variable {s : RunStore} {w w' w₁ w₂ : World} {i i' : RunIndex} {r : Run}

/-! ## The names of a run -/

theorem isName_temporaryName {name : String} (h : '/' ∉ name.toList) :
    Path.IsName (temporaryName name) := by
  have hslash : '/' ∉ (temporaryName name).toList := by
    have htmp : '/' ∉ ".tmp".toList := by decide
    simp only [temporaryName, String.toList_append, List.mem_append, not_or]
    exact ⟨h, htmp⟩
  have hlength : 4 ≤ (temporaryName name).toList.length := by
    simp [temporaryName, String.toList_append]
  refine ⟨fun hname => ?_, fun hname => ?_, fun hname => ?_, hslash⟩
  · simp [hname] at hlength
  · simp [hname] at hlength
  · simp [hname] at hlength

/-- Where the four files of a run and the index are no links, the run can be told from the index. -/
theorem receives_of_no_links {t : FileTree} {id : String} (ht : t.WellFormed)
    (hid : '/' ∉ id.toList) (hruns : id ≠ "runs")
    (hlinks : ∀ S n q, t.leadOf s.folder = some S → IsRunText id [n] →
      t.get? (S ++ [n]) ≠ some (.link q)) :
    s.Receives id t where
  run := ⟨ht, ⟨isName_runFileName hid, fun S q hS => hlinks S _ q hS (.inl (.inl rfl))⟩,
    ⟨isName_temporaryName (isName_runFileName hid).2.2.2,
      fun S q hS => hlinks S _ q hS (.inl (.inr rfl))⟩⟩
  index := ⟨ht, ⟨isName_index, fun S q hS => hlinks S _ q hS (.inr (.inl rfl))⟩,
    ⟨isName_temporaryName isName_index.2.2.2,
      fun S q hS => hlinks S _ q hS (.inr (.inr rfl))⟩⟩
  ne_runs := hruns

/-! ## The index in between -/

/-- An index that can be loaded before and after other files were changed is the same. -/
theorem loadIndex_agree {files folders : Place → Prop} (hw : w.tree.WellFormed)
    (hbare : s.Bare w.tree "runs.json") (hframe : Frame files folders w.tree w₁.tree)
    (hfiles : ∀ S, w.tree.leadOf s.folder = some S → ¬files (S ++ ["runs.json"]))
    (hthere : w.tree.HasFolder s.folder ∨ ∀ S, w.tree.leadOf s.folder = some S →
      w.tree.get? (S ++ ["runs.json"]) = none)
    (hload : s.loadIndex.run.run w = (.ok i, w'))
    (hload₁ : s.loadIndex.run.run w₁ = (.ok i', w₂)) : i' = i := by
  obtain ⟨-, hcases⟩ := loadIndex_eq_ok hload
  obtain ⟨-, ⟨habsent₁, rfl⟩ | ⟨b, x, hread₁, hx, hi'⟩⟩ := loadIndex_eq_ok hload₁
  · rcases hcases with ⟨-, rfl⟩ | ⟨b, x, hread, -, -⟩
    · rfl
    · -- what is read before is still there afterwards
      obtain ⟨k, hk, hfile⟩ := FileTree.read_eq_ok hread
      obtain ⟨S, hS, rfl⟩ := hbare.eq_of_resolve hk
      have hpresent := FileTree.isPresent_of_resolve (hframe.resolve hk)
        ((hframe.file _ (hfiles S hS) b).mpr hfile)
      rw [hpresent] at habsent₁
      cases habsent₁
  · obtain ⟨k, hk₁, hfile₁⟩ := FileTree.read_eq_ok hread₁
    obtain ⟨S, hS₁, rfl⟩ := (hbare.frame hframe).eq_of_resolve hk₁
    have hS : w.tree.leadOf s.folder = some S := (hframe.leadOf _).symm.trans hS₁
    have hfile := (hframe.file _ (hfiles S hS) b).mp hfile₁
    rcases hthere with hfolder | hvacant
    · obtain ⟨S', hplace, hfolder⟩ := hfolder.exists_place hw
      have hS' : w.tree.leadOf s.folder = some S' := FileTree.lead_of_follow hplace
      obtain rfl := Option.some.inj (hS.symm.trans hS')
      have hshort := (FileTree.resolve_join_iff isName_index (hframe.placeOf hplace)
        (hframe.folder _ hfolder) fun q => (hbare.frame hframe).noLink S q hS₁).mp hk₁
      have hk : w.tree.resolve true s.indexPath = .ok (S ++ ["runs.json"]) :=
        (FileTree.resolve_join_iff isName_index hplace hfolder fun q => hbare.noLink S q hS).mpr
          hshort
      rcases hcases with ⟨habsent, -⟩ | ⟨b', x', hread, hx', hi⟩
      · rw [FileTree.isPresent_of_resolve hk hfile] at habsent
        cases habsent
      · rw [FileTree.read_of_resolve hk hfile, Except.ok.injEq] at hread
        subst hread
        obtain rfl := Except.ok.inj (hx.symm.trans hx')
        exact Except.ok.inj (hi'.symm.trans hi)
    · rw [hvacant S hS] at hfile
      cases hfile

/-! ## Saving and loading -/

/-- A saved run is loaded as it was, with everything it holds, and the index is the one from before
with the run entered in it: every other run is the same. -/
theorem load_of_saveRun (hw : w.tree.WellFormed) (hid : '/' ∉ r.id.toList)
    (hruns : r.id ≠ "runs") (hvalid : r.timestamp.IsValid)
    (hlinks : ∀ S n q, w.tree.leadOf s.folder = some S → IsRunText r.id [n] →
      w.tree.get? (S ++ [n]) ≠ some (.link q))
    (hthere : w.tree.HasFolder s.folder ∨ ∀ S, w.tree.leadOf s.folder = some S →
      w.tree.get? (S ++ ["runs.json"]) = none)
    (hload : s.loadIndex.run.run w = (.ok i, w)) (hsave : (s.saveRun r).run.run w = (.ok (), w')) :
    (s.loadRun r.id).run.run w' = (.ok r, w') ∧ s.loadIndex.run.run w' = (.ok (i.add r), w') ∧
      (i.add r).find? r.id = some r ∧ ∀ id, id ≠ r.id →
        (i.add r).find? id = i.find? id := by
  have hreceives := receives_of_no_links hw hid hruns hlinks
  obtain ⟨-, hsaved⟩ := saveRun_spec hreceives hvalid hsave
  obtain ⟨-, hrecords, w₁, i', hkept, hload₁, hsound, hindexed⟩ := hsaved rfl
  obtain rfl : i' = i := loadIndex_agree hw hreceives.index.target hkept.frame
    (fun S hS hbelow => not_isText_index hruns ((below_append hS).mp hbelow)) hthere hload hload₁
  exact ⟨loadRun_of_stores hvalid hrecords.stored, loadIndex_of_stores hsound hindexed,
    RunIndex.find?_add i' r, fun id hne => RunIndex.find?_add_of_ne i' hne⟩

/-- A run with an id, a command and a path that have to be escaped. -/
def escapedRun : Run :=
  ⟨"a \"b\"", ⟨2024, 2, 29, 23, 59, 60, 7000⟩, "migrate\n\\", ⟨"/é"⟩,
    [⟨⟨"/\t.tsx"⟩, "0", "1", ⟨"\x00"⟩⟩], .reverted, true⟩

/-- A store that is made by the first run. -/
def noStore : World := { tree := ⟨[], []⟩ }

theorem load_of_saveRun_escapedRun :
    ∃ w', (beside.saveRun escapedRun).run.run noStore = (.ok (), w') ∧
      (beside.loadRun escapedRun.id).run.run w' = (.ok escapedRun, w') ∧
      beside.loadIndex.run.run w' = (.ok (RunIndex.empty.add escapedRun), w') := by
  have hplain : noStore.tree.isPlain = true := by decide
  have hsave : ((beside.saveRun escapedRun).run.run noStore).1 = .ok () := by decide
  have hsave := Except.pair_of_fst hsave
  have hload : beside.loadIndex.run.run noStore = (.ok .empty, noStore) := by
    have hpresent : noStore.tree.isPresent beside.indexPath = false := by decide
    unfold loadIndex
    rw [Attempt.bind_of_ok (Attempt.run_isPresent _ _), hpresent]
    rfl
  have hlead : noStore.tree.leadOf beside.folder = some ["s"] := by decide
  obtain ⟨hrun, hindex, -⟩ := load_of_saveRun (.of_isPlain hplain) (by decide) (by decide)
    ⟨by decide, by decide, by decide, by decide, by decide⟩
    (fun S n q _ _ => FileTree.get?_ne_link_of_isPlain hplain _ q)
    (.inr fun S hS => by
      obtain rfl := Option.some.inj (hlead.symm.trans hS)
      rfl) hload hsave
  exact ⟨_, hsave, hrun, hindex⟩

/-! ## A store with a link -/

/-- A store in which a link to the file of a run stands where the index is stored first. -/
def linkedIndex : World :=
  { tree := ⟨[], [(["s"], .folder), (["s", "runs.json.tmp"], .link ⟨"0a1b2c3.json"⟩)]⟩ }

/-- A run that wrote no file. -/
def nothingWritten : Run :=
  ⟨"0a1b2c3", ⟨2024, 1, 31, 12, 0, 0, 0⟩, "migrate", ⟨"/"⟩, [], .applied, true⟩

theorem saveRun_linkedIndex :
    ((beside.saveRun nothingWritten).run.run linkedIndex).1 = .ok () ∧
      ((beside.saveRun nothingWritten).run.run linkedIndex).2.tree.read
          (beside.runPath nothingWritten.id) =
        .ok (RunIndex.empty.add nothingWritten).text.toBytes := by
  decide +kernel

/-- There is no index yet and the run is saved, but then the index stands in the run's own file. -/
theorem load_of_saveRun_fails :
    beside.loadIndex.run.run linkedIndex = (.ok .empty, linkedIndex) ∧
      ∃ w' f, (beside.saveRun nothingWritten).run.run linkedIndex = (.ok (), w') ∧
        (beside.loadRun nothingWritten.id).run.run w' = (.error (.runMalformed f), w') := by
  have habsent : linkedIndex.tree.isPresent beside.indexPath = false := by decide
  obtain ⟨hsave, hread⟩ := saveRun_linkedIndex
  obtain ⟨f, hf⟩ := RunIndex.run_ofText_text (RunIndex.empty.add nothingWritten)
  refine ⟨?_, _, f, Except.pair_of_fst hsave, ?_⟩
  · unfold loadIndex
    rw [Attempt.bind_of_ok (Attempt.run_isPresent _ _), habsent]
    rfl
  · generalize ((beside.saveRun nothingWritten).run.run linkedIndex).2 = w' at hread
    obtain ⟨k, hk, hfile⟩ := FileTree.read_eq_ok hread
    unfold loadRun
    rw [Attempt.bind_of_ok (Attempt.run_isPresent _ _),
      if_pos (FileTree.isPresent_of_resolve hk hfile),
      Attempt.bind_of_ok (Attempt.readText_of_ok hread), hf]
    rfl

end Rewrap.RunStore
