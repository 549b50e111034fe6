import Rewrap.Proofs.Run.Recording

/-! # Room for a run

The names of a run's texts are shorter than those of its backups. So where a backup of a run is
found, the run can be saved, unless a folder stands where one of its texts belongs or the index
cannot be loaded. -/

namespace Rewrap

/-! ## Short names -/

theorem Blake3.utf8Len_of_hexDigits {cs : List Char} (h : ∀ c ∈ cs, c ∈ hexDigits) :
    String.utf8Len cs = cs.length := by
  have hdigit : ∀ c ∈ hexDigits, c.utf8Size = 1 := List.forall_iff_forall_mem.mp (by decide)
  induction cs with
  | nil => rfl
  | cons c cs ih =>
      rw [String.utf8Len_cons, ih fun c' hc' => h c' (List.mem_cons_of_mem _ hc'),
        hdigit c (h c List.mem_cons_self)]
      rfl

theorem Journal.length_idAt (clock : Nat) : (idAt clock).toList.length = 7 := by
  unfold idAt
  rw [String.toList_ofList, List.length_take, Blake3.length_hexDigest]
  rfl

namespace RunStore

variable {s : RunStore} {ids : List String} {id : String} {w : World} {t : FileTree}

theorem utf8Len_le_of_isRunText (hid : Run.IsId id) (hlength : id.toList.length = 7) {n : String}
    (hn : IsRunText id [n]) : String.utf8Len n.toList ≤ 16 ∧ '\x00' ∉ n.toList := by
  have hsize : String.utf8Len id.toList = 7 := (Blake3.utf8Len_of_hexDigits hid.2).trans hlength
  have hnul : '\x00' ∉ id.toList := fun hmem => absurd (hid.2 _ hmem) (by decide)
  have hends : String.utf8Len ".json".toList = 5 ∧ String.utf8Len ".tmp".toList = 4 := by decide
  rcases hn with (hn | hn) | (hn | hn)
  · obtain rfl : n = runFileName id := by simpa using hn
    simp only [runFileName, String.toList_append, String.utf8Len_append, List.mem_append]
    exact ⟨by omega, by simp [hnul]⟩
  · obtain rfl : n = temporaryName (runFileName id) := by simpa using hn
    simp only [temporaryName, runFileName, String.toList_append, String.utf8Len_append,
      List.mem_append]
    exact ⟨by omega, by simp [hnul]⟩
  · obtain rfl : n = "runs.json" := by simpa using hn
    decide
  · obtain rfl : n = temporaryName "runs.json" := by simpa using hn
    decide

theorem le_utf8Len_backupName (p : Path) : 22 ≤ String.utf8Len (backupName p).text.toList := by
  have hhash : String.utf8Len ((Text.hash p.text.toList).toList.take 16) = 16 := by
    unfold Text.hash
    rw [Blake3.utf8Len_of_hexDigits fun c hc => Blake3.mem_hexDigits (List.mem_of_mem_take hc),
      List.length_take, Blake3.length_hexDigest]
    rfl
  have hends : String.utf8Len "-".toList = 1 ∧ String.utf8Len ".orig".toList = 5 := by decide
  simp only [backupName, String.toList_append, String.toList_ofList, String.utf8Len_append, hhash]
  omega

/-! ## Room -/

/-- Where a backup of a run is found, the texts of the run can be stored. -/
theorem storable_of_backup (h : s.Guarded ids t) (hids : ∀ id ∈ ids, Run.IsId id)
    (hid : id ∈ ids) (hlength : id.toList.length = 7) {p : Path} {K : Place}
    (hK : t.resolve true ((s.backupFolder id).join (backupName p)) = .ok K)
    (hfree : ∀ k, s.Below t (IsRunText id) k → t.get? k ≠ some .folder) {name : String}
    (hname : name ∈ fileNames ids) (htext : ∀ r, IsText name r → IsRunText id r) :
    s.Storable t name := by
  obtain ⟨hown, hownTmp⟩ := mem_ownNames_of_mem_fileNames hname
  have hidName := isName_of_mem_ownNames hids (mem_ownNames hid)
  obtain ⟨hfolder, S, hS, hSfolder⟩ :=
    FileTree.hasFolder_of_resolve_join_join h.wellFormed hidName (isName_backupName p) hK
  have hlead : t.leadOf s.folder = some S := FileTree.lead_of_follow hS
  have hroom : ∀ n, n ∈ ownNames ids → IsText name [n] → s.IsFree t n := by
    intro n hn hntext
    obtain ⟨hshort, hnul⟩ := utf8Len_le_of_isRunText (hids id hid) hlength (htext _ hntext)
    have hlong := le_utf8Len_backupName p
    refine ⟨S ++ [n], ?_, hfree _ ⟨S, [n], hlead, htext _ hntext, rfl⟩⟩
    refine FileTree.resolve_join_of_le (isName_of_mem_ownNames hids hn) hnul ?_ hS hSfolder
      (h.not_link hlead hn) hidName (isName_backupName p) ?_ hK
    · rw [← String.utf8Len_toList, FileTree.nameLimit]
      omega
    · rw [String.utf8Len_append, String.utf8Len_cons]
      omega
  exact ⟨hfolder, hroom _ hownTmp (.inr rfl), hroom _ hown (.inl rfl)⟩

theorem saveRun_of_backup {r : Run} (h : s.Guarded ids w.tree) (hids : ∀ id ∈ ids, Run.IsId id)
    (hr : r.id ∈ ids) (hlength : r.id.toList.length = 7) {p : Path} {K : Place}
    (hK : w.tree.resolve true ((s.backupFolder r.id).join (backupName p)) = .ok K)
    (hfree : ∀ k, s.Below w.tree (IsRunText r.id) k → w.tree.get? k ≠ some .folder)
    (hloads : s.IndexLoads w.tree) : ∃ w', (s.saveRun r).run.run w = (.ok (), w') :=
  saveRun_of_storable h hids hr
    (storable_of_backup h hids hr hlength hK hfree (mem_fileNames hr) fun _ => .inl)
    (storable_of_backup h hids hr hlength hK hfree List.mem_cons_self fun _ => .inr) hloads

end RunStore

end Rewrap
