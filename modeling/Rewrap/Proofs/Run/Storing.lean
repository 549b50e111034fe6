import Rewrap.Proofs.Run.Own

/-! # Storing and loading

What the store's operations do in a guarded tree, whether they succeed or fail, and what they leave
behind when they succeed. -/

namespace Rewrap.RunStore

open FileTree (Frame)

variable {s : RunStore} {ids : List String} {w w' : World} {t u : FileTree} {name : String}

/-- The places, seen from the store's folder, that storing under a name uses. -/
def IsText (name : String) (r : Place) : Prop := r = [name] ∨ r = [temporaryName name]

/-! ## Stored texts -/

/-- A text is stored under a name. -/
def Stores (s : RunStore) (t : FileTree) (name : String) (x : Text) : Prop :=
  ∃ k, t.resolve true (s.folder.join ⟨name⟩) = .ok k ∧ t.get? k = some (.file x.toBytes)

/-- The path of a name leads to no folder. -/
def IsFree (s : RunStore) (t : FileTree) (name : String) : Prop :=
  ∃ k, t.resolve true (s.folder.join ⟨name⟩) = .ok k ∧ t.get? k ≠ some .folder

/-- The store's folder is there, and nothing keeps a text from being stored under a name. -/
structure Storable (s : RunStore) (t : FileTree) (name : String) : Prop where
  folder : t.HasFolder s.folder
  temporary : s.IsFree t (temporaryName name)
  target : s.IsFree t name

theorem temporaryName_ne (name : String) : temporaryName name ≠ name := by
  intro h
  have hlength := congrArg (fun n => n.toList.length) h
  simp [temporaryName, String.toList_append] at hlength

theorem place_ne_temporary (S : Place) (name : String) :
    S ++ [name] ≠ S ++ [temporaryName name] := by
  intro heq
  have hlast := List.append_cancel_left heq
  simp only [List.cons.injEq, and_true] at hlast
  exact temporaryName_ne name hlast.symm

/-! ## Trees in which a text can be stored -/

/-- A well-formed tree in which no link stands where a text of a name is stored. -/
structure Direct (s : RunStore) (name : String) (t : FileTree) : Prop where
  wellFormed : t.WellFormed
  target : s.Bare t name
  temporary : s.Bare t (temporaryName name)

variable {files folders : Place → Prop}

theorem Guarded.direct (h : s.Guarded ids t) (hids : ∀ id ∈ ids, Run.IsId id)
    (hn : name ∈ fileNames ids) : s.Direct name t := by
  obtain ⟨hown, hownTmp⟩ := mem_ownNames_of_mem_fileNames hn
  exact ⟨h.wellFormed, h.bare hids hown, h.bare hids hownTmp⟩

theorem Direct.frame (h : s.Direct name t) (hu : u.WellFormed) (hframe : Frame files folders t u) :
    s.Direct name u :=
  ⟨hu, h.target.frame hframe, h.temporary.frame hframe⟩

theorem Kept.direct (h : s.Kept files folders w w') (hw : s.Direct name w.tree) :
    s.Direct name w'.tree :=
  hw.frame h.wellFormed h.frame

/-! ## Storing -/

/-- A temporary file that takes the place of its own name changes nothing else. -/
theorem Direct.move (h : s.Direct name t) {S : Place} (hS : t.leadOf s.folder = some S)
    {b : ByteArray} (hfile : t.get? (S ++ [temporaryName name]) = some (.file b))
    (hfolder : t.get? (S ++ [name]) ≠ some .folder) :
    ((t.erase (S ++ [temporaryName name])).put (S ++ [name]) (.file b)).WellFormed ∧
      Frame (s.Below t (IsText name)) FileTree.Nowhere t
        ((t.erase (S ++ [temporaryName name])).put (S ++ [name]) (.file b)) := by
  have hne := place_ne_temporary S name
  have htmp : t.get? (S ++ [temporaryName name]) ≠ some .folder := by simp [hfile]
  have hparent : (t.erase (S ++ [temporaryName name])).get? S = some .folder := by
    rw [FileTree.get?_erase_of_ne (by simp)]
    exact h.wellFormed.parent S (temporaryName name) (by simp [hfile])
  have hfolder' : (t.erase (S ++ [temporaryName name])).get? (S ++ [name]) ≠ some .folder := by
    rw [FileTree.get?_erase_of_ne hne]
    exact hfolder
  have hlink : ∀ q, (t.erase (S ++ [temporaryName name])).get? (S ++ [name]) ≠
      some (.link q) := by
    intro q
    rw [FileTree.get?_erase_of_ne hne]
    exact h.target.noLink S q hS
  refine ⟨(h.wellFormed.erase htmp).put h.target.isName hparent hfolder', ?_⟩
  refine ((FileTree.frame_erase_file hfile).mono ?_ fun _ hk => hk).trans
    ((FileTree.frame_put_file hfolder' hlink).mono ?_ fun _ hk => hk)
  · rintro _ rfl
    exact ⟨S, _, hS, .inr rfl, rfl⟩
  · rintro _ rfl
    exact ⟨S, _, hS, .inl rfl, rfl⟩

theorem rename_spec (h : s.Direct name t) {x : Text} (hx : s.Stores t (temporaryName name) x) :
    (∃ e, t.rename (s.folder.join ⟨temporaryName name⟩) (s.folder.join ⟨name⟩) =
        (.error e, t)) ∨
      ∃ u, t.rename (s.folder.join ⟨temporaryName name⟩)
          (s.folder.join ⟨name⟩) = (.ok (), u) ∧
        u.WellFormed ∧ Frame (s.Below t (IsText name)) FileTree.Nowhere t u ∧
        s.Stores u name x ∧
        s.IsFree u (temporaryName name) := by
  rcases FileTree.rename_cases (t := t) (s.folder.join ⟨temporaryName name⟩)
    (s.folder.join ⟨name⟩) with
    herror | ⟨k, k', e, hk, hk', he, hfolder, hrename⟩
  · exact .inl herror
  · right
    obtain ⟨K, hK, hfile⟩ := hx
    obtain ⟨S, hS, rfl⟩ := h.temporary.eq_of_resolve hk
    obtain ⟨S', hS', rfl⟩ := h.target.eq_of_resolve hk'
    obtain ⟨S'', hS'', rfl⟩ := h.temporary.eq_of_resolve hK
    rw [hS] at hS' hS''
    cases hS'
    cases hS''
    rw [hfile] at he
    cases he
    obtain ⟨hwf, hframe⟩ := h.move hS hfile hfolder
    refine ⟨_, hrename, hwf, hframe, ⟨S ++ [name], ?_, FileTree.get?_put_self (by simp)⟩,
      ⟨S ++ [temporaryName name], hframe.resolve hK, ?_⟩⟩
    · exact hframe.resolve (FileTree.resolve_true_of_false hk' fun q => h.target.noLink S q hS)
    · rw [FileTree.get?_put_of_ne (place_ne_temporary S name).symm, FileTree.get?_erase]
      simp

theorem writeTemporary_spec (h : s.Direct name w.tree) (x : Text) :
    (∃ e, w.tree.write (s.folder.join ⟨temporaryName name⟩) x.toBytes =
        (.error e, w.tree)) ∨
      ∃ u, w.tree.write (s.folder.join ⟨temporaryName name⟩) x.toBytes = (.ok (), u) ∧
        s.Kept (IsText name) FileTree.Nowhere w { w with tree := u } ∧
          s.Stores u (temporaryName name) x := by
  have hkept : s.Kept (IsText name) FileTree.Nowhere w
      { w with tree := (w.tree.write (s.folder.join ⟨temporaryName name⟩) x.toBytes).2 } := by
    refine Kept.write h.wellFormed (fun k hk => ?_) x.toBytes
    obtain ⟨S, hS, rfl⟩ := h.temporary.eq_of_resolve hk
    exact ⟨S, _, hS, .inr rfl, rfl⟩
  rcases FileTree.write_cases h.wellFormed (s.folder.join ⟨temporaryName name⟩) x.toBytes with
    herror | ⟨k, hk, -, hfolder, -, hwrite, -⟩
  · exact .inl herror
  · rw [hwrite] at hkept
    refine .inr ⟨_, hwrite, hkept, k, hkept.frame.resolve hk, FileTree.get?_put_self ?_⟩
    rintro rfl
    exact hfolder rfl

/-- Storing changes only the files of its name; when it succeeds the text is stored, and texts can
be stored under the name from then on. -/
theorem store_spec (h : s.Direct name w.tree) {x : Text} {r : Except Run.Error Unit}
    (hrun : (s.store name x).run.run w = (r, w')) :
    s.Kept (IsText name) FileTree.Nowhere w w' ∧
      (r = .ok () → s.Stores w'.tree name x ∧ s.Storable w'.tree name) := by
  obtain ⟨hcreate, hfolder⟩ := Kept.createFolders (s := s) h.wellFormed
  have hcreate : s.Kept (IsText name) FileTree.Nowhere w
      { w with tree := (w.tree.createFolders s.folder).2 } :=
    hcreate.mono (fun _ hr => hr.elim) fun _ hr => hr
  unfold store at hrun
  rw [Attempt.run_bind, Attempt.run_createFolders, show name ++ ".tmp" =
    temporaryName name from rfl] at hrun
  cases hcreated : (w.tree.createFolders s.folder).1 with
  | error e =>
      simp only [hcreated, Except.mapError] at hrun
      cases hrun
      exact ⟨hcreate, by simp⟩
  | ok _ =>
      simp only [hcreated, Except.mapError] at hrun
      have hfolder : ({ w with tree := (w.tree.createFolders s.folder).2 } : World).tree.HasFolder
          s.folder := hfolder hcreated
      generalize ({ w with tree := (w.tree.createFolders s.folder).2 } : World) = w₁
        at hcreate hfolder hrun
      rw [Attempt.run_bind, Attempt.run_writeText] at hrun
      rcases writeTemporary_spec (hcreate.direct h) x with ⟨e, hwrite⟩ |
        ⟨t₁, hwrite, hkept, hstored⟩
      · rw [hwrite] at hrun
        cases hrun
        exact ⟨hcreate, by simp⟩
      · rw [hwrite] at hrun
        simp only [Except.mapError, Attempt.run_rename] at hrun
        rcases rename_spec (hkept.direct (hcreate.direct h)) hstored with ⟨e, hrename⟩ |
          ⟨u, hrename, hwf, hframe, hstores, hfree⟩
        · rw [hrename] at hrun
          cases hrun
          exact ⟨hcreate.trans hkept, by simp⟩
        · rw [hrename] at hrun
          cases hrun
          have hmoved : s.Kept (IsText name) FileTree.Nowhere { w₁ with tree := t₁ }
              { w₁ with tree := u } :=
            ⟨hwf, hframe.mono (fun _ hk => hk) fun _ hk => hk.elim, rfl⟩
          have htarget : s.IsFree u name := by
            obtain ⟨K, hK, hfile⟩ := hstores
            exact ⟨K, hK, by simp [hfile]⟩
          refine ⟨(hcreate.trans hkept).trans hmoved,
            fun _ => ⟨hstores, ?_, hfree, htarget⟩⟩
          exact (hfolder.frame hkept.frame).frame hmoved.frame

/-- Storing succeeds where texts can be stored. -/
theorem store_of_storable (h : s.Direct name w.tree) (hstorable : s.Storable w.tree name)
    (x : Text) : ∃ w', (s.store name x).run.run w = (.ok (), w') := by
  obtain ⟨k, hk, hkfolder⟩ := hstorable.temporary
  obtain ⟨k', hk', hkfolder'⟩ := hstorable.target
  obtain ⟨S, hS, rfl⟩ := h.temporary.eq_of_resolve hk
  have hlast := Path.getLast?_join (p := s.folder) h.temporary.isName
  have hwrite := FileTree.write_of_resolve hk hkfolder hlast x.toBytes
  have hframe := FileTree.frame_put_file (b := x.toBytes) hkfolder fun q =>
    h.temporary.noLink S q hS
  have hfolder : (w.tree.put (S ++ [temporaryName name]) (.file x.toBytes)).get? k' ≠
      some .folder := by
    intro hnew
    exact (hframe.newFolder k' hnew).elim hkfolder' fun hno => hno
  have hrename := FileTree.rename_of_resolve
    (hframe.resolve (h.temporary.resolve_false hk)) (hframe.resolve (h.target.resolve_false hk'))
    (FileTree.get?_put_self (by simp)) hfolder
  have hcreate := FileTree.createFolders_of_hasFolder hstorable.folder
  exact ⟨_, (Attempt.bind_of_ok (Attempt.createFolders_of_ok hcreate)).trans
    ((Attempt.bind_of_ok (Attempt.writeText_of_ok hwrite)).trans (Attempt.rename_of_ok hrename))⟩

/-! ## What stays stored -/

theorem Stores.frame (h : s.Bare t name) {x : Text} (hx : s.Stores t name x)
    (hframe : Frame files folders t u)
    (hfiles : ∀ S, t.leadOf s.folder = some S → ¬files (S ++ [name])) : s.Stores u name x := by
  obtain ⟨k, hk, hfile⟩ := hx
  obtain ⟨S, hS, rfl⟩ := h.eq_of_resolve hk
  exact ⟨S ++ [name], hframe.resolve hk, (hframe.file _ (hfiles S hS) _).mpr hfile⟩

theorem IsFree.frame (h : s.Bare t name) (hx : s.IsFree t name) (hframe : Frame files folders t u)
    (hfolders : ∀ S, t.leadOf s.folder = some S → ¬folders (S ++ [name])) :
    s.IsFree u name := by
  obtain ⟨k, hk, hfolder⟩ := hx
  obtain ⟨S, hS, rfl⟩ := h.eq_of_resolve hk
  refine ⟨S ++ [name], hframe.resolve hk, fun hnew => ?_⟩
  exact (hframe.newFolder _ hnew).elim hfolder (hfolders S hS)

/-- Texts can go on being stored under a name unless a folder is made in the way. -/
theorem Storable.frame (h : s.Direct name t) (hx : s.Storable t name)
    (hframe : Frame files folders t u)
    (hfolders : ∀ S n, t.leadOf s.folder = some S → n = name ∨ n = temporaryName name →
      ¬folders (S ++ [n])) : s.Storable u name :=
  ⟨hx.folder.frame hframe,
    hx.temporary.frame h.temporary hframe fun S hS => hfolders S _ hS (.inr rfl),
    hx.target.frame h.target hframe fun S hS => hfolders S _ hS (.inl rfl)⟩

end Rewrap.RunStore
