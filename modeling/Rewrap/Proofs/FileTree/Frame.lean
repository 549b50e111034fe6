import Rewrap.FileTree.Access
import Rewrap.Proofs.Except
import Rewrap.Proofs.Path.Steps

/-! # Well-formed trees and what a change leaves alone

In a well-formed tree every entry stands in a folder. The changes made by the tool never take away a
folder and never make or take away a link, so a path that led somewhere goes on leading there. -/

namespace Rewrap.FileTree

/-! ## Well-formed trees -/

/-- Each place has one entry, which has a proper name and stands in a folder; the working directory
is a folder. -/
structure WellFormed (t : FileTree) : Prop where
  nodup : (t.entries.map Prod.fst).Nodup
  top : t.entries.lookup [] = none
  cwd : t.get? t.cwd = some .folder
  parent : ∀ k n, t.get? (k ++ [n]) ≠ none → t.get? k = some .folder
  name : ∀ k n, t.get? (k ++ [n]) ≠ none → Path.IsName n

@[simp] theorem get?_nil (t : FileTree) : t.get? [] = some .folder := rfl

theorem WellFormed.dropLast {t : FileTree} (h : t.WellFormed) {k : Place}
    (hk : t.get? k = some .folder) : t.get? k.dropLast = some .folder := by
  cases hl : k.getLast? with
  | none =>
      obtain rfl := List.getLast?_eq_none_iff.mp hl
      rfl
  | some n =>
      obtain ⟨k', rfl⟩ := List.getLast?_eq_some_iff.mp hl
      rw [List.dropLast_concat]
      exact h.parent k' n (by simp [hk])

/-- A folder, or a name in a folder; with `throughLinks`, not that of a link. -/
def IsSpot (t : FileTree) (throughLinks : Bool) (k : Place) : Prop :=
  t.get? k = some .folder ∨ ∃ k' n, k = k' ++ [n] ∧ Path.IsName n ∧
    t.get? k' = some .folder ∧ (throughLinks = true → ∀ q, t.get? k ≠ some (.link q))

/-! ## Where steps end -/

variable {t u : FileTree} {followLast : Bool}

theorem followSteps_isSpot (h : t.WellFormed)
    {onLink : Place → Path → List Path.Component → Except FileError Place}
    (hlink : ∀ k p rest r, t.get? k = some .folder → Path.AreProper rest →
      onLink k p rest = .ok r → t.IsSpot followLast r)
    {k r : Place} {steps : List Path.Component}
    (hk : t.get? k = some .folder) (hsteps : Path.AreProper steps)
    (hr : t.followSteps followLast onLink k steps = .ok r) :
    t.IsSpot followLast r := by
  induction steps generalizing k with
  | nil =>
      cases hr
      exact .inl hk
  | cons c rest ih =>
      have hrest : Path.AreProper rest := fun n hn => hsteps n (by simp [hn])
      cases c with
      | root => exact ih rfl hrest hr
      | here => exact ih hk hrest hr
      | up => exact ih (h.dropLast hk) hrest hr
      | name n =>
          have hn : Path.IsName n := hsteps n (by simp)
          have hspot : (followLast = true → ∀ q, t.get? (k ++ [n]) ≠ some (.link q)) →
              t.IsSpot followLast (k ++ [n]) := fun hno => .inr ⟨k, n, rfl, hn, hk, hno⟩
          unfold followSteps at hr
          split at hr
          · simp at hr
          · split at hr
            · next hfolder => exact ih hfolder hrest hr
            · next hfile =>
                split at hr
                · cases hr
                  exact hspot (by simp [hfile])
                · simp at hr
            · split at hr
              · next hlast =>
                  cases hr
                  exact hspot (by simp at hlast; simp [hlast])
              · exact hlink k _ rest r hk hrest hr
            · next hnone =>
                split at hr
                · cases hr
                  exact hspot (by simp [hnone])
                · simp at hr

theorem follow_isSpot (h : t.WellFormed) {n : Nat} {k r : Place} {steps : List Path.Component}
    (hk : t.get? k = some .folder) (hsteps : Path.AreProper steps)
    (hr : t.follow followLast n k steps = .ok r) : t.IsSpot followLast r := by
  induction n generalizing k steps r with
  | zero => exact followSteps_isSpot h (by simp) hk hsteps hr
  | succ n ih =>
      refine followSteps_isSpot h (fun k p rest r hk hrest hr => ?_) hk hsteps hr
      refine ih hk ?_ hr
      intro m hm
      rcases List.mem_append.mp hm with hm | hm
      · exact Path.areProper_steps p m hm
      · exact hrest m hm

theorem placeOf_isSpot (h : t.WellFormed) {steps : List Path.Component} {r : Place}
    (hsteps : Path.AreProper steps) (hr : t.placeOf followLast steps = .ok r) :
    t.IsSpot followLast r :=
  follow_isSpot h h.cwd hsteps hr

theorem stepsOf_eq_ok {p : Path} {steps : List Path.Component} (h : stepsOf p = .ok steps) :
    steps = p.steps := by
  unfold stepsOf at h
  split at h
  · simp at h
  · split at h
    · simp at h
    · split at h
      · simp at h
      · exact (Except.ok.inj h).symm

theorem resolve_eq_ok {p : Path} {r : Place} (h : t.resolve followLast p = .ok r) :
    stepsOf p = .ok p.steps ∧ t.placeOf followLast p.steps = .ok r := by
  obtain ⟨steps, hsteps, hr⟩ := Except.bind_eq_ok.mp h
  obtain rfl := stepsOf_eq_ok hsteps
  exact ⟨hsteps, hr⟩

theorem resolve_of_placeOf {p : Path} (h : stepsOf p = .ok p.steps) :
    t.resolve followLast p = t.placeOf followLast p.steps := by
  rw [resolve, h]
  rfl

/-! ## Frames -/

/-- What a change leaves alone: the working directory, all folders, the links, and the files that
stand at no place in `files`. New folders come only at places in `folders`. -/
structure Frame (files folders : Place → Prop) (t u : FileTree) : Prop where
  cwd : u.cwd = t.cwd
  folder : ∀ k, t.get? k = some .folder → u.get? k = some .folder
  link : ∀ k p, u.get? k = some (.link p) ↔ t.get? k = some (.link p)
  file : ∀ k, ¬files k → ∀ b, u.get? k = some (.file b) ↔ t.get? k = some (.file b)
  newFolder : ∀ k, u.get? k = some .folder → t.get? k = some .folder ∨ folders k

/-- No place. -/
def Nowhere : Place → Prop := fun _ => False

/-- Any place. -/
def Anywhere : Place → Prop := fun _ => True

namespace Frame

variable {files files' folders folders' : Place → Prop}

theorem refl (files folders : Place → Prop) (t : FileTree) : Frame files folders t t :=
  ⟨rfl, fun _ h => h, fun _ _ => Iff.rfl, fun _ _ _ => Iff.rfl, fun _ h => .inl h⟩

theorem trans {t u v : FileTree} (h : Frame files folders t u) (h' : Frame files folders u v) :
    Frame files folders t v where
  cwd := h'.cwd.trans h.cwd
  folder := fun k hk => h'.folder k (h.folder k hk)
  link := fun k p => (h'.link k p).trans (h.link k p)
  file := fun k hk b => (h'.file k hk b).trans (h.file k hk b)
  newFolder := by
    intro k hk
    rcases h'.newFolder k hk with hu | hnew
    · exact h.newFolder k hu
    · exact .inr hnew

theorem mono (h : Frame files folders t u) (hfiles : ∀ k, files k → files' k)
    (hfolders : ∀ k, folders k → folders' k) : Frame files' folders' t u :=
  ⟨h.cwd, h.folder, h.link, fun k hk => h.file k fun hk' => hk (hfiles k hk'),
    fun k hk => (h.newFolder k hk).imp_right (hfolders k)⟩

/-- What two frames leave alone in the same change. -/
theorem inter (h : Frame files folders t u) (h' : Frame files' folders' t u) :
    Frame (fun k => files k ∧ files' k) (fun k => folders k ∧ folders' k) t u where
  cwd := h.cwd
  folder := h.folder
  link := h.link
  file := by
    intro k hk
    by_cases hfile : files k
    · exact h'.file k fun hfile' => hk ⟨hfile, hfile'⟩
    · exact h.file k hfile
  newFolder := by
    intro k hk
    rcases h.newFolder k hk with hold | hnew
    · exact .inl hold
    · exact (h'.newFolder k hk).imp_right fun hnew' => ⟨hnew, hnew'⟩

/-- Files that are as they were can be left out. -/
theorem narrow (h : Frame files folders t u) (hsame : ∀ k, files k → ¬files' k →
    ∀ b, u.get? k = some (.file b) ↔ t.get? k = some (.file b)) : Frame files' folders t u where
  cwd := h.cwd
  folder := h.folder
  link := h.link
  file := by
    intro k hk
    by_cases hk' : files k
    · exact hsame k hk' hk
    · exact h.file k hk'
  newFolder := h.newFolder

/-- A change that makes no folder can be seen from both sides. -/
theorem symm (h : Frame files Nowhere t u) : Frame files Nowhere u t where
  cwd := h.cwd.symm
  folder := fun k hk => (h.newFolder k hk).elim id fun hno => hno.elim
  link := fun k p => (h.link k p).symm
  file := fun k hk b => (h.file k hk b).symm
  newFolder := fun k hk => .inl (h.folder k hk)

theorem followSteps (h : Frame files folders t u)
    {onLink onLink' : Place → Path → List Path.Component → Except FileError Place}
    (hlink : ∀ k p rest r, onLink k p rest = .ok r → onLink' k p rest = .ok r)
    {k r : Place} {steps : List Path.Component}
    (hr : t.followSteps followLast onLink k steps = .ok r) :
    u.followSteps followLast onLink' k steps = .ok r := by
  induction steps generalizing k with
  | nil => exact hr
  | cons c rest ih =>
      cases c with
      | root => exact ih hr
      | here => exact ih hr
      | up => exact ih hr
      | name n =>
          unfold FileTree.followSteps at hr
          split at hr
          · simp at hr
          · next hlength =>
              have hlength : ¬nameLimit < n.utf8ByteSize := hlength
              -- a last step that is no link ends at its own place, whatever stands there
              have hlast : (∀ q, t.get? (k ++ [n]) ≠ some (.link q)) →
                  u.followSteps followLast onLink' k [.name n] = .ok (k ++ [n]) := by
                intro hno
                unfold FileTree.followSteps
                rw [if_neg hlength]
                split
                · rfl
                · rfl
                · next q hq => exact absurd ((h.link _ q).mp hq) (hno q)
                · rfl
              split at hr
              · next hfolder =>
                  unfold FileTree.followSteps
                  rw [if_neg hlength, h.folder _ hfolder]
                  exact ih hr
              · next hfile =>
                  split at hr
                  · next hempty =>
                      obtain rfl := List.isEmpty_iff.mp hempty
                      rw [← hr]
                      exact hlast (by simp [hfile])
                  · simp at hr
              · next q hq =>
                  unfold FileTree.followSteps
                  rw [if_neg hlength, (h.link _ q).mpr hq]
                  split at hr
                  · next hempty => simpa only [hempty, if_true] using hr
                  · next hmore =>
                      simp only [hmore]
                      exact hlink k q rest r hr
              · next hnone =>
                  split at hr
                  · next hempty =>
                      obtain rfl := List.isEmpty_iff.mp hempty
                      rw [← hr]
                      exact hlast (by simp [hnone])
                  · simp at hr

theorem follow (h : Frame files folders t u) {n : Nat} {k r : Place} {steps : List Path.Component}
    (hr : t.follow followLast n k steps = .ok r) : u.follow followLast n k steps = .ok r := by
  induction n generalizing k steps r with
  | zero => exact h.followSteps (by simp) hr
  | succ n ih => exact h.followSteps (fun k p rest r hr => ih hr) hr

theorem placeOf (h : Frame files folders t u) {steps : List Path.Component} {r : Place}
    (hr : t.placeOf followLast steps = .ok r) : u.placeOf followLast steps = .ok r := by
  unfold FileTree.placeOf at hr ⊢
  rw [h.cwd]
  exact h.follow hr

theorem resolve (h : Frame files folders t u) {p : Path} {r : Place}
    (hr : t.resolve followLast p = .ok r) : u.resolve followLast p = .ok r := by
  obtain ⟨hsteps, hplace⟩ := resolve_eq_ok hr
  rw [resolve_of_placeOf hsteps]
  exact h.placeOf hplace

end Frame

/-! ## Putting entries -/

theorem get?_put_of_ne {k k' : Place} {e : Entry} (h : k' ≠ k) :
    (t.put k e).get? k' = t.get? k' := by
  rw [get?_put, if_neg fun hk => h hk.2]

theorem get?_put_self {k : Place} {e : Entry} (h : k ≠ []) : (t.put k e).get? k = some e := by
  rw [get?_put, if_pos ⟨h, rfl⟩]

theorem WellFormed.put (h : t.WellFormed) {k : Place} {n : String} {e : Entry} (hn : Path.IsName n)
    (hk : t.get? k = some .folder) (hvacant : t.get? (k ++ [n]) ≠ some .folder) :
    (t.put (k ++ [n]) e).WellFormed where
  nodup := by
    have hsub : ((t.entries.filter (·.1 != k ++ [n])).map Prod.fst).Nodup :=
      h.nodup.sublist (List.filter_sublist.map _)
    refine List.nodup_cons.mpr ⟨?_, hsub⟩
    intro hmem
    obtain ⟨e', he', heq⟩ := List.mem_map.mp hmem
    have := (List.mem_filter.mp he').2
    simp [heq] at this
  top := by
    have htop := h.top
    unfold FileTree.put
    have hne : (([] : Place) == k ++ [n]) = false := by simp
    rw [List.lookup_cons, hne, lookup_filter_ne]
    simp [htop]
  cwd := by
    have hcwd : t.cwd ≠ k ++ [n] := fun heq => hvacant (heq ▸ h.cwd)
    exact (get?_put_of_ne hcwd).trans h.cwd
  parent := by
    intro k' n' hsome
    have hne : k ≠ k ++ [n] := by simp
    by_cases heq : k' ++ [n'] = k ++ [n]
    · obtain ⟨rfl, -⟩ := List.append_inj' heq rfl
      rw [get?_put_of_ne hne]
      exact hk
    · rw [get?_put_of_ne heq] at hsome
      have hfolder := h.parent k' n' hsome
      have hne' : k' ≠ k ++ [n] := fun heq => hvacant (heq ▸ hfolder)
      rw [get?_put_of_ne hne']
      exact hfolder
  name := by
    intro k' n' hsome
    by_cases heq : k' ++ [n'] = k ++ [n]
    · obtain ⟨-, heq⟩ := List.append_inj' heq rfl
      obtain rfl : n' = n := by simpa using heq
      exact hn
    · rw [get?_put_of_ne heq] at hsome
      exact h.name k' n' hsome

theorem frame_put_file {k : Place} {b : ByteArray} (hfolder : t.get? k ≠ some .folder)
    (hlink : ∀ q, t.get? k ≠ some (.link q)) :
    Frame (· = k) Nowhere t (t.put k (.file b)) := by
  have hne : k ≠ [] := by
    rintro rfl
    exact hfolder rfl
  refine ⟨rfl, fun k' hk' => ?_, fun k' q => ?_, fun k' hk' b' => ?_, fun k' hk' => ?_⟩
  · have hother : k' ≠ k := fun heq => hfolder (heq ▸ hk')
    rw [get?_put_of_ne hother]
    exact hk'
  · by_cases heq : k' = k
    · subst heq
      rw [get?_put_self hne]
      exact iff_of_false (by simp) (hlink q)
    · rw [get?_put_of_ne heq]
  · rw [get?_put_of_ne hk']
  · by_cases heq : k' = k
    · subst heq
      simp [get?_put_self hne] at hk'
    · rw [get?_put_of_ne heq] at hk'
      exact .inl hk'

theorem frame_put_folder {k : Place} (hvacant : t.get? k = none) :
    Frame Nowhere (· = k) t (t.put k .folder) := by
  refine ⟨rfl, fun k' hk' => ?_, fun k' q => ?_, fun k' _ b => ?_, fun k' hk' => ?_⟩
  · have hne : k' ≠ k := by
      rintro rfl
      simp [hvacant] at hk'
    rw [get?_put_of_ne hne]
    exact hk'
  · rw [get?_put]
    split
    · next hk => simp [hk.2, hvacant]
    · exact Iff.rfl
  · rw [get?_put]
    split
    · next hk => simp [hk.2, hvacant]
    · exact Iff.rfl
  · by_cases heq : k' = k
    · exact .inr heq
    · rw [get?_put_of_ne heq] at hk'
      exact .inl hk'

end Rewrap.FileTree
