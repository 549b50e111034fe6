import Rewrap.Proofs.FileTree.Ways

/-! # Removing

Removing a folder takes away all that stands at and below its place. A path goes on leading where it
led as long as nothing on its way was taken away, which shows when what may be taken away is cleared
beforehand. -/

namespace Rewrap

theorem lookup_filter_fst {κ α : Type} [BEq κ] [LawfulBEq κ] (es : List (κ × α))
    (q : κ → Bool) (k : κ) :
    (es.filter fun e => q e.1).lookup k = if q k then es.lookup k else none := by
  induction es with
  | nil => simp
  | cons e es ih =>
      obtain ⟨k', a⟩ := e
      by_cases hk : k = k'
      · subst hk
        cases hq : q k with
        | true => simp [hq]
        | false => simp [hq, ih]
      · have hbeq : (k == k') = false := by simpa using hk
        cases hq : q k' with
        | true => simp [hq, ih, List.lookup_cons, hbeq]
        | false => simp [hq, ih, List.lookup_cons, hbeq]

namespace FileTree

variable {t u : FileTree}

/-! ## Inside a folder -/

/-- A place below another one. -/
def IsInside (S k : Place) : Prop := S <+: k ∧ S ≠ k

theorem isInside_iff {S k : Place} : (S.isPrefixOf k && S != k) = true ↔ IsInside S k := by
  rw [Bool.and_eq_true, List.isPrefixOf_iff_prefix, bne_iff_ne, IsInside]

theorem isInside_append {S r : Place} : IsInside S (S ++ r) ↔ r ≠ [] := by
  simp [IsInside]

theorem isInside_cons (S : Place) (n : String) (rest : Place) : IsInside S (S ++ n :: rest) :=
  isInside_append.mpr (List.cons_ne_nil n rest)

theorem IsInside.exists_append {S k : Place} (h : IsInside S k) :
    ∃ r, r ≠ [] ∧ k = S ++ r := by
  obtain ⟨⟨r, rfl⟩, hne⟩ := h
  exact ⟨r, isInside_append.mp ⟨List.prefix_append S r, hne⟩, rfl⟩

theorem IsInside.concat {S k : Place} (h : S <+: k) (n : String) : IsInside S (k ++ [n]) := by
  obtain ⟨r, rfl⟩ := h
  rw [List.append_assoc]
  exact isInside_append.mpr (by simp)

/-- After clearing a place nothing stands below it, and all else is as before. -/
theorem get?_clear_of_isInside {S k : Place} (h : IsInside S k) : (t.clear S).get? k = none := by
  have hne : k ≠ [] := by
    rintro rfl
    exact h.2 (List.prefix_nil.mp h.1)
  unfold get? clear
  rw [if_neg hne, lookup_filter_fst t.entries fun k' => !(S.isPrefixOf k' && S != k'),
    isInside_iff.mpr h]
  rfl

theorem get?_clear_of_not {S k : Place} (h : ¬IsInside S k) : (t.clear S).get? k = t.get? k := by
  have hkept : (S.isPrefixOf k && S != k) = false :=
    Bool.eq_false_iff.mpr fun heq => h (isInside_iff.mp heq)
  unfold get? clear
  rw [lookup_filter_fst t.entries fun k' => !(S.isPrefixOf k' && S != k'), hkept]
  rfl

theorem not_isInside_of_get?_clear {S k : Place} {e : Entry} (h : (t.clear S).get? k = some e) :
    ¬IsInside S k := by
  intro hinside
  rw [get?_clear_of_isInside hinside] at h
  cases h

/-! ## Well-formed trees -/

theorem WellFormed.clear (h : t.WellFormed) {S : Place} (hcwd : ¬IsInside S t.cwd) :
    (t.clear S).WellFormed where
  nodup := h.nodup.sublist (List.filter_sublist.map _)
  top := by
    unfold FileTree.clear
    rw [lookup_filter_fst t.entries fun k' => !(S.isPrefixOf k' && S != k'), h.top]
    simp
  cwd := (get?_clear_of_not hcwd).trans h.cwd
  parent := by
    intro k n hsome
    obtain ⟨e, he⟩ := Option.ne_none_iff_exists'.mp hsome
    have hout := not_isInside_of_get?_clear he
    rw [get?_clear_of_not hout] at hsome
    rw [get?_clear_of_not fun hinside => hout (.concat hinside.1 n)]
    exact h.parent k n hsome
  name := by
    intro k n hsome
    obtain ⟨e, he⟩ := Option.ne_none_iff_exists'.mp hsome
    rw [get?_clear_of_not (not_isInside_of_get?_clear he)] at hsome
    exact h.name k n hsome

/-! ## Frames -/

theorem Frame.get?_eq {files folders : Place → Prop} (h : Frame files folders t u) {k : Place}
    (hfile : ¬files k) (hfolder : ¬folders k) : u.get? k = t.get? k := by
  cases ht : t.get? k with
  | some e =>
      cases e with
      | folder => exact h.folder k ht
      | file b => exact (h.file k hfile b).mpr ht
      | link q => exact (h.link k q).mpr ht
  | none =>
      cases hu : u.get? k with
      | none => rfl
      | some e =>
          cases e with
          | folder => exact absurd (h.newFolder k hu) (by simp [ht, hfolder])
          | file b =>
              rw [h.file k hfile b, ht] at hu
              cases hu
          | link q =>
              rw [h.link k q, ht] at hu
              cases hu

theorem Frame.of_get?_eq (hcwd : u.cwd = t.cwd) (h : ∀ k, u.get? k = t.get? k) :
    Frame Nowhere Nowhere t u where
  cwd := hcwd
  folder := fun k hk => (h k).trans hk
  link := fun k q => by rw [h k]
  file := fun k _ b => by rw [h k]
  newFolder := fun k hk => .inl ((h k).symm.trans hk)

theorem get?_clear_congr {S : Place} (h : ∀ k, ¬IsInside S k → u.get? k = t.get? k)
    (k : Place) : (u.clear S).get? k = (t.clear S).get? k := by
  by_cases hk : IsInside S k
  · rw [get?_clear_of_isInside hk, get?_clear_of_isInside hk]
  · rw [get?_clear_of_not hk, get?_clear_of_not hk, h k hk]

/-- A tree without links below a place comes from the cleared one by making files and folders
there. -/
theorem frame_clear {S : Place} (h : ∀ k, IsInside S k → ∀ q, t.get? k ≠ some (.link q)) :
    Frame (IsInside S) (IsInside S) (t.clear S) t := by
  refine ⟨rfl, fun k hk => ?_, fun k q => ?_, fun k hk b => ?_, fun k hk => ?_⟩
  · rw [← get?_clear_of_not (not_isInside_of_get?_clear hk)]
    exact hk
  · by_cases hinside : IsInside S k
    · rw [get?_clear_of_isInside hinside]
      exact iff_of_false (h k hinside q) (by simp)
    · rw [get?_clear_of_not hinside]
  · rw [get?_clear_of_not hk]
  · by_cases hinside : IsInside S k
    · exact .inr hinside
    · rw [get?_clear_of_not hinside]
      exact .inl hk

theorem Frame.clear {files folders : Place → Prop} (h : Frame files folders t u) (S : Place) :
    Frame files folders (t.clear S) (u.clear S) := by
  refine ⟨h.cwd, fun k hk => ?_, fun k q => ?_, fun k hk b => ?_, fun k hk => ?_⟩
  · have hout := not_isInside_of_get?_clear hk
    rw [get?_clear_of_not hout] at hk ⊢
    exact h.folder k hk
  · by_cases hinside : IsInside S k
    · rw [get?_clear_of_isInside hinside, get?_clear_of_isInside hinside]
    · rw [get?_clear_of_not hinside, get?_clear_of_not hinside]
      exact h.link k q
  · by_cases hinside : IsInside S k
    · rw [get?_clear_of_isInside hinside, get?_clear_of_isInside hinside]
    · rw [get?_clear_of_not hinside, get?_clear_of_not hinside]
      exact h.file k hk b
  · have hout := not_isInside_of_get?_clear hk
    rw [get?_clear_of_not hout] at hk ⊢
    exact h.newFolder k hk

/-! ## Removing files and folders -/

/-- Removing a file or a link takes it away, or changes nothing. -/
theorem removeFile_cases (t : FileTree) (p : Path) :
    (∃ e, t.removeFile p = (.error e, t)) ∨
      ∃ k, t.resolve false p = .ok k ∧ t.get? k ≠ some .folder ∧
        t.removeFile p = (.ok (), t.erase k) := by
  unfold removeFile changing
  split
  · next u hu =>
      right
      obtain ⟨k, hk, hu⟩ := Except.bind_eq_ok.mp hu
      split at hu
      · simp at hu
      · next e hfolder he =>
          cases hu
          exact ⟨k, hk, by rw [he]; exact fun heq => hfolder (Option.some.inj heq), rfl⟩
      · simp at hu
  · next e _ => exact .inl ⟨e, rfl⟩

/-- Removing a folder that succeeds takes away all that stands below its place, and then the folder
too unless it is named by dots; a link is taken away itself. -/
theorem removeFolder_ok {p : Path} (h : t.removeFolder p = (.ok (), u)) :
    ∃ k, t.resolve false p = .ok k ∧ ((∃ q, t.get? k = some (.link q)) ∨
      (t.get? k = some .folder ∧ (u = t.clear k ∨ u = (t.clear k).erase k))) := by
  unfold removeFolder at h
  split at h
  · cases h
  · next k hk =>
      refine ⟨k, hk, ?_⟩
      split at h
      · cases h
      · cases h
      · next q hq => exact .inl ⟨q, hq⟩
      · next hfolder =>
          refine .inr ⟨hfolder, ?_⟩
          simp only at h
          split at h
          · cases h
          · cases h
            exact .inl rfl
          · cases h
            exact .inr rfl

/-- The tree without a folder, or with the folder emptied. -/
theorem WellFormed.removed (h : t.WellFormed) {k : Place} (hcwd : ¬k <+: t.cwd)
    (hu : u = t.clear k ∨ u = (t.clear k).erase k) :
    u.WellFormed ∧ u.cwd = t.cwd ∧ ∀ k', u.get? k' = t.get? k' ∨
      (k <+: k' ∧ u.get? k' = none) := by
  have hcleared : (t.clear k).WellFormed := h.clear fun hinside => hcwd hinside.1
  have hget : ∀ k', (t.clear k).get? k' = t.get? k' ∨
      (k <+: k' ∧ (t.clear k).get? k' = none) := by
    intro k'
    by_cases hk' : IsInside k k'
    · exact .inr ⟨hk'.1, get?_clear_of_isInside hk'⟩
    · exact .inl (get?_clear_of_not hk')
  rcases hu with rfl | rfl
  · exact ⟨hcleared, rfl, hget⟩
  · have hne : t.cwd ≠ k := fun heq => hcwd (heq ▸ List.prefix_rfl)
    refine ⟨hcleared.erase_of_bare hne
      fun n => get?_clear_of_isInside (.concat List.prefix_rfl n), rfl, fun k' => ?_⟩
    by_cases hk' : k' = k
    · have htop : k' ≠ [] := by
        rintro rfl
        exact hcwd (hk' ▸ List.nil_prefix)
      rw [get?_erase, if_pos ⟨htop, hk'⟩]
      exact .inr ⟨hk' ▸ List.prefix_rfl, rfl⟩
    · rw [get?_erase_of_ne hk']
      exact hget k'

end FileTree

end Rewrap
