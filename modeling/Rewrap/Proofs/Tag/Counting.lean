import Rewrap.Proofs.Tag.Elements

/-! # Counting opening tags

No opening tag reaches into the next, so the search finds one at every place where one can be read.
A piece without brackets may stand inside a tag, and then it matters only with what it begins and
ends. -/

namespace Rewrap.Tag

variable {name : String}

/-! ## Places -/

theorem places_append_of_not_mem {g : Text} (hg : '<' ∉ g) (t : Text) :
    (opening name).places (g ++ t) = (opening name).places t := by
  induction g with
  | nil => rfl
  | cons c g ih =>
      have hnone : opening name none (c :: (g ++ t)) = none := by
        cases hread : opening name none (c :: (g ++ t)) with
        | none => rfl
        | some rest =>
            obtain ⟨inner, -, -, heq⟩ := opening_eq_some hread
            obtain ⟨rfl, -⟩ := List.cons.inj heq
            simp at hg
      rw [List.cons_append, Pattern.places, hnone, ih fun h => hg (List.mem_cons_of_mem c h)]
      simp

/-- The search finds an opening tag at every place where one can be read. -/
theorem count_opening (hname : '<' ∉ name.toList) (t : Text) :
    (opening name).count t = (opening name).places t := by
  refine Pattern.count_eq_places (opening_proper name) (fun _ _ _ => rfl) (fun m rest reads => ?_) t
  obtain ⟨inner, hinner, -, heq⟩ := opening_eq_some reads
  obtain rfl : m = '<' :: (name.toList ++ (inner ++ ['>'])) :=
    (List.append_left_inj rest).mp (by simpa using heq)
  have hno : '<' ∉ name.toList ++ (inner ++ ['>']) := by
    have hopen : '<' ∉ inner := fun h => absurd (hinner _ h) (by decide)
    simp [hname, hopen]
  rw [List.cons_append] at reads ⊢
  rw [Pattern.places, reads, places_append_of_not_mem hno]
  rfl

/-! ## Pieces without brackets -/

/-- A piece that may stand inside a tag, but neither goes on with the tag's name or follows it, nor
ends in the slash of a self-closing tag. -/
structure IsFiller (name : String) (d : Text) : Prop where
  inner : IsInner d
  head : ∃ c u, d = c :: u ∧ isWhiteSpace c = false ∧ c ∉ name.toList
  last : d.getLast? ≠ some '/'

variable {d d' a inner y rest : Text}

/-- A tag at the front of a text ends before the piece, or the piece is one of its attributes. -/
theorem IsFiller.exists_tag (h : IsFiller name d) (hne : a ≠ []) (hinner : IsInner inner)
    (hattributes : isAttributes inner = true)
    (htag : a ++ (d ++ y) = '<' :: name.toList ++ (inner ++ '>' :: rest)) :
    (∃ k, a = '<' :: name.toList ++ (inner ++ '>' :: k)) ∨
      ∃ u v, a = '<' :: name.toList ++ u ∧ inner = u ++ (d ++ v) ∧ y = v ++ '>' :: rest := by
  have hbracket : '>' ∉ d := fun hmem => absurd (h.inner _ hmem) (by decide)
  rcases List.append_eq_append_iff.mp htag with ⟨k, hname, hk⟩ | ⟨u, rfl, hu⟩
  · -- the piece would go on with the name, or follow it
    obtain ⟨c, w, rfl, hc, hcname⟩ := h.head
    obtain ⟨b, a, rfl⟩ := List.exists_cons_of_ne_nil hne
    have hend : name.toList = a ++ k := (List.cons.inj hname).2
    cases k with
    | nil =>
        cases inner with
        | nil =>
            obtain ⟨rfl, -⟩ := List.cons.inj hk
            simp at hbracket
        | cons x inner =>
            obtain ⟨rfl, -⟩ := List.cons.inj hk
            simp [hc, isAttributes_cons_iff] at hattributes
    | cons x k =>
        obtain ⟨rfl, -⟩ := List.cons.inj hk
        exact absurd (by rw [hend]; simp) hcname
  · rcases isInner_or_exists_bracket u with hinside | ⟨p, q, hp, hq⟩
    · have hlong : IsInner (u ++ d) := isInner_append.mpr ⟨hinside, h.inner⟩
      rw [← List.append_assoc] at hu
      rcases List.append_eq_append_iff.mp hu with ⟨k, hk, hrest⟩ | ⟨v, rfl, rfl⟩
      · cases k with
        | nil => exact .inr ⟨u, [], rfl, by simpa using hk.symm, by simpa using hrest.symm⟩
        | cons x k =>
            obtain ⟨rfl, -⟩ := List.cons.inj hrest
            exact absurd (hlong '>' (by simp [hk])) (by decide)
      · exact .inr ⟨u, v, rfl, by simp, rfl⟩
    · obtain ⟨b, hb, rfl⟩ : ∃ b, isInner b = false ∧ u = p ++ b :: q := by
        rcases hq with rfl | rfl
        · exact ⟨'<', by decide, rfl⟩
        · exact ⟨'>', by decide, rfl⟩
      have hsplit : inner ++ '>' :: rest = p ++ b :: (q ++ (d ++ y)) := by simpa using hu
      obtain ⟨rfl, rfl⟩ := first_bracket_unique hinner hp (by decide) hb hsplit
      exact .inl ⟨q, rfl⟩

theorem IsFiller.isAttributes_respelled (h : IsFiller name d) (h' : IsFiller name d') {u v : Text}
    (hread : isAttributes (u ++ (d ++ v)) = true) : isAttributes (u ++ (d' ++ v)) = true := by
  obtain ⟨c, w, rfl, hc, -⟩ := h.head
  obtain ⟨c', w', rfl, -, -⟩ := h'.head
  cases u with
  | nil =>
      obtain ⟨hspace, -⟩ := isAttributes_cons_iff.mp hread
      simp [hc] at hspace
  | cons x u =>
      obtain ⟨hspace, hlast⟩ := isAttributes_cons_iff.mp hread
      refine isAttributes_cons_iff.mpr ⟨hspace, ?_⟩
      have hlast : (x :: u ++ (c :: w ++ v)).getLast? ≠ some '/' := hlast
      change (x :: u ++ (c' :: w' ++ v)).getLast? ≠ some '/'
      rw [List.getLast?_append_of_ne_nil _ (by simp)] at hlast ⊢
      cases v with
      | nil => simpa using h'.last
      | cons y v => rwa [List.getLast?_append_of_ne_nil _ (by simp)] at hlast ⊢

/-- Whether a tag can be read does not depend on how the piece is spelled. -/
theorem IsFiller.opening_isSome (h : IsFiller name d) (h' : IsFiller name d') (hne : a ≠ [])
    (hread : (opening name none (a ++ (d ++ y))).isSome) :
    (opening name none (a ++ (d' ++ y))).isSome := by
  obtain ⟨rest, hread⟩ := Option.isSome_iff_exists.mp hread
  obtain ⟨inner, hinner, hattributes, htag⟩ := opening_eq_some hread
  rcases h.exists_tag hne hinner hattributes htag with ⟨k, rfl⟩ | ⟨u, v, rfl, rfl, rfl⟩
  · have htext : ('<' :: name.toList ++ (inner ++ '>' :: k)) ++ (d' ++ y) =
        '<' :: name.toList ++ (inner ++ '>' :: (k ++ (d' ++ y))) := by simp
    rw [htext, opening_append_close hinner, if_pos hattributes]
    rfl
  · have htext : ('<' :: name.toList ++ u) ++ (d' ++ (v ++ '>' :: rest)) =
        '<' :: name.toList ++ ((u ++ (d' ++ v)) ++ '>' :: rest) := by simp
    have hinner : IsInner (u ++ (d' ++ v)) := by
      obtain ⟨hu, hv⟩ := isInner_append.mp hinner
      exact isInner_append.mpr ⟨hu, isInner_append.mpr ⟨h'.inner, (isInner_append.mp hv).2⟩⟩
    rw [htext, opening_append_close hinner, if_pos (h.isAttributes_respelled h' hattributes)]
    rfl

/-- The number of opening tags does not depend on how the piece is spelled. -/
theorem IsFiller.places_eq (h : IsFiller name d) (h' : IsFiller name d') (x y : Text) :
    (opening name).places (x ++ (d ++ y)) = (opening name).places (x ++ (d' ++ y)) := by
  induction x with
  | nil =>
      have hno : ∀ {e}, IsFiller name e →
          '<' ∉ e := fun he hmem => absurd (he.inner _ hmem) (by decide)
      rw [List.nil_append, List.nil_append, places_append_of_not_mem (hno h),
        places_append_of_not_mem (hno h')]
  | cons c x ih =>
      have hsame : (opening name none (c :: x ++ (d ++ y))).isSome =
          (opening name none (c :: x ++ (d' ++ y))).isSome := by
        rw [Bool.eq_iff_iff]
        exact ⟨h.opening_isSome h' (by simp), h'.opening_isSome h (by simp)⟩
      simp only [List.cons_append] at hsame ⊢
      rw [Pattern.places, Pattern.places, ih, hsame]

end Rewrap.Tag
