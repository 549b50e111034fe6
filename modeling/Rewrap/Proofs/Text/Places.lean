import Mathlib.Data.List.Induction
import Rewrap.Proofs.Text.Search
import Rewrap.Tag

/-! # Places of a word

A word in angle brackets can stand in a text only between an opening and a closing bracket, so its
places are counted on either side of most cuts independently. -/

namespace Rewrap

namespace Text

/-! ## Parts of a text -/

theorem prefix_of_prefix_append {b : Char} {m x y : Text} (hb : b ∉ m) (h : m <+: x ++ b :: y) :
    m <+: x := by
  induction x generalizing m with
  | nil =>
      cases m with
      | nil => exact List.nil_prefix
      | cons c m =>
          obtain ⟨rfl, -⟩ := List.cons_prefix_cons.mp h
          simp at hb
  | cons c x ih =>
      cases m with
      | nil => exact List.nil_prefix
      | cons d m =>
          obtain ⟨rfl, hm⟩ := List.cons_prefix_cons.mp h
          have hb : b ∉ m := fun hmem => hb (List.mem_cons_of_mem _ hmem)
          exact List.cons_prefix_cons.mpr ⟨rfl, ih hb hm⟩

theorem infix_append_cons_iff {b : Char} {m x y : Text} (hb : b ∉ m) :
    m <:+: x ++ b :: y ↔ m <:+: x ∨ m <:+: y := by
  induction x with
  | nil =>
      rw [List.nil_append, List.infix_cons_iff]
      constructor
      · rintro (h | h)
        · exact .inl (prefix_of_prefix_append (x := []) hb h).isInfix
        · exact .inr h
      · rintro (h | h)
        · exact .inl (List.infix_nil.mp h ▸ List.nil_prefix)
        · exact .inr h
  | cons c x ih =>
      rw [List.cons_append, List.infix_cons_iff, ih, List.infix_cons_iff]
      constructor
      · rintro (h | h | h)
        · exact .inl (.inl (prefix_of_prefix_append (x := c :: x) hb h))
        · exact .inl (.inr h)
        · exact .inr h
      · rintro ((h | h) | h)
        · exact .inl (h.trans (List.prefix_append (c :: x) (b :: y)))
        · exact .inr (.inl h)
        · exact .inr (.inr h)

/-! ## Counting places -/

/-- The number of places at which `w` stands in a text. -/
def places (w : Text) : Text → Nat
  | [] => 0
  | c :: t => (if w.isPrefixOf (c :: t) then 1 else 0) + places w t

variable {w : Text}

@[simp] theorem places_nil : places w [] = 0 := rfl

theorem places_cons_of_begins {c : Char} {t : Text} (h : w <+: c :: t) :
    places w (c :: t) = 1 + places w t := by
  rw [places, if_pos (List.isPrefixOf_iff_prefix.mpr h)]

theorem places_cons_of_not_begins {c : Char} {t : Text} (h : ¬w <+: c :: t) :
    places w (c :: t) = places w t := by
  rw [places, if_neg (mt List.isPrefixOf_iff_prefix.mp h), Nat.zero_add]

/-- A text may be split where no place of the word reaches across. -/
theorem places_append_of_apart {x y : Text}
    (h : ∀ z, z <:+ x → z ≠ [] → w <+: z ++ y → w <+: z) :
    places w (x ++ y) = places w x + places w y := by
  induction x with
  | nil => simp
  | cons c x ih =>
      have hrest := ih fun z hz => h z (hz.trans (List.suffix_cons c x))
      by_cases hw : w <+: c :: x
      · have hlong : w <+: c :: (x ++ y) := hw.trans (List.prefix_append (c :: x) y)
        rw [List.cons_append, places_cons_of_begins hlong, places_cons_of_begins hw, hrest,
          Nat.add_assoc]
      · have hlong : ¬w <+: c :: (x ++ y) := fun hw' =>
          hw (h (c :: x) List.suffix_rfl (by simp) hw')
        rw [List.cons_append, places_cons_of_not_begins hlong, places_cons_of_not_begins hw, hrest]

theorem add_places_le (w x y : Text) : places w x + places w y ≤ places w (x ++ y) := by
  induction x with
  | nil => simp
  | cons c x ih =>
      by_cases hw : w <+: c :: x
      · have hlong : w <+: c :: (x ++ y) := hw.trans (List.prefix_append (c :: x) y)
        rw [List.cons_append, places_cons_of_begins hlong, places_cons_of_begins hw]
        omega
      · have hle : places w (x ++ y) ≤ places w (c :: (x ++ y)) := Nat.le_add_left _ _
        rw [List.cons_append, places_cons_of_not_begins hw]
        omega

theorem places_eq_zero {t : Text} (h : ¬w <:+: t) : places w t = 0 := by
  induction t with
  | nil => rfl
  | cons c t ih =>
      rw [List.infix_cons_iff, not_or] at h
      rw [places_cons_of_not_begins h.1, ih h.2]

theorem places_append_cons {b : Char} (hw : w ≠ []) (hb : b ∉ w) (x y : Text) :
    places w (x ++ b :: y) = places w x + places w y := by
  have hhead : ¬w <+: b :: y := by
    obtain ⟨c, m, rfl⟩ := List.exists_cons_of_ne_nil hw
    intro h
    obtain ⟨rfl, -⟩ := List.cons_prefix_cons.mp h
    simp at hb
  rw [places_append_of_apart fun z _ _ h => prefix_of_prefix_append hb h,
    places_cons_of_not_begins hhead]

/-! ## Bracketed words -/

/-- A word in angle brackets, with none inside. -/
def IsBracketed (w : Text) : Prop :=
  ∃ m, w = '<' :: (m ++ ['>']) ∧ ∀ c ∈ m, Tag.isInner c = true

namespace IsBracketed

variable (hw : IsBracketed w)

include hw

theorem ne_nil : w ≠ [] := by
  obtain ⟨m, rfl, -⟩ := hw
  simp

theorem places_append_open (x y : Text) :
    places w (x ++ '<' :: y) = places w x + places w ('<' :: y) := by
  obtain ⟨m, rfl, hm⟩ := hw
  have hinside : '<' ∉ m ++ ['>'] := by
    intro hmem
    rcases List.mem_append.mp hmem with h | h
    · exact absurd (hm _ h) (by decide)
    · simp at h
  refine places_append_of_apart fun z _ hz h => ?_
  obtain ⟨c, z, rfl⟩ := List.exists_cons_of_ne_nil hz
  obtain ⟨rfl, hrest⟩ := List.cons_prefix_cons.mp h
  exact List.cons_prefix_cons.mpr ⟨rfl, prefix_of_prefix_append hinside hrest⟩

theorem places_append_close (x y : Text) :
    places w (x ++ '>' :: y) = places w (x ++ ['>']) + places w y := by
  obtain ⟨m, rfl, hm⟩ := hw
  have hinside : '>' ∉ '<' :: m := by
    intro hmem
    rcases List.mem_cons.mp hmem with h | h
    · simp at h
    · exact absurd (hm _ h) (by decide)
  have happart : ∀ z, z <:+ x ++ ['>'] → z ≠ [] → '<' :: (m ++ ['>']) <+: z ++ y →
      '<' :: (m ++ ['>']) <+: z := by
    intro z hz hne h
    obtain ⟨z', rfl⟩ : ∃ z', z = z' ++ ['>'] := by
      obtain ⟨u, hu⟩ := hz
      have hlast := congrArg List.getLast? hu
      rw [List.getLast?_append_of_ne_nil _ hne, List.getLast?_append_of_ne_nil _ (by simp)] at hlast
      exact List.getLast?_eq_some_iff.mp hlast
    -- the word without its closing bracket ends before this one, so the word ends at it at the
    -- latest
    have hlong : '<' :: m <+: z' ++ '>' :: y :=
      (List.prefix_append ('<' :: m) ['>']).trans (by simpa using h)
    obtain ⟨u, rfl⟩ := prefix_of_prefix_append hinside hlong
    have hrest : ['>'] <+: u ++ '>' :: y := by
      have h : ('<' :: m) ++ ['>'] <+: ('<' :: m) ++ (u ++ '>' :: y) := by simpa using h
      exact (List.prefix_append_right_inj _).mp h
    have hshort : ['>'] <+: u ++ ['>'] := by
      cases u with
      | nil => exact List.prefix_rfl
      | cons d u =>
          obtain ⟨rfl, -⟩ := List.cons_prefix_cons.mp hrest
          exact List.cons_prefix_cons.mpr ⟨rfl, List.nil_prefix⟩
    have h : ('<' :: m) ++ ['>'] <+: ('<' :: m) ++ (u ++ ['>']) :=
      (List.prefix_append_right_inj _).mpr hshort
    simpa using h
  have h := places_append_of_apart (y := y) happart
  simpa using h

theorem places_append_of_no_open {q : Text} (hq : '<' ∉ q) (y : Text) :
    places w (q ++ y) = places w y := by
  induction q with
  | nil => rfl
  | cons c q ih =>
      have hhead : ¬w <+: c :: (q ++ y) := by
        obtain ⟨m, rfl, -⟩ := hw
        intro h
        obtain ⟨rfl, -⟩ := List.cons_prefix_cons.mp h
        simp at hq
      rw [List.cons_append, places_cons_of_not_begins hhead,
        ih fun h => hq (List.mem_cons_of_mem _ h)]

theorem places_append_of_no_close {p : Text} (hp : '>' ∉ p) (x : Text) :
    places w (x ++ p) = places w x := by
  obtain ⟨m, rfl, -⟩ := hw
  have happart : ∀ z, z <:+ x → z ≠ [] → '<' :: (m ++ ['>']) <+: z ++ p →
      '<' :: (m ++ ['>']) <+: z := by
    rintro z - - ⟨u, hu⟩
    rcases List.append_eq_append_iff.mp hu with ⟨a, rfl, -⟩ | ⟨a, hwa, rfl⟩
    · exact List.prefix_append _ a
    · cases a using List.reverseRecOn with
      | nil => exact ⟨[], by simpa using hwa⟩
      | append_singleton a c =>
          have hends : ('<' :: m) ++ ['>'] = (z ++ a) ++ [c] := by simpa using hwa
          obtain ⟨-, hc⟩ := List.append_inj' hends rfl
          obtain rfl : '>' = c := by simpa using hc
          simp at hp
  rw [places_append_of_apart happart, places_eq_zero fun h => hp (h.subset (by simp)), Nat.add_zero]

/-- A text may be split behind a bracket that closes, or another character that the word lacks. -/
theorem places_append_of_closed {c : Char} (hc : c = '>' ∨ c ∉ w) {v : Text} (hv : '<' ∉ v)
    (x y : Text) : places w ((x ++ c :: v) ++ y) = places w (x ++ c :: v) + places w y := by
  obtain ⟨n, hn⟩ : ∃ n, ∀ u, places w (x ++ c :: u) = n + places w u := by
    rcases hc with rfl | hc
    · exact ⟨_, hw.places_append_close x⟩
    · exact ⟨_, places_append_cons hw.ne_nil hc x⟩
  have hnone : places w v = 0 := by simpa using hw.places_append_of_no_open hv []
  rw [List.append_assoc, List.cons_append, hn, hn, hnone, hw.places_append_of_no_open hv,
    Nat.add_zero]

theorem places_append_of_opened {c : Char} (hc : c = '<' ∨ c ∉ w) {v : Text} (hv : '>' ∉ v)
    (x y : Text) : places w (x ++ (v ++ c :: y)) = places w x + places w (v ++ c :: y) := by
  obtain ⟨n, hn⟩ : ∃ n, ∀ u, places w (u ++ c :: y) = places w u + n := by
    rcases hc with rfl | hc
    · exact ⟨_, fun u => hw.places_append_open u y⟩
    · exact ⟨_, fun u => places_append_cons hw.ne_nil hc u y⟩
  have hnone : places w v = 0 := by simpa using hw.places_append_of_no_close hv []
  rw [← List.append_assoc, hn, hn, hnone, hw.places_append_of_no_close hv, Nat.zero_add]

theorem places_self_append (rest : Text) : places w (w ++ rest) = 1 + places w rest := by
  have hself : places w w = 1 := by
    obtain ⟨m, rfl, hm⟩ := id hw
    have hinside : '<' ∉ m ++ ['>'] := by
      intro hmem
      rcases List.mem_append.mp hmem with h | h
      · exact absurd (hm _ h) (by decide)
      · simp at h
    have htail := hw.places_append_of_no_open hinside []
    rw [List.append_nil, places_nil] at htail
    rw [places_cons_of_begins List.prefix_rfl, htail]
  calc
    places w (w ++ rest) = places w w + places w rest := by
      obtain ⟨m, rfl, -⟩ := id hw
      simpa using hw.places_append_close ('<' :: m) rest
    _ = 1 + places w rest := by rw [hself]

end IsBracketed

/-! ## Searching for a bracketed word -/

theorem places_literal (w t : Text) : (Pattern.literal w).places t = places w t := by
  induction t with
  | nil => rfl
  | cons c t ih =>
      have hread : (Pattern.literal w none (c :: t)).isSome = w.isPrefixOf (c :: t) := by
        rw [Bool.eq_iff_iff, List.isPrefixOf_iff_prefix]
        constructor
        · intro h
          obtain ⟨rest, hrest⟩ := Option.isSome_iff_exists.mp h
          obtain ⟨u, hu, -⟩ := Pattern.word_eq_some hrest
          exact ⟨u, hu.symm⟩
        · rintro ⟨u, hu⟩
          rw [← hu, Pattern.literal, Pattern.word_append]
          rfl
      rw [Pattern.places, places, ih, hread]

/-- The search for a bracketed word finds all its places, since none overlaps the next. -/
theorem IsBracketed.count_literal (hw : IsBracketed w) (t : Text) :
    (Pattern.literal w).count t = places w t := by
  have hproper : Pattern.Proper (Pattern.literal w) := by
    refine ⟨fun {prev t rest} h => ?_⟩
    obtain ⟨u, rfl, hu⟩ := Pattern.word_eq_some h
    cases hu
    exact ⟨w, hw.ne_nil, rfl⟩
  rw [← places_literal]
  refine Pattern.count_eq_places hproper (fun _ _ _ => rfl) (fun m rest reads => ?_) t
  obtain ⟨u, hu, hrest⟩ := Pattern.word_eq_some reads
  cases hrest
  obtain rfl : m = w := (List.append_left_inj rest).mp hu
  rw [places_literal, places_literal, hw.places_self_append]

end Text

end Rewrap
