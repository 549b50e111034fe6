import Mathlib.Data.List.Basic
import Rewrap.Text.Basic

/-! # Parentheses

Whether the parentheses of a text match one another, and the one that closes a parenthesis opened
before the text. -/

namespace Rewrap.Text

/-- Every parenthesis that is closed was opened before, and every one that is opened is closed. -/
def Balanced (t : Text) : Prop :=
  (∀ p, p <+: t → p.count ')' ≤ p.count '(') ∧ t.count ')' = t.count '('

/-- The text closes exactly `depth` parentheses that are open before it. -/
def Closes (depth : Nat) (t : Text) : Prop :=
  (∀ p, p <+: t → p.count ')' ≤ depth + p.count '(') ∧ t.count ')' = depth + t.count '('

/-- The text up to the parenthesis that closes the outermost of the `depth + 1` open ones, and the
text after it. -/
def partner? (depth : Nat) : Text → Option (Text × Text)
  | [] => none
  | c :: t =>
      if c = '(' then (partner? (depth + 1) t).map fun (block, rest) => (c :: block, rest)
      else if c = ')' then
        match depth with
        | 0 => some ([], t)
        | depth + 1 => (partner? depth t).map fun (block, rest) => (c :: block, rest)
      else (partner? depth t).map fun (block, rest) => (c :: block, rest)

theorem balanced_iff_closes {t : Text} : Balanced t ↔ Closes 0 t := by simp [Balanced, Closes]

theorem forall_prefix_cons {P : Text → Prop} {c : Char} {t : Text} :
    (∀ p, p <+: c :: t → P p) ↔ P [] ∧ ∀ p, p <+: t → P (c :: p) := by
  constructor
  · intro h
    exact ⟨h [] List.nil_prefix, fun p hp => h _ (List.cons_prefix_cons.mpr ⟨rfl, hp⟩)⟩
  · rintro ⟨hnil, hcons⟩ p hp
    cases p with
    | nil => exact hnil
    | cons d p =>
        obtain ⟨rfl, htail⟩ := List.cons_prefix_cons.mp hp
        exact hcons p htail

theorem closes_nil {depth : Nat} : Closes depth [] ↔ depth = 0 := by
  simp [Closes, eq_comm]

theorem closes_open {depth : Nat} {t : Text} :
    Closes depth ('(' :: t) ↔ Closes (depth + 1) t := by
  have hopen : ∀ p : Text, ('(' :: p).count '(' = p.count '(' + 1 := fun p => List.count_cons_self
  have hclose : ∀ p : Text, ('(' :: p).count ')' = p.count ')' := fun p =>
    List.count_cons_of_ne (by decide)
  rw [Closes, forall_prefix_cons, hopen, hclose]
  constructor
  · rintro ⟨⟨-, hbound⟩, hcount⟩
    refine ⟨fun p hp => ?_, by omega⟩
    have := hbound p hp
    rw [hopen, hclose] at this
    omega
  · rintro ⟨hbound, hcount⟩
    refine ⟨⟨by simp, fun p hp => ?_⟩, by omega⟩
    have := hbound p hp
    rw [hopen, hclose]
    omega

theorem closes_close {depth : Nat} {t : Text} :
    Closes depth (')' :: t) ↔ ∃ d, depth = d + 1 ∧ Closes d t := by
  rw [Closes, forall_prefix_cons]
  constructor
  · rintro ⟨⟨-, hbound⟩, hcount⟩
    -- the text closes a parenthesis at once, so one is open
    have hone := hbound [] List.nil_prefix
    simp only [List.count_cons, List.count_nil, beq_self_eq_true, if_true] at hone hbound hcount
    obtain ⟨d, rfl⟩ : ∃ d, depth = d + 1 := ⟨depth - 1, by simp at hone; omega⟩
    refine ⟨d, rfl, fun p hp => ?_, ?_⟩
    · have := hbound p hp
      simp at this
      omega
    · simp at hcount
      omega
  · rintro ⟨d, rfl, hbound, hcount⟩
    refine ⟨⟨by simp, fun p hp => ?_⟩, ?_⟩
    · have := hbound p hp
      simp
      omega
    · simp
      omega

theorem closes_other {depth : Nat} {c : Char} (hopen : c ≠ '(') (hclose : c ≠ ')') {t : Text} :
    Closes depth (c :: t) ↔ Closes depth t := by
  rw [Closes, forall_prefix_cons, Closes]
  simp [hopen, hclose]

theorem closes_append {depth : Nat} {u : Text} (hu : ∀ c ∈ u, c ≠ '(' ∧ c ≠ ')')
    {t : Text} : Closes depth (t ++ u) ↔ Closes depth t := by
  induction t generalizing depth with
  | nil =>
      rw [List.nil_append]
      induction u with
      | nil => exact Iff.rfl
      | cons c u ih =>
          obtain ⟨hopen, hclose⟩ := hu c (by simp)
          rw [closes_other hopen hclose]
          exact ih fun d hd => hu d (by simp [hd])
  | cons c t ih =>
      rw [List.cons_append]
      by_cases hopen : c = '('
      · rw [hopen, closes_open, closes_open, ih]
      · by_cases hclose : c = ')'
        · rw [hclose, closes_close, closes_close]
          simp only [ih]
        · rw [closes_other hopen hclose, closes_other hopen hclose, ih]

theorem cons_eq_append_close {c : Char} {t block rest : Text} (h : c ≠ ')' ∨ block ≠ []) :
    c :: t = block ++ ')' :: rest ↔ ∃ b, block = c :: b ∧ t = b ++ ')' :: rest := by
  cases block with
  | nil => simpa using fun hc => absurd hc (by simpa using h)
  | cons d b =>
      constructor
      · intro heq
        obtain ⟨rfl, rfl⟩ := List.cons.inj heq
        exact ⟨b, rfl, rfl⟩
      · rintro ⟨b', hb', rfl⟩
        obtain ⟨rfl, rfl⟩ := List.cons.inj hb'
        rfl

/-- The closing parenthesis is the first one before which all others are closed. -/
theorem partner?_eq_some_iff {depth : Nat} {t block rest : Text} :
    partner? depth t = some (block, rest) ↔ t = block ++ ')' :: rest ∧ Closes depth block := by
  induction t generalizing depth block with
  | nil => simp [partner?]
  | cons c t ih =>
      have hcons : ∀ d, (partner? d t).map (fun (b, r) => (c :: b, r)) = some (block, rest) ↔
          ∃ b, block = c :: b ∧ t = b ++ ')' :: rest ∧ Closes d b := by
        intro d
        rw [Option.map_eq_some_iff]
        constructor
        · rintro ⟨⟨b, r⟩, hbr, heq⟩
          cases heq
          exact ⟨b, rfl, ih.mp hbr⟩
        · rintro ⟨b, rfl, hb⟩
          exact ⟨(b, rest), ih.mpr hb, rfl⟩
      unfold partner?
      by_cases hopen : c = '('
      · subst hopen
        rw [if_pos rfl, hcons, cons_eq_append_close (.inl (by decide))]
        constructor
        · rintro ⟨b, rfl, ht, hb⟩
          exact ⟨⟨b, rfl, ht⟩, closes_open.mpr hb⟩
        · rintro ⟨⟨b, rfl, ht⟩, hb⟩
          exact ⟨b, rfl, ht, closes_open.mp hb⟩
      · rw [if_neg hopen]
        by_cases hclose : c = ')'
        · subst hclose
          rw [if_pos rfl]
          cases depth with
          | zero =>
              constructor
              · intro h
                cases h
                exact ⟨rfl, closes_nil.mpr rfl⟩
              · rintro ⟨heq, hb⟩
                cases block with
                | nil => simpa using heq
                | cons d b =>
                    obtain ⟨rfl, -⟩ := List.cons.inj heq
                    obtain ⟨n, hn, -⟩ := closes_close.mp hb
                    omega
          | succ depth =>
              rw [hcons]
              constructor
              · rintro ⟨b, rfl, ht, hb⟩
                exact ⟨by simp [ht], closes_close.mpr ⟨depth, rfl, hb⟩⟩
              · rintro ⟨heq, hb⟩
                have hne : block ≠ [] := by
                  rintro rfl
                  simp [closes_nil] at hb
                obtain ⟨b, rfl, ht⟩ := (cons_eq_append_close (.inr hne)).mp heq
                obtain ⟨n, hn, hb⟩ := closes_close.mp hb
                obtain rfl : depth = n := by omega
                exact ⟨b, rfl, ht, hb⟩
        · rw [if_neg hclose, hcons, cons_eq_append_close (.inl hclose)]
          constructor
          · rintro ⟨b, rfl, ht, hb⟩
            exact ⟨⟨b, rfl, ht⟩, (closes_other hopen hclose).mpr hb⟩
          · rintro ⟨⟨b, rfl, ht⟩, hb⟩
            exact ⟨b, rfl, ht, (closes_other hopen hclose).mp hb⟩

end Rewrap.Text
