import Mathlib.Data.List.Basic
import Rewrap.Text.Pattern

/-! # Occurrences

What a search finds, said without the search: the leftmost place at which the pattern reads, and
from there on the occurrences that follow one another. -/

namespace Rewrap.Pattern

/-! ## Words -/

section Words

variable {next : Text → Option Text}

theorem word_append (w u : Text) : word w next (w ++ u) = next u := by
  simp [word, List.isPrefixOf?_eq_some_iff_append_eq.mpr (rfl : w ++ u = w ++ u)]

theorem word_eq_some {w t r : Text} (h : word w next t = some r) :
    ∃ u, t = w ++ u ∧ next u = some r := by
  obtain ⟨u, hu, hr⟩ := Option.bind_eq_some_iff.mp h
  exact ⟨u, (List.isPrefixOf?_eq_some_iff_append_eq.mp hu).symm, hr⟩

theorem word_eq_none {w t : Text} {c d : Char} (hcd : c ≠ d) :
    word (c :: w) next (d :: t) = none := by
  simp [word, List.isPrefixOf?, hcd]

end Words

/-! ## Where a pattern reads -/

/-- A pattern that reads at least one character of the text it is given, and nothing else. -/
structure Proper (p : Pattern) : Prop where
  reads : ∀ {prev t rest}, p prev t = some rest → ∃ m, m ≠ [] ∧ t = m ++ rest

/-- The pattern reads at no place of `t`, where `t` stands after `before`. -/
def Absent (p : Pattern) (before t : Text) : Prop :=
  ∀ a b, t = a ++ b → p (before ++ a).getLast? b = none

/-- The pattern reads at no place of `g ++ rest` that lies before the end of `g`. -/
def AbsentBefore (p : Pattern) (before g rest : Text) : Prop :=
  ∀ a b, g ++ rest = a ++ b → a.length < g.length → p (before ++ a).getLast? b = none

variable {p : Pattern}

theorem Absent.cons_iff {before t : Text} {c : Char} :
    Absent p before (c :: t) ↔
      p before.getLast? (c :: t) = none ∧ Absent p (before ++ [c]) t := by
  constructor
  · intro h
    refine ⟨by simpa using h [] (c :: t) rfl, ?_⟩
    intro a b hab
    simpa using h (c :: a) b (by simp [hab])
  · rintro ⟨hc, ht⟩ a b hab
    cases a with
    | nil =>
        obtain rfl : b = c :: t := by simpa using hab.symm
        simpa using hc
    | cons d a =>
        simp only [List.cons_append, List.cons.injEq] at hab
        obtain ⟨rfl, rfl⟩ := hab
        simpa using ht a b rfl

theorem AbsentBefore.cons_iff {before g rest : Text} {c : Char} :
    AbsentBefore p before (c :: g) rest ↔
      p before.getLast? (c :: (g ++ rest)) = none ∧ AbsentBefore p (before ++ [c]) g rest := by
  constructor
  · intro h
    refine ⟨by simpa using h [] (c :: (g ++ rest)) rfl (by simp), ?_⟩
    intro a b hab hlt
    simpa using h (c :: a) b (by simp [hab]) (by simpa using hlt)
  · rintro ⟨hc, hg⟩ a b hab hlt
    cases a with
    | nil =>
        obtain rfl : b = c :: (g ++ rest) := by simpa using hab.symm
        simpa using hc
    | cons d a =>
        simp only [List.cons_append, List.cons.injEq] at hab
        obtain ⟨rfl, hab⟩ := hab
        simpa using hg a b hab (by simpa using hlt)

theorem absentBefore_nil (before rest : Text) : AbsentBefore p before [] rest := by
  intro a b _ hlt
  simp at hlt

/-! ## The leftmost occurrence -/

theorem findAfter?_eq (before t : Text) :
    p.findAfter? before t =
      match p before.getLast? t with
      | some rest => some ⟨before, t.take (t.length - rest.length), rest⟩
      | none =>
          match t with
          | [] => none
          | c :: t => p.findAfter? (before ++ [c]) t := by
  unfold findAfter?
  cases h : p before.getLast? t with
  | some rest => cases t <;> simp [find?, h]
  | none =>
      cases t with
      | nil => simp [find?, h]
      | cons c t =>
          rw [find?]
          simp [h, Function.comp_def]

theorem findAfter?_eq_none_iff {before t : Text} :
    p.findAfter? before t = none ↔ Absent p before t := by
  induction t generalizing before with
  | nil =>
      rw [findAfter?_eq]
      constructor
      · intro h a b hab
        obtain ⟨rfl, rfl⟩ : a = [] ∧ b = [] := by simpa using hab.symm
        cases hp : p before.getLast? [] with
        | none => simpa using hp
        | some rest => simp [hp] at h
      · intro h
        have hp : p before.getLast? [] = none := by simpa using h [] [] rfl
        simp [hp]
  | cons c t ih =>
      rw [findAfter?_eq, Absent.cons_iff]
      cases hp : p before.getLast? (c :: t) with
      | none => simpa using ih
      | some rest => simp

/-- The occurrence that a search finds: it lies in the text, the pattern reads it, and the pattern
reads nothing further left. -/
theorem findAfter?_eq_some (hp : Proper p) {before t : Text} {o : Occurrence}
    (h : p.findAfter? before t = some o) :
    ∃ g, o.before = before ++ g ∧ t = g ++ (o.matched ++ o.after) ∧ o.matched ≠ [] ∧
      p o.before.getLast? (o.matched ++ o.after) = some o.after ∧
      AbsentBefore p before g (o.matched ++ o.after) := by
  induction t generalizing before with
  | nil =>
      rw [findAfter?_eq] at h
      cases hread : p before.getLast? [] with
      | none => simp [hread] at h
      | some rest =>
          obtain ⟨m, hm, heq⟩ := hp.reads hread
          exact absurd (List.append_eq_nil_iff.mp heq.symm).1 hm
  | cons c t ih =>
      rw [findAfter?_eq] at h
      cases hread : p before.getLast? (c :: t) with
      | some rest =>
          obtain ⟨m, hm, heq⟩ := hp.reads hread
          simp only [hread, Option.some.injEq] at h
          have htake : (c :: t).take ((c :: t).length - rest.length) = m := by
            rw [heq]
            simp
          rw [htake] at h
          subst h
          refine ⟨[], by simp, by simpa using heq, hm, ?_, absentBefore_nil _ _⟩
          rw [← heq]
          exact hread
      | none =>
          simp only [hread] at h
          obtain ⟨g, hbefore, ht, hm, hat, habs⟩ := ih h
          refine ⟨c :: g, by simp [hbefore], by simp [ht], hm, hat, ?_⟩
          rw [AbsentBefore.cons_iff]
          refine ⟨?_, habs⟩
          rw [← ht]
          exact hread

/-- The search finds the place up to which the pattern reads nowhere and at which it reads. -/
theorem findAfter?_of_absentBefore {before g m rest : Text}
    (habs : AbsentBefore p before g (m ++ rest))
    (hread : p (before ++ g).getLast? (m ++ rest) = some rest) :
    p.findAfter? before (g ++ (m ++ rest)) = some ⟨before ++ g, m, rest⟩ := by
  induction g generalizing before with
  | nil =>
      rw [findAfter?_eq]
      have hread : p before.getLast? (m ++ rest) = some rest := by simpa using hread
      simp [hread]
  | cons c g ih =>
      rw [AbsentBefore.cons_iff] at habs
      obtain ⟨hc, hg⟩ := habs
      rw [List.cons_append, findAfter?_eq, hc]
      simpa using ih hg (by simpa using hread)

theorem first?_eq_none_iff {t : Text} : p.first? t = none ↔ Absent p [] t :=
  findAfter?_eq_none_iff

theorem occursIn_eq_true_iff {t : Text} :
    p.occursIn t = true ↔ ∃ a b, t = a ++ b ∧ (p a.getLast? b).isSome := by
  unfold occursIn
  constructor
  · intro h
    by_contra hno
    have habs : Absent p [] t := by
      intro a b hab
      by_contra hsome
      exact hno ⟨a, b, hab, by simpa [Option.isSome_iff_ne_none] using hsome⟩
    rw [first?_eq_none_iff.mpr habs] at h
    simp at h
  · rintro ⟨a, b, hab, hsome⟩
    cases hfirst : p.first? t with
    | some o => rfl
    | none =>
        have hnone := first?_eq_none_iff.mp hfirst a b hab
        simp only [List.nil_append] at hnone
        simp [hnone] at hsome

/-! ## Successive occurrences -/

/-- The occurrences of a pattern in `t`, which stands after `before`: each is the leftmost one that
begins after the end of the one before it. -/
inductive Scan (p : Pattern) : Text → Text → List Occurrence → Prop where
  | done {before t} (absent : Absent p before t) : Scan p before t []
  | next {before g m rest os} (nonempty : m ≠ []) (absent : AbsentBefore p before g (m ++ rest))
      (reads : p (before ++ g).getLast? (m ++ rest) = some rest)
      (more : Scan p (before ++ g ++ m) rest os) :
      Scan p before (g ++ (m ++ rest)) (⟨before ++ g, m, rest⟩ :: os)

theorem occurrencesAfter_scan (hp : Proper p) (n : Nat) (before t : Text) (hn : t.length ≤ n) :
    Scan p before t (p.occurrencesAfter n before t) := by
  induction n generalizing before t with
  | zero =>
      obtain rfl : t = [] := by simpa using hn
      rw [occurrencesAfter]
      refine .done fun a b hab => ?_
      obtain ⟨rfl, rfl⟩ : a = [] ∧ b = [] := by simpa using hab.symm
      cases hread : p (before ++ []).getLast? [] with
      | none => rfl
      | some rest =>
          obtain ⟨m, hm, heq⟩ := hp.reads hread
          exact absurd (List.append_eq_nil_iff.mp heq.symm).1 hm
  | succ n ih =>
      rw [occurrencesAfter]
      cases hfind : p.findAfter? before t with
      | none => exact .done (findAfter?_eq_none_iff.mp hfind)
      | some o =>
          obtain ⟨g, hbefore, rfl, hm, hread, habs⟩ := findAfter?_eq_some hp hfind
          obtain ⟨b, m, rest⟩ := o
          subst hbefore
          have hlt : 0 < m.length := List.length_pos_iff.mpr hm
          have hrest : rest.length ≤ n := by
            simp only [List.length_append] at hn
            omega
          exact .next hm habs hread (ih _ _ hrest)

theorem occurrences_scan (hp : Proper p) (t : Text) : Scan p [] t (p.occurrences t) :=
  occurrencesAfter_scan hp t.length [] t (Nat.le_refl _)

theorem Scan.eq_occurrencesAfter {before t : Text} {os : List Occurrence} (h : Scan p before t os)
    {n : Nat} (hn : t.length ≤ n) : p.occurrencesAfter n before t = os := by
  induction h generalizing n with
  | @done before t absent =>
      cases n with
      | zero => rfl
      | succ n => rw [occurrencesAfter, findAfter?_eq_none_iff.mpr absent]
  | @next before g m rest os nonempty absent reads more ih =>
      have hlt : 0 < m.length := List.length_pos_iff.mpr nonempty
      simp only [List.length_append] at hn
      cases n with
      | zero => omega
      | succ n =>
          rw [occurrencesAfter, findAfter?_of_absentBefore absent reads]
          exact congrArg _ (ih (by omega))

theorem Scan.eq_occurrences {t : Text} {os : List Occurrence} (h : Scan p [] t os) :
    p.occurrences t = os := h.eq_occurrencesAfter (Nat.le_refl _)

/-! ## Counting places -/

/-- A pattern that does not look at the character before the text. -/
def IsBlind (p : Pattern) : Prop := ∀ prev prev' t, p prev t = p prev' t

/-- The number of places at which a pattern reads that does not look back. -/
def places (p : Pattern) : Text → Nat
  | [] => 0
  | c :: t => (if (p none (c :: t)).isSome then 1 else 0) + places p t

theorem places_append_of_absentBefore (hp : IsBlind p) {before g rest : Text}
    (h : AbsentBefore p before g rest) : p.places (g ++ rest) = p.places rest := by
  induction g generalizing before with
  | nil => rfl
  | cons c g ih =>
      obtain ⟨hnone, hrest⟩ := AbsentBefore.cons_iff.mp h
      rw [List.cons_append, places, hp none before.getLast?, hnone, ih hrest]
      simp

theorem places_of_absent (hp : IsBlind p) {before t : Text} (h : Absent p before t) :
    p.places t = 0 := by
  have hbefore : AbsentBefore p before t [] := fun a b hab _ => h a b (by simpa using hab)
  simpa [places] using places_append_of_absentBefore hp hbefore

/-- Where no place reaches into the next, the search finds all of them. -/
theorem Scan.length_eq_places (hp : IsBlind p)
    (hapart : ∀ m rest, p none (m ++ rest) = some rest →
      p.places (m ++ rest) = 1 + p.places rest)
    {before t : Text} {os : List Occurrence} (h : Scan p before t os) : os.length = p.places t := by
  induction h with
  | done absent => exact (places_of_absent hp absent).symm
  | @next before g m rest os nonempty absent reads more ih =>
      rw [places_append_of_absentBefore hp absent, hapart m rest ((hp _ _ _).trans reads),
        List.length_cons, ih, Nat.add_comm]

theorem count_eq_places (hp : Proper p) (hblind : IsBlind p)
    (hapart : ∀ m rest, p none (m ++ rest) = some rest →
      p.places (m ++ rest) = 1 + p.places rest)
    (t : Text) :
    p.count t = p.places t := (occurrences_scan hp t).length_eq_places hblind hapart

end Rewrap.Pattern
