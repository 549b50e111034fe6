import Rewrap.Proofs.Swap.Outcomes
import Rewrap.Selection

/-! # Selecting and swapping

A text is selected if the retiring import occurs in it, and it is swapped statement by statement.
Both patterns find the same imports, so a selected text is refused or changed, and any other is left
alone. -/

namespace Rewrap

/-! ## Imports and their statements -/

namespace Import

variable {i : Import}

theorem IsTerminator.first_letter_not_mem {e : Text} (he : IsTerminator e) : 'i' ∉ e :=
  he.not_mem (by decide) (by decide)

theorem exists_split_of_spelling {e x a m y : Text} (he : 'i' ∉ e) (hm : i.IsSpelling m)
    (h : e ++ x = a ++ (m ++ y)) : ∃ a', a = e ++ a' ∧ x = a' ++ (m ++ y) := by
  rcases List.append_eq_append_iff.mp h with ⟨a', rfl, hx⟩ | ⟨m', rfl, hm'⟩
  · exact ⟨a', rfl, hx⟩
  · cases m' with
    | nil => exact ⟨[], by simp, by simpa using hm'.symm⟩
    | cons c m' =>
        obtain ⟨m₀, rfl⟩ := hm.head
        obtain ⟨rfl, -⟩ := List.cons.inj hm'
        simp at he

theorem absent_clause (before' : Text) {before e t : Text} (hi : i.IsNamed)
    (h : Pattern.Absent i.statement before t) (he : 'i' ∉ e) :
    Pattern.Absent i.clause before' (e ++ t) := by
  intro a b hab
  cases hread : i.clause (before' ++ a).getLast? b with
  | none => rfl
  | some rest =>
      obtain ⟨m, hm, rfl⟩ := clause_eq_some hread
      obtain ⟨a', -, ht⟩ := exists_split_of_spelling he hm hab
      have hnone := h a' (m ++ rest) ht
      rw [statement_append hi hm] at hnone
      simp at hnone

theorem absentBefore_clause (before' : Text) {before e g rest : Text} (hi : i.IsNamed)
    (h : Pattern.AbsentBefore i.statement before g rest) (he : 'i' ∉ e) :
    Pattern.AbsentBefore i.clause before' (e ++ g) rest := by
  intro a b hab hlt
  cases hread : i.clause (before' ++ a).getLast? b with
  | none => rfl
  | some rest' =>
      obtain ⟨m, hm, rfl⟩ := clause_eq_some hread
      rw [List.append_assoc] at hab
      obtain ⟨a', rfl, hg⟩ := exists_split_of_spelling he hm hab
      have hnone := h a' (m ++ rest') hg (by simpa using hlt)
      rw [statement_append hi hm] at hnone
      simp at hnone

/-- Where the search for statements goes on behind a terminator, the search for clauses goes on
before it, and both find the same imports. -/
theorem scan_clause (hi : i.IsNamed) {before t : Text} {os : List Occurrence}
    (h : Pattern.Scan i.statement before t os) (before' : Text) {e : Text} (he : 'i' ∉ e) :
    ∃ os', Pattern.Scan i.clause before' (e ++ t) os' ∧ os'.length = os.length := by
  induction h generalizing before' e with
  | @done before t absent => exact ⟨[], .done (absent_clause before' hi absent he), rfl⟩
  | @next before g d rest os nonempty absent reads more ih =>
      obtain ⟨m, e', hm, he', heq⟩ := statement_eq_some reads
      obtain rfl : d = m ++ e' := (List.append_left_inj rest).mp (by simpa using heq)
      obtain ⟨os', hos', hlength⟩ := ih (before' ++ (e ++ g) ++ m) he'.first_letter_not_mem
      have hne : m ≠ [] := by
        obtain ⟨m', rfl⟩ := hm.head
        simp
      have hnext := Pattern.Scan.next hne
        (absentBefore_clause before' hi (by simpa using absent) he)
        (clause_append hi hm _ _) hos'
      exact ⟨_, by simpa using hnext, by simp [hlength]⟩

theorem count_clause (hi : i.IsNamed) (t : Text) :
    i.clause.count t = (i.statement.occurrences t).length := by
  have hscan := Pattern.occurrences_scan (statement_proper i) t
  obtain ⟨os, hos, hlength⟩ := scan_clause hi hscan [] (e := []) (by simp)
  rw [List.nil_append] at hos
  rw [Pattern.count, hos.eq_occurrences, hlength]

end Import

/-! ## Selected texts -/

namespace Swap

variable {s : Swap} {t : Text}

/-- The text is not selected, and the swap leaves it as it is. -/
def Leaves (s : Swap) (selector : Selector) (t : Text) : Prop :=
  selector.accepts t = false ∧ s.apply t = .ok ⟨t, false, none, 0, 0⟩

/-- The text is selected, and the swap fails. -/
def Refuses (s : Swap) (selector : Selector) (t : Text) : Prop :=
  selector.accepts t = true ∧ ∃ fault, s.apply t = .error fault

/-- The text is selected, and the swap changes it, gives it a shape and retires every import that
the selector finds, at least one. -/
def Changes (s : Swap) (selector : Selector) (t : Text) : Prop :=
  selector.accepts t = true ∧ ∃ r, s.apply t = .ok r ∧ r.changed = true ∧ r.shape.isSome ∧
    r.importsReplaced = selector.retiring.clause.count t ∧ 1 ≤ r.importsReplaced

/-- A swap that brings a character that it never takes out changes every text it wraps. -/
theorem Clearing.changed (c : Clearing s t) {d : Char} (hd : s.IsKept d)
    (hmem : d ∈ s.spec.newComponent.toList) {r : Swapped} (h : s.apply t = .ok r) :
    r.changed = true ∧ r.shape.isSome ∧ r.importsReplaced = s.spec.retiring.clause.count t ∧
      1 ≤ r.importsReplaced := by
  rw [c.apply_eq] at h
  obtain ⟨hwrapped, -, hr⟩ := finish_eq_ok h
  have hgrown := hd.count_lt (c.stages hwrapped) hmem
  have hne : r.text ≠ t := fun heq => absurd (heq ▸ hgrown) (lt_irrefl _)
  have hcount : c.importsReplaced = s.spec.retiring.clause.count t := by
    rw [Import.count_clause s.retiring_isNamed, c.imports.count]
    rfl
  rw [hr]
  exact ⟨by simpa using hne, rfl, hcount, Nat.le_add_left 1 _⟩

theorem leaves_or_refuses_or_changes {d : Char} (hd : s.IsKept d)
    (hmem : d ∈ s.spec.newComponent.toList) (exclusions : Exclusions) (t : Text) :
    s.Leaves (.ofSpec s.spec exclusions) t ∨ s.Refuses (.ofSpec s.spec exclusions) t ∨
      s.Changes (.ofSpec s.spec exclusions) t := by
  cases haccepts : s.spec.retiring.clause.occursIn t with
  | false =>
      have hfree := (Import.isFreeOf_iff_occursIn s.retiring_isNamed).mpr haccepts
      exact .inl ⟨haccepts, apply_of_isFreeOf hfree⟩
  | true =>
      have hheld : ¬s.spec.retiring.IsFreeOf t := by
        rw [Import.isFreeOf_iff_occursIn s.retiring_isNamed, haccepts]
        simp
      obtain ⟨c⟩ := (s.isFreeOf_or_clearing t).resolve_left hheld
      cases h : s.apply t with
      | error fault => exact .inr (.inl ⟨haccepts, fault, h⟩)
      | ok r => exact .inr (.inr ⟨haccepts, r, h, c.changed hd hmem h⟩)

theorem not_two_of_leaves_refuses_changes (selector : Selector) (t : Text) :
    ¬(s.Leaves selector t ∧ s.Refuses selector t) ∧
      ¬(s.Leaves selector t ∧ s.Changes selector t) ∧
      ¬(s.Refuses selector t ∧ s.Changes selector t) := by
  refine ⟨?_, ?_, ?_⟩
  · rintro ⟨⟨hno, -⟩, hyes, -⟩
    simp [hno] at hyes
  · rintro ⟨⟨hno, -⟩, hyes, -⟩
    simp [hno] at hyes
  · rintro ⟨⟨-, fault, herror⟩, -, r, hok, -⟩
    simp [herror] at hok

theorem default_leaves_or_refuses_or_changes (exclusions : Exclusions) (t : Text) :
    Swap.default.Leaves (.ofSpec {} exclusions) t ∨
      Swap.default.Refuses (.ofSpec {} exclusions) t ∨
      Swap.default.Changes (.ofSpec {} exclusions) t := by
  have hkept : Swap.default.IsKept 'S' := ⟨by decide, by decide, by decide, by decide⟩
  exact leaves_or_refuses_or_changes hkept (by decide) exclusions t

end Swap

end Rewrap
