import Mathlib.Data.List.Basic
import Rewrap.Swap

/-! # Edits as cuts

A cut keeps a piece of text, takes out the piece after it and puts another in its place. Edits that
come from consecutive cuts can always be applied, and the result is read off the cuts. -/

namespace Rewrap

/-- A piece that stays, and after it a piece that is replaced. -/
structure Cut where
  kept : Text
  removed : Text
  added : Text

namespace Cut

/-- The text that is cut, with `tail` after the last cut. -/
def source (tail : Text) : List Cut → Text
  | [] => tail
  | c :: cs => c.kept ++ (c.removed ++ source tail cs)

/-- The text after all cuts. -/
def result (tail : Text) : List Cut → Text
  | [] => tail
  | c :: cs => c.kept ++ (c.added ++ result tail cs)

/-- The edits that make the cuts, of which the first begins at `offset`. -/
def edits (offset : Nat) : List Cut → List Edit
  | [] => []
  | c :: cs =>
      let start := offset + c.kept.utf8Size
      let stop := start + c.removed.utf8Size
      ⟨start, stop, c.added⟩ :: edits stop cs

theorem le_start_of_mem_edits {offset : Nat} {cs : List Cut} {e : Edit}
    (h : e ∈ edits offset cs) : offset ≤ e.start ∧ offset ≤ e.stop := by
  induction cs generalizing offset with
  | nil => simp [edits] at h
  | cons c cs ih =>
      simp only [edits, List.mem_cons] at h
      rcases h with rfl | h
      · exact ⟨by simp only; omega, by simp only; omega⟩
      · have := ih h
        omega

theorem pairwise_edits (offset : Nat) (cs : List Cut) :
    (edits offset cs).Pairwise fun a b => Edit.le a b := by
  induction cs generalizing offset with
  | nil => simp [edits]
  | cons c cs ih =>
      refine List.pairwise_cons.mpr ⟨?_, ih _⟩
      intro e he
      have hle := le_start_of_mem_edits he
      simp only [Edit.le, Bool.or_eq_true, decide_eq_true_eq, Bool.and_eq_true, beq_iff_eq]
      omega

theorem overlap?_edits (offset : Nat) (cs : List Cut) : Edit.overlap? (edits offset cs) = none := by
  induction cs generalizing offset with
  | nil => rfl
  | cons c cs ih =>
      rw [edits]
      cases hrest : edits (offset + c.kept.utf8Size + c.removed.utf8Size) cs with
      | nil => rfl
      | cons e es =>
          have hle := le_start_of_mem_edits (hrest ▸ List.mem_cons_self : e ∈ edits _ cs)
          rw [Edit.overlap?, if_neg (by simp only; omega), ← hrest]
          exact ih _

/-- The piece between two offsets of a text is what stands between them. -/
theorem slice_append (before piece rest : Text) :
    Edit.slice (before ++ (piece ++ rest)) before.utf8Size (before.utf8Size + piece.utf8Size) =
      piece := by
  simp [Edit.slice]

theorem splice_edits (tail : Text) (before : Text) (cs : List Cut) :
    Edit.splice (before ++ source tail cs) before.utf8Size (edits before.utf8Size cs) =
      .ok (result tail cs) := by
  induction cs generalizing before with
  | nil =>
      have hslice := slice_append before tail []
      simp only [List.append_nil] at hslice
      simp [source, edits, result, Edit.splice, hslice]
  | cons c cs ih =>
      have hrest := ih (before ++ c.kept ++ c.removed)
      have hstart := Text.splitAt?_utf8Size (before ++ c.kept) (c.removed ++ source tail cs)
      have hstop := Text.splitAt?_utf8Size (before ++ c.kept ++ c.removed) (source tail cs)
      simp only [Text.utf8Size_append, List.append_assoc, ← Nat.add_assoc] at hrest hstart hstop
      have hfits : Edit.fits (before ++ source tail (c :: cs))
          ⟨before.utf8Size + c.kept.utf8Size,
            before.utf8Size + c.kept.utf8Size + c.removed.utf8Size, c.added⟩ = true := by
        simp [Edit.fits, source, hstart, hstop]
      rw [edits, Edit.splice, if_pos hfits, source, hrest, slice_append]
      simp [result, bind, Except.bind, pure, Except.pure]

/-- Cuts are made as they stand. -/
theorem apply_edits (tail : Text) (cs : List Cut) :
    Edit.apply (source tail cs) (edits 0 cs) = .ok (result tail cs) := by
  have hsplice := splice_edits tail [] cs
  simp only [List.nil_append, Text.utf8Size_nil] at hsplice
  simp only [Edit.apply, List.mergeSort_of_pairwise (pairwise_edits 0 cs), overlap?_edits, hsplice]

/-! ## What cuts keep -/

/-- Characters that no cut takes out are not lost. -/
theorem count_le_result {c : Char} {tail : Text} {cs : List Cut}
    (h : ∀ d ∈ cs, c ∉ d.removed) :
    (source tail cs).count c ≤ (result tail cs).count c := by
  induction cs with
  | nil => simp [source, result]
  | cons d cs ih =>
      have hd : d.removed.count c = 0 := List.count_eq_zero.mpr (h d (by simp))
      have hcs := ih fun d hd => h d (by simp [hd])
      simp only [source, result, List.count_append]
      omega

end Cut

theorem Swap.edit_cuts (tail : Text) (cs : List Cut) :
    edit (Cut.source tail cs) (Cut.edits 0 cs) = .ok (Cut.result tail cs) := by
  rw [edit, Cut.apply_edits]
  rfl

end Rewrap
