import Mathlib
import Rewrap.Proofs.Edit.Splicing

/-! # Edits in another order

The order in which edits are listed matters only among those of one range. -/

namespace Rewrap.Edit

variable {edits edits' : List Edit}

/-- The same edits in another order: each goes to a place of its own, and of two that have the same
range the one that was listed first still comes first. -/
def IsReordering (edits edits' : List Edit) : Prop :=
  ∃ place : Fin edits.length ≃ Fin edits'.length,
    (∀ i, edits'[place i] = edits[i]) ∧
      ∀ i j, i < j → sameRange edits[i] edits[j] → place i < place j

/-- The positions at which a list has edits with the range of `e`. -/
def positions (e : Edit) (edits : List Edit) : List (Fin edits.length) :=
  (List.finRange edits.length).filter fun i => sameRange e edits[i]

theorem map_positions (e : Edit) (edits : List Edit) :
    (positions e edits).map (fun i => edits[i]) = edits.filter (sameRange e) :=
  calc
    (positions e edits).map (fun i => edits[i]) =
        ((List.finRange edits.length).map fun i => edits[i]).filter (sameRange e) := by
      rw [List.filter_map]
      rfl
    _ = edits.filter (sameRange e) := congrArg _ (List.map_getElem_finRange edits)

theorem mem_positions {e : Edit} {i : Fin edits.length} :
    i ∈ positions e edits ↔ sameRange e edits[i] := by
  simp [positions]

theorem pairwise_positions (e : Edit) (edits : List Edit) :
    (positions e edits).Pairwise (· < ·) :=
  (List.pairwise_lt_finRange _).filter _

theorem nodup_positions (e : Edit) (edits : List Edit) : (positions e edits).Nodup :=
  (List.nodup_finRange _).filter _

/-- The positions of the edits of one range go to the positions of these edits in the other list, in
order. -/
theorem map_place_positions {place : Fin edits.length ≃ Fin edits'.length}
    (hget : ∀ i, edits'[place i] = edits[i])
    (hkeep : ∀ i j, i < j → sameRange edits[i] edits[j] → place i < place j) (e : Edit) :
    (positions e edits).map place = positions e edits' := by
  have hplaced : ((positions e edits).map place).Pairwise (· < ·) := by
    rw [List.pairwise_map]
    refine (pairwise_positions e edits).imp_of_mem fun {i j} hi hj hij => hkeep i j hij ?_
    have hi := sameRange_iff.mp (mem_positions.mp hi)
    have hj := sameRange_iff.mp (mem_positions.mp hj)
    exact sameRange_iff.mpr ⟨hi.1.symm.trans hj.1, hi.2.symm.trans hj.2⟩
  have hperm : ((positions e edits).map place).Perm (positions e edits') := by
    have hnodup := (nodup_positions e edits).map place.injective
    refine (List.perm_ext_iff_of_nodup hnodup (nodup_positions e edits')).mpr fun j => ?_
    obtain ⟨i, rfl⟩ := place.surjective j
    rw [List.mem_map_of_injective place.injective, mem_positions, mem_positions, hget]
  exact hperm.eq_of_pairwise (fun i j _ _ hij hji => absurd hij hji.asymm) hplaced
    (pairwise_positions e edits')

/-- The edits of one range are listed as before. -/
theorem IsReordering.filter_sameRange (h : IsReordering edits edits') (e : Edit) :
    edits'.filter (sameRange e) = edits.filter (sameRange e) := by
  obtain ⟨place, hget, hkeep⟩ := h
  calc
    edits'.filter (sameRange e) = ((positions e edits).map place).map fun i => edits'[i] := by
      rw [map_place_positions hget hkeep, map_positions]
    _ = (positions e edits).map fun i => edits[i] := by
      rw [List.map_map]
      exact List.map_congr_left fun i _ => hget i
    _ = edits.filter (sameRange e) := map_positions e edits

/-- The stable order of edits does not tell how they were listed. -/
theorem IsReordering.mergeSort_eq (h : IsReordering edits edits') :
    edits'.mergeSort le = edits.mergeSort le := by
  have hsorted := isStablySorted_mergeSort edits
  have hsorted' := isStablySorted_mergeSort edits'
  refine eq_of_filter_sameRange hsorted'.ordered hsorted.ordered fun e => ?_
  calc
    (edits'.mergeSort le).filter (sameRange e) = edits'.filter (sameRange e) := hsorted'.stable e
    _ = edits.filter (sameRange e) := h.filter_sameRange e
    _ = (edits.mergeSort le).filter (sameRange e) := (hsorted.stable e).symm

/-- Edits that are listed in another order make the same of every text: the same edited text, or the
same refusal with the same two offsets. -/
theorem apply_of_isReordering (h : IsReordering edits edits') (source : Text) :
    apply source edits' = apply source edits := by
  simp only [apply, h.mergeSort_eq]

/-- Two insertions at one offset are parted by an edit further left, which is listed last in the
other order. The edits have a place in the one text and none in the other. -/
theorem apply_of_isReordering_ties :
    ∃ edits edits' : List Edit, edits = [insert 2 ['x'], ⟨0, 1, ['y']⟩, insert 2 ['z']] ∧
      edits' = [insert 2 ['x'], insert 2 ['z'], ⟨0, 1, ['y']⟩] ∧ IsReordering edits edits' ∧
      (apply "abc".toList edits = .ok "ybxzc".toList ∧
        apply "abc".toList edits' = .ok "ybxzc".toList) ∧
      apply "a".toList edits = .error ⟨2, 2⟩ ∧
        apply "a".toList edits' = .error ⟨2, 2⟩ := by
  have h : IsReordering [insert 2 ['x'], ⟨0, 1, ['y']⟩, insert 2 ['z']]
      [insert 2 ['x'], insert 2 ['z'], ⟨0, 1, ['y']⟩] :=
    ⟨Equiv.swap 1 2, by decide, by decide⟩
  have hok : apply "abc".toList [insert 2 ['x'], ⟨0, 1, ['y']⟩, insert 2 ['z']] =
      .ok "ybxzc".toList := by cbv
  have herror : apply "a".toList [insert 2 ['x'], ⟨0, 1, ['y']⟩, insert 2 ['z']] =
      .error ⟨2, 2⟩ := by cbv
  exact ⟨_, _, rfl, rfl, h, ⟨hok, (apply_of_isReordering h _).trans hok⟩, herror,
    (apply_of_isReordering h _).trans herror⟩

end Rewrap.Edit
