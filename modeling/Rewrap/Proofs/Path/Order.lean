import Mathlib.Data.List.Perm.Basic
import Rewrap.Path.Basic
import Std

/-! # The order of paths

Components are ordered by their kinds, and names by their characters; paths are ordered as the lists
of their components. Both orders are total, and only paths with the same components are equal in the
second. -/

namespace Rewrap.Path

namespace Component

/-- What a component is called, if it is a name. -/
def called : Component → String
  | .name n => n
  | _ => ""

theorem compare_eq_compareLex :
    Component.compare = compareLex (compareOn rank) (compareOn called) := by
  funext a b
  cases a with
  | name n =>
      cases b with
      | name n' => simp [Component.compare, compareLex, compareOn, rank, called]
      | _ => rfl
  | _ => cases b <;> rfl

instance : Std.TransCmp Component.compare :=
  compare_eq_compareLex ▸ inferInstance

instance : Std.LawfulEqCmp Component.compare where
  compare_self := Std.ReflCmp.compare_self
  eq_of_compare := by
    intro a b h
    cases a with
    | name n =>
        cases b with
        | name n' =>
            have hnames : Ord.compare n n' = .eq := h
            exact congrArg name (Std.LawfulEqCmp.eq_of_compare hnames)
        | _ => cases h
    | _ =>
        cases b with
        | name n' => cases h
        | _ => first | rfl | cases h

end Component

theorem compare_go_eq (cs ds : List Component) :
    compare.go cs ds = List.compareLex Component.compare cs ds := by
  induction cs generalizing ds with
  | nil => cases ds <;> rfl
  | cons c cs ih =>
      cases ds with
      | nil => rfl
      | cons d ds =>
          rw [compare.go, ih, List.compareLex_cons_cons]

theorem compare_eq (p q : Path) :
    p.compare q = List.compareLex Component.compare p.components q.components :=
  compare_go_eq _ _

theorem compare_self (p : Path) : p.compare p = .eq := by
  rw [compare_eq]
  exact Std.ReflCmp.compare_self

theorem le_trans (p q r : Path) (h : p.le q = true) (h' : q.le r = true) : p.le r = true := by
  unfold le at *
  rw [compare_eq] at *
  exact Std.TransCmp.isLE_trans h h'

theorem le_total (p q : Path) : (p.le q || q.le p) = true := by
  have hswap : List.compareLex Component.compare p.components q.components =
      (List.compareLex Component.compare q.components p.components).swap := Std.OrientedCmp.eq_swap
  unfold le
  rw [compare_eq, compare_eq, hswap]
  cases List.compareLex Component.compare q.components p.components <;> rfl

theorem components_eq_of_compare {p q : Path} (h : p.compare q = .eq) :
    p.components = q.components :=
  Std.LawfulEqCmp.eq_of_compare ((compare_eq p q).symm.trans h)

theorem eq_of_pairwise_lt {ps qs : List Path} (hps : ps.Pairwise fun p q => p.compare q = .lt)
    (hqs : qs.Pairwise fun p q => p.compare q = .lt)
    (hmem : ∀ p, p ∈ ps ↔ p ∈ qs) : ps = qs := by
  have hnodup : ∀ {rs : List Path}, (rs.Pairwise fun p q => p.compare q = .lt) →
      rs.Nodup := fun hrs =>
    hrs.imp fun {p q} hlt heq => by simp [heq, compare_self] at hlt
  have hperm : ps.Perm qs := (List.perm_ext_iff_of_nodup (hnodup hps) (hnodup hqs)).mpr hmem
  refine hperm.eq_of_pairwise (fun p q _ _ hlt hgt => ?_) hps hqs
  have hswap : List.compareLex Component.compare p.components q.components =
      (List.compareLex Component.compare q.components p.components).swap := Std.OrientedCmp.eq_swap
  rw [← compare_eq, ← compare_eq, hlt, hgt] at hswap
  cases hswap

theorem pairwise_mergeSort (ps : List Path) : (ps.mergeSort le).Pairwise fun p q => p.le q = true :=
  List.pairwise_mergeSort le_trans le_total ps

end Rewrap.Path
