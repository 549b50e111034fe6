import Rewrap.Proofs.FileTree.Frame

/-! # Plain trees

Whether a tree is well-formed can be computed, and whether it holds links. -/

namespace Rewrap

instance : DecidablePred Path.IsName := fun n =>
  inferInstanceAs (Decidable (n ≠ "" ∧ n ≠ "." ∧ n ≠ ".." ∧ '/' ∉ n.toList))

namespace FileTree

variable {t : FileTree}

/-- Whether a folder stands at a place. -/
def isFolderAt (t : FileTree) (k : Place) : Bool :=
  match t.get? k with
  | some .folder => true
  | _ => false

/-- Whether an entry has a proper name in a folder. -/
def isHoused (t : FileTree) (x : Place × Entry) : Bool :=
  match x.1.getLast? with
  | some n => decide (Path.IsName n) && t.isFolderAt x.1.dropLast
  | none => false

/-- Whether the tree is well-formed. -/
def isWellFormed (t : FileTree) : Bool :=
  decide (t.entries.map Prod.fst).Nodup && t.isFolderAt t.cwd && t.entries.all t.isHoused

/-- Whether an entry is a link. -/
def isLink : Place × Entry → Bool
  | (_, .link _) => true
  | _ => false

/-- Whether the tree is well-formed and holds no links. -/
def isPlain (t : FileTree) : Bool := t.isWellFormed && !t.entries.any isLink

theorem get?_of_isFolderAt {k : Place} (h : t.isFolderAt k = true) : t.get? k = some .folder := by
  unfold isFolderAt at h
  split at h
  · assumption
  · simp at h

theorem mem_of_lookup {es : List (Place × Entry)} {k : Place} {e : Entry}
    (h : es.lookup k = some e) : (k, e) ∈ es := by
  obtain ⟨before, after, rfl, -⟩ := List.lookup_eq_some_iff.mp h
  exact List.mem_append_right _ List.mem_cons_self

theorem mem_of_get? {k : Place} {e : Entry} (hk : k ≠ []) (h : t.get? k = some e) :
    (k, e) ∈ t.entries := by
  unfold get? at h
  rw [if_neg hk] at h
  exact mem_of_lookup h

theorem isHoused_iff {x : Place × Entry} :
    t.isHoused x = true ↔ ∃ k n, x.1 = k ++ [n] ∧ Path.IsName n ∧
      t.isFolderAt k = true := by
  unfold isHoused
  constructor
  · intro h
    split at h
    · next n hn =>
        obtain ⟨k, hk⟩ := List.getLast?_eq_some_iff.mp hn
        rw [hk, List.dropLast_concat, Bool.and_eq_true, decide_eq_true_eq] at h
        exact ⟨k, n, hk, h⟩
    · simp at h
  · rintro ⟨k, n, hk, hname, hfolder⟩
    simp [hk, hname, hfolder]

theorem WellFormed.of_isWellFormed (h : t.isWellFormed = true) : t.WellFormed := by
  simp only [isWellFormed, Bool.and_eq_true, decide_eq_true_eq, List.all_eq_true] at h
  obtain ⟨⟨hnodup, hcwd⟩, hentries⟩ := h
  have hstands : ∀ k n, t.get? (k ++ [n]) ≠ none → Path.IsName n ∧
      t.get? k = some .folder := by
    intro k n hsome
    obtain ⟨e, he⟩ := Option.ne_none_iff_exists'.mp hsome
    obtain ⟨k', n', heq, hname, hfolder⟩ :=
      isHoused_iff.mp (hentries _ (mem_of_get? (by simp) he))
    obtain ⟨rfl, hn⟩ := List.append_inj' heq rfl
    obtain rfl : n = n' := by simpa using hn
    exact ⟨hname, get?_of_isFolderAt hfolder⟩
  refine ⟨hnodup, ?_, get?_of_isFolderAt hcwd, fun k n hsome => (hstands k n hsome).2,
    fun k n hsome => (hstands k n hsome).1⟩
  by_contra hsome
  obtain ⟨e, he⟩ := Option.ne_none_iff_exists'.mp hsome
  obtain ⟨k', n, heq, -⟩ := isHoused_iff.mp (hentries _ (mem_of_lookup he))
  simp at heq

theorem WellFormed.of_isPlain (h : t.isPlain = true) : t.WellFormed :=
  .of_isWellFormed ((Bool.and_eq_true _ _).mp h).1

theorem get?_ne_link_of_isPlain (h : t.isPlain = true) (k : Place) (q : Path) :
    t.get? k ≠ some (.link q) := by
  intro hlink
  have hk : k ≠ [] := by
    rintro rfl
    simp at hlink
  have hany : t.entries.any isLink = true := List.any_eq_true.mpr ⟨_, mem_of_get? hk hlink, rfl⟩
  simp [isPlain, hany] at h

end FileTree

end Rewrap
