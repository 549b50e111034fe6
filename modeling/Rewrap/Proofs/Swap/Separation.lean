import Rewrap.Proofs.Swap.Agreement
import Rewrap.Proofs.Swap.Balance

/-! # Imports beside what is taken out

What a swap takes out is never part of another import, so a text that has the wrapper's import keeps
it. A text that lacks it is given one, and no later stage breaks that up. -/

namespace Rewrap

namespace Import

variable {i j : Import}

/-! ## The first letter -/

/-- The first letter of an import does not come again in it. -/
def BeginsOnce (i : Import) : Prop := 'i' ∉ i.name.toList ∧ 'i' ∉ i.module.toList

instance : Decidable i.BeginsOnce := inferInstanceAs (Decidable (_ ∧ _))

theorem IsGap.first_letter_not_mem {g : Text} (hg : IsGap g) : 'i' ∉ g := fun h =>
  absurd (hg.2 _ h) (by decide)

theorem IsSpelling.exists_tail (hi : i.BeginsOnce) {m : Text} (hm : i.IsSpelling m) :
    ∃ m', m = 'i' :: m' ∧ 'i' ∉ m' := by
  obtain ⟨g₁, g₂, g₃, q₁, q₂, hg₁, hg₂, hg₃, hq₁, hq₂, rfl⟩ := hm
  have hquote : ∀ q, IsQuote q → 'i' ≠ q := by
    rintro q (rfl | rfl) <;> decide
  refine ⟨"mport".toList ++ (g₁ ++ (i.name.toList ++ (g₂ ++ ("from".toList ++ (g₃ ++
    (q₁ :: (i.module.toList ++ [q₂]))))))), rfl, ?_⟩
  simp [IsGap.first_letter_not_mem hg₁, IsGap.first_letter_not_mem hg₂,
    IsGap.first_letter_not_mem hg₃, hquote _ hq₁, hquote _ hq₂, hi.1, hi.2]

theorem exists_within (hi : i.BeginsOnce) {a m b g v : Text} (hm : i.IsSpelling m)
    (h : a ++ (m ++ b) = g ++ 'i' :: v) : (∃ k, g = a ++ (m ++ k)) ∨ ∃ k, a = g ++ k := by
  obtain ⟨m', rfl, hm'⟩ := hm.exists_tail hi
  rcases List.append_eq_append_iff.mp h with ⟨k, rfl, hk⟩ | ⟨k, rfl, -⟩
  · rcases List.append_eq_append_iff.mp hk with ⟨l, rfl, -⟩ | ⟨l, hl, hv⟩
    · exact .inl ⟨l, rfl⟩
    · cases k with
      | nil => exact .inr ⟨[], by simp⟩
      | cons c k =>
          cases l with
          | nil => exact .inl ⟨[], by simpa using hl.symm⟩
          | cons d l =>
              obtain ⟨rfl, -⟩ := List.cons.inj hv
              obtain ⟨-, rfl⟩ := List.cons.inj hl
              simp at hm'
  · exact .inr ⟨k, rfl⟩

/-! ## Imports of different names -/

/-- The name is what stands between the first two gaps. -/
theorem name_eq_of_gaps (hi : i.IsNamed) {g₁ g₂ : Text} (hg₁ : IsGap g₁)
    (hg₂ : IsGap g₂) (u : Text) :
    ((g₁ ++ (i.name.toList ++ (g₂ ++ u))).dropWhile isWhiteSpace).takeWhile
        (fun c => !isWhiteSpace c) =
      i.name.toList := by
  obtain ⟨c, n, hn⟩ := List.exists_cons_of_ne_nil hi.1
  obtain ⟨d, g, rfl⟩ := List.exists_cons_of_ne_nil hg₂.1
  have hname : ∀ e ∈ i.name.toList, isWhiteSpace e = false := hi.2
  have hc : isWhiteSpace c = false := hname c (by simp [hn])
  have hd : isWhiteSpace d = true := hg₂.2 d (by simp)
  have hdrop : (i.name.toList ++ (d :: g ++ u)).dropWhile isWhiteSpace =
      i.name.toList ++ (d :: g ++ u) := by
    simp [hn, hc]
  rw [List.dropWhile_append_of_pos hg₁.2, hdrop,
    List.takeWhile_append_of_pos (by simpa using hname), List.cons_append,
    List.takeWhile_cons_of_neg (by simp [hd]), List.append_nil]

/-- Imports that begin at the same place bind the same name. -/
theorem IsSpelling.name_eq (hi : i.IsNamed) (hj : j.IsNamed) {m n x y : Text} (hm : i.IsSpelling m)
    (hn : j.IsSpelling n) (h : m ++ x = n ++ y) : i.name = j.name := by
  obtain ⟨g₁, g₂, g₃, q₁, q₂, hg₁, hg₂, -, -, -, rfl⟩ := hm
  obtain ⟨g₁', g₂', g₃', q₁', q₂', hg₁', hg₂', -, -, -, rfl⟩ := hn
  simp only [List.append_assoc] at h
  have h := List.append_cancel_left h
  refine String.toList_inj.mp ?_
  rw [← name_eq_of_gaps hi hg₁ hg₂, h, name_eq_of_gaps hj hg₁' hg₂']

/-! ## Pieces that no import needs -/

/-- A piece that is part of no import, wherever it stands. -/
def IsSeparatedBy (i : Import) (d : Text) : Prop :=
  ∀ x y, i.IsFreeOf (x ++ (d ++ y)) ↔ i.IsFreeOf x ∧ i.IsFreeOf y

theorem isFreeOf_append_left {x y : Text} (h : i.IsFreeOf (x ++ y)) : i.IsFreeOf x := fun m hm hx =>
  h m hm (hx.trans (List.prefix_append x y).isInfix)

theorem isFreeOf_append_right {x y : Text} (h : i.IsFreeOf (x ++ y)) : i.IsFreeOf y :=
  fun m hm hy => h m hm (hy.trans (List.suffix_append x y).isInfix)

/-- The statement of an import is not part of an import of another name. -/
theorem IsStatement.isSeparatedBy (hi : i.IsNamed) (hi' : i.BeginsOnce) (hj : j.IsNamed)
    (hj' : j.BeginsOnce) (hne : i.name ≠ j.name) {d : Text} (hd : j.IsStatement d) :
    i.IsSeparatedBy d := by
  intro x y
  refine ⟨fun h => ⟨isFreeOf_append_left h, isFreeOf_append_right (isFreeOf_append_right h)⟩,
    ?_⟩
  rintro ⟨hx, hy⟩ n hn ⟨a, b, hab⟩
  obtain ⟨m, e, hm, he, rfl⟩ := hd
  obtain ⟨m', hm', hno⟩ := hm.exists_tail hj'
  have hstart : a ++ (n ++ b) = x ++ 'i' :: ((m' ++ e) ++ y) := by
    rw [← List.append_assoc, hab, hm']
    simp
  rcases exists_within hi' hn hstart with ⟨k, rfl⟩ | ⟨k, rfl⟩
  · exact hx n hn ⟨a, k, by simp⟩
  · rw [List.append_assoc] at hstart
    have hbehind := List.append_cancel_left hstart
    cases k with
    | nil =>
        have hsame : n ++ b = m ++ (e ++ y) := by simpa [hm'] using hbehind
        exact hne (hn.name_eq hi hj hm hsame)
    | cons c k =>
        obtain ⟨-, hrest⟩ := List.cons.inj hbehind
        have hend : 'i' ∉ m' ++ e := by simpa using ⟨hno, he.first_letter_not_mem⟩
        obtain ⟨k', -, rfl⟩ := exists_split_of_spelling hend hn hrest.symm
        exact hy n hn ⟨k', b, by simp⟩

theorem IsDropped.isSeparatedBy (hi : i.IsNamed) (hi' : i.BeginsOnce) (hj : j.IsNamed)
    (hj' : j.BeginsOnce) (hne : i.name ≠ j.name) {d : Text} (hd : j.IsDropped d) :
    i.IsSeparatedBy d := by
  obtain ⟨lead, m, e, trail, rfl, hm, he, hbeside⟩ := hd
  have hstatement : j.IsStatement (m ++ e) := ⟨m, e, hm, he, rfl⟩
  have hspace : Text.IsSpace lead ∧ Text.IsSpace trail := by
    rcases hbeside with ⟨rfl, rfl⟩ | ⟨hlead, htrail⟩
    · exact ⟨by simp [Text.IsSpace], by simp [Text.IsSpace]⟩
    · exact ⟨hlead.isSpace, htrail.isSpace⟩
  intro x y
  calc
    i.IsFreeOf (x ++ ((lead ++ (m ++ (e ++ trail))) ++ y))
        ↔ i.IsFreeOf ((x ++ lead) ++ ((m ++ e) ++ (trail ++ y))) := by simp
    _ ↔ i.IsFreeOf x ∧ i.IsFreeOf y := by
      rw [hstatement.isSeparatedBy hi hi' hj hj' hne, isFreeOf_append_space hspace.1,
        isFreeOf_space_append hspace.2]

/-- An import has its module in quotes. -/
theorem isFreeOf_of_no_quote {t : Text} (h : ∀ q, IsQuote q → q ∉ t) : i.IsFreeOf t := by
  intro m hm hpart
  obtain ⟨m', q, hq, rfl⟩ := hm.last
  exact h q hq (hpart.subset (by simp))

theorem isSeparatedBy_usageLine (hi : i.IsBracketFree) {old : String}
    (hold : ∀ q, IsQuote q → q ∉ old.toList) {d : Text} (hd : Tag.IsUsageLine old d) :
    i.IsSeparatedBy d := by
  obtain ⟨b, w, b', l, hb, hw, hb', hl, rfl⟩ := hd
  have htrail : Text.IsSpace (b' ++ l) := by
    refine Text.isSpace_append.mpr ⟨hb'.isSpace, ?_⟩
    rcases hl with rfl | rfl | rfl <;> decide
  have htag : i.IsFreeOf (old.toList ++ w ++ ['/']) := by
    refine isFreeOf_of_no_quote fun q hq => ?_
    have hspace : q ∉ w := fun h => by
      rcases hq with rfl | rfl <;> exact absurd (hw _ h) (by decide)
    have hslash : q ≠ '/' := by rcases hq with rfl | rfl <;> decide
    simp [hold q hq, hspace, hslash]
  intro x y
  calc
    i.IsFreeOf (x ++ ((b ++ ('<' :: old.toList ++ (w ++ (['/', '>'] ++ (b' ++ l))))) ++ y))
        ↔ i.IsFreeOf ((x ++ b) ++ '<' ::
          ((old.toList ++ w ++ ['/']) ++ '>' :: ((b' ++ l) ++ y))) := by simp
    _ ↔ i.IsFreeOf x ∧ i.IsFreeOf y := by
      rw [isFreeOf_append_cons hi (by simp), isFreeOf_append_cons hi (by simp),
        isFreeOf_append_space hb.isSpace, isFreeOf_space_append htrail, and_iff_right htag]

end Import

/-- Cuts that take out no part of an import lose none. -/
theorem Cut.isFreeOf_source {i : Import} {tail : Text} {cs : List Cut}
    (h : ∀ c ∈ cs, i.IsSeparatedBy c.removed) (hresult : i.IsFreeOf (result tail cs)) :
    i.IsFreeOf (source tail cs) := by
  induction cs with
  | nil => exact hresult
  | cons c cs ih =>
      have hkept : i.IsFreeOf c.kept := Import.isFreeOf_append_left hresult
      have hrest : i.IsFreeOf (result tail cs) :=
        Import.isFreeOf_append_right (Import.isFreeOf_append_right hresult)
      exact (h c (by simp) _ _).mpr ⟨hkept, ih (fun d hd => h d (by simp [hd])) hrest⟩

namespace Import

theorem canonical_eq (i : Import) : ∃ m, i.IsSpelling m ∧ i.canonical.toList = m ++ [';'] := by
  have hspace : Text.IsSpace [' '] := by decide
  have hgap : IsGap [' '] := ⟨by simp, hspace⟩
  have himport : "import ".toList = "import".toList ++ [' '] := rfl
  have hfrom : " from \"".toList = [' '] ++ ("from".toList ++ ([' '] ++ ['"'])) := rfl
  have hend : "\";".toList = ['"'] ++ [';'] := rfl
  refine ⟨_, ⟨[' '], [' '], [' '], '"', '"', hgap, hgap, hgap, .inl rfl, .inl rfl, rfl⟩, ?_⟩
  simp only [canonical, String.toList_append, himport, hfrom, hend, List.append_assoc,
    List.cons_append, List.nil_append]

theorem not_isFreeOf_canonical (i : Import) (x y : Text) :
    ¬i.IsFreeOf (x ++ (i.canonical.toList ++ y)) := by
  obtain ⟨m, hm, hcanonical⟩ := i.canonical_eq
  exact fun h => h m hm ⟨x, [';'] ++ y, by simp [hcanonical]⟩

end Import

namespace Swap

variable {s : Swap}

theorem quote_not_mem_of_isTagName {name : String} (h : Spec.isTagName name = true) {q : Char}
    (hq : IsQuote q) : q ∉ name.toList := by
  simp only [Spec.isTagName, Bool.and_eq_true, List.all_eq_true] at h
  have hplain : ¬(q.isAlphanum || q == '_' || q == '$') = true := by
    rcases hq with rfl | rfl <;> decide
  exact fun hmem => hplain (h.2 q hmem)

/-- The two components of a spec without faults differ. -/
theorem name_ne (s : Swap) : s.spec.replacement.name ≠ s.spec.retiring.name := by
  have h := s.faultless
  unfold Spec.fault? at h
  intro hname
  have hsame : s.spec.oldComponent = s.spec.newComponent := hname.symm
  have hname := s.isTagName_components.2
  simp [hsame, hname] at h

/-! ## The wrapper's import -/

/-- Neither the retiring imports nor the usage tags are part of an import of the wrapper. -/
theorem Stages.not_isFreeOf {t swapped stripped wrapped : Text}
    (h : s.Stages t swapped stripped wrapped) (hold : s.spec.retiring.BeginsOnce)
    (hnew : s.spec.replacement.BeginsOnce) (hbracket : s.spec.replacement.IsBracketFree) :
    ¬s.spec.replacement.IsFreeOf wrapped := by
  intro hfree
  obtain ⟨first, others, tail, hcuts, rfl⟩ := h.imports
  obtain ⟨cs, tail', hsource, rfl, -, hcs⟩ := h.tags
  obtain ⟨w, hstripped, rfl, hplaced⟩ := h.wrapping
  have hfree := (w.isFreeOf_result_iff hbracket hplaced).mp hfree
  rw [hstripped] at hfree
  have hfree := Cut.isFreeOf_source (fun c hc => Import.isSeparatedBy_usageLine hbracket
    (fun q => quote_not_mem_of_isTagName s.isTagName_components.1) (hcs c hc).2) hfree
  rw [← hsource] at hfree
  cases hpresent : s.spec.replacement.clause.occursIn t with
  | true =>
      have hsource := Cut.isFreeOf_source (fun c hc => (hcuts.cuts c hc).1.isSeparatedBy
        s.replacement_isNamed hnew s.retiring_isNamed hold s.name_ne) hfree
      rw [← hcuts.source, Import.isFreeOf_iff_occursIn s.replacement_isNamed, hpresent] at hsource
      cases hsource
  | false =>
      have hadded := hcuts.added
      rw [hpresent] at hadded
      rw [Cut.result, hadded] at hfree
      exact s.spec.replacement.not_isFreeOf_canonical _ _ hfree

/-- A text that the default swap has wrapped imports the wrapper. -/
theorem default_apply_imports {t : Text} {r : Swapped} (h : Swap.default.apply t = .ok r)
    (hshape : r.shape.isSome) : Swap.default.spec.replacement.clause.occursIn r.text = true := by
  rcases apply_eq_ok h with ⟨-, rfl⟩ | ⟨swapped, stripped, hstages, -⟩
  · simp [Swapped.unchanged] at hshape
  · have hheld := hstages.not_isFreeOf (by decide) (by decide) (by decide)
    rw [Import.isFreeOf_iff_occursIn Swap.default.replacement_isNamed] at hheld
    simpa using hheld

set_option maxRecDepth 4000 in
/-- The wrapper's import stands right behind a retiring import, before a usage tag and a
duplicate. -/
theorem default_apply_imports_between :
    ∃ t r, t = ("import NavBar from '@/components/NavBar'import AppShell\tfrom '@/components/AppShell'\n" ++
        "<NavBar />\nimport NavBar from '@/components/NavBar';\n  return (\n    <main />\n  );\n\x7d\n").toList ∧
      Swap.default.apply t = .ok r ∧ r.shape = some .bareReturn ∧
      Swap.default.spec.replacement.clause.occursIn r.text = true := by
  have h : Swap.default.apply
      ("import NavBar from '@/components/NavBar'import AppShell\tfrom '@/components/AppShell'\n" ++
        "<NavBar />\nimport NavBar from '@/components/NavBar';\n  return (\n    <main />\n  );\n\x7d\n").toList =
    .ok ⟨("import AppShell\tfrom '@/components/AppShell'\n  return (\n    <AppShell>\n    <main />\n" ++
      "    </AppShell>\n  );\n\x7d\n").toList, true, some .bareReturn, 2, 1⟩ := by cbv
  exact ⟨_, _, rfl, h, rfl, default_apply_imports h rfl⟩

end Swap

end Rewrap
