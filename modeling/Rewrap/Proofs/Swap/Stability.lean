import Mathlib.Data.List.Induction
import Rewrap.Proofs.Swap.Placement
import Rewrap.Proofs.Swap.UsageTags
import Rewrap.Proofs.Text.Places

/-! # A second swap

A swapped text is left alone by a second swap unless the retiring import has come about again where
the old imports and the tags were taken out. The wrapper plays no part in that: its tags neither
make an import nor break one up. -/

namespace Rewrap

namespace Import

variable {i : Import}

/-- No bracket is part of the import, so brackets keep its spellings apart. -/
def IsBracketFree (i : Import) : Prop :=
  ∀ c ∈ ['<', '>', '(', ')'], c ∉ i.name.toList ∧ c ∉ i.module.toList

instance : Decidable i.IsBracketFree := List.decidableBAll _ _

theorem IsSpelling.bracket_not_mem (hi : i.IsBracketFree) {m : Text} (hm : i.IsSpelling m)
    {c : Char} (hc : c ∈ ['<', '>', '(', ')']) : c ∉ m := by
  intro hmem
  obtain ⟨hname, hmodule⟩ := hi c hc
  have hplain : ∀ d ∈ ['<', '>', '(', ')'], d ∉ "importfrom\"'".toList ∧
      isWhiteSpace d = false := by
    simp [isWhiteSpace]
  rcases hm.mem hmem with h | h | h | h
  · exact (hplain c hc).1 h
  · exact hname h
  · exact hmodule h
  · simp [(hplain c hc).2] at h

theorem isFreeOf_append_cons (hi : i.IsBracketFree) {c : Char} (hc : c ∈ ['<', '>', '(', ')'])
    {x y : Text} : i.IsFreeOf (x ++ c :: y) ↔ i.IsFreeOf x ∧ i.IsFreeOf y := by
  constructor
  · intro h
    refine ⟨fun m hm hx => ?_, fun m hm hy => ?_⟩
    · exact h m hm ((Text.infix_append_cons_iff (hm.bracket_not_mem hi hc)).mpr (.inl hx))
    · exact h m hm ((Text.infix_append_cons_iff (hm.bracket_not_mem hi hc)).mpr (.inr hy))
  · rintro ⟨hx, hy⟩ m hm h
    rcases (Text.infix_append_cons_iff (hm.bracket_not_mem hi hc)).mp h with h | h
    · exact hx m hm h
    · exact hy m hm h

theorem isFreeOf_space_append {v : Text} (hv : Text.IsSpace v) (y : Text) :
    i.IsFreeOf (v ++ y) ↔ i.IsFreeOf y := by
  induction v with
  | nil => simp
  | cons c v ih =>
      have hc : isWhiteSpace c = true := hv c (by simp)
      rw [← ih fun d hd => hv d (by simp [hd])]
      refine forall₂_congr fun m hm => not_congr ?_
      rw [List.cons_append, List.infix_cons_iff]
      refine ⟨fun h => h.resolve_left fun hstart => ?_, .inr⟩
      obtain ⟨m', rfl⟩ := hm.head
      obtain ⟨rfl, -⟩ := List.cons_prefix_cons.mp hstart
      exact absurd hc (by decide)

theorem isFreeOf_append_space {v : Text} (hv : Text.IsSpace v) (y : Text) :
    i.IsFreeOf (y ++ v) ↔ i.IsFreeOf y := by
  induction v using List.reverseRecOn with
  | nil => simp
  | append_singleton v c ih =>
      have hc : isWhiteSpace c = true := hv c (by simp)
      rw [← ih fun d hd => hv d (by simp [hd])]
      refine forall₂_congr fun m hm => not_congr ?_
      rw [← List.append_assoc, List.infix_concat_iff]
      refine ⟨fun h => h.resolve_left fun hsuffix => ?_, .inr⟩
      obtain ⟨m', q, hq, rfl⟩ := hm.last
      obtain ⟨z, hz⟩ := hsuffix
      have hqc : q = c := by
        have := congrArg List.getLast? hz
        simpa using this
      rcases hq with rfl | rfl <;> subst hqc <;> exact absurd hc (by decide)

theorem isFreeOf_space {v : Text} (hv : Text.IsSpace v) : i.IsFreeOf v := by
  have hnil : i.IsFreeOf [] := by
    intro m hm h
    obtain ⟨m', rfl⟩ := hm.head
    simp at h
  simpa using (isFreeOf_space_append hv []).mpr hnil

theorem isFreeOf_of_no_space {t : Text} (ht : ∀ c ∈ t, isWhiteSpace c = false) :
    i.IsFreeOf t := by
  rintro m ⟨g, g₂, g₃, q₁, q₂, ⟨hne, hg⟩, -, -, -, -, rfl⟩ hinfix
  obtain ⟨c, g, rfl⟩ := List.exists_cons_of_ne_nil hne
  have hmem : c ∈ t := hinfix.subset (by simp)
  have hspace : isWhiteSpace c = true := hg c (by simp)
  simp [ht c hmem] at hspace

end Import

namespace Swap

/-! ## The stages of a swap -/

/-- Wrapping a text neither makes an import nor breaks one up. -/
theorem Wrapping.isFreeOf_result_iff {s : Swap} {i : Import} (hi : i.IsBracketFree) {w : Wrapping}
    (hw : w.IsPlaced) : i.IsFreeOf (w.result s) ↔ i.IsFreeOf w.source := by
  obtain ⟨before, inside, after, openLead, openTrail, closeLead, closeTrail⟩ := w
  obtain ⟨hopenLead, hopenTrail, hcloseLead, hcloseTrail, ⟨x, c, v, hbefore, hc, hv⟩,
    ⟨v', d, y, hafter, hd, hv'⟩⟩ := hw
  simp only at hopenLead hopenTrail hcloseLead hcloseTrail hbefore hafter
  subst hbefore hafter
  have hc : c ∈ ['<', '>', '(', ')'] := by rcases hc with rfl | rfl <;> simp
  have hd : d ∈ ['<', '>', '(', ')'] := by rcases hd with rfl | rfl <;> simp
  have hname : ∀ e ∈ s.spec.newComponent.toList, isWhiteSpace e = false :=
    s.replacement_isNamed.2
  have hopen : i.IsFreeOf s.spec.newComponent.toList := Import.isFreeOf_of_no_space hname
  have hclose : i.IsFreeOf ('/' :: s.spec.newComponent.toList) :=
    Import.isFreeOf_of_no_space (by simpa using ⟨by decide, hname⟩)
  have hmiddle := Import.isFreeOf_append_space (i := i) hcloseLead (openTrail ++ inside)
  have hmiddle' := Import.isFreeOf_append_space (i := i) hv' (v ++ inside)
  rw [Import.isFreeOf_space_append hopenTrail] at hmiddle
  rw [Import.isFreeOf_space_append hv] at hmiddle'
  have hlead : i.IsFreeOf (v ++ openLead) :=
    Import.isFreeOf_space (Text.isSpace_append.mpr ⟨hv, hopenLead⟩)
  have htrail : i.IsFreeOf (closeTrail ++ v') :=
    Import.isFreeOf_space (Text.isSpace_append.mpr ⟨hcloseTrail, hv'⟩)
  -- the brackets of the two tags and the two beside the places cut both texts into the same parts
  have hsource : i.IsFreeOf ((x ++ c :: v) ++ (inside ++ (v' ++ d :: y))) ↔
      i.IsFreeOf x ∧ i.IsFreeOf inside ∧ i.IsFreeOf y :=
    calc
      i.IsFreeOf ((x ++ c :: v) ++ (inside ++ (v' ++ d :: y)))
          ↔ i.IsFreeOf (x ++ c :: ((v ++ inside ++ v') ++ d :: y)) := by simp
      _ ↔ i.IsFreeOf x ∧ i.IsFreeOf inside ∧ i.IsFreeOf y := by
        rw [Import.isFreeOf_append_cons hi hc, Import.isFreeOf_append_cons hi hd, hmiddle']
  have hresult : i.IsFreeOf
      (Wrapping.result s ⟨x ++ c :: v, inside, v' ++ d :: y, openLead, openTrail,
      closeLead, closeTrail⟩) ↔ i.IsFreeOf x ∧ i.IsFreeOf inside ∧ i.IsFreeOf y :=
    calc
      i.IsFreeOf (Wrapping.result s ⟨x ++ c :: v, inside, v' ++ d :: y, openLead, openTrail,
          closeLead, closeTrail⟩)
          ↔ i.IsFreeOf (x ++ c :: ((v ++ openLead) ++ '<' :: (s.spec.newComponent.toList ++ '>' ::
            ((openTrail ++ inside ++ closeLead) ++ '<' ::
                (('/' :: s.spec.newComponent.toList) ++ '>' ::
              ((closeTrail ++ v') ++ d :: y)))))) := by
        simp [Wrapping.result, openTag, closeTag, Tag.closing]
      _ ↔ i.IsFreeOf x ∧ i.IsFreeOf inside ∧ i.IsFreeOf y := by
        rw [Import.isFreeOf_append_cons hi hc, Import.isFreeOf_append_cons hi (by simp),
          Import.isFreeOf_append_cons hi (by simp), Import.isFreeOf_append_cons hi (by simp),
          Import.isFreeOf_append_cons hi (by simp), Import.isFreeOf_append_cons hi hd, hmiddle]
        simp [hlead, hopen, hclose, htrail]
  exact hresult.trans hsource.symm

/-- What each stage of a swap makes of the text: the imports are cut, the usage tags are cut, and
the wrapper is put in. -/
structure Stages (s : Swap) (t swapped stripped wrapped : Text) : Prop where
  imports : ∃ first others tail, ImportCuts s t first others tail ∧
    swapped = Cut.result tail (first :: others)
  tags : ∃ cs tail, swapped = Cut.source tail cs ∧ stripped = Cut.result tail cs ∧
    s.removeUsageTags swapped = .ok (stripped, cs.length) ∧
    ∀ c ∈ cs, c.added = [] ∧ Tag.IsUsageLine s.spec.oldComponent c.removed
  wrapping : ∃ w : Wrapping, w.source = stripped ∧ w.result s = wrapped ∧ w.IsPlaced

theorem apply_of_isFreeOf {s : Swap} {t : Text} (h : s.spec.retiring.IsFreeOf t) :
    s.apply t = .ok (.unchanged t) := by
  rw [apply, swapImport_of_isFreeOf h]
  rfl

/-- A swap leaves alone a text without the import, and takes any other through the stages. -/
theorem apply_eq_ok {s : Swap} {t : Text} {r : Swapped} (h : s.apply t = .ok r) :
    (s.spec.retiring.IsFreeOf t ∧ r = .unchanged t) ∨
      ∃ swapped stripped, s.Stages t swapped stripped r.text ∧ r.changed = (r.text != t) := by
  rcases s.swapImport_cuts t with ⟨hfree, -⟩ | ⟨first, others, tail, hcuts⟩
  · rw [apply_of_isFreeOf hfree] at h
    cases h
    exact .inl ⟨hfree, rfl⟩
  · right
    obtain ⟨cs, tail', hsource, htags, hcs⟩ :=
      s.removeUsageTags_cuts (Cut.result tail (first :: others))
    rw [apply] at h
    obtain ⟨swap, hswap, h⟩ := Except.bind_eq_ok.mp h
    rw [hcuts.swapImport] at hswap
    cases hswap
    obtain ⟨⟨stripped, removed⟩, hstripped, h⟩ := Except.bind_eq_ok.mp h
    obtain ⟨wrapped, hwrapped, h⟩ := Except.bind_eq_ok.mp h
    obtain ⟨-, -, h⟩ := Except.bind_eq_ok.mp h
    cases h
    rw [htags] at hstripped
    cases hstripped
    exact ⟨_, _, ⟨⟨first, others, tail, hcuts, rfl⟩,
      ⟨cs, tail', hsource, rfl, htags, hcs⟩, insertWrapper_eq_ok hwrapped⟩, rfl⟩

/-! ## Growth -/

/-- A character that no stage takes out of a text. -/
structure IsKept (s : Swap) (c : Char) : Prop where
  not_space : isWhiteSpace c = false
  not_mark : c ∉ "importfrom\"';</>".toList
  not_name : c ∉ s.spec.oldComponent.toList
  not_module : c ∉ s.spec.oldModule.toList

namespace IsKept

variable {s : Swap} {c : Char} (hc : s.IsKept c)

include hc

theorem not_mem_space {v : Text} (hv : Text.IsSpace v) : c ∉ v := by
  intro hmem
  exact absurd hc.not_space (by simp [hv c hmem])

theorem not_mem_dropped {d : Text} (hd : s.spec.retiring.IsDropped d) : c ∉ d := by
  obtain ⟨lead, m, e, trail, rfl, hm, ⟨b, hb, he⟩, hbeside⟩ := hd
  have hmark := hc.not_mark
  have hspelling : c ∉ m := by
    intro hmem
    rcases hm.mem hmem with h | h | h | h
    · have hsub : ∀ d ∈ "importfrom\"'".toList, d ∈ "importfrom\"';</>".toList := by
        simp
      exact hmark (hsub c h)
    · exact hc.not_name h
    · exact hc.not_module h
    · exact absurd hc.not_space (by simp [h])
  have hblank : c ∉ b := hc.not_mem_space (Text.IsBlank.isSpace hb)
  have hterminator : c ∉ e := by
    rcases he with rfl | rfl
    · exact hblank
    · intro hmem
      rcases List.mem_append.mp hmem with h | h
      · exact hblank h
      · obtain rfl := List.mem_singleton.mp h
        exact hmark (by decide)
  have hends : c ∉ lead ∧ c ∉ trail := by
    rcases hbeside with ⟨rfl, rfl⟩ | ⟨hlead, htrail⟩
    · simp
    · exact ⟨hc.not_mem_space hlead.isSpace, hc.not_mem_space htrail.isSpace⟩
  simp [hspelling, hterminator, hends]

theorem not_mem_usageLine {d : Text} (hd : Tag.IsUsageLine s.spec.oldComponent d) : c ∉ d := by
  obtain ⟨b, w, b', l, hb, hw, hb', hl, rfl⟩ := hd
  have hmark : c ≠ '<' ∧ c ≠ '/' ∧ c ≠ '>' := by
    refine ⟨?_, ?_, ?_⟩ <;> rintro rfl <;> exact hc.not_mark (by decide)
  have hspace : Text.IsSpace l := by
    rcases hl with rfl | rfl | rfl <;> decide
  simp [hc.not_mem_space hb.isSpace, hc.not_mem_space hw, hc.not_mem_space hb'.isSpace,
    hc.not_mem_space hspace, hc.not_name, hmark]

/-- A text that goes through the stages grows by the wrapper's name. -/
theorem count_lt {t swapped stripped wrapped : Text} (h : s.Stages t swapped stripped wrapped)
    (hmem : c ∈ s.spec.newComponent.toList) : t.count c < wrapped.count c := by
  obtain ⟨first, others, tail, hcuts, rfl⟩ := h.imports
  obtain ⟨cs, tail', hsource, rfl, -, hcs⟩ := h.tags
  obtain ⟨w, hw, rfl, -⟩ := h.wrapping
  have himports : t.count c ≤ (Cut.result tail (first :: others)).count c := by
    rw [hcuts.source]
    exact Cut.count_le_result fun d hd => hc.not_mem_dropped (hcuts.cuts d hd).1
  have htags : (Cut.result tail (first :: others)).count c ≤ (Cut.result tail' cs).count c := by
    rw [hsource]
    exact Cut.count_le_result fun d hd => hc.not_mem_usageLine (hcs d hd).2
  have hwrapper : w.source.count c < (w.result s).count c := by
    have hname : 0 < s.spec.newComponent.toList.count c := List.count_pos_iff.mpr hmem
    have hopen : s.spec.newComponent.toList.count c ≤ s.openTag.count c := by
      simp only [openTag, List.cons_append]
      rw [List.count_cons, List.count_append]
      omega
    simp only [Wrapping.source, Wrapping.result, List.count_append]
    omega
  rw [hw] at hwrapper
  omega

end IsKept

/-! ## The second swap -/

/-- Whether the retiring import is there again once the imports and the usage tags have been taken
out. -/
def rejoins (s : Swap) (t : Text) : Bool :=
  match s.swapImport t with
  | .ok (some (swapped, _)) =>
      match s.removeUsageTags swapped with
      | .ok (stripped, _) => s.spec.retiring.clause.occursIn stripped
      | .error _ => false
  | _ => false

theorem rejoins_of_isFreeOf {s : Swap} {t : Text} (h : s.spec.retiring.IsFreeOf t) :
    s.rejoins t = false := by
  rw [rejoins, swapImport_of_isFreeOf h]

theorem Stages.rejoins_eq_false_iff {s : Swap} {t swapped stripped wrapped : Text}
    (h : s.Stages t swapped stripped wrapped) :
    s.rejoins t = false ↔ s.spec.retiring.IsFreeOf stripped := by
  obtain ⟨first, others, tail, hcuts, rfl⟩ := h.imports
  obtain ⟨cs, tail', -, -, htags, -⟩ := h.tags
  rw [rejoins, hcuts.swapImport]
  simp only [htags]
  exact (Import.isFreeOf_iff_occursIn s.retiring_isNamed).symm

/-- A second swap leaves the swapped text alone exactly when the stages before the wrapper have not
brought the import about again. -/
theorem apply_text_iff {s : Swap} (hi : s.spec.retiring.IsBracketFree) {c : Char} (hc : s.IsKept c)
    (hmem : c ∈ s.spec.newComponent.toList) {t : Text} {r : Swapped} (h : s.apply t = .ok r) :
    (∃ r', s.apply r.text = .ok r' ∧ r'.changed = false ∧ r'.text = r.text) ↔
      s.rejoins t = false := by
  rcases apply_eq_ok h with ⟨hfree, rfl⟩ | ⟨swapped, stripped, hstages, -⟩
  · refine iff_of_true ⟨.unchanged t, apply_of_isFreeOf hfree, rfl, rfl⟩
      (rejoins_of_isFreeOf hfree)
  · obtain ⟨w, hsource, hresult, hplaced⟩ := hstages.wrapping
    have hwrapper : s.spec.retiring.IsFreeOf r.text ↔ s.spec.retiring.IsFreeOf stripped := by
      rw [← hresult, ← hsource]
      exact w.isFreeOf_result_iff hi hplaced
    rw [hstages.rejoins_eq_false_iff, ← hwrapper]
    constructor
    · rintro ⟨r', hr', -, htext⟩
      rcases apply_eq_ok hr' with ⟨hfree, -⟩ | ⟨swapped', stripped', hstages', -⟩
      · exact hfree
      · have hgrown := hc.count_lt hstages' hmem
        rw [htext] at hgrown
        exact absurd hgrown (lt_irrefl _)
    · intro hfree
      exact ⟨.unchanged r.text, apply_of_isFreeOf hfree, rfl, rfl⟩

/-- Swapping the navigation bar for the application shell a second time changes nothing, unless the
first swap has brought the import of the navigation bar about again. -/
theorem default_apply_text_iff {t : Text} {r : Swapped} (h : Swap.default.apply t = .ok r) :
    (∃ r', Swap.default.apply r.text = .ok r' ∧ r'.changed = false ∧ r'.text = r.text) ↔
      Swap.default.rejoins t = false := by
  have hi : Swap.default.spec.retiring.IsBracketFree := by decide
  have hc : Swap.default.IsKept 'S' := ⟨by decide, by decide, by decide, by decide⟩
  exact apply_text_iff hi hc (by decide) h

set_option maxRecDepth 4000 in
theorem default_apply_text_iff_page :
    ∃ r, Swap.default.apply ("import NavBar from \"@/components/NavBar\";\n\n" ++
        "export default () => \x7b\n  return (\n    <main />\n  );\n\x7d\n").toList = .ok r ∧
      r.changed = true ∧
      ∃ r', Swap.default.apply r.text = .ok r' ∧ r'.changed = false ∧ r'.text = r.text := by
  have h : Swap.default.apply ("import NavBar from \"@/components/NavBar\";\n\n" ++
      "export default () => \x7b\n  return (\n    <main />\n  );\n\x7d\n").toList =
    .ok ⟨("import AppShell from \"@/components/AppShell\";\n\nexport default () => \x7b\n  return (\n" ++
      "    <AppShell>\n    <main />\n    </AppShell>\n  );\n\x7d\n").toList,
      true, some .bareReturn, 1, 0⟩ := by cbv
  exact ⟨_, h, rfl, (default_apply_text_iff h).mpr (by cbv)⟩

set_option maxRecDepth 4000 in
/-- The line of a usage tag stands in the middle of an import; where it is taken out, the halves
meet. -/
theorem default_apply_text_not_stable :
    ¬∀ t r, Swap.default.apply t = .ok r →
      ∃ r', Swap.default.apply r.text = .ok r' ∧ r'.changed = false ∧ r'.text = r.text := by
  intro hall
  have h : Swap.default.apply
      ("import NavBar from \"@/components/NavBar\";\nimport\n<NavBar />\n" ++
      "NavBar from \"@/components/NavBar\";\n\n" ++
      "export default () => \x7b\n  return (\n    <main />\n  );\n\x7d\n").toList =
    .ok ⟨("import AppShell from \"@/components/AppShell\";\nimport\n" ++
      "NavBar from \"@/components/NavBar\";\n\nexport default () => \x7b\n  return (\n" ++
      "    <AppShell>\n    <main />\n    </AppShell>\n  );\n\x7d\n").toList,
      true, some .bareReturn, 1, 1⟩ := by cbv
  obtain ⟨r', hr', hchanged, -⟩ := hall _ _ h
  have hagain : (Swap.default.apply ("import AppShell from \"@/components/AppShell\";\nimport\n" ++
      "NavBar from \"@/components/NavBar\";\n\nexport default () => \x7b\n  return (\n" ++
      "    <AppShell>\n    <main />\n    </AppShell>\n  );\n\x7d\n").toList).toOption.map
        (·.changed) = some true := by cbv
  rw [hr'] at hagain
  simp [Except.toOption, hchanged] at hagain

end Swap

end Rewrap
