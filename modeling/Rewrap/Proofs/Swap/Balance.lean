import Rewrap.Proofs.Swap.Outcomes
import Rewrap.Proofs.Text.Places

/-! # Balance

The check on the wrapper's tags subtracts the counts before the swap from those after it and takes a
loss for no change. No closing tag can be lost, though: what is taken out of a text neither holds
one nor joins the halves of one, and one more is put in. So the check sees the real differences. -/

namespace Rewrap

open Text

/-! ## Pieces between places -/

/-- A piece that no place of `w` needs, wherever the piece stands. -/
def Separates (w d : Text) : Prop :=
  ∀ x y, places w (x ++ (d ++ y)) = places w x + places w y

theorem Cut.places_le_result {w tail : Text} {cs : List Cut}
    (h : ∀ d ∈ cs, Separates w d.removed) :
    places w (source tail cs) ≤ places w (result tail cs) := by
  induction cs with
  | nil => exact Nat.le_refl _
  | cons d cs ih =>
      have hrest := ih fun e he => h e (by simp [he])
      calc
        places w (source tail (d :: cs)) = places w d.kept + places w (source tail cs) :=
          h d (by simp) _ _
        _ ≤ places w d.kept + places w (d.added ++ result tail cs) := by
          have := add_places_le w d.added (result tail cs)
          omega
        _ ≤ places w (result tail (d :: cs)) := add_places_le w _ _

theorem Text.IsSpace.bracket_not_mem {v : Text} (hv : IsSpace v) {c : Char}
    (hc : c ∈ ['<', '>', '(', ')']) : c ∉ v := by
  intro hmem
  have hplain : ∀ d ∈ ['<', '>', '(', ')'], isWhiteSpace d = false := by simp [isWhiteSpace]
  exact absurd (hv c hmem) (by simp only [hplain c hc, Bool.false_eq_true, not_false_eq_true])

namespace Tag

variable {name : String}

theorem isBracketed_closing (hname : ∀ c ∈ name.toList, isInner c = true) :
    IsBracketed (closing name) := by
  refine ⟨'/' :: name.toList, by simp [closing], ?_⟩
  intro c hc
  rcases List.mem_cons.mp hc with rfl | hc
  · decide
  · exact hname c hc

theorem not_mem_closing {c : Char} (hc : c ∉ ['<', '/', '>']) (h : c ∉ name.toList) :
    c ∉ closing name := by
  simp only [List.mem_cons, List.not_mem_nil, or_false, not_or] at hc
  simp [closing, hc, h]

/-- A self-closing tag has both its brackets, and it is no closing tag. -/
theorem IsUsageLine.separates {old : String} {d : Text} (hd : IsUsageLine old d)
    (hne : old.toList ≠ []) (hold : ∀ c ∈ old.toList, isInner c = true ∧ c ≠ '/')
    (hname : ∀ c ∈ name.toList, isInner c = true) : Separates (closing name) d := by
  have hw := isBracketed_closing hname
  obtain ⟨b, v, b', l, hb, hv, hb', hl, rfl⟩ := hd
  intro x y
  have hlead : '>' ∉ b := hb.not_mem (by decide)
  have htrail : '<' ∉ b' ++ l := by
    have hbreak : '<' ∉ l := by rcases hl with rfl | rfl | rfl <;> decide
    simpa using ⟨hb'.not_mem (by decide), hbreak⟩
  have htag : places (closing name) (('<' :: old.toList ++ v ++ ['/']) ++ ['>']) = 0 := by
    refine places_eq_zero fun hinfix => ?_
    have hinner : '<' ∉ old.toList ++ v ++ ['/'] ++ ['>'] := by
      have hno : '<' ∉ old.toList := fun h => absurd (hold _ h).1 (by decide)
      simpa using ⟨hno, hv.bracket_not_mem (by simp)⟩
    rcases List.infix_cons_iff.mp (by simpa using hinfix) with h | h
    · -- the closing tag would have its slash where the name begins
      obtain ⟨o, os, hos⟩ := List.exists_cons_of_ne_nil hne
      obtain ⟨-, hslash⟩ := List.cons_prefix_cons.mp h
      rw [hos] at hslash
      obtain ⟨rfl, -⟩ := List.cons_prefix_cons.mp hslash
      exact (hold '/' (by simp [hos])).2 rfl
    · exact hinner (by simpa using h.subset (show '<' ∈ closing name by simp [closing]))
  calc
    places (closing name)
      (x ++ ((b ++ ('<' :: old.toList ++ (v ++ (['/', '>'] ++ (b' ++ l))))) ++ y))
        = places (closing name)
            ((x ++ b) ++ '<' :: (old.toList ++ v ++ ['/'] ++ '>' :: ((b' ++ l) ++ y))) := by simp
    _ = places (closing name) x +
          places (closing name) (('<' :: old.toList ++ v ++ ['/']) ++ '>' :: ((b' ++ l) ++ y)) := by
      rw [hw.places_append_open, hw.places_append_of_no_close hlead]
      simp
    _ = places (closing name) x + places (closing name) y := by
      rw [hw.places_append_close, htag, hw.places_append_of_no_open htrail, Nat.zero_add]

end Tag

namespace Import

variable {i : Import} {d : Text}

theorem IsDropped.bracket_not_mem (hd : i.IsDropped d) (hi : i.IsBracketFree) {c : Char}
    (hc : c ∈ ['<', '>', '(', ')']) : c ∉ d := by
  obtain ⟨lead, m, e, trail, rfl, hm, ⟨b, hb, he⟩, hbeside⟩ := hd
  have hblank : c ∉ b := (IsBlank.isSpace hb).bracket_not_mem hc
  have hterminator : c ∉ e := by
    rcases he with rfl | rfl
    · exact hblank
    · have hsemicolon : c ≠ ';' := by
        rintro rfl
        exact absurd hc (by decide)
      simpa using ⟨hblank, hsemicolon⟩
  have hends : c ∉ lead ∧ c ∉ trail := by
    rcases hbeside with ⟨rfl, rfl⟩ | ⟨hlead, htrail⟩
    · simp
    · exact ⟨hlead.isSpace.bracket_not_mem hc, htrail.isSpace.bracket_not_mem hc⟩
  simp [hm.bracket_not_mem hi hc, hterminator, hends]

theorem IsDropped.exists_space (hd : i.IsDropped d) :
    ∃ p c q, d = p ++ c :: q ∧ isWhiteSpace c = true := by
  obtain ⟨lead, m, e, trail, rfl,
    ⟨g, g₂, g₃, q₁, q₂, ⟨hne, hg⟩, -, -, -, -, rfl⟩, -, -⟩ := hd
  obtain ⟨c, g, rfl⟩ := List.exists_cons_of_ne_nil hne
  let words := i.name.toList ++
    (g₂ ++ ("from".toList ++ (g₃ ++ (q₁ :: (i.module.toList ++ [q₂])))))
  exact ⟨lead ++ "import".toList, c, g ++ (words ++ (e ++ trail)),
    by simp [words], hg c (by simp)⟩

/-- An import has no bracket, and there is no white space in a closing tag. -/
theorem IsDropped.separates (hd : i.IsDropped d) (hi : i.IsBracketFree) {name : String}
    (hname : ∀ c ∈ name.toList, Tag.isInner c = true ∧ isWhiteSpace c = false) :
    Separates (Tag.closing name) d := by
  have hw := Tag.isBracketed_closing fun c hc => (hname c hc).1
  have hopen : '<' ∉ d := hd.bracket_not_mem hi (by simp)
  have hclose : '>' ∉ d := hd.bracket_not_mem hi (by simp)
  obtain ⟨p, c, q, rfl, hc⟩ := hd.exists_space
  have hopen : '<' ∉ q := fun h => hopen (by simp [h])
  have hclose : '>' ∉ p := fun h => hclose (by simp [h])
  have hspace : c ∉ Tag.closing name := by
    refine Tag.not_mem_closing ?_ fun h => absurd hc (by simp [(hname c h).2])
    intro hmark
    have hplain : ∀ d ∈ ['<', '/', '>'], isWhiteSpace d = false := by simp [isWhiteSpace]
    simp [hplain c hmark] at hc
  intro x y
  calc
    places (Tag.closing name) (x ++ ((p ++ c :: q) ++ y))
        = places (Tag.closing name) ((x ++ p) ++ c :: (q ++ y)) := by simp
    _ = places (Tag.closing name) x + places (Tag.closing name) y := by
      rw [places_append_cons hw.ne_nil hspace, hw.places_append_of_no_close hclose,
        hw.places_append_of_no_open hopen]

end Import

namespace Swap

variable {s : Swap}

/-! ## The closing tags of the wrapper -/

theorem mark_not_mem_of_isTagName {name : String} (h : Spec.isTagName name = true) {c : Char}
    (hc : c ∈ ['<', '>', '/', '(', ')']) : c ∉ name.toList := by
  simp only [Spec.isTagName, Bool.and_eq_true, List.all_eq_true] at h
  have hmarks : ∀ d ∈ ['<', '>', '/', '(', ')'],
      ¬(d.isAlphanum || d == '_' || d == '$') = true :=
    List.forall_iff_forall_mem.mp (by decide)
  exact fun hmem => hmarks c hc (h.2 c hmem)

theorem isInner_of_isTagName {name : String} (h : Spec.isTagName name = true) :
    ∀ c ∈ name.toList, Tag.isInner c = true := by
  intro c hc
  have hopen : c ≠ '<' := by
    rintro rfl
    exact mark_not_mem_of_isTagName h (by simp) hc
  have hclose : c ≠ '>' := by
    rintro rfl
    exact mark_not_mem_of_isTagName h (by simp) hc
  simp [Tag.isInner, hopen, hclose]

theorem isBracketed_closeTag (s : Swap) : IsBracketed s.closeTag :=
  Tag.isBracketed_closing (isInner_of_isTagName s.isTagName_components.2)

theorem separates_dropped {d : Text} (hd : s.spec.retiring.IsDropped d)
    (hi : s.spec.retiring.IsBracketFree) : Separates s.closeTag d :=
  hd.separates hi fun c hc =>
    ⟨isInner_of_isTagName s.isTagName_components.2 c hc, s.replacement_isNamed.2 c hc⟩

theorem separates_usageLine {d : Text} (hd : Tag.IsUsageLine s.spec.oldComponent d) :
    Separates s.closeTag d := by
  have hold := s.isTagName_components.1
  refine hd.separates s.retiring_isNamed.1 (fun c hc => ⟨isInner_of_isTagName hold c hc, ?_⟩)
    (isInner_of_isTagName s.isTagName_components.2)
  rintro rfl
  exact mark_not_mem_of_isTagName hold (by simp) hc

/-- The wrapper stands between brackets, where it breaks up no closing tag, and it brings one
along. -/
theorem Wrapping.places_lt {w : Wrapping} (h : w.IsPlaced) :
    places s.closeTag w.source < places s.closeTag (w.result s) := by
  have hw := s.isBracketed_closeTag
  have hround : ∀ c ∈ ['(', ')'], c ∉ s.closeTag := by
    intro c hc
    have hname : c ∉ s.spec.newComponent.toList :=
      mark_not_mem_of_isTagName s.isTagName_components.2 (List.mem_append_right ['<', '>', '/'] hc)
    refine Tag.not_mem_closing (fun hmark => ?_) hname
    have hplain : ∀ d ∈ ['(', ')'], d ∉ ['<', '/', '>'] := by simp
    exact hplain c hc hmark
  have hsource : places s.closeTag w.source =
      places s.closeTag w.before + (places s.closeTag w.inside + places s.closeTag w.after) := by
    obtain ⟨x, c, v, hbefore, hc, hv⟩ := h.before
    obtain ⟨v', d, y, hafter, hd, hv'⟩ := h.after
    have hc : c = '>' ∨ c ∉ s.closeTag := hc.imp_right (by rintro rfl; exact hround _ (by simp))
    have hd : d = '<' ∨ d ∉ s.closeTag := hd.imp_right (by rintro rfl; exact hround _ (by simp))
    rw [Wrapping.source, hbefore, hafter,
      hw.places_append_of_closed hc (hv.bracket_not_mem (by simp)),
      hw.places_append_of_opened hd (hv'.bracket_not_mem (by simp))]
  have hclose : 1 ≤ places s.closeTag (w.closeLead ++ s.closeTag ++ w.closeTrail) :=
    calc
      1 ≤ places s.closeTag (s.closeTag ++ w.closeTrail) := by
        rw [hw.places_self_append]
        omega
      _ ≤ places s.closeTag (w.closeLead ++ (s.closeTag ++ w.closeTrail)) :=
        le_trans (Nat.le_add_left _ _) (add_places_le _ _ _)
      _ = places s.closeTag (w.closeLead ++ s.closeTag ++ w.closeTrail) := by rw [List.append_assoc]
  rw [hsource, Wrapping.result]
  have hbefore := add_places_le s.closeTag w.before ((w.openLead ++ s.openTag ++ w.openTrail) ++
    (w.inside ++ ((w.closeLead ++ s.closeTag ++ w.closeTrail) ++ w.after)))
  have hopen := add_places_le s.closeTag (w.openLead ++ s.openTag ++ w.openTrail)
    (w.inside ++ ((w.closeLead ++ s.closeTag ++ w.closeTrail) ++ w.after))
  have hinside := add_places_le s.closeTag w.inside
    ((w.closeLead ++ s.closeTag ++ w.closeTrail) ++ w.after)
  have hafter := add_places_le s.closeTag (w.closeLead ++ s.closeTag ++ w.closeTrail) w.after
  omega

/-- No stage of a swap loses a closing tag of the wrapper, and the last one adds one. -/
theorem Stages.count_closeTag_lt {t swapped stripped wrapped : Text}
    (h : s.Stages t swapped stripped wrapped) (hi : s.spec.retiring.IsBracketFree) :
    (Pattern.literal s.closeTag).count t < (Pattern.literal s.closeTag).count wrapped := by
  have hw := s.isBracketed_closeTag
  rw [hw.count_literal, hw.count_literal]
  obtain ⟨first, others, tail, hcuts, rfl⟩ := h.imports
  obtain ⟨cs, tail', hsource, rfl, -, hcs⟩ := h.tags
  obtain ⟨w, hstripped, rfl, hplaced⟩ := h.wrapping
  calc
    places s.closeTag t ≤ places s.closeTag (Cut.result tail (first :: others)) := by
      rw [hcuts.source]
      exact Cut.places_le_result fun d hd => separates_dropped (hcuts.cuts d hd).1 hi
    _ ≤ places s.closeTag (Cut.result tail' cs) := by
      rw [hsource]
      exact Cut.places_le_result fun d hd => separates_usageLine (hcs d hd).2
    _ < places s.closeTag (w.result s) := by
      rw [← hstripped]
      exact Wrapping.places_lt hplaced

/-! ## The check -/

theorem checkBalance_eq_ok {before after : Text} (h : s.checkBalance before after = .ok ()) :
    (s.wrapperTags after).1 - (s.wrapperTags before).1 =
      (s.wrapperTags after).2 - (s.wrapperTags before).2 := by
  by_contra hne
  simp [checkBalance, hne] at h

/-- A swap adds as many opening tags of the wrapper as closing tags, and at least one. -/
theorem apply_balanced (hi : s.spec.retiring.IsBracketFree) {t : Text} {r : Swapped}
    (h : s.apply t = .ok r) (hshape : r.shape.isSome) :
    ∃ n, 1 ≤ n ∧ (s.wrapperTags r.text).1 = (s.wrapperTags t).1 + n ∧
      (s.wrapperTags r.text).2 = (s.wrapperTags t).2 + n := by
  rcases s.isFreeOf_or_clearing t with hfree | ⟨⟨c⟩⟩
  · rw [apply_of_isFreeOf hfree] at h
    cases h
    simp [Swapped.unchanged] at hshape
  · rw [c.apply_eq] at h
    obtain ⟨hwrapped, hbalance, -⟩ := Clearing.finish_eq_ok h
    have hclosed : (s.wrapperTags t).2 < (s.wrapperTags r.text).2 :=
      (c.stages hwrapped).count_closeTag_lt hi
    have hequal := checkBalance_eq_ok hbalance
    exact ⟨(s.wrapperTags r.text).2 - (s.wrapperTags t).2, by omega, by omega, by omega⟩

/-- A swap of the navigation bar that wraps a text adds as many opening tags of the application
shell as closing tags, and at least one. -/
theorem default_apply_balanced {t : Text} {r : Swapped} (h : Swap.default.apply t = .ok r)
    (hshape : r.shape.isSome) :
    ((Tag.opening "AppShell").count r.text : Int) - (Tag.opening "AppShell").count t =
        (Pattern.literal "</AppShell>".toList).count r.text -
          (Pattern.literal "</AppShell>".toList).count t ∧
      1 ≤ ((Pattern.literal "</AppShell>".toList).count r.text : Int) -
        (Pattern.literal "</AppShell>".toList).count t := by
  have hi : Swap.default.spec.retiring.IsBracketFree := by decide
  have hclose : Swap.default.closeTag = "</AppShell>".toList := by decide
  obtain ⟨n, hn, hopened, hclosed⟩ := apply_balanced hi h hshape
  simp only [wrapperTags, hclose] at hopened hclosed
  have hopened : (Tag.opening "AppShell").count r.text =
      (Tag.opening "AppShell").count t + n := hopened
  omega

set_option maxRecDepth 4000 in
/-- A closing tag without an opening one stands in the text before and after, and is counted in
both. -/
theorem default_apply_balanced_guard :
    ∃ t r, t = ("import NavBar from '@/components/NavBar'\n" ++
        "<AdminRoute></AppShell></AdminRoute>\n").toList ∧
      Swap.default.apply t = .ok r ∧ r.shape = some (.guarded "AdminRoute") ∧
      ((Tag.opening "AppShell").count r.text : Int) - (Tag.opening "AppShell").count t =
          (Pattern.literal "</AppShell>".toList).count r.text -
            (Pattern.literal "</AppShell>".toList).count t ∧
        1 ≤ ((Pattern.literal "</AppShell>".toList).count r.text : Int) -
          (Pattern.literal "</AppShell>".toList).count t := by
  have h : Swap.default.apply ("import NavBar from '@/components/NavBar'\n" ++
      "<AdminRoute></AppShell></AdminRoute>\n").toList =
    .ok ⟨("import AppShell from \"@/components/AppShell\";\n" ++
      "<AdminRoute>\n  <AppShell></AppShell></AppShell></AdminRoute>\n").toList,
      true, some (.guarded "AdminRoute"), 1, 0⟩ := by cbv
  exact ⟨_, _, rfl, h, rfl, default_apply_balanced h rfl⟩

end Swap

end Rewrap
