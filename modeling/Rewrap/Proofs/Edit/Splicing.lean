import Mathlib
import Rewrap.Proofs.Edit.Cuts

/-! # Edits made one at a time

Edits that are applied in one pass give what they give when they are made one after the other, the
last one first. They are refused exactly if neighbours overlap or if one has no place in the
text. -/

namespace Rewrap

/-! ## Boundaries -/

namespace Text

/-- The offset lies in the text and not inside a character. -/
def IsBoundary (t : Text) (n : Nat) : Prop :=
  ∃ before after, t = before ++ after ∧ before.utf8Size = n

variable {t : Text} {start stop n : Nat}

theorem isBoundary_iff : t.IsBoundary n ↔ (t.splitAt? n).isSome := by
  constructor
  · rintro ⟨before, after, rfl, rfl⟩
    simp
  · intro h
    obtain ⟨⟨before, after⟩, hsplit⟩ := Option.isSome_iff_exists.mp h
    obtain ⟨ht, hn⟩ := splitAt?_eq_some hsplit
    exact ⟨before, after, ht, hn⟩

theorem isBoundary_zero (t : Text) : t.IsBoundary 0 := ⟨[], t, rfl, rfl⟩

theorem isBoundary_utf8Size (t : Text) : t.IsBoundary t.utf8Size := ⟨t, [], by simp, rfl⟩

theorem IsBoundary.le (h : t.IsBoundary n) : n ≤ t.utf8Size := by
  obtain ⟨before, after, rfl, rfl⟩ := h
  simp

theorem prefix_of_utf8Size_le {a b x y : Text} (h : a ++ x = b ++ y)
    (hle : a.utf8Size ≤ b.utf8Size) : ∃ u, b = a ++ u := by
  rcases List.append_eq_append_iff.mp h with ⟨u, rfl, -⟩ | ⟨u, rfl, -⟩
  · exact ⟨u, rfl⟩
  · cases u with
    | nil => exact ⟨[], by simp⟩
    | cons c u =>
        have hc := c.utf8Size_pos
        simp only [utf8Size_append, utf8Size_cons] at hle
        omega

theorem prefix_inj {a b x y : Text} (h : a ++ x = b ++ y)
    (hsize : a.utf8Size = b.utf8Size) : a = b := by
  obtain ⟨u, rfl⟩ := prefix_of_utf8Size_le h hsize.le
  obtain ⟨v, hv⟩ := prefix_of_utf8Size_le h.symm hsize.ge
  have hnil : u ++ v = [] := by simpa using hv
  rw [(List.append_eq_nil_iff.mp hnil).1, List.append_nil]

/-- Two boundaries in order cut a text into three parts. -/
theorem exists_parts (hstart : t.IsBoundary start) (hstop : t.IsBoundary stop)
    (hle : start ≤ stop) :
    ∃ before piece after, t = before ++ (piece ++ after) ∧ before.utf8Size = start ∧
      start + piece.utf8Size = stop := by
  obtain ⟨before, x, rfl, rfl⟩ := hstart
  obtain ⟨b, after, hb, rfl⟩ := hstop
  obtain ⟨piece, rfl⟩ := prefix_of_utf8Size_le hb hle
  exact ⟨before, piece, after, by rw [hb, List.append_assoc], rfl, by simp⟩

end Text

namespace Edit

/-! ## The stable order -/

/-- Whether two edits replace the same bytes. -/
def sameRange (a b : Edit) : Bool := a.start == b.start && a.stop == b.stop

/-- The edits in the order of their ranges; those of one range stand in the order in which they are
listed. -/
structure IsStablySorted (edits sorted : List Edit) : Prop where
  perm : sorted.Perm edits
  ordered : sorted.Pairwise fun a b => le a b
  stable : ∀ e, sorted.filter (sameRange e) = edits.filter (sameRange e)

theorem le_iff {a b : Edit} :
    le a b ↔ a.start < b.start ∨ (a.start = b.start ∧ a.stop ≤ b.stop) := by
  simp [le]

theorem sameRange_iff {a b : Edit} : sameRange a b ↔ a.start = b.start ∧ a.stop = b.stop := by
  simp [sameRange]

theorem le_trans (a b c : Edit) (hab : le a b) (hbc : le b c) : le a c := by
  rw [le_iff] at *
  omega

theorem le_total (a b : Edit) : le a b || le b a := by
  rw [Bool.or_eq_true, le_iff, le_iff]
  omega

theorem isStablySorted_mergeSort (edits : List Edit) :
    IsStablySorted edits (edits.mergeSort le) := by
  have hperm := List.mergeSort_perm edits le
  refine ⟨hperm, List.pairwise_mergeSort le_trans le_total edits, fun e => ?_⟩
  -- the edits of one range are in order as they are listed, so sorting keeps them so
  have hordered : (edits.filter (sameRange e)).Pairwise fun a b => le a b := by
    refine List.pairwise_of_forall_mem_list fun a ha b hb => ?_
    have ha := sameRange_iff.mp (List.mem_filter.mp ha).2
    have hb := sameRange_iff.mp (List.mem_filter.mp hb).2
    rw [le_iff]
    omega
  have hsub := (List.sublist_mergeSort le_trans le_total hordered List.filter_sublist).filter
    (sameRange e)
  simp only [List.filter_filter, Bool.and_self] at hsub
  exact (hsub.eq_of_length (hperm.filter _).length_eq.symm).symm

/-- Only one list of edits is in order and has the edits of each range as they are. -/
theorem eq_of_filter_sameRange {xs ys : List Edit} (hx : xs.Pairwise fun a b => le a b)
    (hy : ys.Pairwise fun a b => le a b)
    (h : ∀ e, xs.filter (sameRange e) = ys.filter (sameRange e)) : xs = ys := by
  have hself : ∀ e, sameRange e e := fun e => sameRange_iff.mpr ⟨rfl, rfl⟩
  induction xs generalizing ys with
  | nil =>
      cases ys with
      | nil => rfl
      | cons b ys =>
          have hb := h b
          simp [hself b] at hb
  | cons a xs ih =>
      cases ys with
      | nil =>
          have ha := h a
          simp [hself a] at ha
      | cons b ys =>
          have hmem : ∀ e, e ∈ a :: xs ↔ e ∈ b :: ys := by
            intro e
            have he : e ∈ (a :: xs).filter (sameRange e) ↔
                e ∈ (b :: ys).filter (sameRange e) := by rw [h e]
            simpa [hself e] using he
          have hab : le a b := by
            rcases List.mem_cons.mp ((hmem b).mpr List.mem_cons_self) with rfl | hb
            · exact le_iff.mpr (.inr ⟨rfl, Nat.le_refl _⟩)
            · exact List.rel_of_pairwise_cons hx hb
          have hba : le b a := by
            rcases List.mem_cons.mp ((hmem a).mp List.mem_cons_self) with rfl | ha
            · exact le_iff.mpr (.inr ⟨rfl, Nat.le_refl _⟩)
            · exact List.rel_of_pairwise_cons hy ha
          have hsame : sameRange a b := by
            rw [le_iff] at hab hba
            rw [sameRange_iff]
            omega
          obtain rfl : a = b := by
            have ha := h a
            simp only [List.filter_cons, hself a, hsame, if_true, List.cons.injEq] at ha
            exact ha.1
          refine congrArg (List.cons a) (ih hx.tail hy.tail fun e => ?_)
          have he := h e
          simp only [List.filter_cons] at he
          split at he
          · exact (List.cons.inj he).2
          · exact he

theorem IsStablySorted.eq_mergeSort {edits sorted : List Edit} (h : IsStablySorted edits sorted) :
    sorted = edits.mergeSort le := by
  have hsort := isStablySorted_mergeSort edits
  exact eq_of_filter_sameRange h.ordered hsort.ordered fun e =>
    (h.stable e).trans (hsort.stable e).symm

/-! ## The pass over the edits -/

/-- The bytes from `start` to `stop`, if the text can be cut there. -/
def slice? (source : Text) (start stop : Nat) : Option Text :=
  if start ≤ stop then do
    let (_, rest) ← source.splitAt? start
    let (piece, _) ← rest.splitAt? (stop - start)
    return piece
  else none

/-- The pass over edits in order, if every piece of the text that it keeps can be cut out. -/
def splice? (source : Text) (cursor : Nat) : List Edit → Option (Except Overlap Text)
  | [] => (slice? source cursor source.utf8Size).map .ok
  | e :: edits =>
      if e.fits source then do
        let kept ← slice? source cursor e.start
        let rest ← splice? source e.stop edits
        return rest.map fun rest => kept ++ e.replacement ++ rest
      else some (.error ⟨e.start, e.stop⟩)

/-- The result of applying edits, if every piece of the text that is kept can be cut out. -/
def applied? (source : Text) (edits : List Edit) : Option (Except Overlap Text) :=
  let sorted := edits.mergeSort le
  match overlap? sorted with
  | some overlap => some (.error overlap)
  | none => splice? source 0 sorted

variable {source : Text} {edits sorted : List Edit} {e : Edit}

theorem fits_iff : e.fits source ↔ source.IsBoundary e.start ∧ source.IsBoundary e.stop := by
  simp [fits, Text.isBoundary_iff]

theorem slice?_eq {start stop : Nat} (hstart : source.IsBoundary start)
    (hstop : source.IsBoundary stop) (hle : start ≤ stop) :
    slice? source start stop = some (slice source start stop) := by
  obtain ⟨before, piece, after, rfl, rfl, rfl⟩ := Text.exists_parts hstart hstop hle
  simp [slice?, slice]

/-- Whether a pair of neighbours overlaps. -/
theorem overlap?_eq_none_iff :
    overlap? edits = none ↔ edits.IsChain fun a b => a.stop ≤ b.start := by
  fun_induction overlap? edits with
  | case1 a b edits hlt =>
      simp only [reduceCtorEq, List.isChain_cons_cons, false_iff, not_and]
      omega
  | case2 a b edits hle ih =>
      rw [ih, List.isChain_cons_cons]
      exact ⟨fun h => ⟨by omega, h⟩, fun h => h.2⟩
  | case3 edits hshort =>
      cases edits with
      | nil => simp
      | cons a edits =>
          cases edits with
          | nil => simp
          | cons b edits => exact absurd rfl (hshort a b edits)

/-- A pass that keeps to edits in order, none of which reaches into the next, cuts out all that it
keeps. -/
theorem splice?_eq {cursor : Nat} (hcursor : source.IsBoundary cursor)
    (hstart : ∀ e ∈ edits.head?, cursor ≤ e.start)
    (hchain : edits.IsChain fun a b => a.stop ≤ b.start) :
    splice? source cursor edits = some (splice source cursor edits) := by
  induction edits generalizing cursor with
  | nil =>
      rw [splice?, slice?_eq hcursor (Text.isBoundary_utf8Size source) hcursor.le]
      rfl
  | cons e edits ih =>
      by_cases hfits : e.fits source
      · obtain ⟨hfirst, hlast⟩ := fits_iff.mp hfits
        have hkept := slice?_eq hcursor hfirst (hstart e (by simp))
        have hrest := ih hlast (fun b hb => List.IsChain.rel_head? hchain hb) hchain.tail
        simp only [splice?, splice, if_pos hfits, hkept, hrest]
        cases splice source e.stop edits <;> rfl
      · simp [splice?, splice, hfits]

theorem applied?_eq (source : Text) (edits : List Edit) :
    applied? source edits = some (apply source edits) := by
  cases h : overlap? (edits.mergeSort le) with
  | some overlap => simp [applied?, apply, h]
  | none =>
      have hpass := splice?_eq (Text.isBoundary_zero source) (by simp) (overlap?_eq_none_iff.mp h)
      simp [applied?, apply, h, hpass]

/-! ## One edit after another -/

/-- The text with one edit made in it, if both ends of the edit's range are boundaries of the
text. -/
def make (e : Edit) (t : Text) : Option Text := do
  let (before, _) ← t.splitAt? e.start
  let (_, after) ← t.splitAt? e.stop
  return before ++ e.replacement ++ after

/-- The text with the edits made one at a time, the last one first. -/
def makeInTurn (t : Text) : List Edit → Option Text
  | [] => some t
  | e :: edits => (makeInTurn t edits).bind e.make

theorem make_eq {t before after x y : Text} (hstart : t = before ++ x)
    (hfirst : before.utf8Size = e.start) (hstop : t = y ++ after) (hlast : y.utf8Size = e.stop) :
    e.make t = some (before ++ e.replacement ++ after) := by
  have hsplit : t.splitAt? e.start = some (before, x) := by
    rw [hstart, ← hfirst, Text.splitAt?_utf8Size]
  have hsplit' : t.splitAt? e.stop = some (y, after) := by
    rw [hstop, ← hlast, Text.splitAt?_utf8Size]
  simp [make, hsplit, hsplit']

/-- The pass from a boundary on gives what the edits give in turn, after what stands before that
boundary. -/
theorem splice_eq_makeInTurn {before after : Text} (hsource : source = before ++ after)
    (hfits : ∀ e ∈ edits, e.fits source)
    (hstart : ∀ e ∈ edits.head?, before.utf8Size ≤ e.start)
    (hchain : edits.IsChain fun a b => a.start ≤ b.start ∧ a.stop ≤ b.start) :
    ∃ r, splice source before.utf8Size edits = .ok r ∧
      makeInTurn source edits = some (before ++ r) := by
  induction edits generalizing before after with
  | nil =>
      have hslice := Cut.slice_append before after []
      refine ⟨after, ?_, by rw [makeInTurn, hsource]⟩
      simpa [splice, hsource] using hslice
  | cons e edits ih =>
      obtain ⟨hfirst, hlast⟩ := fits_iff.mp (hfits e List.mem_cons_self)
      have hrest : ∀ b ∈ edits, b.fits source := fun b hb => hfits b (List.mem_cons_of_mem e hb)
      have hnext := List.isChain_cons.mp hchain
      obtain ⟨start, kept, rest, hsource', hsize, hkept⟩ :=
        Text.exists_parts ⟨before, after, hsource, rfl⟩ hfirst (hstart e (by simp))
      obtain ⟨stop, tail, htail, hstop⟩ := hlast
      obtain rfl : before = start := Text.prefix_inj (hsource.symm.trans hsource') hsize.symm
      have hbegin : (before ++ kept).utf8Size = e.start := by rw [Text.utf8Size_append, hkept]
      -- what follows leaves the text alone up to both ends of the range, whichever is first
      have hlong : source = (before ++ kept) ++ rest := by rw [hsource', List.append_assoc]
      obtain ⟨r₁, -, hturn₁⟩ :=
        ih hlong hrest (fun b hb => hbegin ▸ (hnext.1 b hb).1) hnext.2
      obtain ⟨r₂, hpass, hturn₂⟩ :=
        ih htail hrest (fun b hb => hstop ▸ (hnext.1 b hb).2) hnext.2
      have hslice := Cut.slice_append before kept rest
      rw [← hsource', hkept] at hslice
      refine ⟨kept ++ e.replacement ++ r₂, ?_, ?_⟩
      · rw [splice, if_pos (hfits e List.mem_cons_self), ← hstop, hpass, hslice]
        rfl
      · have htext : before ++ kept ++ r₁ = stop ++ r₂ :=
          Option.some.inj (hturn₁.symm.trans hturn₂)
        rw [makeInTurn, hturn₂, Option.bind_some, make_eq htext.symm hbegin rfl hstop]
        simp

/-- A pass stops at the first edit that has no place in the text. -/
theorem splice_eq_error {cursor : Nat} (h : ∃ e ∈ edits, ¬e.fits source) :
    ∃ overlap, splice source cursor edits = .error overlap := by
  induction edits generalizing cursor with
  | nil => simp at h
  | cons a edits ih =>
      by_cases ha : a.fits source
      · obtain ⟨e, he, hfits⟩ := h
        rcases List.mem_cons.mp he with rfl | he
        · exact absurd ha hfits
        · obtain ⟨overlap, hrest⟩ : ∃ overlap, splice source a.stop edits = .error overlap :=
            ih ⟨e, he, hfits⟩
          exact ⟨overlap, by rw [splice, if_pos ha, hrest]; rfl⟩
      · exact ⟨_, by rw [splice, if_neg ha]⟩

/-! ## Applying edits -/

/-- An edit ends after the next one starts, or its range does not begin or does not end at a
boundary. -/
def IsMisfit (source : Text) (sorted : List Edit) : Prop :=
  (∃ l a b l', sorted = l ++ a :: b :: l' ∧ b.start < a.stop) ∨
    ∃ e ∈ sorted, ¬source.IsBoundary e.start ∨ ¬source.IsBoundary e.stop

theorem isMisfit_iff :
    IsMisfit source sorted ↔ overlap? sorted ≠ none ∨ ∃ e ∈ sorted, ¬e.fits source := by
  have hoverlap : (∃ l a b l', sorted = l ++ a :: b :: l' ∧ b.start < a.stop) ↔
      overlap? sorted ≠ none := by
    rw [ne_eq, overlap?_eq_none_iff, List.isChain_iff_forall_rel_of_append_cons_cons]
    push Not
    constructor
    · rintro ⟨l, a, b, l', rfl, hlt⟩
      exact ⟨a, b, l, l', rfl, hlt⟩
    · rintro ⟨a, b, l, l', rfl, hlt⟩
      exact ⟨l, a, b, l', rfl, hlt⟩
  simp only [IsMisfit, hoverlap, fits_iff, not_and_or]

theorem apply_of_isMisfit (h : IsMisfit source (edits.mergeSort le)) :
    ∃ overlap, apply source edits = .error overlap := by
  rcases isMisfit_iff.mp h with hoverlap | hfits
  · obtain ⟨overlap, hoverlap⟩ := Option.ne_none_iff_exists'.mp hoverlap
    exact ⟨overlap, by simp [apply, hoverlap]⟩
  · cases hoverlap : overlap? (edits.mergeSort le) with
    | some overlap => exact ⟨overlap, by simp [apply, hoverlap]⟩
    | none =>
        obtain ⟨overlap, hpass⟩ : ∃ overlap, splice source 0 (edits.mergeSort le) =
          .error overlap := splice_eq_error hfits
        exact ⟨overlap, by simp [apply, hoverlap, hpass]⟩

theorem apply_of_not_isMisfit (h : ¬IsMisfit source (edits.mergeSort le)) :
    ∃ r, apply source edits = .ok r ∧ makeInTurn source (edits.mergeSort le) = some r := by
  rw [isMisfit_iff, not_or, ne_eq, not_not] at h
  obtain ⟨hoverlap, hfits⟩ := h
  push Not at hfits
  have hordered := (isStablySorted_mergeSort edits).ordered.isChain
  have hchain : (edits.mergeSort le).IsChain fun a b => a.start ≤ b.start ∧
      a.stop ≤ b.start := by
    have hstop := overlap?_eq_none_iff.mp hoverlap
    rw [List.isChain_iff_forall_rel_of_append_cons_cons] at hordered hstop ⊢
    intro a b l l' hl
    have hle := le_iff.mp (hordered hl)
    exact ⟨by omega, hstop hl⟩
  have hsource : source = [] ++ source := rfl
  obtain ⟨r, hpass, hturn⟩ := splice_eq_makeInTurn hsource hfits (by simp) hchain
  exact ⟨r, by simpa [apply, hoverlap] using hpass, hturn⟩

/-- Applying edits cuts out only what can be cut out. It is refused exactly if one of the edits, in
the stable order of their ranges, is a misfit, and otherwise it gives what the edits give one at a
time, from the last to the first. -/
theorem apply_of_isStablySorted (h : IsStablySorted edits sorted) :
    applied? source edits = some (apply source edits) ∧
      ((∃ overlap, apply source edits = .error overlap) ↔ IsMisfit source sorted) ∧
      (¬IsMisfit source sorted → ∃ r, apply source edits = .ok r ∧
        makeInTurn source sorted = some r) := by
  obtain rfl := h.eq_mergeSort
  refine ⟨applied?_eq source edits, ⟨fun ⟨overlap, herror⟩ => ?_, apply_of_isMisfit⟩,
    apply_of_not_isMisfit⟩
  by_contra hno
  obtain ⟨r, hok, -⟩ := apply_of_not_isMisfit hno
  rw [herror] at hok
  cases hok

/-- A range that runs backwards copies what stands between its ends, and insertions at its ends stay
there. -/
theorem apply_of_isStablySorted_backwards :
    ∃ edits sorted : List Edit, edits = [⟨3, 1, ['x']⟩, insert 3 ['y'], insert 1 ['z']] ∧
      IsStablySorted edits sorted ∧ ¬IsMisfit "aéb".toList sorted ∧
      apply "aéb".toList edits = .ok "azéxéyb".toList ∧
      makeInTurn "aéb".toList sorted = some "azéxéyb".toList := by
  have hsorted := isStablySorted_mergeSort [⟨3, 1, ['x']⟩, insert 3 ['y'], insert 1 ['z']]
  have hok : apply "aéb".toList [⟨3, 1, ['x']⟩, insert 3 ['y'], insert 1 ['z']] =
      .ok "azéxéyb".toList := by
    cbv
  obtain ⟨-, herror, hturn⟩ := @apply_of_isStablySorted "aéb".toList _ _ hsorted
  have hfit : ¬IsMisfit "aéb".toList
      (List.mergeSort [⟨3, 1, ['x']⟩, insert 3 ['y'], insert 1 ['z']] le) := by
    intro hmisfit
    obtain ⟨overlap, herror⟩ := herror.mpr hmisfit
    rw [hok] at herror
    cases herror
  obtain ⟨r, hr, hturn⟩ := hturn hfit
  obtain rfl := Except.ok.inj (hok.symm.trans hr)
  exact ⟨_, _, rfl, hsorted, hfit, hok, hturn⟩

end Edit

end Rewrap
