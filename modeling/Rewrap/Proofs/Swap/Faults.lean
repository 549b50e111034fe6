import Rewrap.Proofs.Swap.Outcomes

/-! # Why a swap fails

Every list of edits that a swap makes fits the text for which it is made, so no edit is ever
refused. What is left are the faults of a text whose shape does not fit. -/

namespace Rewrap

/-! ## Edits that fit -/

/-- Edits from one character boundary of the text to another, none reaching into the next. -/
structure Edit.Fit (t : Text) (edits : List Edit) : Prop where
  bounds : ∀ e ∈ edits, e.start ≤ e.stop ∧ e.fits t = true
  apart : edits.Pairwise fun a b => a.stop ≤ b.start

/-- The edits of cuts fit the text that is cut, whatever stands before it. -/
theorem Cut.fit_edits_after (before tail : Text) (cs : List Cut) :
    Edit.Fit (before ++ source tail cs) (edits before.utf8Size cs) := by
  induction cs generalizing before with
  | nil => exact ⟨by simp [edits], by simp [edits]⟩
  | cons c cs ih =>
      have hrest := ih (before ++ c.kept ++ c.removed)
      have hstart := Text.splitAt?_utf8Size (before ++ c.kept) (c.removed ++ source tail cs)
      have hstop := Text.splitAt?_utf8Size (before ++ c.kept ++ c.removed) (source tail cs)
      simp only [Text.utf8Size_append, List.append_assoc] at hrest hstart hstop
      simp only [edits, source, Nat.add_assoc]
      refine ⟨fun e he => ?_, List.pairwise_cons.mpr ⟨fun e he => ?_, hrest.apart⟩⟩
      · rcases List.mem_cons.mp he with rfl | he
        · exact ⟨by simp only; omega, by simp [Edit.fits, hstart, hstop]⟩
        · exact hrest.bounds e he
      · exact (le_start_of_mem_edits he).1

theorem Cut.fit_edits (tail : Text) (cs : List Cut) : Edit.Fit (source tail cs) (edits 0 cs) :=
  fit_edits_after [] tail cs

namespace Swap

variable {s : Swap} {t : Text}

/-- The lists of edits that the steps of a swap make for a text: for the imports, for the usage
tags, and for the wrapper in either shape. -/
inductive StepEdits (s : Swap) (t : Text) : List Edit → Prop where
  | imports : StepEdits s t
      (s.importEdits (s.spec.replacement.clause.occursIn t)
        (s.spec.retiring.statement.occurrences t))
  | usageTags : StepEdits s t
      (((Tag.ownLine s.spec.oldComponent).occurrences t).map fun o => .delete o.start o.stop)
  | guarded {tag edits} (h : s.guardedEdits tag t = .ok edits) : StepEdits s t edits
  | bareReturn {edits} (h : s.bareReturnEdits t = .ok edits) : StepEdits s t edits

theorem StepEdits.exists_cuts {edits : List Edit} (h : s.StepEdits t edits) :
    ∃ cs tail, t = Cut.source tail cs ∧ edits = Cut.edits 0 cs := by
  cases h with
  | imports =>
      rcases s.swapImport_cuts t with ⟨-, hnil⟩ | ⟨first, others, tail, hcuts⟩
      · exact ⟨[], t, rfl, by rw [hnil]; rfl⟩
      · exact ⟨first :: others, tail, hcuts.source, hcuts.edits⟩
  | usageTags =>
      have hscan := Pattern.occurrences_scan (Tag.ownLine_proper s.spec.oldComponent) t
      obtain ⟨cs, tail, ht, hedits, -⟩ := hscan.exists_cuts
      exact ⟨cs, tail, ht, hedits⟩
  | guarded h =>
      obtain ⟨before, inside, lead, rest, indent, hbounds, -, -, added, rfl, -⟩ :=
        guardedEdits_eq_ok h
      obtain ⟨ht, -, -⟩ := guardBounds?_eq_some hbounds
      exact ⟨_, lead ++ rest, by simpa [Cut.source] using ht, rfl⟩
  | bareReturn h =>
      obtain ⟨o, c, inside, e, indent, ho, -, -, hafter, -, rfl⟩ := bareReturnEdits_eq_ok h
      obtain ⟨g, hbefore, ht, -⟩ := Pattern.findAfter?_eq_some ReturnBlock.opening_proper ho
      refine ⟨_, e ++ (c.matched ++ c.after), ?_, rfl⟩
      rw [ht, hafter]
      simp only [List.nil_append] at hbefore
      simp [Cut.source, hbefore]

theorem StepEdits.fit {edits : List Edit} (h : s.StepEdits t edits) : Edit.Fit t edits := by
  obtain ⟨cs, tail, rfl, rfl⟩ := h.exists_cuts
  exact Cut.fit_edits tail cs

theorem StepEdits.edit_eq_ok {edits : List Edit} (h : s.StepEdits t edits) :
    ∃ u, edit t edits = .ok u := by
  obtain ⟨cs, tail, rfl, rfl⟩ := h.exists_cuts
  exact ⟨_, edit_cuts tail cs⟩

/-! ## Faults of the steps -/

theorem detectShape_eq_guarded {tag : String} (h : s.detectShape t = .guarded tag) :
    tag ∈ s.spec.guards ∧ (guardBounds? tag t).isSome := by
  unfold detectShape at h
  split at h
  · next found hfound =>
      obtain rfl : found = tag := by simpa using h
      have hbounds := List.find?_some hfound
      exact ⟨List.mem_of_find?_eq_some hfound, hbounds⟩
  · cases h

theorem bareReturnEdits_eq_error {fault : Fault} (h : s.bareReturnEdits t = .error fault) :
    fault = .noRenderBlock s.spec.newComponent ∨ ∃ line, fault = .unclosedWrapper line := by
  unfold bareReturnEdits at h
  split at h
  · cases h
    exact .inl rfl
  · simp only at h
    split at h
    · cases h
      exact .inr ⟨_, rfl⟩
    · cases h

/-- Putting in the wrapper fails only where there is no guard and the return block cannot be made
out. -/
theorem insertWrapper_detectShape_eq_error {fault : Fault}
    (h : s.insertWrapper t (s.detectShape t) = .error fault) :
    s.detectShape t = .bareReturn ∧
      (fault = .noRenderBlock s.spec.newComponent ∨ ∃ line, fault = .unclosedWrapper line) := by
  cases hshape : s.detectShape t with
  | guarded tag =>
      exfalso
      obtain ⟨hmem, hbounds⟩ := detectShape_eq_guarded hshape
      obtain ⟨bounds, hbounds⟩ := Option.isSome_iff_exists.mp hbounds
      obtain ⟨edits, hedits⟩ : ∃ edits, s.guardedEdits tag t = .ok edits := by
        unfold guardedEdits
        rw [hbounds]
        exact ⟨_, rfl⟩
      obtain ⟨u, hu⟩ := (StepEdits.guarded hedits).edit_eq_ok
      rw [hshape, insertWrapper] at h
      simp [hmem, hedits, hu] at h
  | bareReturn =>
      refine ⟨rfl, ?_⟩
      rw [hshape] at h
      rcases Except.bind_eq_error.mp h with h | ⟨edits, hedits, h⟩
      · exact bareReturnEdits_eq_error h
      · obtain ⟨u, hu⟩ := (StepEdits.bareReturn hedits).edit_eq_ok
        simp [hu] at h

theorem checkBalance_eq_error {before after : Text} {fault : Fault}
    (h : s.checkBalance before after = .error fault) :
    ∃ opened closed, fault = .unbalancedWrapper s.spec.newComponent opened closed := by
  unfold checkBalance at h
  simp only at h
  split at h
  · cases h
  · cases h
    exact ⟨_, _, rfl⟩

/-! ## Faults of the swap -/

theorem apply_eq_error {fault : Fault} (h : s.apply t = .error fault) :
    ∃ c : Clearing s t,
      (∃ opened closed, fault = .unbalancedWrapper s.spec.newComponent opened closed) ∨
      s.detectShape c.stripped = .bareReturn ∧
        (fault = .noRenderBlock s.spec.newComponent ∨
          ∃ line, fault = .unclosedWrapper line) := by
  rcases s.isFreeOf_or_clearing t with hfree | ⟨⟨c⟩⟩
  · rw [apply_of_isFreeOf hfree] at h
    cases h
  · rw [c.apply_eq] at h
    refine ⟨c, ?_⟩
    rcases Clearing.finish_eq_error h with h | ⟨wrapped, -, h⟩
    · exact .inr (insertWrapper_detectShape_eq_error h)
    · exact .inl (checkBalance_eq_error h)

/-- A swap succeeds or says that the shape of the text does not fit; it finds no block to wrap only
in a text of the bare shape, and all the edits it makes on the way fit the text they are made
for. -/
theorem apply_fails_structurally (s : Swap) (t : Text) :
    ((∃ r, s.apply t = .ok r) ∨ ∃ fault, s.apply t = .error fault ∧
      fault.isStructural = true) ∧ (∀ wrapper, s.apply t = .error (.noRenderBlock wrapper) →
        ∃ swapped imports stripped tags, s.swapImport t = .ok (some (swapped, imports)) ∧
          s.removeUsageTags swapped = .ok (stripped, tags) ∧
            s.detectShape stripped = .bareReturn) ∧
      ∀ u edits, s.StepEdits u edits → Edit.Fit u edits := by
  refine ⟨?_, ?_, fun u edits h => h.fit⟩
  · cases h : s.apply t with
    | ok r => exact .inl ⟨r, rfl⟩
    | error fault =>
        refine .inr ⟨fault, rfl, ?_⟩
        obtain ⟨-, ⟨opened, closed, rfl⟩ | ⟨-, rfl | ⟨line, rfl⟩⟩⟩ :=
          apply_eq_error h <;> rfl
  · intro wrapper h
    obtain ⟨c, ⟨opened, closed, hfault⟩ | ⟨hshape, -⟩⟩ := apply_eq_error h
    · cases hfault
    · exact ⟨_, _, _, _, c.swapImport, c.removeUsageTags, hshape⟩

end Swap

end Rewrap
