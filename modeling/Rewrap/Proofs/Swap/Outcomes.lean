import Rewrap.Proofs.Swap.Stability

/-! # How a swap ends

A text without the retiring import is left as it is. In any other the imports and the usage tags are
cut out, which always succeeds, and what comes after that is putting in the wrapper and counting its
tags. -/

namespace Rewrap.Swap

variable {s : Swap} {t : Text}

/-- A swap says that it changes a text only if it does. -/
theorem text_ne_of_changed {r : Swapped} (h : s.apply t = .ok r)
    (hchanged : r.changed = true) : r.text ≠ t := by
  rcases apply_eq_ok h with ⟨-, rfl⟩ | ⟨-, -, -, heq⟩
  · simp [Swapped.unchanged] at hchanged
  · rw [heq] at hchanged
    simpa using hchanged

/-- The cuts that a swap makes in a text before it puts in the wrapper. -/
structure Clearing (s : Swap) (t : Text) where
  first : Cut
  others : List Cut
  importTail : Text
  tags : List Cut
  tagTail : Text
  imports : ImportCuts s t first others importTail
  swapped : Cut.result importTail (first :: others) = Cut.source tagTail tags
  usageLines : ∀ c ∈ tags, c.added = [] ∧ Tag.IsUsageLine s.spec.oldComponent c.removed
  removeUsageTags :
    s.removeUsageTags (Cut.source tagTail tags) = .ok (Cut.result tagTail tags, tags.length)

/-- The swap takes the imports and the usage tags of `t` out, and what it puts the wrapper into is
`u`. -/
def Strips (s : Swap) (t u : Text) : Prop :=
  ∃ swapped imports tags, s.swapImport t = .ok (some (swapped, imports)) ∧
    s.removeUsageTags swapped = .ok (u, tags)

namespace Clearing

/-- The text between the cuts and the wrapper. -/
def stripped (c : Clearing s t) : Text := Cut.result c.tagTail c.tags

/-- How many imports were retired. -/
def importsReplaced (c : Clearing s t) : Nat := c.others.length + 1

theorem swapImport (c : Clearing s t) :
    s.swapImport t = .ok (some (Cut.source c.tagTail c.tags, c.importsReplaced)) := by
  rw [c.imports.swapImport, c.swapped]
  rfl

theorem strips_iff (c : Clearing s t) {u : Text} : s.Strips t u ↔ u = c.stripped := by
  constructor
  · rintro ⟨swapped, imports, tags, hswapped, htags⟩
    rw [c.swapImport] at hswapped
    cases hswapped
    rw [c.removeUsageTags] at htags
    cases htags
    rfl
  · rintro rfl
    exact ⟨_, _, _, c.swapImport, c.removeUsageTags⟩

theorem stages (c : Clearing s t) {shape : Shape} {wrapped : Text}
    (h : s.insertWrapper c.stripped shape = .ok wrapped) :
    s.Stages t (Cut.source c.tagTail c.tags) c.stripped wrapped where
  imports := ⟨c.first, c.others, c.importTail, c.imports, c.swapped.symm⟩
  tags := ⟨c.tags, c.tagTail, rfl, rfl, c.removeUsageTags, c.usageLines⟩
  wrapping := insertWrapper_eq_ok h

/-- What a swap does once the cuts are made. -/
def finish (c : Clearing s t) : Except Fault Swapped := do
  let shape := s.detectShape c.stripped
  let wrapped ← s.insertWrapper c.stripped shape
  s.checkBalance t wrapped
  return ⟨wrapped, wrapped != t, some shape, c.importsReplaced, c.tags.length⟩

theorem apply_eq (c : Clearing s t) : s.apply t = c.finish := by
  rw [apply, c.swapImport, Except.bind_ok]
  simp only [c.removeUsageTags, Except.bind_ok]
  rfl

theorem finish_eq_ok {c : Clearing s t} {r : Swapped} (h : c.finish = .ok r) :
    s.insertWrapper c.stripped (s.detectShape c.stripped) = .ok r.text ∧
      s.checkBalance t r.text = .ok () ∧
      r = ⟨r.text, r.text != t, some (s.detectShape c.stripped), c.importsReplaced,
        c.tags.length⟩ := by
  obtain ⟨wrapped, hwrapped, h⟩ := Except.bind_eq_ok.mp h
  obtain ⟨⟨⟩, hbalance, h⟩ := Except.bind_eq_ok.mp h
  cases h
  exact ⟨hwrapped, hbalance, rfl⟩

theorem finish_eq_error {c : Clearing s t} {fault : Fault} (h : c.finish = .error fault) :
    s.insertWrapper c.stripped (s.detectShape c.stripped) = .error fault ∨
      ∃ wrapped, s.insertWrapper c.stripped (s.detectShape c.stripped) = .ok wrapped ∧
        s.checkBalance t wrapped = .error fault := by
  rcases Except.bind_eq_error.mp h with h | ⟨wrapped, hwrapped, h⟩
  · exact .inl h
  · rcases Except.bind_eq_error.mp h with h | ⟨-, -, h⟩
    · exact .inr ⟨wrapped, hwrapped, h⟩
    · cases h

end Clearing

theorem isFreeOf_or_clearing (s : Swap) (t : Text) :
    s.spec.retiring.IsFreeOf t ∨ Nonempty (Clearing s t) := by
  rcases s.swapImport_cuts t with ⟨hfree, -⟩ | ⟨first, others, tail, himports⟩
  · exact .inl hfree
  · obtain ⟨tags, tagTail, hswapped, htags, hlines⟩ :=
      s.removeUsageTags_cuts (Cut.result tail (first :: others))
    rw [hswapped] at htags
    exact .inr ⟨⟨first, others, tail, tags, tagTail, himports, hswapped, hlines, htags⟩⟩

end Rewrap.Swap
