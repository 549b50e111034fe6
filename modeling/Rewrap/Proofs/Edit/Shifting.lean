import Rewrap.Proofs.Edit.Splicing

/-! # Edits behind a piece of text

Edits that are made one after another do not notice what stands before them, once they are shifted
past it. So a piece that an edit takes out leaves no trace in the result. -/

namespace Rewrap

theorem Text.splitAt?_append (x t : Text) (n : Nat) :
    (x ++ t).splitAt? (x.utf8Size + n) = (t.splitAt? n).map fun (before, after) =>
      (x ++ before, after) := by
  induction x with
  | nil => simp
  | cons c x ih =>
      have hc := c.utf8Size_pos
      obtain ⟨k, hk⟩ : ∃ k, c.utf8Size + utf8Size x + n = k + 1 :=
        ⟨c.utf8Size + utf8Size x + n - 1, by omega⟩
      have hrest : k + 1 - c.utf8Size = utf8Size x + n := by omega
      rw [List.cons_append, utf8Size_cons, hk, splitAt?, if_pos (by omega), hrest, ih]
      cases t.splitAt? n <;> simp

namespace Edit

/-- The edit that goes with a text when `n` bytes are put before the text. -/
def shift (n : Nat) (e : Edit) : Edit := ⟨e.start + n, e.stop + n, e.replacement⟩

theorem make_shift (e : Edit) (x t : Text) :
    (e.shift x.utf8Size).make (x ++ t) = (e.make t).map (x ++ ·) := by
  have hstart := Text.splitAt?_append x t e.start
  have hstop := Text.splitAt?_append x t e.stop
  rw [Nat.add_comm] at hstart hstop
  simp only [make, shift, hstart, hstop]
  cases t.splitAt? e.start <;> cases t.splitAt? e.stop <;> simp

theorem makeInTurn_shift (edits : List Edit) (x t : Text) :
    makeInTurn (x ++ t) (edits.map (shift x.utf8Size)) = (makeInTurn t edits).map (x ++ ·) := by
  induction edits with
  | nil => rfl
  | cons e edits ih =>
      rw [List.map_cons, makeInTurn, makeInTurn, ih]
      cases makeInTurn t edits with
      | none => rfl
      | some u => exact make_shift e x u

theorem makeInTurn_append (t : Text) (edits edits' : List Edit) :
    makeInTurn t (edits ++ edits') = (makeInTurn t edits').bind fun u => makeInTurn u edits := by
  induction edits with
  | nil => simp [makeInTurn]
  | cons e edits ih => rw [List.cons_append, makeInTurn, ih, Option.bind_assoc]; rfl

/-- Cuts are made one after another as they are made at once. -/
theorem makeInTurn_cuts (before tail : Text) (cs : List Cut) :
    makeInTurn (before ++ Cut.source tail cs) (Cut.edits before.utf8Size cs) =
      some (before ++ Cut.result tail cs) := by
  induction cs generalizing before with
  | nil => rfl
  | cons c cs ih =>
      have hrest := ih (before ++ (c.kept ++ c.removed))
      simp only [Text.utf8Size_append, List.append_assoc, ← Nat.add_assoc] at hrest
      have hstart : before ++ (c.kept ++ (c.removed ++ Cut.result tail cs)) =
          (before ++ c.kept) ++ (c.removed ++ Cut.result tail cs) := by simp
      have hstop : before ++ (c.kept ++ (c.removed ++ Cut.result tail cs)) =
          (before ++ (c.kept ++ c.removed)) ++ Cut.result tail cs := by simp
      rw [Cut.source, Cut.edits, makeInTurn, hrest, Option.bind_some,
        make_eq hstart (by simp) hstop (by simp [Nat.add_assoc])]
      simp [Cut.result]

/-- Where an edit takes out the piece `d`, with `lead` before it and `n` bytes behind it, it does
not matter what that piece is. -/
theorem makeInTurn_middle (kept lead d tail added : Text) (n : Nat) (earlier later : List Edit) :
    makeInTurn ((kept ++ lead) ++ (d ++ tail))
        (earlier ++ ⟨kept.utf8Size, ((kept ++ lead) ++ d).utf8Size + n, added⟩ ::
          later.map (shift ((kept ++ lead) ++ d).utf8Size)) =
      (makeInTurn tail later).bind fun t =>
        (t.splitAt? n).bind fun (_, rest) => makeInTurn (kept ++ added ++ rest) earlier := by
  have hlater := makeInTurn_shift later ((kept ++ lead) ++ d) tail
  rw [List.append_assoc] at hlater
  rw [makeInTurn_append, makeInTurn, hlater]
  cases makeInTurn tail later with
  | none => rfl
  | some t =>
      have hstart : (((kept ++ lead) ++ d) ++ t).splitAt? kept.utf8Size =
          some (kept, lead ++ (d ++ t)) := by
        simp
      have hstop := Text.splitAt?_append ((kept ++ lead) ++ d) t n
      rw [Option.map_some, Option.bind_some, Option.bind_some, make, hstart, hstop]
      cases t.splitAt? n <;> rfl

end Edit

end Rewrap
