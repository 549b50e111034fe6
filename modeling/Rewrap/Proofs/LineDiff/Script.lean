import Mathlib.Data.List.Basic
import Rewrap.LineDiff.Preview

/-! # Scripts that lead from one text to another

The runs of a script, without the insertions, make up the old list, and without the deletions the
new one. Cutting and compacting change the runs, but not what they make up. So a diff of texts that
differ has a changed line. -/

namespace Rewrap.LineDiff

variable {α : Type}

/-! ## Scripts -/

/-- What the runs keep and delete is the old list, and what they keep and insert is the new one. -/
structure LeadsFrom (runs : List (Op α)) (old new : List α) : Prop where
  old_eq : runs.flatMap Op.old = old
  new_eq : runs.flatMap Op.new = new

theorem LeadsFrom.append {runs runs' : List (Op α)} {old old' new new' : List α}
    (h : LeadsFrom runs old new) (h' : LeadsFrom runs' old' new') :
    LeadsFrom (runs ++ runs') (old ++ old') (new ++ new') where
  old_eq := by rw [List.flatMap_append, h.old_eq, h'.old_eq]
  new_eq := by rw [List.flatMap_append, h.new_eq, h'.new_eq]

theorem leadsFrom_keeping (xs : List α) : LeadsFrom (keeping xs) xs xs := by
  cases xs with
  | nil => exact ⟨rfl, rfl⟩
  | cons x xs => constructor <;> simp [keeping, Op.old, Op.new]

theorem leadsFrom_replacing (old new : List α) (i j : Int) :
    LeadsFrom [.delete old i, .insert new j] old new := by
  constructor <;> simp [Op.old, Op.new]

/-- A list is what it has in common with another at its start and its end, and what lies between. -/
theorem eq_take_append_middle (xs : List α) (lead trail : Nat) :
    xs = xs.take lead ++ ((xs.drop lead).take ((xs.drop lead).length - trail) ++
      (xs.drop lead).drop ((xs.drop lead).length - trail)) := by
  rw [List.take_append_drop, List.take_append_drop]

section

variable [BEq α] [LawfulBEq α]

theorem take_commonPrefix (xs ys : List α) :
    ys.take (commonPrefix xs ys) = xs.take (commonPrefix xs ys) := by
  induction xs generalizing ys with
  | nil => cases ys <;> simp [commonPrefix]
  | cons x xs ih =>
      cases ys with
      | nil => simp [commonPrefix]
      | cons y ys =>
          unfold commonPrefix
          split
          · next heq => rw [List.take_succ_cons, List.take_succ_cons, ih, eq_of_beq heq]
          · simp

theorem drop_commonSuffix (xs ys : List α) :
    ys.drop (ys.length - commonSuffix xs ys) = xs.drop (xs.length - commonSuffix xs ys) := by
  have h := congrArg List.reverse (take_commonPrefix xs.reverse ys.reverse)
  rwa [List.reverse_take, List.reverse_take, List.reverse_reverse, List.reverse_reverse,
    List.length_reverse, List.length_reverse] at h

/-- A script leads from the one list to the other, however many cuts are nested. -/
theorem leadsFrom_scriptFrom (n i j : Nat) (old new : List α) :
    LeadsFrom (scriptFrom n i j old new) old new := by
  induction n generalizing i j old new with
  | zero => exact leadsFrom_replacing _ _ _ _
  | succ n ih =>
      have hlead := take_commonPrefix old new
      have htrail := drop_commonSuffix (old.drop (commonPrefix old new))
        (new.drop (commonPrefix old new))
      have hold := eq_take_append_middle old (commonPrefix old new)
        (commonSuffix (old.drop (commonPrefix old new)) (new.drop (commonPrefix old new)))
      have hnew := eq_take_append_middle new (commonPrefix old new)
        (commonSuffix (old.drop (commonPrefix old new)) (new.drop (commonPrefix old new)))
      rw [hlead, htrail] at hnew
      rw [scriptFrom]
      -- what lies between is empty on one side, or cut, or replaced as a whole
      generalize (old.drop (commonPrefix old new)).take _ = oldMiddle at hold ⊢
      generalize (new.drop (commonPrefix old new)).take _ = newMiddle at hnew ⊢
      conv => arg 2; rw [hold]
      conv => arg 3; rw [hnew]
      rw [← List.append_assoc, ← List.append_assoc]
      refine ((leadsFrom_keeping _).append ?_).append (leadsFrom_keeping _)
      by_cases hdeleted : oldMiddle = []
      · by_cases hinserted : newMiddle = []
        · subst hdeleted hinserted
          exact ⟨rfl, rfl⟩
        · subst hdeleted
          constructor <;> simp [hinserted, Op.old, Op.new]
      · by_cases hinserted : newMiddle = []
        · subst hinserted
          constructor <;> simp [hdeleted, Op.old, Op.new]
        · have hempty : oldMiddle.isEmpty = false ∧ newMiddle.isEmpty = false := by
            simp [hdeleted, hinserted]
          simp only [hempty, Bool.and_self, Bool.false_eq_true, if_false]
          split
          · next x y _ =>
              have hcut := (ih (i + commonPrefix old new) (j + commonPrefix old new)
                (oldMiddle.take x) (newMiddle.take y)).append
                (ih (i + commonPrefix old new + x) (j + commonPrefix old new + y) (oldMiddle.drop x)
                  (newMiddle.drop y))
              rwa [List.take_append_drop, List.take_append_drop] at hcut
          · exact leadsFrom_replacing _ _ _ _

end

/-! ## Compaction -/

@[simp] theorem old_flatMap_keeping (xs : List α) : (keeping xs).flatMap Op.old = xs :=
  (leadsFrom_keeping xs).old_eq

@[simp] theorem new_flatMap_keeping (xs : List α) : (keeping xs).flatMap Op.new = xs :=
  (leadsFrom_keeping xs).new_eq

@[simp] theorem reverse_keeping (xs : List α) : (keeping xs).reverse = keeping xs := by
  cases xs <;> rfl

namespace Focus

variable {f g : Focus α} {old new : List α}

@[simp] theorem old_flatMap_consKept (xs : List α) (runs : List (Op α)) :
    (consKept xs runs).flatMap Op.old = xs ++ runs.flatMap Op.old := by
  unfold consKept
  split <;> simp [Op.old]

@[simp] theorem new_flatMap_consKept (xs : List α) (runs : List (Op α)) :
    (consKept xs runs).flatMap Op.new = xs ++ runs.flatMap Op.new := by
  unfold consKept
  split <;> simp [Op.new]

@[simp] theorem old_flatMap_snocKept (xs : List α) (runs : List (Op α)) :
    (snocKept xs runs).reverse.flatMap Op.old = runs.reverse.flatMap Op.old ++ xs := by
  unfold snocKept
  split <;> simp [Op.old]

@[simp] theorem new_flatMap_snocKept (xs : List α) (runs : List (Op α)) :
    (snocKept xs runs).reverse.flatMap Op.new = runs.reverse.flatMap Op.new ++ xs := by
  unfold snocKept
  split <;> simp [Op.new]

variable [BEq α] [LawfulBEq α]

theorem eq_take_append_suffix (xs ys : List α) :
    xs = xs.take (xs.length - commonSuffix xs ys) ++ ys.drop (ys.length - commonSuffix xs ys) := by
  rw [drop_commonSuffix, List.take_append_drop]

/-- A step up changes the runs, and not what they make up. -/
theorem leadsFrom_up? (h : f.up? = some g) :
    LeadsFrom g.runs (f.runs.flatMap Op.old) (f.runs.flatMap Op.new) := by
  obtain ⟨before, run, after⟩ := f
  unfold up? at h
  split at h
  case h_5 xs before ys i hbefore hrun =>
    cases hbefore
    cases hrun
    dsimp only at h
    split at h
    · cases h
    · next n hshift =>
        cases h
        -- the elements that are moved end what is kept before, and the insertion
        have hxs := eq_take_append_suffix xs ys
        have hys := List.take_append_drop (ys.length - commonSuffix xs ys) ys
        rw [hshift] at hxs hys
        generalize xs.take (xs.length - (n + 1)) = kept at hxs ⊢
        generalize ys.drop (ys.length - (n + 1)) = moved at hxs hys ⊢
        generalize ys.take (ys.length - (n + 1)) = rest at hys ⊢
        subst hxs hys
        constructor <;> simp [runs, Op.old, Op.new]
  case h_6 => cases h
  -- the run joins one of its kind, or changes places with one of the other
  all_goals
    next hbefore hrun =>
      cases hbefore
      cases hrun
      cases h
      constructor <;> simp [runs, Op.old, Op.new]

theorem leadsFrom_down? (h : f.down? = some g) :
    LeadsFrom g.runs (f.runs.flatMap Op.old) (f.runs.flatMap Op.new) := by
  obtain ⟨before, run, after⟩ := f
  unfold down? at h
  split at h
  case h_5 xs i ys after hrun hafter =>
    cases hrun
    cases hafter
    dsimp only at h
    split at h
    · cases h
    · next n hshift =>
        cases h
        -- the elements that are moved begin what is kept after, and the insertion
        have hmoved := take_commonPrefix ys xs
        have hxs := List.take_append_drop (commonPrefix ys xs) xs
        have hys := List.take_append_drop (commonPrefix ys xs) ys
        rw [hshift] at hmoved hxs hys
        rw [← hmoved] at hys
        generalize xs.take (n + 1) = moved at hxs hys ⊢
        generalize xs.drop (n + 1) = rest at hxs ⊢
        generalize ys.drop (n + 1) = kept at hys ⊢
        subst hxs hys
        constructor <;> simp [runs, Op.old, Op.new]
  case h_6 => cases h
  all_goals
    next hrun hafter =>
      cases hrun
      cases hafter
      cases h
      constructor <;> simp [runs, Op.old, Op.new]

omit [BEq α] [LawfulBEq α] in
/-- However often a step is made that does not change what the runs make up, they make up the
same. -/
theorem leadsFrom_settle {step? : Focus α → Option (Focus α)}
    (hstep : ∀ {f g}, step? f = some g →
      LeadsFrom g.runs (f.runs.flatMap Op.old) (f.runs.flatMap Op.new))
    (n : Nat) (f : Focus α) :
    LeadsFrom (settle step? n f).runs (f.runs.flatMap Op.old) (f.runs.flatMap Op.new) := by
  induction n generalizing f with
  | zero => exact ⟨rfl, rfl⟩
  | succ n ih =>
      rw [settle]
      cases hnext : step? f with
      | none => exact ⟨rfl, rfl⟩
      | some g =>
          have hg := hstep hnext
          have hrest := ih g
          rwa [hg.old_eq, hg.new_eq] at hrest

end Focus

/-! ## Compacted scripts -/

variable [BEq α] [LawfulBEq α]

/-- Moving runs changes their places, and not what they make up. -/
theorem leadsFrom_compactFrom (isKind : Op α → Bool) (n : Nat) (before after : List (Op α)) :
    LeadsFrom (compactFrom isKind n before after) ((before.reverse ++ after).flatMap Op.old)
      ((before.reverse ++ after).flatMap Op.new) := by
  induction n generalizing before after with
  | zero => exact ⟨rfl, rfl⟩
  | succ n ih =>
      cases after with
      | nil => exact ⟨by simp [compactFrom], by simp [compactFrom]⟩
      | cons run after =>
          rw [compactFrom]
          split
          · dsimp only
            have hup := Focus.leadsFrom_settle Focus.leadsFrom_up? (weight before)
              ⟨before, run, after⟩
            generalize Focus.settle Focus.up? (weight before)
              ⟨before, run, after⟩ = f at hup ⊢
            have hdown := Focus.leadsFrom_settle Focus.leadsFrom_down? (weight f.after) f
            generalize Focus.settle Focus.down? (weight f.after) f = g at hdown ⊢
            have hrest := ih (g.run :: g.before) g.after
            have hruns : (g.run :: g.before).reverse ++ g.after = g.runs := by simp [Focus.runs]
            rw [hruns, hdown.old_eq, hdown.new_eq, hup.old_eq, hup.new_eq] at hrest
            exact hrest
          · have hrest := ih (run :: before) after
            rwa [List.reverse_cons, List.append_assoc, List.singleton_append] at hrest

theorem LeadsFrom.compactKind {runs : List (Op α)} {old new : List α} (h : LeadsFrom runs old new)
    (isKind : Op α → Bool) : LeadsFrom (compactKind isKind runs) old new := by
  have hmoved := leadsFrom_compactFrom isKind (weight runs * (weight runs + 1)) [] runs
  rwa [List.reverse_nil, List.nil_append, h.old_eq, h.new_eq] at hmoved

theorem LeadsFrom.compact {runs : List (Op α)} {old new : List α} (h : LeadsFrom runs old new) :
    LeadsFrom (compact runs) old new :=
  (h.compactKind _).compactKind _

/-! ## Blocks -/

/-- What the blocks keep and delete is the old list, and what they keep and insert is the new
one. -/
structure MakesUp (bs : List (Block α)) (old new : List α) : Prop where
  old_eq : bs.flatMap Block.old = old
  new_eq : bs.flatMap Block.new = new

omit [BEq α] [LawfulBEq α] in
theorem makesUp_blocks (runs : List (Op α)) :
    MakesUp (blocks runs) (runs.flatMap Op.old) (runs.flatMap Op.new) := by
  induction runs with
  | nil => exact ⟨rfl, rfl⟩
  | cons run runs ih =>
      rw [List.flatMap_cons, List.flatMap_cons, ← ih.old_eq, ← ih.new_eq]
      cases run with
      | keep xs =>
          rw [blocks]
          split
          · next ys bs hbs => constructor <;> simp [hbs, Block.old, Block.new, Op.old, Op.new]
          · constructor <;> simp [Block.old, Block.new, Op.old, Op.new]
      | delete xs i =>
          rw [blocks]
          split
          · next ds is j i' bs hbs => constructor <;>
              simp [hbs, Block.old, Block.new, Op.old, Op.new]
          · constructor <;> simp [Block.old, Block.new, Op.old, Op.new]
      | insert xs j =>
          rw [blocks]
          split
          · next ds is j' i bs hbs => constructor <;>
              simp [hbs, Block.old, Block.new, Op.old, Op.new]
          · constructor <;> simp [Block.old, Block.new, Op.old, Op.new]

/-- The blocks of a diff make up the lists that are compared. -/
theorem makesUp_diff (old new : List α) : MakesUp (diff old new) old new := by
  have hscript := (leadsFrom_scriptFrom (old.length + new.length + 1) 0 0 old new).compact
  have hblocks := makesUp_blocks (compact (script old new))
  rwa [script, hscript.old_eq, hscript.new_eq] at hblocks

/-! ## Changed lines -/

/-- Whether a block is a change. -/
def Block.isChange (b : Block Line) : Bool := match b with | .kept _ => false | _ => true

/-- Where no line is deleted or inserted, the blocks make up the same on both sides. -/
theorem flatMap_old_eq_new {bs : List (Block Line)}
    (hold : (bs.filter Block.isChange).flatMap Block.old = [])
    (hnew : (bs.filter Block.isChange).flatMap Block.new = []) :
    bs.flatMap Block.old = bs.flatMap Block.new := by
  induction bs with
  | nil => rfl
  | cons b bs ih =>
      cases b with
      | kept xs =>
          rw [List.filter_cons_of_neg (by simp [Block.isChange])] at hold hnew
          rw [List.flatMap_cons, List.flatMap_cons, ih hold hnew]
          rfl
      | change deleted inserted i j =>
          rw [List.filter_cons_of_pos rfl, List.flatMap_cons, List.append_eq_nil_iff] at hold hnew
          rw [List.flatMap_cons, List.flatMap_cons, hold.1, hnew.1, ih hold.2 hnew.2]

theorem filesChanged_stats (bs : List (Block Line)) : (stats bs).filesChanged =
    if (bs.filter Block.isChange).flatMap Block.old = [] ∧
      (bs.filter Block.isChange).flatMap Block.new = [] then 0
    else 1 := by
  have hunfold : (stats bs).filesChanged =
      if 0 < ((bs.filter Block.isChange).flatMap Block.new).length ||
        0 < ((bs.filter Block.isChange).flatMap Block.old).length then 1 else 0 := rfl
  rw [hunfold]
  simp only [Bool.or_eq_true, decide_eq_true_eq, List.length_pos_iff]
  grind

theorem filesChanged_ofTexts {old new : Text} (h : old ≠ new) :
    (stats (ofTexts old new)).filesChanged = 1 := by
  have hmake := makesUp_diff (lines old) (lines new)
  rw [filesChanged_stats, if_neg]
  rintro ⟨hold, hnew⟩
  have hlines := flatMap_old_eq_new hold hnew
  rw [ofTexts, hmake.old_eq, hmake.new_eq] at hlines
  exact h (by rw [← flatten_lines old, hlines, flatten_lines])

end Rewrap.LineDiff
