import Rewrap.LineDiff.Script

/-! # Compaction of edit scripts

A deletion or insertion can be moved past what is kept beside it when the same elements stand on its
other side. Every change is moved up as far as it goes and then down as far as it goes, and changes
of one kind that meet become one. First the deletions are moved, then the insertions. -/

namespace Rewrap.LineDiff

variable {α : Type} [BEq α]

/-- A script taken apart at one run. The runs before it are listed from the nearest on. -/
structure Focus (α : Type) where
  before : List (Op α)
  run : Op α
  after : List (Op α)

namespace Focus

/-- The whole script. -/
def runs (f : Focus α) : List (Op α) := f.before.reverse ++ f.run :: f.after

/-- Kept elements in front of runs; they join a run that is kept already. -/
def consKept (xs : List α) : List (Op α) → List (Op α)
  | .keep ys :: runs => .keep (xs ++ ys) :: runs
  | runs => .keep xs :: runs

/-- Kept elements before runs that are listed from the nearest on. -/
def snocKept (xs : List α) : List (Op α) → List (Op α)
  | .keep ys :: runs => .keep (ys ++ xs) :: runs
  | runs => .keep xs :: runs

/-- One step up: a merge, a swap, or a shift of an insertion; `none` when the run is stuck. -/
def up? (f : Focus α) : Option (Focus α) :=
  match f.before, f.run with
  | .insert xs i :: before, .insert ys _ => some ⟨before, .insert (xs ++ ys) i, f.after⟩
  | .delete xs i :: before, .delete ys _ => some ⟨before, .delete (xs ++ ys) i, f.after⟩
  | .delete xs i :: before, .insert .. => some ⟨before, f.run, .delete xs i :: f.after⟩
  | .insert xs i :: before, .delete .. => some ⟨before, f.run, .insert xs i :: f.after⟩
  | .keep xs :: before, .insert ys i =>
      match commonSuffix xs ys with
      | 0 => none
      | n + 1 =>
          let shift := n + 1
          let moved := ys.drop (ys.length - shift)
          let kept := xs.take (xs.length - shift)
          some ⟨keeping kept ++ before,
            .insert (moved ++ ys.take (ys.length - shift)) (i - shift), consKept moved f.after⟩
  | _, _ => none

/-- One step down: a merge, a swap, or a shift of an insertion; `none` when the run is stuck. -/
def down? (f : Focus α) : Option (Focus α) :=
  match f.run, f.after with
  | .insert xs i, .insert ys _ :: after => some ⟨f.before, .insert (xs ++ ys) i, after⟩
  | .delete xs i, .delete ys _ :: after => some ⟨f.before, .delete (xs ++ ys) i, after⟩
  | .insert .., .delete ys i :: after => some ⟨.delete ys i :: f.before, f.run, after⟩
  | .delete .., .insert ys i :: after => some ⟨.insert ys i :: f.before, f.run, after⟩
  | .insert xs i, .keep ys :: after =>
      match commonPrefix ys xs with
      | 0 => none
      | n + 1 =>
          let shift := n + 1
          let moved := xs.take shift
          some ⟨snocKept moved f.before, .insert (xs.drop shift ++ moved) (i + shift),
            keeping (ys.drop shift) ++ after⟩
  | _, _ => none

/-- Steps until the run is stuck, at most `n` of them. -/
def settle (step? : Focus α → Option (Focus α)) : Nat → Focus α → Focus α
  | 0, f => f
  | n + 1, f =>
      match step? f with
      | some f => settle step? n f
      | none => f

end Focus

/-- The number of runs and elements, which bounds the steps that a run can make in one direction. -/
def weight (runs : List (Op α)) : Nat := runs.foldr (fun r n => r.elements.length + 1 + n) 0

/-- Moves the runs of one kind, from those at the front of `after` on. A run that meets another on
its way up joins it there, and what it passed comes after it again; at most `n` runs are looked
at. -/
def compactFrom (isKind : Op α → Bool) : Nat → List (Op α) → List (Op α) → List (Op α)
  | 0, before, after => before.reverse ++ after
  | _ + 1, before, [] => before.reverse
  | n + 1, before, run :: after =>
      if isKind run then
        let f := Focus.settle Focus.up? (weight before) ⟨before, run, after⟩
        let f := Focus.settle Focus.down? (weight f.after) f
        compactFrom isKind n (f.run :: f.before) f.after
      else compactFrom isKind n (run :: before) after

/-- Moves all runs of one kind. Between two runs that join each run is looked at once. -/
def compactKind (isKind : Op α → Bool) (runs : List (Op α)) : List (Op α) :=
  compactFrom isKind (weight runs * (weight runs + 1)) [] runs

/-- The script with its deletions and then its insertions moved. -/
def compact (runs : List (Op α)) : List (Op α) :=
  let isDelete : Op α → Bool := fun | .delete .. => true | _ => false
  let isInsert : Op α → Bool := fun | .insert .. => true | _ => false
  compactKind isInsert (compactKind isDelete runs)

end Rewrap.LineDiff
