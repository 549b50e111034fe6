/-! # Edit scripts

An edit script turns one list into another by keeping, deleting and inserting runs of elements. It
is found by divide and conquer: what two ranges have in common at their ends is kept, and what lies
between is cut at a point on a shortest path through the edit graph. -/

namespace Rewrap.LineDiff

variable {α : Type}

/-- A run of an edit script. A deletion remembers how many elements of the new list were thought to
stand before it when it was found, and an insertion the same of the old list. -/
inductive Op (α : Type) where
  | keep (xs : List α)
  | delete (xs : List α) (newIndex : Int)
  | insert (xs : List α) (oldIndex : Int)

namespace Op

/-- The elements of the run. -/
def elements : Op α → List α
  | .keep xs | .delete xs _ | .insert xs _ => xs

/-- The elements that the run takes from the old list. -/
def old : Op α → List α
  | .keep xs | .delete xs _ => xs
  | .insert .. => []

/-- The elements that the run gives to the new list. -/
def new : Op α → List α
  | .keep xs | .insert xs _ => xs
  | .delete .. => []

end Op

/-- The number of elements that two lists have in common at their start. -/
def commonPrefix [BEq α] : List α → List α → Nat
  | x :: xs, y :: ys => if x == y then commonPrefix xs ys + 1 else 0
  | _, _ => 0

/-- The number of elements that two lists have in common at their end. -/
def commonSuffix [BEq α] (xs ys : List α) : Nat := commonPrefix xs.reverse ys.reverse

/-! ## The cut

Diagonal `k` of the edit graph holds the points with `k` more elements of the old list than of the
new one. A frontier gives, for each diagonal, how far the old list has been followed with the edits
made so far. Two frontiers grow in turn, one from each end, until they meet on a diagonal. -/

/-- The furthest points by diagonal; `offset` is the place of diagonal 0. -/
structure Frontier where
  offset : Nat
  reach : Array Nat

namespace Frontier

/-- A frontier with room for `edits` diagonals on either side. -/
def start (edits : Nat) : Frontier := ⟨edits, Array.replicate (2 * edits + 1) 0⟩

def get (f : Frontier) (k : Int) : Nat := f.reach.getD (k + f.offset).toNat 0

def set (f : Frontier) (k : Int) (x : Nat) : Frontier :=
  { f with reach := f.reach.setIfInBounds (k + f.offset).toNat x }

/-- Where the best path with one edit more arrives on diagonal `k`: by a deletion or by an
insertion, whichever gets further. -/
def step (f : Frontier) (d : Nat) (k : Int) : Nat :=
  if k == -d || (k != d && f.get (k - 1) < f.get (k + 1)) then f.get (k + 1) else f.get (k - 1) + 1

end Frontier

/-- The number of equal elements from places `x` and `y` on. -/
def snake [BEq α] (old new : Array α) (x y : Nat) : Nat → Nat
  | 0 => 0
  | n + 1 =>
      match old[x]?, new[y]? with
      | some a, some b => if a == b then snake old new (x + 1) (y + 1) n + 1 else 0
      | _, _ => 0

/-- One round of a frontier over the diagonals `k`, `k - 2`, …, of which there are `n`: the
frontier it leaves, or the first diagonal where it meets the other frontier, with the points before
and after the equal elements there. -/
def advance [BEq α] (old new : Array α) (d : Nat) (connects : Int → Nat → Bool) :
    Nat → Int → Frontier → Frontier ⊕ (Int × Nat × Nat)
  | 0, _, f => .inl f
  | n + 1, k, f =>
      let before := f.step d k
      let after := before + snake old new before (before - k).toNat (old.size - before)
      if connects k after then .inr (k, before, after)
      else advance old new d connects n (k - 2) (f.set k after)

/-- The rounds from `d` edits on, of which at most `n` are made. -/
def cutFrom [BEq α] (old new oldReversed newReversed : Array α) :
    Nat → Nat → Frontier → Frontier → Option (Nat × Nat)
  | 0, _, _, _ => none
  | n + 1, d, forward, backward =>
      let delta : Int := (old.size : Int) - new.size
      let odd := delta % 2 != 0
      let meets (other : Frontier) (slack : Int) (k : Int) (x : Nat) : Bool :=
        (k - delta).natAbs ≤ slack && old.size ≤ x + other.get (delta - k)
      match advance old new d (fun k x => odd && meets backward (d - 1) k x) (d + 1) d forward with
      | .inr (k, x, _) => some (x, (x - k).toNat)
      | .inl forward =>
          match advance oldReversed newReversed d (fun k x => !odd && meets forward d k x)
              (d + 1) d backward with
          | .inr (k, _, x) => some (old.size - x, new.size - (x - k).toNat)
          | .inl backward => cutFrom old new oldReversed newReversed n (d + 1) forward backward

/-- Where two lists that differ are to be cut: how many elements of each come before the cut. -/
def cut [BEq α] (old new : List α) : Option (Nat × Nat) :=
  let rounds := (old.length + new.length + 1) / 2 + 1
  cutFrom old.toArray new.toArray old.reverse.toArray new.reverse.toArray rounds 0
    (.start rounds) (.start rounds)

/-! ## The script -/

/-- The run that keeps the elements, if there are any. -/
def keeping (xs : List α) : List (Op α) := if xs.isEmpty then [] else [.keep xs]

/-- A script from `old` to `new`, which stand at the given places of the whole lists. At most `n`
cuts are nested; after that the old elements are deleted and the new ones inserted. -/
def scriptFrom [BEq α] (n : Nat) (oldIndex newIndex : Nat) (old new : List α) : List (Op α) :=
  match n with
  | 0 => [.delete old newIndex, .insert new (oldIndex + old.length)]
  | n + 1 =>
      let lead := commonPrefix old new
      let oldIndex := oldIndex + lead
      let newIndex := newIndex + lead
      let oldRest := old.drop lead
      let newRest := new.drop lead
      let trail := commonSuffix oldRest newRest
      let oldMiddle := oldRest.take (oldRest.length - trail)
      let newMiddle := newRest.take (newRest.length - trail)
      let middle :=
        if oldMiddle.isEmpty && newMiddle.isEmpty then []
        else if newMiddle.isEmpty then [.delete oldMiddle newIndex]
        else if oldMiddle.isEmpty then [.insert newMiddle oldIndex]
        else
          match cut oldMiddle newMiddle with
          | some (x, y) =>
              scriptFrom n oldIndex newIndex (oldMiddle.take x) (newMiddle.take y)
                ++ scriptFrom n (oldIndex + x) (newIndex + y) (oldMiddle.drop x) (newMiddle.drop y)
          | none => [.delete oldMiddle newIndex, .insert newMiddle (oldIndex + oldMiddle.length)]
      keeping (old.take lead) ++ middle ++ keeping (oldRest.drop (oldRest.length - trail))

/-- A script from `old` to `new`. Each cut leaves fewer elements on both of its sides, so there are
never more nested cuts than elements. -/
def script [BEq α] (old new : List α) : List (Op α) :=
  scriptFrom (old.length + new.length + 1) 0 0 old new

end Rewrap.LineDiff
