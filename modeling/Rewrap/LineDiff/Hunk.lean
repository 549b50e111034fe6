import Rewrap.LineDiff.Compaction

/-! # Blocks and hunks

A block of a diff is kept on both sides, or it is a change: some old elements give way to some new
ones. A hunk is a run of blocks whose changes lie close together, with some of the kept elements
around them. -/

namespace Rewrap.LineDiff

variable {α : Type}

/-- A block of a diff. A change that only deletes or only inserts has a recorded place on the side
where it is empty. -/
inductive Block (α : Type) where
  | kept (xs : List α)
  | change (deleted inserted : List α) (oldIndex newIndex : Int)

/-- A block with the numbers of old and of new elements before it. -/
structure Placed (α : Type) where
  block : Block α
  oldStart : Int
  newStart : Int

namespace Block

def old : Block α → List α
  | .kept xs => xs
  | .change xs _ _ _ => xs

def new : Block α → List α
  | .kept xs => xs
  | .change _ ys _ _ => ys

end Block

/-- The range of old elements: from the first to the one after the last. -/
def Placed.oldRange (p : Placed α) : Int × Int :=
  match p.block with
  | .change [] _ i _ => (i, i)
  | b => (p.oldStart, p.oldStart + b.old.length)

/-- The range of new elements. -/
def Placed.newRange (p : Placed α) : Int × Int :=
  match p.block with
  | .change _ [] _ i => (i, i)
  | b => (p.newStart, p.newStart + b.new.length)

/-- The blocks of a script: neighbouring runs that are kept become one, and so do the deletions and
insertions between them. -/
def blocks : List (Op α) → List (Block α)
  | [] => []
  | .keep xs :: runs =>
      match blocks runs with
      | .kept ys :: bs => .kept (xs ++ ys) :: bs
      | bs => .kept xs :: bs
  | .delete xs i :: runs =>
      match blocks runs with
      | .change ds is j _ :: bs => .change (xs ++ ds) is j i :: bs
      | bs => .change xs [] 0 i :: bs
  | .insert xs j :: runs =>
      match blocks runs with
      | .change ds is _ i :: bs => .change ds (xs ++ is) j i :: bs
      | bs => .change [] xs j 0 :: bs

/-- The blocks of the compacted script from one list to another. -/
def diff [BEq α] (old new : List α) : List (Block α) := blocks (compact (script old new))

/-- The blocks with their places. -/
def place (i j : Int) : List (Block α) → List (Placed α)
  | [] => []
  | b :: bs => ⟨b, i, j⟩ :: place (i + b.old.length) (j + b.new.length) bs

/-! ## Grouping -/

/-- Only the last `n` elements of a kept block. -/
def Placed.keepLast (n : Nat) (p : Placed α) : Placed α :=
  match p.block with
  | .kept xs =>
      let cut := xs.length - n
      ⟨.kept (xs.drop cut), p.oldStart + cut, p.newStart + cut⟩
  | _ => p

/-- Only the first `n` elements of a kept block. -/
def Placed.keepFirst (n : Nat) (p : Placed α) : Placed α :=
  match p.block with
  | .kept xs => { p with block := .kept (xs.take n) }
  | _ => p

/-- Applies a function to the last element. -/
def mapLast (f : Placed α → Placed α) : List (Placed α) → List (Placed α)
  | [] => []
  | [p] => [f p]
  | p :: ps => p :: mapLast f ps

/-- Splits the blocks into hunks at every kept block of more than `2 * n` elements, which ends one
hunk and begins the next. A last hunk without a change is left out. -/
def group (n : Nat) (pending : List (Placed α)) : List (Placed α) → List (List (Placed α))
  | [] =>
      match pending with
      | [] => []
      | [⟨.kept _, _, _⟩] => []
      | _ => [pending]
  | p :: ps =>
      match p.block with
      | .kept xs =>
          if 2 * n < xs.length then (pending ++ [p.keepFirst n]) :: group n [p.keepLast n] ps
          else group n (pending ++ [p]) ps
      | .change .. => group n (pending ++ [p]) ps

/-- The hunks of a diff with `n` elements of context. -/
def hunks (n : Nat) (bs : List (Block α)) : List (List (Placed α)) :=
  match place 0 0 bs with
  | [] => []
  | p :: ps => group n [] (mapLast (Placed.keepFirst n) (p.keepLast n :: ps))

end Rewrap.LineDiff
