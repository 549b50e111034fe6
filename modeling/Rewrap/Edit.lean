import Rewrap.Text.Basic

/-! # Edits

An edit replaces a range of a text, given by byte offsets. A list of edits is applied in the order
of their ranges; edits with the same range keep the order in which they are listed, and any other
overlap is refused. -/

namespace Rewrap

/-- Replaces the bytes from `start` to `stop` by `replacement`. -/
structure Edit where
  start : Nat
  stop : Nat
  replacement : Text
deriving DecidableEq

namespace Edit

/-- Puts `t` at an offset. -/
def insert (offset : Nat) (t : Text) : Edit := ⟨offset, offset, t⟩

/-- Takes a range out. -/
def delete (start stop : Nat) : Edit := ⟨start, stop, []⟩

/-- The order of edits: by start, then by end. -/
def le (a b : Edit) : Bool := a.start < b.start || (a.start == b.start && a.stop ≤ b.stop)

/-- Why a list of edits cannot be applied: two edits overlap, or one has no place in the text. The
offsets are the starts of the two edits, or the range of the one. -/
structure Overlap where
  first : Nat
  second : Nat
deriving DecidableEq

/-- The first pair of neighbours of which the former ends after the latter starts. -/
def overlap? : List Edit → Option Overlap
  | a :: b :: edits =>
      if b.start < a.stop then some ⟨a.start, b.start⟩ else overlap? (b :: edits)
  | _ => none

/-- Whether both ends of the range are character boundaries of the text. -/
def fits (source : Text) (e : Edit) : Bool :=
  (source.splitAt? e.start).isSome && (source.splitAt? e.stop).isSome

/-- The bytes from `start` to `stop`, both of which are boundaries with `start ≤ stop`. -/
def slice (source : Text) (start stop : Nat) : Text :=
  match source.splitAt? start with
  | none => []
  | some (_, rest) =>
      match rest.splitAt? (stop - start) with
      | none => []
      | some (piece, _) => piece

/-- The edited text from the offset `cursor` on, for edits in order. -/
def splice (source : Text) (cursor : Nat) : List Edit → Except Overlap Text
  | [] => .ok (slice source cursor source.utf8Size)
  | e :: edits =>
      if e.fits source then do
        let rest ← splice source e.stop edits
        return slice source cursor e.start ++ e.replacement ++ rest
      else .error ⟨e.start, e.stop⟩

/-- Applies edits to a text and keeps everything outside their ranges. -/
def apply (source : Text) (edits : List Edit) : Except Overlap Text :=
  let sorted := edits.mergeSort le
  match overlap? sorted with
  | some overlap => .error overlap
  | none => splice source 0 sorted

end Edit

end Rewrap
