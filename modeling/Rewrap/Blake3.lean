/-! # BLAKE3 digests

The unkeyed BLAKE3 hash. The input is cut into chunks of 1024 bytes, which are the leaves of a
binary tree; every left subtree is complete and holds as many chunks as it can. The digest is the
root's output, of which the first 32 bytes are used. -/

namespace Rewrap.Blake3

/-- Sixteen words: a block of the input, or the state of the compression. -/
abbrev Words := Vector UInt32 16

/-- Eight words that stand for what has been compressed so far. -/
abbrev Chaining := Vector UInt32 8

/-- The chaining value from which a chunk or a parent starts. -/
def initial : Chaining :=
  #v[0x6A09E667, 0xBB67AE85, 0x3C6EF372, 0xA54FF53A, 0x510E527F, 0x9B05688C, 0x1F83D9AB, 0x5BE0CD19]

/-! ## Compression -/

def rotateRight (w : UInt32) (n : UInt32) : UInt32 := (w >>> n) ||| (w <<< (32 - n))

/-- Mixes two words of the block into four words of the state. -/
def mix (s : Words) (a b c d : Fin 16) (x y : UInt32) : Words :=
  let va := s[a] + s[b] + x
  let vd := rotateRight (s[d] ^^^ va) 16
  let vc := s[c] + vd
  let vb := rotateRight (s[b] ^^^ vc) 12
  let va := va + vb + y
  let vd := rotateRight (vd ^^^ va) 8
  let vc := vc + vd
  let vb := rotateRight (vb ^^^ vc) 7
  (((s.set a va).set b vb).set c vc).set d vd

/-- Mixes the block into the columns and then into the diagonals of the state. -/
def round (s m : Words) : Words :=
  let s := mix s 0 4 8 12 m[0] m[1]
  let s := mix s 1 5 9 13 m[2] m[3]
  let s := mix s 2 6 10 14 m[4] m[5]
  let s := mix s 3 7 11 15 m[6] m[7]
  let s := mix s 0 5 10 15 m[8] m[9]
  let s := mix s 1 6 11 12 m[10] m[11]
  let s := mix s 2 7 8 13 m[12] m[13]
  mix s 3 4 9 14 m[14] m[15]

/-- The order in which the next round takes the words of the block. -/
def permute (m : Words) : Words :=
  #v[m[2], m[6], m[3], m[10], m[7], m[0], m[4], m[13], m[1], m[11], m[12], m[5], m[9], m[14], m[15],
    m[8]]

/-- The given number of rounds. -/
def rounds : Nat → Words → Words → Words
  | 0, s, _ => s
  | n + 1, s, m => rounds n (round s m) (permute m)

/-- What is compressed: a chaining value and a block with its chunk number, its length in bytes and
its flags. -/
structure Input where
  chaining : Chaining
  block : Words
  counter : Nat
  length : Nat
  flags : UInt32

/-- The chaining value after a compression, which is also the start of the digest. -/
def Input.compress (i : Input) : Chaining :=
  let h := i.chaining
  let s : Words :=
    #v[h[0], h[1], h[2], h[3], h[4], h[5], h[6], h[7], initial[0], initial[1],
      initial[2], initial[3],
      i.counter.toUInt32, (i.counter >>> 32).toUInt32, i.length.toUInt32, i.flags]
  let s := rounds 7 s i.block
  .ofFn fun k => s[k.val] ^^^ s[k.val + 8]

def chunkStart : UInt32 := 1
def chunkEnd : UInt32 := 2
def parent : UInt32 := 4
def root : UInt32 := 8

/-! ## Blocks and chunks -/

/-- The pieces of `n + 1` elements of a list, the last of which may be shorter; at most `fuel` of
them. -/
def pieces {α : Type} (n : Nat) : Nat → List α → List (List α)
  | 0, _ => []
  | _ + 1, [] => []
  | fuel + 1, xs => xs.take (n + 1) :: pieces n fuel (xs.drop (n + 1))

/-- A word from its bytes, the lowest first. -/
def word (bytes : List UInt8) : UInt32 :=
  bytes.foldr (fun b w => w <<< 8 ||| b.toUInt32) 0

/-- A block from at most 64 bytes; what is missing is zero. -/
def blockOf (bytes : List UInt8) : Words :=
  let words := ((pieces 3 16 bytes).map word).toArray
  .ofFn fun k => words.getD k.val 0

/-- The input of the last compression of a chunk, from its blocks. -/
def chunkInput (counter : Nat) : Chaining → UInt32 → List (List UInt8) → Input
  | h, flags, [] => ⟨h, blockOf [], counter, 0, flags ||| chunkEnd⟩
  | h, flags, [b] => ⟨h, blockOf b, counter, b.length, flags ||| chunkEnd⟩
  | h, flags, b :: bs =>
      chunkInput counter (Input.compress ⟨h, blockOf b, counter, b.length, flags⟩) 0 bs

/-- The input of a parent's compression. -/
def parentInput (left right : Chaining) : Input := ⟨initial, left ++ right, 0, 64, parent⟩

/-- The largest power of two below `n`, which is how many of `n` chunks go to the left. -/
def leftCount (n : Nat) : Nat := 1 <<< (n - 1).log2

/-- The input of the last compression of a tree over chunks, the first of which has the number
`counter`. The tree has at most `depth` levels. -/
def treeInput (depth counter : Nat) (chunks : List (List UInt8)) : Input :=
  match depth, chunks with
  | _, [] => chunkInput counter initial chunkStart []
  | _, [c] => chunkInput counter initial chunkStart (pieces 63 16 c)
  | 0, c :: _ => chunkInput counter initial chunkStart (pieces 63 16 c)
  | depth + 1, chunks =>
      let n := leftCount chunks.length
      parentInput (treeInput depth counter (chunks.take n)).compress
        (treeInput depth (counter + n) (chunks.drop n)).compress

/-! ## Digests -/

/-- The bytes of a word, the lowest first. -/
def bytesOf (w : UInt32) : List UInt8 :=
  [w.toUInt8, (w >>> 8).toUInt8, (w >>> 16).toUInt8, (w >>> 24).toUInt8]

/-- The digest of some bytes. -/
def digest (bytes : List UInt8) : List UInt8 :=
  let chunks := pieces 1023 bytes.length bytes
  let input := treeInput chunks.length 0 chunks
  ({ input with flags := input.flags ||| root }).compress.toList.flatMap bytesOf

/-- A byte as two hexadecimal digits. -/
def hexByte (b : UInt8) : List Char := [Nat.digitChar (b.toNat / 16), Nat.digitChar (b.toNat % 16)]

/-- The digest of some bytes in hexadecimal. -/
def hexDigest (bytes : ByteArray) : String :=
  String.ofList ((digest bytes.toList).flatMap hexByte)

end Rewrap.Blake3
