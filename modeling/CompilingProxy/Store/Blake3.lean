import CompilingProxy.Text.Utf8

/-!
# BLAKE3

The hash of some bytes, in the default mode and with 32 bytes of output. The input is cut into
chunks of 1024 bytes, which are the leaves of a tree of chaining values; every subtree on the left
is full.
-/

namespace CompilingProxy.Blake3

/-- The words of a chaining value. -/
abbrev ChainingValue := Vector UInt32 8

/-- The words of a block of 64 bytes. -/
abbrev Block := Vector UInt32 16

def initial : ChainingValue :=
  #v[0x6a09e667, 0xbb67ae85, 0x3c6ef372, 0xa54ff53a,
    0x510e527f, 0x9b05688c, 0x1f83d9ab, 0x5be0cd19]

/-- Where each word of a message comes from in the round before. -/
def permutation : Vector (Fin 16) 16 := #v[2, 6, 3, 10, 7, 0, 4, 13, 1, 11, 12, 5, 9, 14, 15, 8]

def rotateRight (w n : UInt32) : UInt32 := (w >>> n) ||| (w <<< (32 - n))

/-- Mixes two words of a message into four words of the state. -/
def mix (s : Block) (a b c d : Fin 16) (x y : UInt32) : Block :=
  let s := s.set a (s[a] + s[b] + x)
  let s := s.set d (rotateRight (s[d] ^^^ s[a]) 16)
  let s := s.set c (s[c] + s[d])
  let s := s.set b (rotateRight (s[b] ^^^ s[c]) 12)
  let s := s.set a (s[a] + s[b] + y)
  let s := s.set d (rotateRight (s[d] ^^^ s[a]) 8)
  let s := s.set c (s[c] + s[d])
  s.set b (rotateRight (s[b] ^^^ s[c]) 7)

/-- Mixes a message into the columns of the state and then into its diagonals. -/
def round (s m : Block) : Block :=
  let s := mix s 0 4 8 12 m[0] m[1]
  let s := mix s 1 5 9 13 m[2] m[3]
  let s := mix s 2 6 10 14 m[4] m[5]
  let s := mix s 3 7 11 15 m[6] m[7]
  let s := mix s 0 5 10 15 m[8] m[9]
  let s := mix s 1 6 11 12 m[10] m[11]
  let s := mix s 2 7 8 13 m[12] m[13]
  mix s 3 4 9 14 m[14] m[15]

/-- That many rounds, with the words of the message permuted between them. -/
def rounds : Nat → Block → Block → Block
  | 0, s, _ => s
  | n + 1, s, m => rounds n (round s m) (permutation.map (m[·]))

def chunkStart : UInt32 := 1

def chunkEnd : UInt32 := 2

def parentFlag : UInt32 := 4

def rootFlag : UInt32 := 8

/-- The last compression of a chunk or of a parent, which is done one way for the root of the tree
and another way for all else. -/
structure Output where
  chaining : ChainingValue
  block : Block
  counter : Nat
  length : Nat
  flags : UInt32

/-- The chaining value after a compression. -/
def Output.compress (o : Output) (flags : UInt32) : ChainingValue :=
  let low := UInt32.ofNat o.counter
  let high := UInt32.ofNat (o.counter / UInt32.size)
  let state : Block := o.chaining ++ #v[initial[0], initial[1], initial[2], initial[3],
    low, high, UInt32.ofNat o.length, o.flags ||| flags]
  let state := rounds 7 state o.block
  Vector.ofFn fun i : Fin 8 => state[i] ^^^ state[i.val + 8]

/-- A word of four bytes, the lowest one first. -/
def word (bytes : List UInt8) : UInt32 :=
  bytes.foldr (fun b w => w * 256 + UInt32.ofNat b.toNat) 0

/-- At most 64 bytes as words, with zeros after them. -/
def blockOf (bytes : List UInt8) : Block :=
  Vector.ofFn fun i => word ((bytes.drop (4 * i.val)).take 4)

/-- The last compression of a chunk after those of its other blocks. -/
def chunk (counter : Nat) (chaining : ChainingValue) (flags : UInt32) (bytes : List UInt8) :
    Output :=
  if bytes.length ≤ 64 then
    ⟨chaining, blockOf bytes, counter, bytes.length, flags ||| chunkEnd⟩
  else
    let first : Output := ⟨chaining, blockOf (bytes.take 64), counter, 64, flags⟩
    chunk counter (first.compress 0) 0 (bytes.drop 64)
termination_by bytes.length

/-- The bytes that go to the left of two subtrees: as many full chunks as a power of two can count
with something left over. -/
def leftLength (length : Nat) : Nat := Nat.pow 2 (length - 1).log2

theorem leftLength_pos (length : Nat) : 0 < leftLength length := Nat.two_pow_pos _

theorem leftLength_lt {length : Nat} (h : 1 < length) : leftLength length < length := by
  have := Nat.log2_self_le (show length - 1 ≠ 0 by omega)
  have : Nat.pow 2 (length - 1).log2 ≤ length - 1 := this
  exact Nat.lt_of_le_of_lt this (by omega)

/-- The last compression of a tree over some bytes whose first chunk has that number. -/
def tree (counter : Nat) (bytes : List UInt8) : Output :=
  if bytes.length ≤ 1024 then chunk counter initial chunkStart bytes
  else
    let left := leftLength bytes.length
    let a := (tree counter (bytes.take left)).compress 0
    let b := (tree (counter + left / 1024) (bytes.drop left)).compress 0
    ⟨initial, a ++ b, 0, 64, parentFlag⟩
termination_by bytes.length
decreasing_by
  all_goals
    have := @leftLength_lt bytes.length (by omega)
    have := leftLength_pos bytes.length
    simp only [List.length_take, List.length_drop]
    omega

/-- The bytes of a word, the lowest one first. -/
def wordBytes (w : UInt32) : List UInt8 :=
  [w.toUInt8, (w >>> 8).toUInt8, (w >>> 16).toUInt8, (w >>> 24).toUInt8]

/-- The hash of some bytes. -/
def hash (bytes : List UInt8) : List UInt8 :=
  ((tree 0 bytes).compress rootFlag).toList.flatMap wordBytes

end CompilingProxy.Blake3
