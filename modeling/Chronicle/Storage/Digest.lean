/-!
# Digests

`Digest.of` sums a row of bytes up in five words, the secure hash of 160 bits by which stored objects
are named. Bytes are taken in blocks of sixteen words; each block is stirred into the digest in eighty
rounds.
-/

namespace Chronicle

/-- A row of bytes. -/
abbrev Bytes := List UInt8

/-- A text as bytes. -/
def Bytes.ofText (s : String) : Bytes := s.toUTF8.toList

/-- A number as `width` bytes, the highest first; what does not fit is cut off. -/
def Bytes.ofNat (width n : Nat) : Bytes := (List.range width).reverse.map fun i => UInt8.ofNat (n >>> (8 * i))

/-- Five words that sum bytes up. -/
structure Digest where
  a : UInt32
  b : UInt32
  c : UInt32
  d : UInt32
  e : UInt32
  deriving DecidableEq

namespace Digest

/-- The digest before any block. -/
def start : Digest := ⟨0x67452301, 0xefcdab89, 0x98badcfe, 0x10325476, 0xc3d2e1f0⟩

/-- Turns the bits of a word. -/
def turned (n x : UInt32) : UInt32 := (x <<< n) ||| (x >>> (32 - n))

/-- What the `i`-th round makes of the three middle words. -/
def stirred (i : Nat) (h : Digest) : UInt32 :=
  if i < 20 then ((h.b &&& h.c) ||| (~~~h.b &&& h.d)) + 0x5a827999
  else if i < 40 then (h.b ^^^ h.c ^^^ h.d) + 0x6ed9eba1
  else if i < 60 then ((h.b &&& h.c) ||| (h.b &&& h.d) ||| (h.c &&& h.d)) + 0x8f1bbcdc
  else (h.b ^^^ h.c ^^^ h.d) + 0xca62c1d6

/-- The `i`-th round, with a word of the block. -/
def round (i : Nat) (word : UInt32) (h : Digest) : Digest :=
  ⟨turned 5 h.a + h.stirred i + h.e + word, h.a, turned 30 h.b, h.c, h.d⟩

/-- The number of rounds for a block. -/
def roundCount : Nat := 80

/-- The last rounds; `window` has the next sixteen words. -/
def rounds : Nat → List UInt32 → Digest → Digest
  | 0, _, h => h
  | left + 1, window, h =>
    let word (i : Nat) : UInt32 := window.getD i 0
    let next := turned 1 (word 13 ^^^ word 8 ^^^ word 2 ^^^ word 0)
    rounds left (window.drop 1 ++ [next]) (h.round (roundCount - (left + 1)) (word 0))

/-- Adds word by word. -/
def plus (g h : Digest) : Digest := ⟨g.a + h.a, g.b + h.b, g.c + h.c, g.d + h.d, g.e + h.e⟩

/-- The words that bytes make, four bytes each. -/
def words : Bytes → List UInt32
  | w :: x :: y :: z :: rest =>
    ((w.toUInt32 <<< 24) ||| (x.toUInt32 <<< 16) ||| (y.toUInt32 <<< 8) ||| z.toUInt32) :: words rest
  | _ => []

/-- The number of bytes in a block. -/
def blockSize : Nat := 64

/-- Stirs blocks in. -/
def absorb : Nat → Bytes → Digest → Digest
  | 0, _, h => h
  | blocks + 1, bytes, h =>
    absorb blocks (bytes.drop blockSize) (h.plus (rounds roundCount (words (bytes.take blockSize)) h))

/-- Bytes made up to whole blocks, the last of which ends in the number of bits. -/
def padded (bytes : Bytes) : Bytes :=
  let size := bytes.length
  bytes ++ 0x80 :: List.replicate ((119 - size % blockSize) % blockSize) 0 ++ Bytes.ofNat 8 (8 * size)

/-- The digest of bytes. -/
def of (bytes : Bytes) : Digest :=
  let all := padded bytes
  absorb (all.length / blockSize) all start

/-- A digest as twenty bytes. -/
def toBytes (h : Digest) : Bytes := [h.a, h.b, h.c, h.d, h.e].flatMap fun w => Bytes.ofNat 4 w.toNat

/-- A digest as forty hexadecimal digits. -/
def toHex (h : Digest) : String :=
  String.ofList (h.toBytes.flatMap fun b => [Nat.digitChar (b.toNat / 16), Nat.digitChar (b.toNat % 16)])

end Digest

end Chronicle
