/-!
# Digests of content

Two texts are taken to be the same when their digests are.  The digest is the 128-bit XXH3 hash of
the bytes, without a seed and under the default secret.  It is written as sixteen bytes in
hexadecimal, the low half first and the least byte of each half first.

The hash treats short, middle and long inputs by different rules:

* **up to 16 bytes** — `ofTiny`, `ofSmall`, `ofMedium` read the input once or twice with overlap;
* **up to 240 bytes** — `ofUpTo128` and `ofUpTo240` mix pairs of 16-byte pieces into two sums;
* **beyond** — `ofLong` runs eight sums over stripes of 64 bytes, stirred after every 16 stripes.
-/

namespace UtilityCss

/-- A 128-bit digest. -/
structure Digest where
  low : UInt64
  high : UInt64
  deriving DecidableEq, Repr, Inhabited

namespace Digest

/-! ## Constants

The secret, the primes of either width in their order, and the two multipliers of the final mixing. -/

/-- The default secret, mixed into the input. -/
def secret : ByteArray := ⟨#[
  0xb8, 0xfe, 0x6c, 0x39, 0x23, 0xa4, 0x4b, 0xbe, 0x7c, 0x01, 0x81, 0x2c, 0xf7, 0x21, 0xad, 0x1c,
  0xde, 0xd4, 0x6d, 0xe9, 0x83, 0x90, 0x97, 0xdb, 0x72, 0x40, 0xa4, 0xa4, 0xb7, 0xb3, 0x67, 0x1f,
  0xcb, 0x79, 0xe6, 0x4e, 0xcc, 0xc0, 0xe5, 0x78, 0x82, 0x5a, 0xd0, 0x7d, 0xcc, 0xff, 0x72, 0x21,
  0xb8, 0x08, 0x46, 0x74, 0xf7, 0x43, 0x24, 0x8e, 0xe0, 0x35, 0x90, 0xe6, 0x81, 0x3a, 0x26, 0x4c,
  0x3c, 0x28, 0x52, 0xbb, 0x91, 0xc3, 0x00, 0xcb, 0x88, 0xd0, 0x65, 0x8b, 0x1b, 0x53, 0x2e, 0xa3,
  0x71, 0x64, 0x48, 0x97, 0xa2, 0x0d, 0xf9, 0x4e, 0x38, 0x19, 0xef, 0x46, 0xa9, 0xde, 0xac, 0xd8,
  0xa8, 0xfa, 0x76, 0x3f, 0xe3, 0x9c, 0x34, 0x3f, 0xf9, 0xdc, 0xbb, 0xc7, 0xc7, 0x0b, 0x4f, 0x1d,
  0x8a, 0x51, 0xe0, 0x4b, 0xcd, 0xb4, 0x59, 0x31, 0xc8, 0x9f, 0x7e, 0xc9, 0xd9, 0x78, 0x73, 0x64,
  0xea, 0xc5, 0xac, 0x83, 0x34, 0xd3, 0xeb, 0xc3, 0xc5, 0x81, 0xa0, 0xff, 0xfa, 0x13, 0x63, 0xeb,
  0x17, 0x0d, 0xdd, 0x51, 0xb7, 0xf0, 0xda, 0x49, 0xd3, 0x16, 0x55, 0x26, 0x29, 0xd4, 0x68, 0x9e,
  0x2b, 0x16, 0xbe, 0x58, 0x7d, 0x47, 0xa1, 0xfc, 0x8f, 0xf8, 0xb8, 0xd1, 0x7a, 0xd0, 0x31, 0xce,
  0x45, 0xcb, 0x3a, 0x8f, 0x95, 0x16, 0x04, 0x28, 0xaf, 0xd7, 0xfb, 0xca, 0xbb, 0x4b, 0x40, 0x7e]⟩

def prime32a : UInt64 := 0x9E3779B1
def prime32b : UInt64 := 0x85EBCA77
def prime32c : UInt64 := 0xC2B2AE3D
def prime64a : UInt64 := 0x9E3779B185EBCA87
def prime64b : UInt64 := 0xC2B2AE3D27D4EB4F
def prime64c : UInt64 := 0x165667B19E3779F9
def prime64d : UInt64 := 0x85EBCA77C2B2AE63
def prime64e : UInt64 := 0x27D4EB2F165667C5
def mixerA : UInt64 := 0x165667919E3779F9
def mixerB : UInt64 := 0x9FB21C651E98DF25

/-! ## Words -/

/-- The byte at an index, as a word; zero past the end. -/
def byteAt (b : ByteArray) (i : Nat) : UInt64 :=
  if h : i < b.size then b[i].toUInt64 else 0

/-- The `n` bytes from an index on, the least first. -/
def littleEndian (b : ByteArray) (i n : Nat) : UInt64 :=
  (List.range n).foldr (fun k acc => acc * 256 + byteAt b (i + k)) 0

def word32 (b : ByteArray) (i : Nat) : UInt64 := littleEndian b i 4

def word64 (b : ByteArray) (i : Nat) : UInt64 := littleEndian b i 8

def low32 (x : UInt64) : UInt64 := x &&& 0xFFFFFFFF

/-- The low `n` bytes of a word in opposite order. -/
def swapped (n : Nat) (x : UInt64) : UInt64 :=
  (List.range n).foldl (fun acc k => acc * 256 + (x >>> UInt64.ofNat (8 * k)) % 256) 0

def rotate32 (x n : UInt64) : UInt64 :=
  low32 ((x <<< n) ||| (x >>> (32 - n)))

/-- The two halves of the 128-bit product of two words. -/
def product (a b : UInt64) : Digest :=
  let p := a.toNat * b.toNat
  ⟨UInt64.ofNat p, UInt64.ofNat (p >>> 64)⟩

/-- The two halves of a product laid over each other. -/
def foldedProduct (a b : UInt64) : UInt64 :=
  let p := product a b
  p.low ^^^ p.high

/-- A word laid over itself shifted to the right. -/
def shiftOver (x n : UInt64) : UInt64 := x ^^^ (x >>> n)

/-- Final mixing of a sum. -/
def avalanche (x : UInt64) : UInt64 :=
  shiftOver (shiftOver x 37 * mixerA) 32

/-- Final mixing of the shortest inputs. -/
def strongAvalanche (x : UInt64) : UInt64 :=
  shiftOver (shiftOver (shiftOver x 33 * prime64b) 29 * prime64c) 32

/-- The exclusive or of two neighbouring words of the secret. -/
def secretPair64 (i : Nat) : UInt64 := word64 secret i ^^^ word64 secret (i + 8)

/-! ## Up to 16 bytes -/

/-- The digest of no bytes. -/
def ofNothing : Digest :=
  ⟨strongAvalanche (secretPair64 64), strongAvalanche (secretPair64 80)⟩

/-- The digest of one to three bytes. -/
def ofTiny (b : ByteArray) : Digest :=
  let n := b.size
  let low := (byteAt b 0 <<< 16) ||| (byteAt b (n / 2) <<< 24) ||| byteAt b (n - 1) |||
    (UInt64.ofNat n <<< 8)
  let high := rotate32 (swapped 4 low) 13
  ⟨strongAvalanche (low ^^^ word32 secret 0 ^^^ word32 secret 4),
    strongAvalanche (high ^^^ word32 secret 8 ^^^ word32 secret 12)⟩

/-- The digest of four to eight bytes. -/
def ofSmall (b : ByteArray) : Digest :=
  let n := b.size
  let input := word32 b 0 + (word32 b (n - 4) <<< 32)
  let m := product (input ^^^ secretPair64 16) (prime64a + (UInt64.ofNat n <<< 2))
  let high := m.high + (m.low <<< 1)
  let low := m.low ^^^ (high >>> 3)
  ⟨shiftOver (shiftOver low 35 * mixerB) 28, avalanche high⟩

/-- The digest of nine to sixteen bytes. -/
def ofMedium (b : ByteArray) : Digest :=
  let n := b.size
  let first := word64 b 0
  let last := word64 b (n - 8)
  let m := product (first ^^^ last ^^^ secretPair64 32) prime64a
  let low := m.low + (UInt64.ofNat (n - 1) <<< 54)
  let keyed := last ^^^ secretPair64 48
  let high := m.high + keyed + low32 keyed * (prime32b - 1)
  let h := product (low ^^^ swapped 8 high) prime64b
  ⟨avalanche h.low, avalanche (h.high + high * prime64b)⟩

/-! ## Up to 240 bytes -/

/-- Sixteen bytes under sixteen bytes of the secret. -/
def mix16 (b : ByteArray) (i s : Nat) : UInt64 :=
  foldedProduct (word64 b i ^^^ word64 secret s) (word64 b (i + 8) ^^^ word64 secret (s + 8))

/-- Adds two 16-byte pieces, at `i` and `j`, to a pair of sums. -/
def mix32 (b : ByteArray) (acc : Digest) (i j s : Nat) : Digest :=
  ⟨(acc.low + mix16 b i s) ^^^ (word64 b j + word64 b (j + 8)),
    (acc.high + mix16 b j (s + 16)) ^^^ (word64 b i + word64 b (i + 8))⟩

/-- Mixes a pair of sums to the digest of `n` bytes. -/
def finishSums (n : Nat) (acc : Digest) : Digest :=
  ⟨avalanche (acc.low + acc.high),
    0 - avalanche (acc.low * prime64a + acc.high * prime64d + UInt64.ofNat n * prime64b)⟩

def startSums (n : Nat) : Digest := ⟨UInt64.ofNat n * prime64a, 0⟩

/-- The digest of 17 to 128 bytes: pairs of pieces from both ends, the inner ones first. -/
def ofUpTo128 (b : ByteArray) : Digest :=
  let n := b.size
  let rounds := (List.range ((n - 1) / 32 + 1)).reverse
  finishSums n <| rounds.foldl (fun acc k => mix32 b acc (16 * k) (n - 16 * (k + 1)) (32 * k))
    (startSums n)

/-- The digest of 129 to 240 bytes. -/
def ofUpTo240 (b : ByteArray) : Digest :=
  let n := b.size
  let first := (List.range 4).foldl
    (fun acc k => mix32 b acc (32 * k) (32 * k + 16) (32 * k)) (startSums n)
  let stirred : Digest := ⟨avalanche first.low, avalanche first.high⟩
  let middle := (List.range (n / 32 - 4)).foldl
    (fun acc k => mix32 b acc (32 * (k + 4)) (32 * (k + 4) + 16) (3 + 32 * k)) stirred
  finishSums n (mix32 b middle (n - 16) (n - 32) 103)

/-! ## Beyond 240 bytes -/

def startLanes : Array UInt64 :=
  #[prime32c, prime64a, prime64b, prime64c, prime64d, prime32b, prime64e, prime32a]

def addStripe (b : ByteArray) (lanes : Array UInt64) (i s : Nat) : Array UInt64 :=
  let words := (Array.range 8).map fun k => word64 b (i + 8 * k)
  lanes.mapIdx fun k acc =>
    let keyed := words.getD k 0 ^^^ word64 secret (s + 8 * k)
    acc + words.getD (k ^^^ 1) 0 + low32 keyed * (keyed >>> 32)

/-- Adds consecutive stripes to the sums, the secret moving on by eight bytes for each. -/
def addStripes (b : ByteArray) (lanes : Array UInt64) (i count : Nat) : Array UInt64 :=
  (List.range count).foldl (fun acc k => addStripe b acc (i + 64 * k) (8 * k)) lanes

/-- Stirs the sums at the end of a block. -/
def stir (lanes : Array UInt64) : Array UInt64 :=
  lanes.mapIdx fun k acc => (shiftOver acc 47 ^^^ word64 secret (128 + 8 * k)) * prime32a

/-- Mixes the eight sums to one word. -/
def mergeLanes (lanes : Array UInt64) (s : Nat) (start : UInt64) : UInt64 :=
  avalanche <| (List.range 4).foldl (fun acc k =>
    acc + foldedProduct (lanes.getD (2 * k) 0 ^^^ word64 secret (s + 16 * k))
      (lanes.getD (2 * k + 1) 0 ^^^ word64 secret (s + 16 * k + 8))) start

/-- The digest of more than 240 bytes. -/
def ofLong (b : ByteArray) : Digest :=
  let n := b.size
  let blocks := (n - 1) / 1024
  let stirred := (List.range blocks).foldl
    (fun acc k => stir (addStripes b acc (1024 * k) 16)) startLanes
  let partialBlock := addStripes b stirred (1024 * blocks) ((n - 1 - 1024 * blocks) / 64)
  let lanes := addStripe b partialBlock (n - 64) 121
  ⟨mergeLanes lanes 11 (UInt64.ofNat n * prime64a),
    mergeLanes lanes 117 (~~~ (UInt64.ofNat n * prime64b))⟩

/-! ## The digest -/

/-- The digest of a sequence of bytes. -/
def ofBytes (b : ByteArray) : Digest :=
  if b.size = 0 then ofNothing
  else if b.size ≤ 3 then ofTiny b
  else if b.size ≤ 8 then ofSmall b
  else if b.size ≤ 16 then ofMedium b
  else if b.size ≤ 128 then ofUpTo128 b
  else if b.size ≤ 240 then ofUpTo240 b
  else ofLong b

def ofText (s : String) : Digest :=
  ofBytes s.toUTF8

/-- The bytes of a digest, the least of the low half first. -/
def bytes (d : Digest) : List Nat :=
  let half (x : UInt64) := (List.range 8).map fun k => (x.toNat >>> (8 * k)) % 256
  half d.low ++ half d.high

def hexByte (n : Nat) : String :=
  String.ofList [Nat.digitChar (n / 16), Nat.digitChar (n % 16)]

/-- The digest as 32 hexadecimal digits. -/
def hex (d : Digest) : String :=
  String.join (d.bytes.map hexByte)

/-- The first two bytes of a digest, for a glance. -/
def brief (d : Digest) : String :=
  "ContentHash(" ++ String.join ((d.bytes.take 2).map hexByte) ++ "..)"

end Digest

end UtilityCss
