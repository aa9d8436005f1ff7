/-
A digest of bytes: the standard hash function of 256 bits. Equal digests are taken to
mean equal bytes, which lets a cache recognise files without keeping them.
-/

import TreeCheck.Text.Number

namespace TreeCheck

/-- The eight words a digest is made of. -/
structure Digest where
  a : UInt32
  b : UInt32
  c : UInt32
  d : UInt32
  e : UInt32
  f : UInt32
  g : UInt32
  h : UInt32
  deriving DecidableEq, Repr

namespace Digest

/-- What a digest starts from: the fractions of the square roots of the first primes. -/
def initial : Digest :=
  ⟨0x6a09e667, 0xbb67ae85, 0x3c6ef372, 0xa54ff53a, 0x510e527f, 0x9b05688c, 0x1f83d9ab, 0x5be0cd19⟩

/-- The fractions of the cube roots of the first primes. -/
def constantText : String :=
"428a2f98 71374491 b5c0fbcf e9b5dba5 3956c25b 59f111f1 923f82a4 ab1c5ed5
d807aa98 12835b01 243185be 550c7dc3 72be5d74 80deb1fe 9bdc06a7 c19bf174
e49b69c1 efbe4786 0fc19dc6 240ca1cc 2de92c6f 4a7484aa 5cb0a9dc 76f988da
983e5152 a831c66d b00327c8 bf597fc7 c6e00bf3 d5a79147 06ca6351 14292967
27b70a85 2e1b2138 4d2c6dfc 53380d13 650a7354 766a0abb 81c2c92e 92722c85
a2bfe8a1 a81a664b c24b8b70 c76c51a3 d192e819 d6990624 f40e3585 106aa070
19a4c116 1e376c08 2748774c 34b0bcb5 391c0cb3 4ed8aa4a 5b9cca4f 682e6ff3
748f82ee 78a5636f 84c87814 8cc70208 90befffa a4506ceb bef9a3f7 c67178f2"

def constants : List UInt32 := (Text.Hex.numbers constantText).map UInt32.ofNat

def rotate (word : UInt32) (count : UInt32) : UInt32 :=
  (word >>> count) ||| (word <<< (32 - count))

/-! ### Words -/

/-- Four bytes at a time, the most significant first. -/
def wordsOf : List UInt8 → List UInt32
  | first :: second :: third :: fourth :: rest =>
    (first.toUInt32 <<< 24 ||| second.toUInt32 <<< 16 ||| third.toUInt32 <<< 8 |||
      fourth.toUInt32) :: wordsOf rest
  | _ => []

def bytesOfWord (word : UInt32) : List UInt8 :=
  [(word >>> 24).toUInt8, (word >>> 16).toUInt8, (word >>> 8).toUInt8, word.toUInt8]

/-- The next word behind some, of which the last sixteen count. -/
def nextWord (words : Array UInt32) : UInt32 :=
  let back (count : Nat) : UInt32 := words.getD (words.size - count) 0
  let near := back 2
  let far := back 15
  back 16 + (rotate far 7 ^^^ rotate far 18 ^^^ far >>> 3) + back 7 +
    (rotate near 17 ^^^ rotate near 19 ^^^ near >>> 10)

/-- The words of all rounds, from the sixteen of a block. -/
def schedule (block : List UInt32) : List UInt32 :=
  ((List.range 48).foldl (fun words _ => words.push (nextWord words)) block.toArray).toList

/-! ### Rounds -/

def round (state : Digest) (constant word : UInt32) : Digest :=
  let ⟨a, b, c, d, e, f, g, h⟩ := state
  let first := h + (rotate e 6 ^^^ rotate e 11 ^^^ rotate e 25) +
    ((e &&& f) ^^^ ((~~~e) &&& g)) + constant + word
  let second := (rotate a 2 ^^^ rotate a 13 ^^^ rotate a 22) +
    ((a &&& b) ^^^ (a &&& c) ^^^ (b &&& c))
  ⟨first + second, a, b, c, d + first, e, f, g⟩

def add (first second : Digest) : Digest :=
  ⟨first.a + second.a, first.b + second.b, first.c + second.c, first.d + second.d,
    first.e + second.e, first.f + second.f, first.g + second.g, first.h + second.h⟩

def absorb (state : Digest) (block : List UInt32) : Digest :=
  state.add ((constants.zip (schedule block)).foldl
    (fun state (constant, word) => state.round constant word) state)

/-- Absorbs sixteen words at a time, for so many blocks. -/
def absorbAll : Nat → List UInt32 → Digest → Digest
  | 0, _, state => state
  | count + 1, words, state => absorbAll count (words.drop 16) (state.absorb (words.take 16))

/-! ### Messages -/

/-- The length in bits, on eight bytes. -/
def lengthBytes (count : Nat) : List UInt8 :=
  (List.range 8).map fun index => UInt8.ofNat (count * 8 / Nat.pow 2 (8 * (7 - index)))

/-- Fills the message up to whole blocks: a mark, zeros, and the length. -/
def padded (message : List UInt8) : List UInt8 :=
  message ++ 0x80 :: List.replicate ((119 - message.length % 64) % 64) 0 ++
    lengthBytes message.length

def of (message : List UInt8) : Digest :=
  let words := wordsOf (padded message)
  absorbAll (words.length / 16) words initial

/-- The digest as 32 bytes. -/
def bytes (digest : Digest) : List UInt8 :=
  [digest.a, digest.b, digest.c, digest.d, digest.e, digest.f, digest.g, digest.h].flatMap
    bytesOfWord

def text (digest : Digest) : String := Text.Hex.ofBytes digest.bytes

theorem length_bytes (digest : Digest) : digest.bytes.length = 32 := by
  simp [bytes, bytesOfWord]

/-- A message is filled up to whole blocks of 64 bytes. -/
theorem length_padded (message : List UInt8) : (padded message).length % 64 = 0 := by
  simp only [padded, lengthBytes, List.length_append, List.length_cons, List.length_replicate,
    List.length_map, List.length_range]
  omega

end Digest

end TreeCheck
