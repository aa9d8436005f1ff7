/-
User-perceived characters. A text is cut into clusters that belong together on screen:
a letter with its marks, a syllable written in parts, a flag of two letters, a picture
made of several by joiners.

The classes of characters that decide where one cluster ends and the next begins are sets of
characters in runs. Every table holds its runs as the ranges of a number table. Syllables of
Hangul follow from arithmetic and have no table.
-/

import TreeCheck.Text.Number

namespace TreeCheck.Text

/-- Runs of characters in order, each with its first and its last one. -/
structure Ranges where
  runs : List (Nat × Nat)

namespace Ranges

def ofText (text : String) : Ranges := ⟨Hex.ranges 0 (Hex.numbers text)⟩

def contains (ranges : Ranges) (character : Char) : Bool :=
  ranges.runs.any fun (first, last) => first ≤ character.toNat && character.toNat ≤ last

end Ranges

end TreeCheck.Text

namespace TreeCheck.Text.Grapheme

/-- Controls, format characters and separators, which always stand alone. -/
def controlText : String :=
"0 9 1 1 1 11 5f 20 d 0 56e 0 11f1 0 7fc 0 2 1 18 6 31 f de8f 0 f0 b 3434 f 8860 3 14cf 7 c2e85 1f
60 7f f0 e0f"

/-- Marks that extend what stands before them. -/
def extendText : String :=
"300 6f 113 6 107 2c 1 0 1 1 1 1 1 0 48 a 30 14 10 0 65 6 2 5 2 1 1 3 23 0 1e 1a 5b a 3a 8 9 0 18 3
1 8 1 2 1 4 2b 2 3c 7 2a 17 1 1f 37 0 1 0 4 7 4 0 3 6 a 1 1d 0 3a 0 1 0 2 3 8 0 9 0 a 1 1a 0 2 1
39 0 4 1 4 1 2 2 3 0 1e 1 3 0 b 1 39 0 4 4 1 1 4 0 14 1 16 5 1 0 3a 0 1 1 1 3 8 0 7 2 a 1 1e 0 3b
0 1 0 c 0 9 0 28 0 3 0 37 0 1 2 5 2 1 3 7 1 b 1 1d 0 3a 0 2 0 2 0 3 0 5 1 7 1 b 1 1c 1 39 1 1 0 2
3 8 0 9 0 a 1 1d 0 48 0 4 0 2 2 1 0 8 0 51 0 2 6 c 7 62 0 2 8 b 6 49 1 1b 0 1 0 1 0 37 d 1 4 1 1 5
a 1 23 9 0 66 3 1 5 1 1 2 1 19 1 4 2 10 3 d 0 2 1 6 0 f 0 2bf 2 3b2 2 1d 1 1e 1 1e 1 40 1 1 6 8 0
2 a 9 0 2d 2 1 0 75 1 22 0 76 2 4 1 9 0 6 2 db 1 2 0 3a 0 1 6 1 0 1 0 2 7 6 9 2 0 30 1e 31 3 30 6
1 0 5 0 28 8 c 1 20 3 2 1 1 2 38 0 1 1 3 0 1 2 3a 7 2 1 98 2 1 c 1 6 4 0 6 0 3 1 c6 3f 20c 0 c3 20
bfe 2 8d 0 60 1f 22a 5 69 1 75d4 3 1 9 20 1 50 1 110 0 3 0 4 0 19 1 5 0 97 1 1a 11 d 0 26 7 19 a
2e 2 30 0 2 3 2 1 27 0 43 5 2 1 2 1 c 0 8 0 2f 0 33 0 1 2 2 1 5 1 1 0 2a 1 8 0 ee 0 2 0 4 0 4f30 0
2e1 f 10 f 16e 1 25d 0 e2 0 95 4 686 2 1 1 5 3 28 2 4 0 a5 1 23d 3 183 1 50 2 46 a 31 3 7b 0 36 e
29 0 2 1 a 2 31 3 2 1 7 0 3d 2 24 4 1 7 3e 0 c 1 34 8 a 3 2 0 5f 2 2 0 1 1 6 0 2 0 9d 0 3 7 15 1
39 1 1 0 1 0 16 0 e 6 3 4 c3 7 2 2 1 0 17 0 51 0 2 5 1 0 2 0 1 1 1 1 eb 0 2 3 6 1 1 1 1b 1 55 7 2
0 1 1 6a 0 1 0 2 5 1 0 65 2 2 3 1 4 103 8 1 1 f5 0 a 1 1 0 4 0 90 3 2 1 4 0 20 9 28 5 2 3 8 0 9 5
2 2 2e c 1 1 196 6 1 5 1 0 52 15 2 6 1 1 1 1 7a 5 3 0 1 1 1 6 1 0 48 1 3 0 1 0 15b 1 b 1 34 4 5 0
1 0 14fd 0 6 e 369a 4 3b 6 418 0 3f 3 51 0 4cb8 1 1261 2d 2 16 21e 0 1 2 4 4 8 7 2 6 1e 3 94 2 7bb
36 4 31 8 0 e 0 16 4 1 e 550 6 1 10 2 6 1 1 1 4 64 0 a0 6 177 0 3d 3 1fc 3 3e0 6 6d 6 ab0 4 c0c20
5f 80 ef"

/-- Marks that take up room beside what stands before them. -/
def spacingText : String :=
"903 0 37 0 2 2 8 3 1 1 32 1 3b 1 6 1 2 1 36 0 3a 2 42 0 3a 2 8 0 1 1 35 1 3c 0 6 1 2 1 72 0 1 1 3
2 1 2 34 2 3d 3 3d 1 3a 0 1 1 1 1 2 1 1 1 27 0 e 1 3b 1 5 2 1 2 35 1 4c 1 6 6 13 1 3f 0 7f 0 8a 1
3f 0 b1 0 9 1 19 1 2c 0 690 0 1e 0 81 0 7 7 1 1 15a 3 2 2 4 1 1 5 e0 1 3a 0 1 0 15 5 91 0 36 0 1 4
1 1 3d 0 1e 0 4 1 2 0 3c 0 2 2 1 0 3 1 30 7 8 1 ab 0 15 0 8b2b 1 2 0 58 1 32 f 8e 1 2f 0 30 1 4 1
2 2 6e 1 2 1 18 0 9d 0 2 1 5 0 ed 1 1 1 1 1 1 0 6413 0 1 0 7f 0 2d 2 4 1 73 0 18 1 3b 0 30 2 9 1 d
0 5d 2 3 1 1 0 aa 2 1f 1 3b 0 1 3 2 1 2 2 14 1 d1 2 8 1 3 0 6b 1 6 0 1 1 1 0 2 0 ee 1 6 3 2 0 71 2
8 1 1 0 6d 0 1 1 6 0 6f 0 105 2 9 0 f8 4 1 1 4 0 2 0 1 0 8e 2 8 3 4 0 54 0 1d 1 3e 0 197 0 e 0 6a
0 7 0 2 0 d5 4 4 1 1 0 15e 1 c 0 30 1 8 1 1 0 500f 36 68 1 6174 0 6 0"

/-- Signs that belong to what follows. -/
def prependText : String :=
"600 5 d7 0 31 0 180 1 50 0 46b 0 1036e 0 f 0 f4 1 77b 0 1 0 f8 0 49 5 2bc 0 1bb 0"

/-- Pictures, which a joiner puts together. -/
def pictureText : String :=
"a9 0 4 0 1f8d 0 c 0 d8 0 16 0 5a 5 f 1 16f 1 c 0 5f 0 46 0 19 a 4 2 c7 0 e7 1 a 0 9 0 3a 3 1 5 1 b
1 71 a 75 2 a 1 0 1 0 6 0 3 0 6 0 a 1 f 0 2 0 4 0 1 0 4 2 1 0 b 4 2d 2 9 0 e 0 e 0 174 1 1cf 2 13
1 33 0 4 0 4da 0 c 0 259 0 1 0 1bd66 ff d 2 1f 0 3c 5 c 1 e 0 2 9 12 38 1b e a 0 14 0 2 8 1 3 9
1b1 5 13d 8 109 30 7f 74 b 55 2a c 3 38 7 a 5 28 7 1e 51 c 2e 1 9 1 1b8 100 3fd"

def controls : Ranges := .ofText controlText
def extenders : Ranges := .ofText extendText
def spacings : Ranges := .ofText spacingText
def prepends : Ranges := .ofText prependText
def pictures : Ranges := .ofText pictureText

end TreeCheck.Text.Grapheme

namespace TreeCheck.Text.Grapheme

inductive Class where
  | other | carriageReturn | lineFeed | control | extend | joiner | regional | prepend | spacing
  | leading | vowel | trailing | openSyllable | closedSyllable | picture
  deriving DecidableEq, Repr

/-- The class of a Hangul letter or syllable. A syllable is open when it has no consonant at
its end, which every twenty-eighth has not. -/
def hangul? (code : Nat) : Option Class :=
  if (0x1100 ≤ code ∧ code ≤ 0x115f) ∨ (0xa960 ≤ code ∧ code ≤ 0xa97c) then some .leading
  else if (0x1160 ≤ code ∧ code ≤ 0x11a7) ∨ (0xd7b0 ≤ code ∧ code ≤ 0xd7c6) then some .vowel
  else if (0x11a8 ≤ code ∧ code ≤ 0x11ff) ∨ (0xd7cb ≤ code ∧ code ≤ 0xd7fb) then some .trailing
  else if 0xac00 ≤ code ∧ code ≤ 0xd7a3 then
    some (if (code - 0xac00) % 28 = 0 then .openSyllable else .closedSyllable)
  else none

def classOf (character : Char) : Class :=
  let code := character.toNat
  if code = 0xd then .carriageReturn
  else if code = 0xa then .lineFeed
  else if 0x20 ≤ code ∧ code < 0x7f then .other
  else if code = 0x200d then .joiner
  else if 0x1f1e6 ≤ code ∧ code ≤ 0x1f1ff then .regional
  else
    match hangul? code with
    | some hangul => hangul
    | none =>
      if extenders.contains character then .extend
      else if controls.contains character then .control
      else if spacings.contains character then .spacing
      else if prepends.contains character then .prepend
      else if pictures.contains character then .picture
      else .other

/-- Classes behind and before which there is always a cut. -/
def Class.standsAlone : Class → Bool
  | .control | .carriageReturn | .lineFeed => true
  | _ => false

/-- What is remembered of the cluster so far: the class at its end, whether a picture with
marks stands there, whether such a picture is followed by a joiner, and whether an odd number
of regional letters stands there. -/
structure Tail where
  last : Class
  afterPicture : Bool := false
  joined : Bool := false
  oddRegional : Bool := false

namespace Tail

def start (first : Class) : Tail :=
  { last := first, afterPicture := first = .picture, oddRegional := first = .regional }

/-- What is remembered with one more character in the cluster. -/
def extend (tail : Tail) (next : Class) : Tail :=
  { last := next
    afterPicture := next = .picture || (tail.afterPicture && next = .extend)
    joined := tail.afterPicture && next = .joiner
    oddRegional := next = .regional && !tail.oddRegional }

/-- Whether the next character belongs to the cluster. -/
def joins (tail : Tail) (next : Class) : Bool :=
  match tail.last, next with
  | .carriageReturn, .lineFeed => true
  | last, next =>
    if last.standsAlone || next.standsAlone then false
    else
      match last, next with
      | .leading, .leading | .leading, .vowel | .leading, .openSyllable
      | .leading, .closedSyllable => true
      | .openSyllable, .vowel | .vowel, .vowel | .openSyllable, .trailing
      | .vowel, .trailing => true
      | .closedSyllable, .trailing | .trailing, .trailing => true
      | _, .extend | _, .joiner | _, .spacing => true
      | .prepend, _ => true
      | .joiner, .picture => tail.joined
      | .regional, .regional => tail.oddRegional
      | _, _ => false

end Tail

/-- Cuts behind a cluster that is being read, given in reverse. -/
def clustersFrom (tail : Tail) (cluster : List Char) : List Char → List (List Char)
  | [] => [cluster.reverse]
  | character :: rest =>
    let next := classOf character
    if tail.joins next then clustersFrom (tail.extend next) (character :: cluster) rest
    else cluster.reverse :: clustersFrom (.start next) [character] rest

/-- The clusters of a text. -/
def clusters : List Char → List (List Char)
  | [] => []
  | character :: rest => clustersFrom (.start (classOf character)) [character] rest

end TreeCheck.Text.Grapheme
