/-
The binary wire form, and reading it, as the specification of MessagePack has them. The first
byte of a value says what it is and, for short values, how long; longer ones carry a big-endian
length of one, two or four bytes.
Floating-point numbers and extensions occur in no document; they are kept as `other` so
that the reader can step over them and the document reader refuse them.
-/

namespace TreeCheck

inductive Msgpack where
  | nil
  | bool (value : Bool)
  | int (value : Int)
  | text (bytes : List UInt8)
  | other
  | array (items : List Msgpack)
  | map (entries : List (Msgpack × Msgpack))
  deriving Inhabited

end TreeCheck

namespace TreeCheck.Msgpack

/-- Big-endian value of a run of bytes. -/
def natOfBytes (bytes : List UInt8) : Nat :=
  bytes.foldl (fun value byte => value * 256 + byte.toNat) 0

/-- The first `count` bytes, if there are as many. -/
def takeBytes? (count : Nat) (input : List UInt8) : Option (List UInt8 × List UInt8) :=
  if count ≤ input.length then some (input.take count, input.drop count) else none

/-- An unsigned number of `width` bytes. -/
def readNat? (width : Nat) (input : List UInt8) : Option (Nat × List UInt8) :=
  (takeBytes? width input).map fun (bytes, rest) => (natOfBytes bytes, rest)

/-- A number of `width` bytes in two's complement. -/
def readInt? (width : Nat) (input : List UInt8) : Option (Int × List UInt8) :=
  (readNat? width input).map fun (value, rest) =>
    let wrap : Nat := Nat.pow 2 (8 * width)
    (if 2 * value < wrap then (value : Int) else (value : Int) - wrap, rest)

/-- A value whose bytes, `count` of them, are of no interest. -/
def skipOther? (count : Nat) (input : List UInt8) : Option (Msgpack × List UInt8) :=
  (takeBytes? count input).map fun (_, rest) => (.other, rest)

def readText? (count : Nat) (input : List UInt8) : Option (Msgpack × List UInt8) :=
  (takeBytes? count input).map fun (bytes, rest) => (.text bytes, rest)

/-- What the first byte announces. -/
inductive Head where
  | value (value : Msgpack)
  | int (width : Nat) (signed : Bool)
  | text (length : Nat)
  | sizedText (width : Nat)
  | array (length : Nat)
  | sizedArray (width : Nat)
  | map (length : Nat)
  | sizedMap (width : Nat)
  /-- So many bytes of no interest. -/
  | skip (length : Nat)
  /-- A length of so many bytes, a type byte, and bytes of no interest. -/
  | sizedSkip (width : Nat)
  | invalid

def head (first : UInt8) : Head :=
  let code := first.toNat
  if code < 0x80 then .value (.int code)
  else if code < 0x90 then .map (code - 0x80)
  else if code < 0xa0 then .array (code - 0x90)
  else if code < 0xc0 then .text (code - 0xa0)
  else if 0xe0 ≤ code then .value (.int ((code : Int) - 256))
  else
    match code with
    | 0xc0 => .value .nil
    | 0xc2 => .value (.bool false)
    | 0xc3 => .value (.bool true)
    | 0xc4 | 0xd9 => .sizedText 1
    | 0xc5 | 0xda => .sizedText 2
    | 0xc6 | 0xdb => .sizedText 4
    | 0xc7 => .sizedSkip 1
    | 0xc8 => .sizedSkip 2
    | 0xc9 => .sizedSkip 4
    | 0xca => .skip 4
    | 0xcb => .skip 8
    | 0xcc => .int 1 false
    | 0xcd => .int 2 false
    | 0xce => .int 4 false
    | 0xcf => .int 8 false
    | 0xd0 => .int 1 true
    | 0xd1 => .int 2 true
    | 0xd2 => .int 4 true
    | 0xd3 => .int 8 true
    | 0xd4 => .skip 2
    | 0xd5 => .skip 3
    | 0xd6 => .skip 5
    | 0xd7 => .skip 9
    | 0xd8 => .skip 17
    | 0xdc => .sizedArray 2
    | 0xdd => .sizedArray 4
    | 0xde => .sizedMap 2
    | 0xdf => .sizedMap 4
    | _ => .invalid

mutual

def readValue? : Nat → List UInt8 → Option (Msgpack × List UInt8)
  | _, [] => none
  | 0, _ => none
  | fuel + 1, first :: rest =>
    match head first with
    | .value value => some (value, rest)
    | .int width true => (readInt? width rest).map fun (value, rest) => (.int value, rest)
    | .int width false => (readNat? width rest).map fun (value, rest) => (.int value, rest)
    | .text length => readText? length rest
    | .sizedText width => do
      let (length, rest) ← readNat? width rest
      readText? length rest
    | .array length =>
      (readItems? fuel length rest).map fun (items, rest) => (.array items, rest)
    | .sizedArray width => do
      let (length, rest) ← readNat? width rest
      let (items, rest) ← readItems? fuel length rest
      return (.array items, rest)
    | .map length =>
      (readEntries? fuel length rest).map fun (entries, rest) => (.map entries, rest)
    | .sizedMap width => do
      let (length, rest) ← readNat? width rest
      let (entries, rest) ← readEntries? fuel length rest
      return (.map entries, rest)
    | .skip length => skipOther? length rest
    | .sizedSkip width => do
      let (length, rest) ← readNat? width rest
      skipOther? (length + 1) rest
    | .invalid => none

def readItems? : Nat → Nat → List UInt8 → Option (List Msgpack × List UInt8)
  | _, 0, input => some ([], input)
  | 0, _, _ => none
  | fuel + 1, count + 1, input => do
    let (item, rest) ← readValue? fuel input
    let (items, rest) ← readItems? fuel count rest
    return (item :: items, rest)

def readEntries? : Nat → Nat → List UInt8 → Option (List (Msgpack × Msgpack) × List UInt8)
  | _, 0, input => some ([], input)
  | 0, _, _ => none
  | fuel + 1, count + 1, input => do
    let (key, rest) ← readValue? fuel input
    let (value, rest) ← readValue? fuel rest
    let (entries, rest) ← readEntries? fuel count rest
    return ((key, value) :: entries, rest)

end

/-- Takes one value from the front of the input. -/
def read? (input : List UInt8) : Option (Msgpack × List UInt8) :=
  readValue? (2 * input.length + 2) input

end TreeCheck.Msgpack
