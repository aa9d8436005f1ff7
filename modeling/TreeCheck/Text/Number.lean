/-
Whole numbers written as text: in plain decimal, and as literals in base two, eight, ten or
sixteen, as the front of the literal says, with underscores between digits. Either way a number
has to fit into 64 bits. In hexadecimal there are the number tables of this library, and bytes as
pairs of lower-case digits.
-/

namespace TreeCheck.Text.Hex

def digit? (character : Char) : Option Nat :=
  if '0' ≤ character ∧ character ≤ '9' then some (character.toNat - '0'.toNat)
  else if 'a' ≤ character ∧ character ≤ 'f' then some (character.toNat - 'a'.toNat + 10)
  else if 'A' ≤ character ∧ character ≤ 'F' then some (character.toNat - 'A'.toNat + 10)
  else none

def digitChar (value : Nat) : Char :=
  if value < 10 then Char.ofNat ('0'.toNat + value) else Char.ofNat ('a'.toNat + (value - 10))

/-! ### Number tables -/

/-- Reads the digits of one number after another; `current` is the number being read. -/
def numbersFrom (current : Option Nat) : List Char → List Nat
  | [] => current.toList
  | character :: rest =>
    match digit? character with
    | some value => numbersFrom (some (current.getD 0 * 16 + value)) rest
    | none => current.toList ++ numbersFrom none rest

/-- The hexadecimal numbers of a text, anything else standing between them. -/
def numbers (text : String) : List Nat := numbersFrom none text.toList

/-- Ranges in ascending order, from `least` on. Each is written as its distance from the end of
the one before it and the number of its further members. -/
def ranges (least : Nat) : List Nat → List (Nat × Nat)
  | distance :: further :: rest =>
    let first := least + distance
    (first, first + further) :: ranges (first + further + 1) rest
  | _ => []

/-! ### Bytes -/

def ofByte (byte : UInt8) : List Char :=
  [digitChar (byte.toNat / 16), digitChar (byte.toNat % 16)]

def ofBytes (bytes : List UInt8) : String := String.ofList (bytes.flatMap ofByte)

def bytesOfDigits? : List Char → Option (List UInt8)
  | [] => some []
  | [_] => none
  | high :: low :: rest => do
    let highValue ← digit? high
    let lowValue ← digit? low
    let tail ← bytesOfDigits? rest
    return UInt8.ofNat (highValue * 16 + lowValue) :: tail

def toBytes? (text : String) : Option (List UInt8) := bytesOfDigits? text.toList

/-- The number in hexadecimal with at least `width` digits. -/
def padded (width value : Nat) : String :=
  let digits := Nat.toDigits 16 value
  String.ofList (List.replicate (width - digits.length) '0' ++ digits)

end TreeCheck.Text.Hex

namespace TreeCheck.Text

/-! ### Plain decimal -/

/-- The number that some decimal digits stand for. -/
def digitsValue (digits : List Char) : Nat :=
  digits.foldl (fun value digit => value * 10 + (digit.toNat - '0'.toNat)) 0

/-- At least one digit, and nothing else. -/
def natural? (digits : List Char) : Option Nat :=
  if digits ≠ [] ∧ digits.all Char.isDigit then some (digitsValue digits) else none

/-- A number that fits into 64 bits. -/
def inWord? (value : Int) : Option Int :=
  if -Nat.pow 2 63 ≤ value ∧ value < Nat.pow 2 63 then some value else none

/-- A whole number with an optional sign that fits into 64 bits. -/
def integer? (text : String) : Option Int :=
  match text.toList with
  | '+' :: digits => (natural? digits).bind fun value => inWord? value
  | '-' :: digits => (natural? digits).bind fun value => inWord? (-(value : Int))
  | digits => (natural? digits).bind fun value => inWord? value

end TreeCheck.Text

namespace TreeCheck.Text.Integer

/-! ### Literals -/

/-- Why a text is no integer. -/
inductive Cause where
  | malformed | outOfRange
  deriving DecidableEq, Repr

def Cause.text : Cause → String
  | .malformed => "invalid syntax"
  | .outOfRange => "value out of range"

/-- The base of a literal without sign, and its digits. -/
def base : List Char → Nat × List Char
  | '0' :: mark :: digit :: rest =>
    if mark = 'b' ∨ mark = 'B' then (2, digit :: rest)
    else if mark = 'o' ∨ mark = 'O' then (8, digit :: rest)
    else if mark = 'x' ∨ mark = 'X' then (16, digit :: rest)
    else (8, mark :: digit :: rest)
  | '0' :: rest => (8, rest)
  | digits => (10, digits)

/-- The value of digits, read from the left and no further than it fits into 64 bits. -/
def value (base : Nat) : Nat → List Char → Except Cause Nat
  | sum, [] => .ok sum
  | sum, '_' :: rest => value base sum rest
  | sum, character :: rest =>
    match (Hex.digit? character).filter (· < base) with
    | none => .error .malformed
    | some digit =>
      let next := sum * base + digit
      if Nat.pow 2 64 ≤ next then .error .outOfRange else value base next rest

/-- Whether every underscore stands between digits; `behindDigit` says what stands in front. -/
def separated (behindDigit : Bool) : List Char → Bool
  | [] => true
  | '_' :: rest =>
    behindDigit && (match rest with
      | [] => false
      | next :: _ => next ≠ '_') && separated false rest
  | _ :: rest => separated true rest

/-- The magnitude of a literal without sign. -/
def magnitude (literal : List Char) : Except Cause Nat := do
  if literal = [] then throw .malformed
  let (base, digits) := base literal
  let value ← value base 0 digits
  if separated (base ≠ 10) digits then return value else throw .malformed

/-- The value of a literal with or without sign. -/
def parse (literal : String) : Except Cause Int := do
  let (negative, digits) := match literal.toList with
    | '-' :: digits => (true, digits)
    | '+' :: digits => (false, digits)
    | digits => (false, digits)
  let size ← magnitude digits
  if negative then
    if Nat.pow 2 63 < size then throw .outOfRange else return -(size : Int)
  else if Nat.pow 2 63 ≤ size then throw .outOfRange
  else return size

end TreeCheck.Text.Integer
