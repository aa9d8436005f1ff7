/-
Numbers and points in time as settings files write them. Digits may be grouped with
single underscores between them; a decimal number has no leading zero; other bases have
no sign. A point in time is a date, a time of day, or both, and both may name an offset.
-/

import TreeCheck.Text.Number
import TreeCheck.Text.Split

namespace TreeCheck.Toml.Literal

/-! ### Whole numbers -/

def digitBelow? (base : Nat) (character : Char) : Option Nat :=
  (Text.Hex.digit? character).filter (· < base)

/-- The number that grouped digits stand for. -/
def grouped? (base : Nat) (characters : List Char) : Option Nat :=
  let groups := Text.splitList '_' characters
  if groups.any List.isEmpty then none
  else
    (groups.flatten.mapM (digitBelow? base)).map
      (·.foldl (fun value digit => value * base + digit) 0)

/-- A decimal number without a leading zero. -/
def decimal? : List Char → Option Nat
  | '0' :: _ :: _ => none
  | digits => grouped? 10 digits

/-- Takes the sign off. -/
def unsigned : List Char → Bool × List Char
  | '-' :: rest => (true, rest)
  | '+' :: rest => (false, rest)
  | rest => (false, rest)

/-- A whole number that fits into 64 bits. -/
def integer? : List Char → Option Int
  | '0' :: 'x' :: digits => (grouped? 16 digits).bind fun value => Text.inWord? value
  | '0' :: 'o' :: digits => (grouped? 8 digits).bind fun value => Text.inWord? value
  | '0' :: 'b' :: digits => (grouped? 2 digits).bind fun value => Text.inWord? value
  | literal =>
    let (negative, digits) := unsigned literal
    (decimal? digits).bind fun value => Text.inWord? (if negative then -(value : Int) else value)

/-! ### Fractions -/

/-- Cuts in front of the first character of a class. -/
def cutAt (stops : Char → Bool) (characters : List Char) : List Char × List Char :=
  (characters.takeWhile (!stops ·), characters.dropWhile (!stops ·))

/-- The least magnitude that a 64-bit fraction cannot hold any more. -/
def overflow : Nat := Nat.pow 2 1024 - Nat.pow 2 970

/-- Whether `digits · 10 ^ exponent` can be held. -/
def isRepresentable (digits : List Char) (exponent : Int) : Bool :=
  let value := Text.digitsValue digits
  let magnitude := (digits.dropWhile (· = '0')).length + exponent
  value = 0 || magnitude < 300 ||
    (magnitude < 320 &&
      if 0 ≤ exponent then decide (value * Nat.pow 10 exponent.toNat < overflow)
      else decide (value < overflow * Nat.pow 10 (-exponent).toNat))

def isExponentMark (character : Char) : Bool := character = 'e' || character = 'E'

/-- Digits behind a point, without the underscores; no point, no digits. -/
def fractionDigits? : List Char → Option (List Char)
  | [] => some []
  | '.' :: digits => (grouped? 10 digits).map fun _ => digits.filter (· ≠ '_')
  | _ => none

/-- The exponent behind its mark; no mark, no exponent. -/
def exponent? : List Char → Option Int
  | [] => some 0
  | _ :: written =>
    let (negative, digits) := unsigned written
    (grouped? 10 digits).map fun value => if negative then -(value : Int) else value

/-- A number with a fraction or an exponent, or one of the words for what is no number. -/
def isFraction (literal : List Char) : Bool :=
  let (_, body) := unsigned literal
  let (front, power) := cutAt isExponentMark body
  let (whole, fraction) := cutAt (· = '.') front
  body = "inf".toList || body = "nan".toList ||
    (!(fraction.isEmpty && power.isEmpty) &&
      match decimal? whole, fractionDigits? fraction, exponent? power with
      | some _, some digits, some exponent =>
        isRepresentable (whole.filter (· ≠ '_') ++ digits) (exponent - digits.length)
      | _, _, _ => false)

/-! ### Points in time -/

/-- A number of exactly so many digits at the front. -/
def fixed? (count : Nat) (input : List Char) : Option (Nat × List Char) :=
  let digits := input.take count
  if digits.length = count then (Text.natural? digits).map (·, input.drop count) else none

def after? (expected : Char) : List Char → Option (List Char)
  | character :: rest => if character = expected then some rest else none
  | [] => none

def isLeapYear (year : Nat) : Bool := year % 4 = 0 && (year % 100 ≠ 0 || year % 400 = 0)

def daysIn (year month : Nat) : Nat :=
  if month = 2 then (if isLeapYear year then 29 else 28)
  else if month ∈ [4, 6, 9, 11] then 30
  else 31

/-- Takes a date from the front. -/
def afterDate? (input : List Char) : Option (List Char) := do
  let (year, rest) ← fixed? 4 input
  let (month, rest) ← fixed? 2 (← after? '-' rest)
  let (day, rest) ← fixed? 2 (← after? '-' rest)
  if 1 ≤ month ∧ month ≤ 12 ∧ 1 ≤ day ∧ day ≤ daysIn year month then some rest else none

/-- Takes a time of day from the front, with as many digits of a second as there are. -/
def afterTime? (input : List Char) : Option (List Char) := do
  let (hour, rest) ← fixed? 2 input
  let (minute, rest) ← fixed? 2 (← after? ':' rest)
  let (second, rest) ← fixed? 2 (← after? ':' rest)
  if hour < 24 ∧ minute < 60 ∧ second < 60 then
    match rest with
    | '.' :: digit :: more =>
      if digit.isDigit then some (more.dropWhile Char.isDigit) else some rest
    | _ => some rest
  else none

/-- Whether an offset from universal time, or none, is all there is. -/
def isOffset : List Char → Bool
  | [] | ['Z'] => true
  | sign :: rest =>
    (sign = '+' || sign = '-') &&
      match fixed? 2 rest with
      | some (hour, ':' :: rest) =>
        match fixed? 2 rest with
        | some (minute, []) => hour ≤ 24 && minute ≤ 60
        | _ => false
      | _ => false

/-- A date, a time of day, or both joined by a `T`. -/
def isMoment (literal : List Char) : Bool :=
  match afterDate? literal with
  | some [] => true
  | some ('T' :: time) => (afterTime? time).any isOffset
  | some _ => false
  | none => (afterTime? literal).any List.isEmpty

end TreeCheck.Toml.Literal
