/-
Numbers with a fixed count of decimal places. A 64-bit fraction is taken apart into a
whole number and a power of two, so the digits come from exact arithmetic: the nearest
decimal is written, and of two equally near ones the even one.
-/

import TreeCheck.Text.Split

namespace TreeCheck.Text.Decimal

/-- A quotient rounded to the nearest whole number, a half to the even one. -/
def roundDiv (numerator denominator : Nat) : Nat :=
  let quotient := numerator / denominator
  let rest := 2 * (numerator % denominator)
  if rest < denominator then quotient
  else if denominator < rest then quotient + 1
  else quotient + quotient % 2

/-- The parts of a fraction. -/
inductive Parts where
  | undefined
  | infinite (negative : Bool)
  /-- The magnitude is `digits · 2 ^ exponent`. -/
  | finite (negative : Bool) (digits : Nat) (exponent : Int)

/-- Takes the bits of a fraction apart. -/
def partsOfBits (bits : Nat) : Parts :=
  let negative : Bool := bits / Nat.pow 2 63 % 2 = 1
  let exponent : Nat := bits / Nat.pow 2 52 % 2048
  let digits : Nat := bits % Nat.pow 2 52
  if exponent = 2047 then
    if digits = 0 then .infinite negative else .undefined
  else if exponent = 0 then .finite negative digits (-1074)
  else .finite negative (digits + Nat.pow 2 52) ((exponent : Int) - 1075)

/-- The magnitude `digits · 2 ^ exponent` in units of the last decimal place. -/
def units (places digits : Nat) (exponent : Int) : Nat :=
  if 0 ≤ exponent then digits * Nat.pow 10 places * Nat.pow 2 exponent.toNat
  else roundDiv (digits * Nat.pow 10 places) (Nat.pow 2 (-exponent).toNat)

/-- Blanks in front, so that the text has at least so many characters. -/
def padLeft (count : Nat) (text : String) : String := repeated " " (count - text.length) ++ text

/-- Blanks behind, so that the text has at least so many characters. -/
def padRight (count : Nat) (text : String) : String := text ++ repeated " " (count - text.length)

def partsText (places : Nat) : Parts → String
  | .undefined => "NaN"
  | .infinite negative => if negative then "-Inf" else "+Inf"
  | .finite negative digits exponent =>
    let value := units places digits exponent
    let fraction := toString (value % Nat.pow 10 places)
    (if negative then "-" else "") ++ toString (value / Nat.pow 10 places) ++ "." ++
      repeated "0" (places - fraction.length) ++ fraction

/-- The number with so many decimal places. -/
def fixed (places : Nat) (value : Float) : String :=
  partsText places (partsOfBits value.toBits.toNat)

/-! ### Reading -/

def natural (digits : List Char) : Nat :=
  digits.foldl (fun value digit => value * 10 + (digit.toNat - '0'.toNat)) 0

/-- A whole number with or without sign. -/
def integer : List Char → Int
  | '-' :: digits => -(natural digits)
  | '+' :: digits => natural digits
  | digits => natural digits

/-- The fraction nearest to a literal without sign; nothing if it is too large for one. -/
def magnitude? (literal : List Char) : Option Float :=
  let isMark (character : Char) : Bool := character = 'e' || character = 'E'
  let mantissa := literal.takeWhile (!isMark ·)
  let whole := mantissa.takeWhile (· ≠ '.')
  let fraction := (mantissa.dropWhile (· ≠ '.')).drop 1
  let exponent := integer ((literal.dropWhile (!isMark ·)).drop 1) - fraction.length
  let digits := natural (whole ++ fraction)
  let size := (toString digits).length + exponent
  if digits = 0 ∨ size < -400 then some 0
  else if 400 < size then none
  else
    let value := Float.ofScientific digits (exponent < 0) exponent.natAbs
    if value.isInf then none else some value

/-- The fraction nearest to a literal with or without sign. -/
def ofLiteral? (literal : String) : Option Float :=
  match literal.toList with
  | '-' :: digits => (magnitude? digits).map (-·)
  | digits => magnitude? digits

/-! ### Laws -/

/-- Rounding moves a quotient by at most half a unit. -/
theorem roundDiv_near (numerator denominator : Nat) (positive : 0 < denominator) :
    2 * numerator ≤ 2 * (roundDiv numerator denominator * denominator) + denominator ∧
      2 * (roundDiv numerator denominator * denominator) ≤ 2 * numerator + denominator := by
  have whole := Nat.div_add_mod numerator denominator
  have bound := Nat.mod_lt numerator positive
  unfold roundDiv
  simp only
  generalize numerator % denominator = rest at *
  generalize numerator / denominator = quotient at *
  split
  · rw [Nat.mul_comm quotient denominator]
    omega
  · split
    · rw [Nat.add_mul, Nat.mul_comm quotient denominator]
      omega
    · rcases Nat.mod_two_eq_zero_or_one quotient with parity | parity
      · rw [parity, Nat.add_zero, Nat.mul_comm quotient denominator]
        omega
      · rw [parity, Nat.add_mul, Nat.mul_comm quotient denominator]
        omega

end TreeCheck.Text.Decimal
