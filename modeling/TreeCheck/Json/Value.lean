/-
JSON values, and reading them as numbers, texts and lists. A number keeps the digits it was
written with, since some readers accept only integer literals, and an object keeps its fields
in order, repeated ones included, since a later field of the same name is read over the
earlier one.

In reading, null, and a field that is not there, stand for the zero value of what is read; a
value of another kind, or a number out of range, is nothing.
-/

import TreeCheck.Text.Decimal

namespace TreeCheck

inductive Json where
  | null
  | bool (value : Bool)
  | number (literal : String)
  | text (value : String)
  | array (items : List Json)
  | object (fields : List (String × Json))
  deriving Inhabited

namespace Json

def ofNat (value : Nat) : Json := .number (toString value)

def ofInt (value : Int) : Json := .number (toString value)

/-- The digits and the sign of an integer literal; fractions and exponents are none. -/
def int? (literal : String) : Option Int :=
  match literal.toList with
  | '-' :: digits => if digits.all Char.isDigit then (digitsValue digits).map (-·) else none
  | digits => if digits.all Char.isDigit then digitsValue digits else none
where
  digitsValue : List Char → Option Int
    | [] => none
    | digits => some (digits.foldl (fun value digit => value * 10 + (digit.toNat - '0'.toNat)) 0)

/-- The last field of a name. -/
def field? (name : String) : Json → Option Json
  | .object fields => (fields.reverse.find? (·.1 = name)).map Prod.snd
  | _ => none

end Json

end TreeCheck

namespace TreeCheck.Json

/-! ### Reading -/

/-- The field of a name, null when there is none. -/
def field (value : Json) (name : String) : Json := (value.field? name).getD .null

def asText? : Json → Option String
  | .null => some ""
  | .text value => some value
  | _ => none

def asBool? : Json → Option Bool
  | .null => some false
  | .bool value => some value
  | _ => none

/-- A signed number of 64 bits. -/
def asInt? : Json → Option Int
  | .null => some 0
  | .number literal =>
    (int? literal).filter fun (value : Int) => -Nat.pow 2 63 ≤ value ∧ value < Nat.pow 2 63
  | _ => none

/-- An unsigned number of so many bits. -/
def asWord? (bits : Nat) : Json → Option Nat
  | .null => some 0
  | .number literal =>
    ((int? literal).filter fun (value : Int) => 0 ≤ value ∧ value < Nat.pow 2 bits).map Int.toNat
  | _ => none

def asFloat? : Json → Option Float
  | .null => some 0
  | .number literal => Text.Decimal.ofLiteral? literal
  | _ => none

def asItems? : Json → Option (List Json)
  | .null => some []
  | .array items => some items
  | _ => none

/-- The fields of an object in order. -/
def asFields? : Json → Option (List (String × Json))
  | .null => some []
  | .object fields => some fields
  | _ => none

def asTexts? (value : Json) : Option (List String) := do (← value.asItems?).mapM asText?

def asWords? (bits : Nat) (value : Json) : Option (List Nat) := do
  (← value.asItems?).mapM (asWord? bits)

end TreeCheck.Json
