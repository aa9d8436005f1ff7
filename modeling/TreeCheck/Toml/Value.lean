/-
The values of a settings file. Numbers with a fraction and points in time are kept as
they were written, since no setting takes one. Tables that stand under one repeated
header are a kind of their own: a later header can still add to the last of them.
-/

import TreeCheck.Text.Number
import TreeCheck.Text.Split

namespace TreeCheck

inductive Toml where
  | text (value : String)
  | integer (value : Int)
  | bool (value : Bool)
  | fraction (literal : String)
  | moment (literal : String)
  | array (items : List Toml)
  | table (fields : List (String × Toml))
  | tables (elements : List (List (String × Toml)))
  deriving Inhabited

namespace Toml

abbrev Fields := List (String × Toml)

/-- The parts of a dotted key. -/
abbrev Key := List String

/-! ### Keys as text -/

/-- What can stand in a key without quotes. -/
def isBare (character : Char) : Bool :=
  character.isAlphanum || character = '_' || character = '-'

def escapedChar (character : Char) : String :=
  let code := character.toNat
  if character = '"' then "\\\""
  else if character = '\\' then "\\\\"
  else if code = 8 then "\\b"
  else if code = 9 then "\\t"
  else if code = 10 then "\\n"
  else if code = 12 then "\\f"
  else if code = 13 then "\\r"
  else if code < 0x20 ∨ code = 0x7f then "\\u" ++ Text.Hex.padded 4 code
  else String.singleton character

/-- A part of a key, in quotes unless it can stand without. -/
def keyPart (part : String) : String :=
  if part ≠ "" ∧ part.toList.all isBare then part
  else "\"" ++ String.join (part.toList.map escapedChar) ++ "\""

def keyText (key : Key) : String := Text.join "." (key.map keyPart)

/-! ### Fields -/

def find? (name : String) (fields : Fields) : Option Toml :=
  (fields.find? (·.1 = name)).map Prod.snd

/-- Replaces the value of a name, or adds it behind the others. -/
def put (name : String) (value : Toml) : Fields → Fields
  | [] => [(name, value)]
  | (first, old) :: rest =>
    if first = name then (name, value) :: rest else (first, old) :: put name value rest

end Toml

end TreeCheck
