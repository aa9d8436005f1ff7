/-
Writing JSON text, on one line or indented by two blanks a level. Strings are written so
that they may stand inside markup: angle brackets, ampersands and the two line
separators are escaped along with quotes, backslashes and control characters.
-/

import TreeCheck.Json.Value
import TreeCheck.Text.Number

namespace TreeCheck.Json

def escaped (character : Char) : String :=
  let code := character.toNat
  if character = '"' then "\\\""
  else if character = '\\' then "\\\\"
  else if code = 8 then "\\b"
  else if code = 12 then "\\f"
  else if character = '\n' then "\\n"
  else if character = '\r' then "\\r"
  else if character = '\t' then "\\t"
  else if code < 0x20 ∨ character = '<' ∨ character = '>' ∨ character = '&' ∨ code = 0x2028 ∨
      code = 0x2029 then
    "\\u" ++ Text.Hex.padded 4 code
  else String.singleton character

def quoted (text : String) : String :=
  "\"" ++ String.join (text.toList.map escaped) ++ "\""

/-! ### On one line -/

mutual

def compact : Json → String
  | .null => "null"
  | .bool value => if value then "true" else "false"
  | .number literal => literal
  | .text value => quoted value
  | .array items => "[" ++ Text.join "," (compactItems items) ++ "]"
  | .object fields => "\x7b" ++ Text.join "," (compactFields fields) ++ "\x7d"

def compactItems : List Json → List String
  | [] => []
  | item :: rest => compact item :: compactItems rest

def compactFields : List (String × Json) → List String
  | [] => []
  | (name, value) :: rest => (quoted name ++ ":" ++ compact value) :: compactFields rest

end

/-! ### Indented -/

/-- The parts of an array or object, one a line; nothing stands between the brackets when
there are none. -/
def enclosed (opening closing : String) (level : Nat) (parts : List String) : String :=
  match parts with
  | [] => opening ++ closing
  | _ =>
    let inner := "\n" ++ Text.repeated "  " (level + 1)
    opening ++ inner ++ Text.join ("," ++ inner) parts ++ "\n" ++ Text.repeated "  " level ++
      closing

mutual

def indented (level : Nat) : Json → String
  | .null => "null"
  | .bool value => if value then "true" else "false"
  | .number literal => literal
  | .text value => quoted value
  | .array items => enclosed "[" "]" level (indentedItems (level + 1) items)
  | .object fields => enclosed "\x7b" "\x7d" level (indentedFields (level + 1) fields)

def indentedItems (level : Nat) : List Json → List String
  | [] => []
  | item :: rest => indented level item :: indentedItems level rest

def indentedFields (level : Nat) : List (String × Json) → List String
  | [] => []
  | (name, value) :: rest =>
    (quoted name ++ ": " ++ indented level value) :: indentedFields level rest

end

/-- The indented text of a value, with a line end behind it. -/
def document (value : Json) : String := indented 0 value ++ "\n"

end TreeCheck.Json
