/-
JSON values together with the text they were written with. A document that is embedded
in another one is handed on as it stands, so its text has to be kept: which literals and
which order of fields it used is for its own reader to judge.
-/

import TreeCheck.Json.Reader

namespace TreeCheck

structure RawJson where
  value : Json
  text : String

namespace RawJson

/-- Takes one value from the front of the input. -/
def read? (input : List Char) : Option (RawJson × List Char) := do
  let input := Json.skipBlanks input
  let (value, rest) ← Json.read? input
  return (⟨value, String.ofList (input.take (input.length - rest.length))⟩, rest)

/-- The fields of an object whose opening brace was read, up to its closing brace. -/
def fieldsFrom? : Nat → List Char → Option (List (String × RawJson) × List Char)
  | 0, _ => none
  | fuel + 1, input =>
    match Json.skipBlanks input with
    | '"' :: rest => do
      let (name, rest) ← Json.readString? rest
      match Json.skipBlanks rest with
      | ':' :: rest =>
        let (value, rest) ← read? rest
        match Json.skipBlanks rest with
        | ',' :: rest =>
          let (fields, rest) ← fieldsFrom? fuel rest
          return ((name, value) :: fields, rest)
        | '}' :: rest => return ([(name, value)], rest)
        | _ => none
      | _ => none
    | _ => none

/-- The fields of a text that holds one object and nothing else but blanks. -/
def fields? (text : String) : Option (List (String × RawJson)) :=
  let whole : List (String × RawJson) × List Char → Option (List (String × RawJson)) :=
    fun (fields, rest) => if Json.skipBlanks rest = [] then some fields else none
  match Json.skipBlanks text.toList with
  | '{' :: rest =>
    match Json.skipBlanks rest with
    | '}' :: rest => whole ([], rest)
    | rest => (fieldsFrom? rest.length rest).bind whole
  | _ => none

/-- The items of an array whose opening bracket was read. -/
def itemsFrom? : Nat → List Char → Option (List RawJson)
  | 0, _ => none
  | fuel + 1, input => do
    let (value, rest) ← read? input
    match Json.skipBlanks rest with
    | ',' :: rest => return value :: (← itemsFrom? fuel rest)
    | ']' :: _ => return [value]
    | _ => none

/-- The items of an array; any other value has none. -/
def items (raw : RawJson) : List RawJson :=
  match Json.skipBlanks raw.text.toList with
  | '[' :: rest =>
    match Json.skipBlanks rest with
    | ']' :: _ => []
    | rest => (itemsFrom? rest.length rest).getD []
  | _ => []

/-- The fields of an object; any other value has none. -/
def fields (raw : RawJson) : List (String × RawJson) := (fields? raw.text).getD []

/-! ### Fields by name -/

/-- The fields of an object. Of two with one name the later counts; a field that is not there, or
is of another kind, counts as null. -/
abbrev Fields := List (String × RawJson)

namespace Fields

def raw? (fields : Fields) (name : String) : Option RawJson :=
  (fields.reverse.find? (·.1 = name)).map Prod.snd

def value (fields : Fields) (name : String) : Json :=
  ((fields.raw? name).map RawJson.value).getD .null

/-- Whether there is a value other than null. -/
def isGiven (fields : Fields) (name : String) : Bool := !((fields.value name) matches .null)

def text? (fields : Fields) (name : String) : Option String :=
  if fields.isGiven name then (fields.value name).asText? else none

def text (fields : Fields) (name : String) : String := (fields.text? name).getD ""

def flag (fields : Fields) (name : String) : Bool := (fields.value name) matches .bool true

def int (fields : Fields) (name : String) : Int := (fields.value name).asInt?.getD 0

def items (fields : Fields) (name : String) : List Json := (fields.value name).asItems?.getD []

def texts (fields : Fields) (name : String) : List String :=
  (fields.value name).asTexts?.getD []

def rawItems (fields : Fields) (name : String) : List RawJson :=
  ((fields.raw? name).map RawJson.items).getD []

def rawFields (fields : Fields) (name : String) : Fields :=
  ((fields.raw? name).map RawJson.fields).getD []

end Fields

end RawJson

end TreeCheck
