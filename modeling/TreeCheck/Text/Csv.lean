/-
One record of comma-separated fields. A field that begins with a quote goes on to the
next single quote, over commas and line ends; two quotes in it stand for one. Lines that
are empty in front of the record do not count, and what follows its last line is not
looked at. Columns are counted in bytes.
-/

import TreeCheck.Text.Split

namespace TreeCheck.Text.Csv

/-- Why a text is no record. -/
inductive Cause where
  | noRecord
  /-- A quote inside a field that does not begin with one. -/
  | bareQuote
  /-- A quoted field that does not end, or goes on behind its end. -/
  | strayQuote
  deriving DecidableEq, Repr

structure Error where
  cause : Cause
  /-- The line the record begins on. -/
  first : Nat := 0
  line : Nat := 0
  column : Nat := 0
  deriving DecidableEq, Repr

namespace Error

def place (failure : Error) : String :=
  (if failure.first = failure.line then "" else s!"record on line {failure.first}; ") ++
    s!"parse error on line {failure.line}, column {failure.column}: "

def message (failure : Error) : String :=
  match failure.cause with
  | .noRecord => "EOF"
  | .bareQuote => failure.place ++ "bare \" in non-quoted field"
  | .strayQuote => failure.place ++ "extraneous or missing \" in quoted-field"

end Error

/-! ### Lines -/

/-- The text without a return at its end. -/
def withoutReturn (line : List Char) : List Char :=
  if line.getLast? = some '\r' then line.dropLast else line

/-- The lines of a text from their number on, each with its line end if it has one. -/
def linesFrom (number : Nat) : List (List Char) → List (Nat × List Char)
  | [] => []
  | [last] => if last = [] then [] else [(number, withoutReturn last)]
  | part :: rest => (number, withoutReturn part ++ ['\n']) :: linesFrom (number + 1) rest

def lines (text : String) : List (Nat × List Char) :=
  linesFrom 1 (splitList '\n' text.toList)

def isEmptyLine (line : List Char) : Bool := line = [] || line = ['\n']

/-! ### Fields -/

def byteLength (text : List Char) : Nat := (text.map Char.utf8Size).foldr (· + ·) 0

/-- Where reading stands: what is left of a line, its number and the next column. -/
structure Place where
  rest : List Char
  line : Nat
  column : Nat

namespace Place

/-- The place behind some characters. -/
def after (place : Place) (characters : List Char) : Place :=
  { place with
    rest := place.rest.drop characters.length
    column := place.column + byteLength characters }

end Place

/-- A field without quotes, up to a comma or the end of the line; whether a comma follows. -/
def plainField (first : Nat) (place : Place) : Except Error (String × Option Place) :=
  let field := place.rest.takeWhile (· ≠ ',')
  let ends := field.length = place.rest.length
  let content := if ends then field.filter (· ≠ '\n') else field
  let before := content.takeWhile (· ≠ '"')
  if before.length < content.length then
    .error ⟨.bareQuote, first, place.line, place.column + byteLength before⟩
  else .ok (String.ofList content, if ends then none else some (place.after (field ++ [','])))

/-- A field whose opening quote was read, with the lines it may go on in. -/
def quotedField (first : Nat) : Nat → Place → List (Nat × List Char) → List Char →
    Except Error (String × Option Place × List (Nat × List Char))
  | 0, place, _, _ => .error ⟨.strayQuote, first, place.line, place.column⟩
  | fuel + 1, place, later, read =>
    match place.rest with
    | [] =>
      match later with
      | [] => .error ⟨.strayQuote, first, place.line, place.column⟩
      | (line, rest) :: later => quotedField first fuel ⟨rest, line, 1⟩ later read
    | '"' :: rest =>
      let behind := place.after ['"']
      match rest with
      | '"' :: _ => quotedField first fuel (behind.after ['"']) later ('"' :: read)
      | ',' :: _ => .ok (String.ofList read.reverse, some (behind.after [',']), later)
      | _ =>
        if isEmptyLine rest then .ok (String.ofList read.reverse, none, later)
        else .error ⟨.strayQuote, first, place.line, place.column⟩
    | character :: _ => quotedField first fuel (place.after [character]) later (character :: read)

/-- The fields from a place on. -/
def fields (first : Nat) : Nat → Place → List (Nat × List Char) → Except Error (List String)
  | 0, _, _ => .ok []
  | fuel + 1, place, later => do
    let (field, next, later) ← match place.rest with
      | '"' :: _ =>
        let size := place.rest.length + (later.map fun (_, line) => line.length + 1).foldr (· + ·) 0
        quotedField first (size + 1) (place.after ['"']) later []
      | _ => (plainField first place).map fun (field, next) => (field, next, later)
    match next with
    | none => return [field]
    | some next => return field :: (← fields first fuel next later)

/-- The fields of the first record of a text; an empty text is the empty record. -/
def record (text : String) : Except Error (List String) :=
  if text = "" then .ok []
  else
    match (lines text).dropWhile fun (_, line) => isEmptyLine line with
    | [] => .error ⟨.noRecord, 0, 0, 0⟩
    | (number, line) :: later => fields number (text.length + 1) ⟨line, number, 1⟩ later

/-- A record of one field that is empty has the same text as the empty record. -/
def normal (record : List String) : List String := if record = [""] then [] else record

end TreeCheck.Text.Csv
