/-
Reading JSON text. The reader takes one value from the front of the input and gives back
what follows. It is strict: no comments, no trailing commas, no control characters
inside strings, no number with a leading zero, and at most ten thousand levels of
nesting.
-/

import TreeCheck.Json.Value
import TreeCheck.Text.Number
import TreeCheck.Text.Utf8

namespace TreeCheck.Json

/-! ### Blanks and words -/

def isBlank (character : Char) : Bool :=
  character = ' ' || character = '\t' || character = '\n' || character = '\r'

def skipBlanks (input : List Char) : List Char := input.dropWhile isBlank

/-- What follows a given word. -/
def afterWord? : List Char → List Char → Option (List Char)
  | [], input => some input
  | expected :: word, character :: input =>
    if expected = character then afterWord? word input else none
  | _ :: _, [] => none

/-! ### Numbers -/

def spanDigits (input : List Char) : List Char × List Char :=
  (input.takeWhile Char.isDigit, input.dropWhile Char.isDigit)

/-- The whole part: a zero alone, or digits that do not begin with zero. -/
def readWhole? : List Char → Option (List Char × List Char)
  | '0' :: rest => some (['0'], rest)
  | input =>
    match spanDigits input with
    | ([], _) => none
    | found => some found

/-- The fraction, empty when there is no point. -/
def readFraction? : List Char → Option (List Char × List Char)
  | '.' :: rest =>
    match spanDigits rest with
    | ([], _) => none
    | (digits, rest) => some ('.' :: digits, rest)
  | input => some ([], input)

/-- The exponent, empty when there is none. -/
def readExponent? : List Char → Option (List Char × List Char)
  | mark :: rest =>
    if mark = 'e' ∨ mark = 'E' then
      let (sign, rest) := match rest with
        | '+' :: rest => (['+'], rest)
        | '-' :: rest => (['-'], rest)
        | rest => ([], rest)
      match spanDigits rest with
      | ([], _) => none
      | (digits, rest) => some (mark :: sign ++ digits, rest)
    else some ([], mark :: rest)
  | [] => some ([], [])

def readNumber? (input : List Char) : Option (String × List Char) := do
  let (sign, rest) := match input with
    | '-' :: rest => (['-'], rest)
    | rest => ([], rest)
  let (whole, rest) ← readWhole? rest
  let (fraction, rest) ← readFraction? rest
  let (exponent, rest) ← readExponent? rest
  return (String.ofList (sign ++ whole ++ fraction ++ exponent), rest)

/-! ### Strings -/

/-- Four hexadecimal digits. -/
def readUnit? : List Char → Option (Nat × List Char)
  | first :: second :: third :: fourth :: rest => do
    let first ← Text.Hex.digit? first
    let second ← Text.Hex.digit? second
    let third ← Text.Hex.digit? third
    let fourth ← Text.Hex.digit? fourth
    return (((first * 16 + second) * 16 + third) * 16 + fourth, rest)
  | _ => none

def isHighSurrogate (unit : Nat) : Bool := 0xd800 ≤ unit && unit < 0xdc00

def isLowSurrogate (unit : Nat) : Bool := 0xdc00 ≤ unit && unit < 0xe000

/-- The character of an escaped unit, with the low half when it is the high half of a pair;
half a pair alone is the replacement character. -/
def characterOfUnit (unit : Nat) (rest : List Char) : Char × List Char :=
  if isHighSurrogate unit then
    match rest with
    | '\\' :: 'u' :: tail =>
      match readUnit? tail with
      | some (low, tail) =>
        if isLowSurrogate low then
          (Char.ofNat (0x10000 + (unit - 0xd800) * 1024 + (low - 0xdc00)), tail)
        else (Text.Utf8.replacement, rest)
      | none => (Text.Utf8.replacement, rest)
    | _ => (Text.Utf8.replacement, rest)
  else if isLowSurrogate unit then (Text.Utf8.replacement, rest)
  else (Char.ofNat unit, rest)

/-- The character of an escape, whose backslash was read. -/
def readEscape? : List Char → Option (Char × List Char)
  | '"' :: rest => some ('"', rest)
  | '\\' :: rest => some ('\\', rest)
  | '/' :: rest => some ('/', rest)
  | 'b' :: rest => some (Char.ofNat 8, rest)
  | 'f' :: rest => some (Char.ofNat 12, rest)
  | 'n' :: rest => some ('\n', rest)
  | 'r' :: rest => some ('\r', rest)
  | 't' :: rest => some ('\t', rest)
  | 'u' :: rest => (readUnit? rest).map fun (unit, rest) => characterOfUnit unit rest
  | _ => none

/-- The characters of a string whose opening quote was read. The fuel bounds their number. -/
def readCharacters? : Nat → List Char → Option (List Char × List Char)
  | 0, _ => none
  | _ + 1, [] => none
  | fuel + 1, character :: rest =>
    if character = '"' then some ([], rest)
    else if character = '\\' then do
      let (escaped, rest) ← readEscape? rest
      let (tail, rest) ← readCharacters? fuel rest
      return (escaped :: tail, rest)
    else if character.toNat < 0x20 then none
    else do
      let (tail, rest) ← readCharacters? fuel rest
      return (character :: tail, rest)

def readString? (input : List Char) : Option (String × List Char) :=
  (readCharacters? (input.length + 1) input).map fun (characters, rest) =>
    (String.ofList characters, rest)

/-! ### Values -/

mutual

/-- Reads one value. `levels` is how much deeper the value may nest. -/
def readValue? : Nat → Nat → List Char → Option (Json × List Char)
  | 0, _, _ => none
  | fuel + 1, levels, input =>
    match skipBlanks input with
    | '{' :: rest =>
      match levels with
      | 0 => none
      | levels + 1 =>
        match skipBlanks rest with
        | '}' :: rest => some (.object [], rest)
        | rest => (readFields? fuel levels rest).map fun (fields, rest) => (.object fields, rest)
    | '[' :: rest =>
      match levels with
      | 0 => none
      | levels + 1 =>
        match skipBlanks rest with
        | ']' :: rest => some (.array [], rest)
        | rest => (readItems? fuel levels rest).map fun (items, rest) => (.array items, rest)
    | '"' :: rest => (readString? rest).map fun (value, rest) => (.text value, rest)
    | 't' :: rest => (afterWord? ['r', 'u', 'e'] rest).map fun rest => (.bool true, rest)
    | 'f' :: rest => (afterWord? ['a', 'l', 's', 'e'] rest).map fun rest => (.bool false, rest)
    | 'n' :: rest => (afterWord? ['u', 'l', 'l'] rest).map fun rest => (.null, rest)
    | rest => (readNumber? rest).map fun (literal, rest) => (.number literal, rest)

/-- Reads the items of an array that has at least one, and its closing bracket. -/
def readItems? : Nat → Nat → List Char → Option (List Json × List Char)
  | 0, _, _ => none
  | fuel + 1, levels, input => do
    let (item, rest) ← readValue? fuel levels input
    match skipBlanks rest with
    | ',' :: rest =>
      let (items, rest) ← readItems? fuel levels rest
      return (item :: items, rest)
    | ']' :: rest => return ([item], rest)
    | _ => none

/-- Reads the fields of an object that has at least one, and its closing brace. -/
def readFields? : Nat → Nat → List Char → Option (List (String × Json) × List Char)
  | 0, _, _ => none
  | fuel + 1, levels, input =>
    match skipBlanks input with
    | '"' :: rest => do
      let (name, rest) ← readString? rest
      match skipBlanks rest with
      | ':' :: rest =>
        let (value, rest) ← readValue? fuel levels rest
        match skipBlanks rest with
        | ',' :: rest =>
          let (fields, rest) ← readFields? fuel levels rest
          return ((name, value) :: fields, rest)
        | '}' :: rest => return ([(name, value)], rest)
        | _ => none
      | _ => none
    | _ => none

end

def nestingLimit : Nat := 10000

/-- Takes one value from the front of the input. -/
def read? (input : List Char) : Option (Json × List Char) :=
  readValue? (2 * input.length + 2) nestingLimit input

/-- Reads a text that holds one value and nothing else but blanks. -/
def parse? (text : String) : Option Json :=
  match read? text.toList with
  | some (value, rest) => if skipBlanks rest = [] then some value else none
  | none => none

end TreeCheck.Json
