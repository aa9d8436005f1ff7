/-
Reading the text of a settings file into its statements: headers of tables, headers of
one more table of a list, and assignments. A statement ends with its line; arrays may
go over several lines, inline tables may not.
-/

import TreeCheck.Text.Utf8
import TreeCheck.Toml.Literal
import TreeCheck.Toml.Value

namespace TreeCheck.Toml

/-- A value as it was written: an inline table still has its dotted keys. -/
inductive Written where
  | value (value : Toml)
  | array (items : List Written)
  | inline (fields : List (Key × Written))

inductive Statement where
  | table (key : Key)
  | element (key : Key)
  | assign (key : Key) (value : Written)

/-! ### Blanks and comments -/

def isSpace (character : Char) : Bool := character = ' ' || character = '\t'

def isLineEnd (character : Char) : Bool := character = '\n' || character = '\r'

def skipSpaces (input : List Char) : List Char := input.dropWhile isSpace

/-- Skips spaces, line ends and comments. -/
def skipFiller (inComment : Bool) : List Char → List Char
  | [] => []
  | character :: rest =>
    if inComment then skipFiller (!isLineEnd character) rest
    else if character = '#' then skipFiller true rest
    else if isSpace character || isLineEnd character then skipFiller false rest
    else character :: rest

/-- What follows the line, if nothing but a comment is left on it. -/
def endLine? (input : List Char) : Option (List Char) :=
  match skipSpaces input with
  | [] => some []
  | '#' :: rest => some (rest.dropWhile (!isLineEnd ·))
  | character :: rest => if isLineEnd character then some rest else none

/-! ### Strings -/

/-- The character whose code is written with so many hexadecimal digits. -/
def readCode? (count : Nat) (input : List Char) : Option (Char × List Char) := do
  let digits ← (input.take count).mapM Text.Hex.digit?
  let code := digits.foldl (fun value digit => value * 16 + digit) 0
  if digits.length = count ∧ code.isValidChar then some (Char.ofNat code, input.drop count)
  else none

/-- The character of an escape, whose backslash was read. -/
def readEscape? : List Char → Option (Char × List Char)
  | 'b' :: rest => some (Char.ofNat 8, rest)
  | 't' :: rest => some ('\t', rest)
  | 'n' :: rest => some ('\n', rest)
  | 'f' :: rest => some (Char.ofNat 12, rest)
  | 'r' :: rest => some ('\r', rest)
  | '"' :: rest => some ('"', rest)
  | '\\' :: rest => some ('\\', rest)
  | 'u' :: rest => readCode? 4 rest
  | 'U' :: rest => readCode? 8 rest
  | _ => none

/-- The characters of a string on one line, whose opening quote was read. -/
def readLine? (quote : Char) (escapes : Bool) : Nat → List Char → Option (List Char × List Char)
  | 0, _ | _ + 1, [] => none
  | fuel + 1, character :: rest =>
    if character = quote then some ([], rest)
    else if isLineEnd character then none
    else do
      let (character, rest) ←
        if escapes ∧ character = '\\' then readEscape? rest else some (character, rest)
      let (tail, rest) ← readLine? quote escapes fuel rest
      return (character :: tail, rest)

/-- The characters of a string over several lines. Up to two quotes may stand anywhere in it,
also in front of the three that close it; a backslash at the end of a line hides all blanks up to
the next character. -/
def readLines? (quote : Char) (escapes : Bool) : Nat → List Char → Option (List Char × List Char)
  | 0, _ | _ + 1, [] => none
  | fuel + 1, character :: rest =>
    if character = quote then
      let run := (rest.takeWhile (· = quote)).length + 1
      if 6 ≤ run then none
      else if 3 ≤ run then some (List.replicate (run - 3) quote, rest.drop (run - 1))
      else do
        let (tail, rest) ← readLines? quote escapes fuel (rest.drop (run - 1))
        return (List.replicate run quote ++ tail, rest)
    else if escapes ∧ character = '\\' then
      let isBlank (character : Char) : Bool := isSpace character || isLineEnd character
      if (rest.takeWhile isBlank).contains '\n' then
        readLines? quote escapes fuel (rest.dropWhile isBlank)
      else do
        let (character, rest) ← readEscape? rest
        let (tail, rest) ← readLines? quote escapes fuel rest
        return (character :: tail, rest)
    else do
      let (tail, rest) ← readLines? quote escapes fuel rest
      return (character :: tail, rest)

/-- A line end right behind the opening quotes does not count. -/
def dropFirstLineEnd : List Char → List Char
  | '\n' :: rest | '\r' :: '\n' :: rest => rest
  | rest => rest

def isQuote (character : Char) : Bool := character = '"' || character = '\''

/-- A string on one line, quote included. -/
def readQuoted? : List Char → Option (String × List Char)
  | [] => none
  | quote :: rest =>
    (readLine? quote (quote = '"') (rest.length + 1) rest).map fun (characters, rest) =>
      (String.ofList characters, rest)

/-- A string that may go over several lines when it opens with three quotes. -/
def readText? : List Char → Option (String × List Char)
  | first :: second :: third :: rest =>
    if first = second ∧ second = third then
      let body := dropFirstLineEnd rest
      (readLines? first (first = '"') (body.length + 1) body).map fun (characters, rest) =>
        (String.ofList characters, rest)
    else readQuoted? (first :: second :: third :: rest)
  | input => readQuoted? input

/-! ### Keys -/

def readPart? (input : List Char) : Option (String × List Char) :=
  if input.head?.any isQuote then readQuoted? input
  else
    match input.takeWhile isBare with
    | [] => none
    | bare => some (String.ofList bare, input.dropWhile isBare)

/-- The parts of a key, with spaces around the dots. -/
def readKey? : Nat → List Char → Option (Key × List Char)
  | 0, _ => none
  | fuel + 1, input => do
    let (part, rest) ← readPart? (skipSpaces input)
    match skipSpaces rest with
    | '.' :: rest =>
      let (parts, rest) ← readKey? fuel rest
      return (part :: parts, rest)
    | rest => return ([part], rest)

/-! ### Values -/

/-- What the words, numbers and points in time are made of. -/
def isWordChar (character : Char) : Bool :=
  isBare character || character = '+' || character = '.' || character = ':'

/-- The letters inside a point in time may be small, and a space may part its halves. -/
def momentChar (character : Char) : Char :=
  if character = 't' ∨ character = ' ' then 'T' else if character = 'z' then 'Z' else character

/-- Takes a word from the front. A date goes on behind one space if digits follow. -/
def readWord (input : List Char) : List Char × List Char :=
  let word := input.takeWhile isWordChar
  match input.dropWhile isWordChar with
  | ' ' :: digit :: rest =>
    if digit.isDigit ∧ (Literal.afterDate? word).any List.isEmpty then
      let rest := digit :: rest
      (word ++ ' ' :: rest.takeWhile isWordChar, rest.dropWhile isWordChar)
    else (word, ' ' :: digit :: rest)
  | rest => (word, rest)

/-- The value a word stands for. -/
def wordValue? (word : List Char) : Option Toml :=
  if word = "true".toList then some (.bool true)
  else if word = "false".toList then some (.bool false)
  else
    match Literal.integer? word with
    | some value => some (.integer value)
    | none =>
      if Literal.isFraction word then some (.fraction (String.ofList word))
      else if Literal.isMoment (word.map momentChar) then some (.moment (String.ofList word))
      else none

mutual

def readValue? : Nat → List Char → Option (Written × List Char)
  | 0, _ => none
  | fuel + 1, input =>
    let input := skipSpaces input
    match input with
    | '[' :: rest => (readItems? fuel rest).map fun (items, rest) => (.array items, rest)
    | '{' :: rest =>
      match skipSpaces rest with
      | '}' :: rest => some (.inline [], rest)
      | rest => (readFields? fuel rest).map fun (fields, rest) => (.inline fields, rest)
    | _ =>
      if input.head?.any isQuote then
        (readText? input).map fun (value, rest) => (.value (.text value), rest)
      else
        let (word, rest) := readWord input
        (wordValue? word).map fun value => (.value value, rest)

/-- The items of an array up to its closing bracket; a comma may stand behind the last. -/
def readItems? : Nat → List Char → Option (List Written × List Char)
  | 0, _ => none
  | fuel + 1, input =>
    match skipFiller false input with
    | ']' :: rest => some ([], rest)
    | input => do
      let (item, rest) ← readValue? fuel input
      match skipFiller false rest with
      | ',' :: rest =>
        let (items, rest) ← readItems? fuel rest
        return (item :: items, rest)
      | ']' :: rest => return ([item], rest)
      | _ => none

/-- The fields of an inline table that has at least one, up to its closing brace. -/
def readFields? : Nat → List Char → Option (List (Key × Written) × List Char)
  | 0, _ => none
  | fuel + 1, input => do
    let (key, rest) ← readKey? (input.length + 1) input
    match rest with
    | '=' :: rest =>
      let (value, rest) ← readValue? fuel rest
      match skipSpaces rest with
      | ',' :: rest =>
        let (fields, rest) ← readFields? fuel rest
        return ((key, value) :: fields, rest)
      | '}' :: rest => return ([(key, value)], rest)
      | _ => none
    | _ => none

end

/-! ### Statements -/

/-- A key up to a closing word. -/
def readHeader? (closing : List Char) (input : List Char) : Option (Key × List Char) := do
  let (key, rest) ← readKey? (input.length + 1) input
  if closing.isPrefixOf rest then some (key, rest.drop closing.length) else none

def readStatement? (input : List Char) : Option (Statement × List Char) :=
  match input with
  | '[' :: '[' :: rest =>
    (readHeader? [']', ']'] rest).map fun (key, rest) => (.element key, rest)
  | '[' :: rest => (readHeader? [']'] rest).map fun (key, rest) => (.table key, rest)
  | _ => do
    let (key, rest) ← readKey? (input.length + 1) input
    match rest with
    | '=' :: rest =>
      let (value, rest) ← readValue? (2 * rest.length + 2) rest
      return (.assign key value, rest)
    | _ => none

def readStatements? : Nat → List Char → Option (List Statement)
  | 0, _ => none
  | fuel + 1, input =>
    match skipFiller false input with
    | [] => some []
    | input => do
      let (statement, rest) ← readStatement? input
      let statements ← readStatements? fuel (← endLine? rest)
      return statement :: statements

/-! ### Bytes -/

/-- Files of other programs may begin with a mark of their encoding. -/
def dropMark : List UInt8 → List UInt8
  | 0xff :: 0xfe :: rest | 0xfe :: 0xff :: rest | 0xef :: 0xbb :: 0xbf :: rest => rest
  | bytes => bytes

def isControl (character : Char) : Bool :=
  (character.toNat < 0x20 && !isSpace character && !isLineEnd character) ||
    character.toNat = 0x7f

/-- Whether every character may stand in a file: no control characters but tabs and line ends,
a carriage return only as part of a line end, and nothing that is not well-formed. -/
def isClean : List Char → Bool
  | [] => true
  | '\r' :: '\n' :: rest => isClean rest
  | character :: rest =>
    character ≠ '\r' && !isControl character && character ≠ Text.Utf8.replacement && isClean rest

/-- The statements of a file. -/
def statements? (bytes : List UInt8) : Option (List Statement) :=
  let input := Text.Utf8.decode (dropMark bytes)
  if isClean input then readStatements? (input.length + 1) input else none

end TreeCheck.Toml
