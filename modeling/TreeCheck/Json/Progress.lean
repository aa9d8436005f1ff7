/-
How far a text has come towards a JSON value. Somebody who types a value line by line is
asked for more as long as the text can still become one: a machine reads it byte by byte
and knows what it waits for and which brackets are open.
-/

namespace TreeCheck.Json

/-- What a text is the beginning of. -/
inductive Progress where
  | blank
  /-- More text can make it a value. -/
  | unfinished
  /-- It begins with a whole value. -/
  | complete
  /-- No more text can make it a value. -/
  | broken
  deriving DecidableEq, Repr

namespace Progress

inductive Bracket where
  | object | array
  deriving DecidableEq, Repr

/-- What the machine is in the middle of. -/
inductive Stage where
  | value
  /-- The first item of an array, or its end. -/
  | firstItem
  /-- The first key of an object, or its end. -/
  | firstKey
  | key
  /-- Behind a key. -/
  | colon
  /-- Behind a value. -/
  | next
  | text (isKey : Bool)
  | escape (isKey : Bool)
  /-- So many digits of an escape are missing. -/
  | hex (isKey : Bool) (missing : Nat)
  /-- The rest of a word such as `true`. -/
  | word (rest : List Char)
  /-- Behind the sign of a number. -/
  | sign
  /-- Behind a leading zero; no digit may follow. -/
  | zero
  | digits
  /-- Behind the point. -/
  | point
  | fraction
  /-- Behind the mark of an exponent. -/
  | mark
  /-- Behind the sign of an exponent. -/
  | markSign
  | exponent
  deriving DecidableEq, Repr

/-- The machine: what it is in the middle of, and the brackets around it, innermost first. -/
structure Machine where
  stage : Stage := .value
  around : List Bracket := []
  deriving DecidableEq, Repr

/-- What a byte leads to. -/
inductive Step where
  | go (machine : Machine)
  | complete
  | broken

def isBlank (character : Char) : Bool :=
  character = ' ' || character = '\t' || character = '\n' || character = '\r'

def isHexDigit (character : Char) : Bool :=
  character.isDigit || ('a' ≤ character && character ≤ 'f') || ('A' ≤ character && character ≤ 'F')

/-- How many brackets may be open at once. -/
def depthLimit : Nat := 10000

namespace Machine

def go (machine : Machine) (stage : Stage) : Step := .go { machine with stage }

def enter (machine : Machine) (bracket : Bracket) (stage : Stage) : Step :=
  if machine.around.length < depthLimit then .go ⟨stage, bracket :: machine.around⟩ else .broken

/-- Closes the innermost bracket; behind the last one the value is complete. -/
def leave (machine : Machine) : Step :=
  match machine.around with
  | [] | [_] => .complete
  | _ :: outer => .go ⟨.next, outer⟩

/-- A character where a value begins. -/
def beginValue (machine : Machine) (character : Char) : Step :=
  match character with
  | '{' => machine.enter .object .firstKey
  | '[' => machine.enter .array .firstItem
  | '"' => machine.go (.text false)
  | '-' => machine.go .sign
  | '0' => machine.go .zero
  | 't' => machine.go (.word ['r', 'u', 'e'])
  | 'f' => machine.go (.word ['a', 'l', 's', 'e'])
  | 'n' => machine.go (.word ['u', 'l', 'l'])
  | _ => if character.isDigit then machine.go .digits else .broken

/-- A character behind a value. -/
def behindValue (machine : Machine) (character : Char) : Step :=
  match machine.around with
  | [] => .complete
  | .object :: _ =>
    if isBlank character then machine.go .next
    else if character = ',' then machine.go .key
    else if character = '}' then machine.leave
    else .broken
  | .array :: _ =>
    if isBlank character then machine.go .next
    else if character = ',' then machine.go .value
    else if character = ']' then machine.leave
    else .broken

/-- Behind the closing quote of a text. -/
def closeText (machine : Machine) (isKey : Bool) : Step :=
  machine.go (if isKey then .colon else .next)

/-- A digit, or the mark of an exponent, or the end of the number. -/
def inNumber (machine : Machine) (more : Stage) (character : Char) : Step :=
  if character.isDigit then machine.go more
  else if character = 'e' ∨ character = 'E' then machine.go .mark
  else machine.behindValue character

/-- A digit that has to be there. -/
def digit (machine : Machine) (stage : Stage) (character : Char) : Step :=
  if character.isDigit then machine.go stage else .broken

def step (machine : Machine) (character : Char) : Step :=
  match machine.stage with
  | .value =>
    if isBlank character then .go machine else machine.beginValue character
  | .firstItem =>
    if isBlank character then .go machine
    else if character = ']' then machine.leave
    else machine.beginValue character
  | .firstKey =>
    if isBlank character then .go machine
    else if character = '}' then machine.leave
    else if character = '"' then machine.go (.text true)
    else .broken
  | .key =>
    if isBlank character then .go machine
    else if character = '"' then machine.go (.text true)
    else .broken
  | .colon =>
    if isBlank character then .go machine
    else if character = ':' then machine.go .value
    else .broken
  | .next => machine.behindValue character
  | .text isKey =>
    if character = '"' then machine.closeText isKey
    else if character = '\\' then machine.go (.escape isKey)
    else if character.toNat < 0x20 then .broken
    else .go machine
  | .escape isKey =>
    if character = 'u' then machine.go (.hex isKey 4)
    else if character ∈ ['b', 'f', 'n', 'r', 't', '\\', '/', '"'] then machine.go (.text isKey)
    else .broken
  | .hex isKey missing =>
    if isHexDigit character then
      machine.go (if missing ≤ 1 then .text isKey else .hex isKey (missing - 1))
    else .broken
  | .word rest =>
    match rest with
    | [] => machine.behindValue character
    | expected :: rest =>
      if character = expected then machine.go (if rest = [] then .next else .word rest)
      else .broken
  | .sign =>
    if character = '0' then machine.go .zero else machine.digit .digits character
  | .zero =>
    if character = '.' then machine.go .point
    else if character = 'e' ∨ character = 'E' then machine.go .mark
    else machine.behindValue character
  | .digits =>
    if character = '.' then machine.go .point else machine.inNumber .digits character
  | .point => machine.digit .fraction character
  | .fraction => machine.inNumber .fraction character
  | .mark =>
    if character = '+' ∨ character = '-' then machine.go .markSign
    else machine.digit .exponent character
  | .markSign => machine.digit .exponent character
  | .exponent =>
    if character.isDigit then .go machine else machine.behindValue character

/-- Whether the value is whole when nothing follows. -/
def isWhole (machine : Machine) : Bool :=
  machine.around = [] && machine.stage ∈ [.next, .zero, .digits, .fraction, .exponent]

def run (machine : Machine) : List Char → Progress
  | [] => if machine.isWhole then .complete else .unfinished
  | character :: rest =>
    match machine.step character with
    | .go machine => machine.run rest
    | .complete => .complete
    | .broken => .broken

end Machine

/-- How far a text has come. -/
def of (text : List Char) : Progress :=
  if text.all isBlank then .blank else Machine.run {} text

end Progress

end TreeCheck.Json
