/-
From the words of a command line to a command, its flags and its arguments. First the
command is looked for: the first word that is neither a flag nor the value of one. Then
the other words are read from left to right, and the first one that cannot be read ends
the reading.
-/

import TreeCheck.CommandLine.Command
import TreeCheck.Text.EditDistance
import TreeCheck.Text.LetterCase
import TreeCheck.Text.Utf8

namespace TreeCheck.CommandLine

/-- Why words make no command. -/
inductive UsageError where
  | unknownCommand (word : String) (parent : Command) (suggestions : List Command)
  | badFlag (word : String)
  | unknownFlag (name : String)
  /-- The letter, and the letters from it on. -/
  | unknownLetter (letter : Char) (letters : String)
  | noValue (word : String)
  | badValue (flag : Flag) (text : String) (failure : ValueError)
  | wrongCount (expected given : Nat)
  | tooFew (least given : Nat)
  deriving DecidableEq, Repr

namespace UsageError

/-- A letter between quotes. -/
def quotedLetter (letter : Char) : String :=
  if letter = '\'' then "'\\''"
  else if letter = '"' then "'\"'"
  else "'" ++ Text.quotedChar letter ++ "'"

def suggestionText (suggestions : List Command) : String :=
  if suggestions.isEmpty then ""
  else
    "\n\nDid you mean this?\n" ++
      String.join (suggestions.map fun command => "\t" ++ command.name ++ "\n")

def message : UsageError → String
  | .unknownCommand word parent suggestions =>
    s!"unknown command {Text.quoted word} for {Text.quoted parent.path}" ++
      suggestionText suggestions
  | .badFlag word => "bad flag syntax: " ++ word
  | .unknownFlag name => "unknown flag: --" ++ name
  | .unknownLetter letter letters =>
    s!"unknown shorthand flag: {quotedLetter letter} in -{letters}"
  | .noValue word => "flag needs an argument: " ++ word
  | .badValue flag text failure =>
    s!"invalid argument {Text.quoted text} for {Text.quoted flag.title} flag: {failure.message}"
  | .wrongCount expected given => s!"accepts {expected} arg(s), received {given}"
  | .tooFew least given => s!"requires at least {least} arg(s), only received {given}"

end UsageError

/-! ### The command -/

/-- What a word is before the command is known. -/
inductive WordKind where
  | plain
  /-- A flag that stands for itself. -/
  | flag
  /-- A flag whose value is the next word. -/
  | flagWithValue
  /-- The word behind which there are only arguments. -/
  | lastFlag
  deriving DecidableEq, Repr

/-- What a word is, given the flags that are known; a flag that is not known is taken to have a
value. -/
def wordKind (flags : List Flag) (word : String) : WordKind :=
  match word.toList with
  | ['-', '-'] => .lastFlag
  | '-' :: '-' :: name =>
    if '=' ∈ name then .flag
    else if flags.any fun flag => flag.isSwitch && flag.name.toList = name then .flag
    else .flagWithValue
  | ['-', letter] =>
    if letter = '=' ∨ 1 < letter.utf8Size then .flag
    else if flags.any fun flag => flag.isSwitch && flag.letter = some letter then .flag
    else .flagWithValue
  | '-' :: _ => .flag
  | _ => .plain

/-- The words that are neither flags nor their values. A flag with a value that has at most one
word behind it ends the search. -/
def plainWords (flags : List Flag) : List String → List String
  | [] => []
  | word :: rest =>
    match wordKind flags word with
    | .lastFlag => []
    | .flagWithValue =>
      match rest with
      | [] | [_] => []
      | _ :: rest => plainWords flags rest
    | .plain => if word = "" then plainWords flags rest else word :: plainWords flags rest
    | .flag => plainWords flags rest

/-- The words without the first plain one that is `target`. -/
def withoutWord (flags : List Flag) (target : String) : List String → List String
  | [] => []
  | word :: rest =>
    match wordKind flags word with
    | .lastFlag => word :: rest
    | .flagWithValue =>
      match rest with
      | [] => [word]
      | value :: rest => word :: value :: withoutWord flags target rest
    | .plain => if word = target then rest else word :: withoutWord flags target rest
    | .flag => word :: withoutWord flags target rest

/-- How far a misspelt command may be from the one that is suggested. -/
def suggestionBound : Nat := 2

/-- The commands a word may have been meant as: near in spelling, or begun by it. -/
def suggestions (word : String) : List Command :=
  let typed := Text.Utf8.encode (Text.lowerCase word)
  Command.suggested.filter fun command =>
    let name := Text.Utf8.encode command.name
    Text.distance 1 typed name ≤ suggestionBound || typed.isPrefixOf name

/-- The command of some words, and the other words. -/
def findCommand (words : List String) : Except UsageError (Command × List String) :=
  let flags := Command.root.flags
  match plainWords flags words with
  | [] => .ok (.root, words)
  | word :: _ =>
    match Command.ofName? word with
    | some command => .ok (command, withoutWord flags word words)
    | none => .error (.unknownCommand word .root (suggestions word))

/-! ### Flags and arguments -/

structure Invocation where
  command : Command
  values : FlagValues := []
  arguments : List String := []
  deriving Repr

/-- Writes a value for a flag. -/
def setFlag (flag : Flag) (text : String) (values : FlagValues) :
    Except UsageError FlagValues := do
  let value ← (flag.read (values.find? flag.name) text).mapError (.badValue flag text)
  return values.set flag.name value

/-- Reads a word that begins with two dashes; how much of what follows it takes as its value. -/
def readLong (flags : List Flag) (word : String) (name : List Char) (rest : List String)
    (values : FlagValues) : Except UsageError (FlagValues × List String) := do
  match name with
  | '-' :: _ | '=' :: _ => throw (.badFlag word)
  | _ =>
    let key := String.ofList (name.takeWhile (· ≠ '='))
    match flags.find? (·.name = key) with
    | none => throw (.unknownFlag key)
    | some flag =>
      match name.dropWhile (· ≠ '=') with
      | _ :: text => return (← setFlag flag (String.ofList text) values, rest)
      | [] =>
        if flag.isSwitch then return (← setFlag flag "true" values, rest)
        else
          match rest with
          | [] => throw (.noValue word)
          | text :: rest => return (← setFlag flag text values, rest)

/-- The character whose code is the first byte of a text. -/
def firstByte (letters : List Char) : Char :=
  match Text.Utf8.encode (String.ofList (letters.take 1)) with
  | [] => ' '
  | byte :: _ => if byte < 0x80 then Char.ofNat byte.toNat else Char.ofNat 0xc3

/-- Reads letters behind one dash. All flags that have one are switches. -/
def readLetters (flags : List Flag) : List Char → FlagValues → Except UsageError FlagValues
  | [], values => .ok values
  | letter :: rest, values =>
    if "test.".toList.isPrefixOf (letter :: rest) then .ok values
    else
      match flags.find? (·.letter = some letter) with
      | none =>
        .error (.unknownLetter (firstByte (letter :: rest)) (String.ofList (letter :: rest)))
      | some flag =>
        match rest with
        | '=' :: first :: text => setFlag flag (String.ofList (first :: text)) values
        | _ => do readLetters flags rest (← setFlag flag "true" values)

/-- Reads words from left to right. The fuel is their number. -/
def readWords (flags : List Flag) : Nat → List String → FlagValues →
    Except UsageError (FlagValues × List String)
  | 0, _, values => .ok (values, [])
  | _ + 1, [], values => .ok (values, [])
  | fuel + 1, word :: rest, values => do
    match word.toList with
    | ['-', '-'] => return (values, rest)
    | '-' :: '-' :: name =>
      let (values, rest) ← readLong flags word name rest values
      readWords flags fuel rest values
    | '-' :: letter :: letters =>
      readWords flags fuel rest (← readLetters flags (letter :: letters) values)
    | _ =>
      let (values, arguments) ← readWords flags fuel rest values
      return (values, word :: arguments)

/-- Reads the words of a command. -/
def Invocation.ofWords (command : Command) (words : List String) :
    Except UsageError Invocation := do
  let (values, arguments) ← readWords command.allFlags words.length words []
  return { command, values, arguments }

namespace Invocation

/-- Whether there are as many arguments as the command takes. -/
def checkArguments (invocation : Invocation) : Except UsageError Unit :=
  let given := invocation.arguments.length
  match invocation.command.arity, invocation.arguments with
  | .any, _ => .ok ()
  | .none, [] => .ok ()
  | .none, word :: _ => .error (.unknownCommand word invocation.command [])
  | .exactly count, _ => if given = count then .ok () else .error (.wrongCount count given)
  | .atLeast count, _ => if count ≤ given then .ok () else .error (.tooFew count given)

def isQuiet (invocation : Invocation) : Bool := invocation.values.isOn "quiet"

end Invocation

end TreeCheck.CommandLine
