/-
The commands, the flags each of them takes, and how many arguments. A flag has a value from the
start, which also says of which kind its values are; a switch can be written without one.
Writing a list flag again adds to the list, writing any other flag again replaces its value.
-/

import TreeCheck.Text.Csv
import TreeCheck.Text.Quoted

namespace TreeCheck.CommandLine

inductive FlagValue where
  | text (value : String)
  | switch (on : Bool)
  | number (value : Int)
  | list (items : List String)
  deriving DecidableEq, Repr, Inhabited

structure Flag where
  name : String
  initial : FlagValue
  /-- A letter that stands for the name behind a single dash. -/
  letter : Option Char := none
  deriving DecidableEq, Repr, Inhabited

/-- Why a text is no value of a flag. -/
inductive ValueError where
  | switch (text : String)
  | number (text : String) (cause : Text.Integer.Cause)
  | list (failure : Text.Csv.Error)
  deriving DecidableEq, Repr

def ValueError.message : ValueError → String
  | .switch text => s!"strconv.ParseBool: parsing {Text.quoted text}: invalid syntax"
  | .number text cause => s!"strconv.ParseInt: parsing {Text.quoted text}: {cause.text}"
  | .list failure => failure.message

namespace Flag

/-- Whether the flag stands for itself and takes no value from the next word. -/
def isSwitch (flag : Flag) : Bool := flag.initial matches .switch _

/-- How messages name the flag. -/
def title (flag : Flag) : String :=
  match flag.letter with
  | some letter => s!"-{letter}, --{flag.name}"
  | none => "--" ++ flag.name

def switchValue? (text : String) : Option Bool :=
  if text ∈ ["1", "t", "T", "TRUE", "true", "True"] then some true
  else if text ∈ ["0", "f", "F", "FALSE", "false", "False"] then some false
  else none

/-- The value after a text was written for the flag; `before` is what was written earlier. -/
def read (flag : Flag) (before : Option FlagValue) (text : String) :
    Except ValueError FlagValue :=
  match flag.initial with
  | .text _ => .ok (.text text)
  | .switch _ => (switchValue? text).elim (.error (.switch text)) (.ok ∘ .switch)
  | .number _ => ((Text.Integer.parse text).mapError (.number text)).map .number
  | .list _ => do
    let items ← (Text.Csv.record text).mapError .list
    match before with
    | some (.list earlier) => return .list (earlier ++ items)
    | _ => return .list items

end Flag

/-! ### What was written -/

/-- The flags that were written, with their values. -/
abbrev FlagValues := List (String × FlagValue)

namespace FlagValues

def find? (values : FlagValues) (name : String) : Option FlagValue := values.lookup name

def set (values : FlagValues) (name : String) (value : FlagValue) : FlagValues :=
  (name, value) :: values.filter (·.1 ≠ name)

def text? (values : FlagValues) (name : String) : Option String :=
  match values.find? name with
  | some (.text value) => some value
  | _ => none

def switch? (values : FlagValues) (name : String) : Option Bool :=
  match values.find? name with
  | some (.switch on) => some on
  | _ => none

def number? (values : FlagValues) (name : String) : Option Int :=
  match values.find? name with
  | some (.number value) => some value
  | _ => none

def list? (values : FlagValues) (name : String) : Option (List String) :=
  match values.find? name with
  | some (.list items) => some (Text.Csv.normal items)
  | _ => none

def text (values : FlagValues) (name : String) (initial : String) : String :=
  (values.text? name).getD initial

/-- Whether a switch is on; all of them are off from the start. -/
def isOn (values : FlagValues) (name : String) : Bool := (values.switch? name).getD false

end FlagValues

/-! ### Commands -/

inductive Command where
  /-- The program without a command. -/
  | root
  | check | scopes | tree | repl | passes | convert | version | help | completion
  deriving DecidableEq, Repr, Inhabited

/-- How many arguments a command takes. -/
inductive Arity where
  | any
  | none
  | exactly (count : Nat)
  | atLeast (count : Nat)
  deriving DecidableEq, Repr

namespace Command

def program : String := "sable"

def name : Command → String
  | .root => program
  | .check => "check"
  | .scopes => "scopes"
  | .tree => "tree"
  | .repl => "repl"
  | .passes => "passes"
  | .convert => "convert"
  | .version => "version"
  | .help => "help"
  | .completion => "completion"

/-- The words that lead to the command. -/
def path (command : Command) : String :=
  if command = .root then program else program ++ " " ++ command.name

/-- The commands that a misspelt one may stand for. -/
def suggested : List Command :=
  [.check, .scopes, .tree, .repl, .passes, .convert, .version, .completion]

def ofName? (name : String) : Option Command :=
  (.help :: suggested).find? fun command => command.name = name

def arity : Command → Arity
  | .check => .atLeast 1
  | .scopes | .tree => .exactly 1
  | .convert => .exactly 2
  | .repl | .passes | .completion => .none
  | .root | .version | .help => .any

/-- Whether the command does anything but show how it is used. -/
def isRunnable : Command → Bool
  | .root | .help | .completion => false
  | _ => true

/-! ### Flags -/

def onOff (name : String) : Flag := ⟨name, .switch false, none⟩

def textual (name : String) : Flag := ⟨name, .text "", none⟩

def counted (name : String) : Flag := ⟨name, .number 0, none⟩

def listed (name : String) : Flag := ⟨name, .list [], none⟩

/-- Flags that every command takes. -/
def shared : List Flag :=
  [textual "config", textual "color", onOff "quiet", onOff "timings", counted "max-diagnostics",
    textual "trace", textual "trace-level", textual "trace-mode", counted "trace-ring-size",
    textual "cpu-profile", textual "mem-profile", textual "runtime-trace"]

def own : Command → List Flag
  | .check =>
    [textual "format", listed "passes", textual "stop-after", onOff "interactive",
      onOff "warnings-as-errors", counted "jobs", onOff "with-notes", onOff "suggest",
      onOff "fullpath", onOff "validate", onOff "disk-cache", textual "cache-dir",
      onOff "clear-cache", textual "ui"]
  | .scopes | .tree => [listed "passes", textual "stop-after", onOff "fullpath"]
  | .repl => [listed "passes", textual "stop-after", onOff "warnings-as-errors"]
  | .passes => [listed "passes", textual "stop-after", onOff "interactive"]
  | .version => [onOff "hash", onOff "date", onOff "full", textual "format"]
  | .root | .convert | .help | .completion => []

/-- The flags a command is told apart from its arguments by. -/
def flags (command : Command) : List Flag := command.own ++ shared

/-- Flags that ask for something else than the command. -/
def questions (command : Command) : List Flag :=
  ⟨"help", .switch false, some 'h'⟩ ::
    if command = .root then [⟨"version", .switch false, some 'v'⟩] else []

/-- All flags that can be written for a command. -/
def allFlags (command : Command) : List Flag := command.flags ++ command.questions

end Command

end TreeCheck.CommandLine
