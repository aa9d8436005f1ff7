/-
The command that reads declarations and statements as they are typed. Lines are taken
until they make a value, which is added to the program and checked; lines that begin
with a colon are commands. What was typed is remembered in a history file.
-/

import TreeCheck.CommandLine.Showing
import TreeCheck.Json.Progress

namespace TreeCheck.CommandLine

/-! ### Lines -/

/-- How many bytes of a line are read at once. -/
def lineLimit : Nat := 4096

/-- The next line of an input, what follows it, and whether it was cut because it is too long. A
return in front of the line end belongs to it. -/
def nextLine (input : List UInt8) : List UInt8 × List UInt8 × Bool :=
  let window := input.take lineLimit
  let line := window.takeWhile (· ≠ 10)
  let withoutReturn := if line.getLast? = some 13 then line.dropLast else line
  if line.length < window.length then (withoutReturn, input.drop (line.length + 1), false)
  else if window.length < lineLimit then (line, [], false)
  else (withoutReturn, input.drop withoutReturn.length, true)

/-- The lines of an input, with long ones in parts. The fuel bounds their number. -/
def linesOf : Nat → List UInt8 → List (List UInt8 × Bool)
  | 0, _ => []
  | _ + 1, [] => []
  | fuel + 1, input =>
    let (line, rest, cut) := nextLine input
    (line, cut) :: linesOf fuel rest

def inputLines (input : List UInt8) : List (List UInt8 × Bool) := linesOf (input.length + 1) input

/-! ### History -/

/-- What was typed, oldest first. -/
abbrev History := List String

namespace History

def limit : Nat := 1000

def fileName : String := ".sable_history"

/-- The newest entries up to the limit. -/
def capped (history : History) : History := history.drop (history.length - limit)

/-- Adds what was typed unless it was typed just before. -/
def push (history : History) (text : String) : History :=
  if history.getLast? = some text then history else capped (history ++ [text])

/-- The entries of some lines, up to the first one that was cut or is no text. -/
def ofLines : List (List UInt8 × Bool) → History
  | [] => []
  | (_, true) :: _ => []
  | (line, false) :: rest =>
    match Text.Utf8.ofBytes? line with
    | some entry => entry :: ofLines rest
    | none => []

/-- The entries of a history file. -/
def ofBytes (content : List UInt8) : History := capped (ofLines (inputLines content))

def bytes (history : History) : List UInt8 :=
  Text.Utf8.encode (String.join (history.map (· ++ "\n")))

end History

/-! ### Imports -/

/-- Imports are tree files by their path; nothing else can be imported. -/
def typedImports (disk : Disk) : ImportSource :=
  { find := fun path =>
      if Doc.WireForm.ofPath path = .unknown then .ok none
      else
        match disk.stat path with
        | .error _ => .ok none
        | .ok _ =>
          match TreeFile.readStream disk path with
          | .error failure => .error failure.message
          | .ok document => .ok ((document.units.head?.bind id).map ({ · with path }))
    bound := disk.size }

/-! ### Submissions -/

structure Repl where
  workspace : Workspace
  color : Bool
  quiet : Bool
  history : History := []

/-- What there is to show, with diagnostics in full. -/
def Repl.view (repl : Repl) (diagnostics : List Diagnostic) : ProgramView :=
  .ofWorkspace { color := repl.color, notes := true, hints := true } repl.workspace diagnostics

/-- What is said about a submission that succeeded. -/
def acceptedText (workspace : Workspace) (declared : Option DeclId) : String :=
  match declared with
  | none => "ok\n"
  | some id =>
    let name := workspace.tree.nameOf id
    match workspace.typeLabel? id with
    | some label => name ++ " : " ++ label ++ "\n"
    | none => name ++ " ok\n"

/-- Submits what was added, and says what came of it. -/
def submitAdded (repl : Repl) (added : Loader.Added) : CommandM Repl := do
  let (submission, workspace) := repl.workspace.submit added
  let repl := { repl with workspace }
  modify (Console.follow workspace.trace)
  CommandM.print (repl.view submission.diagnostics).prettyText
  match submission.failure with
  | some (.abort _) => pure ()
  | some failure => CommandM.printError ((failure.message?.getD "") ++ "\n")
  | none =>
    if !repl.quiet then CommandM.print (acceptedText workspace submission.declared)
  return repl

/-- Reads a declaration or statement, adds it to the program and submits it. -/
def submitText (repl : Repl) (text : String) : CommandM Repl := do
  match Doc.TopLevel.decode .json (Text.Utf8.encode text) with
  | .error failure =>
    CommandM.printError (failure.message ++ "\n")
    return repl
  | .ok item =>
    match repl.workspace.add item with
    | (.error failure, workspace) =>
      CommandM.printError (failure.message ++ "\n")
      return { repl with workspace }
    | (.ok added, workspace) => submitAdded { repl with workspace } added

/-! ### Commands -/

def helpText : String :=
  "  :scopes   print the scope table\n" ++
    "  :tree     print the declarations submitted so far\n" ++
    "  :quit     leave\n" ++
    "anything else is read as one top-level declaration or \x7b\"stmt\": ...\x7d in tree JSON form\n"

/-- What a command prints; nothing for one that ends the session. -/
def commandText? (repl : Repl) (text : String) : Option String :=
  let view := repl.view []
  match Text.lowerCase ((Text.words text).head?.getD "") with
  | ":quit" | ":q" | ":exit" => none
  | ":help" => some helpText
  | ":scopes" => some (view.scopesText?.getD "nothing submitted yet\n")
  | ":tree" => some (view.treeText repl.workspace.unit)
  | _ => some ("unknown command " ++ text ++ ". Type :help for commands.\n")

/-! ### Reading -/

def firstPrompt : String := "sable> "

/-- The prompt for a line that goes on with what was typed before. -/
def nextPrompt : String := "  ...> "

/-- Whether a text is a command. -/
def isCommand (text : List Char) : Bool := (text.dropWhile Text.isBlank).head? = some ':'

/-- Whether more lines have to follow. -/
def isUnfinished (text : List Char) : Bool :=
  !isCommand text && Json.Progress.of text = .unfinished

/-- Acts on what was typed; whether the session goes on. -/
def act (repl : Repl) (typed : List Char) : CommandM (Repl × Bool) := do
  let characters := Text.trimList typed
  if characters.isEmpty then return (repl, true)
  let text := String.ofList characters
  let entry := characters.map fun character => if character = '\n' then ' ' else character
  let repl := { repl with history := repl.history.push (String.ofList entry) }
  if isCommand characters then
    match commandText? repl text with
    | none => return (repl, false)
    | some answer =>
      CommandM.print answer
      return (repl, true)
  else return (← submitText repl text, true)

def prompt (typed : List Char) : String := if typed.isEmpty then firstPrompt else nextPrompt

/-- Reads lines until they end or the session is over; `typed` is what is unfinished. -/
def readLines : List (List Char) → List Char → Repl → CommandM Repl
  | [], typed, repl => do
    CommandM.print (prompt typed ++ "\n")
    return repl
  | line :: rest, typed, repl => do
    CommandM.print (prompt typed)
    let typed := if typed.isEmpty then line else typed ++ ['\n'] ++ line
    if isUnfinished typed then readLines rest typed repl
    else
      let (repl, goesOn) ← act repl typed
      if goesOn then readLines rest [] repl else return repl

def banner (pipeline : Pipeline) : String :=
  "sable repl (interactive mode, passes: " ++ Text.join ", " (pipeline.passes.map Pass.name) ++
    "). Type :help for commands.\n"

def runRepl (invocation : Invocation) : CommandM Unit := do
  let (settings, pipeline) ← settingsFor invocation.values
  let console ← get
  let workspace ← CommandM.ofExcept .load <|
    Workspace.create "<repl>" (typedImports console.disk) pipeline {} settings.warningsAsErrors
      console.tracing.recorder
  let historyPath := Text.Path.joinAll [console.home, History.fileName]
  let history := History.ofBytes ((console.disk.read historyPath).toOption.getD [])
  if !invocation.isQuiet then CommandM.print (banner pipeline)
  let lines := (inputLines console.input).map fun (line, _) => Text.Utf8.decode line
  let repl ← readLines lines []
    { workspace, color := isColored settings, quiet := invocation.isQuiet, history }
  modify fun console =>
    match console.disk.write historyPath repl.history.bytes with
    | .ok disk => { console with disk }
    | .error _ => console

end TreeCheck.CommandLine
