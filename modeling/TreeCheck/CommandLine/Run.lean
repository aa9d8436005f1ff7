/-
Running the program on the words of a command line. Profiles and a trace that were asked
for are begun before a command and finished after it, whether it succeeded or not; profiles are
empty here, only their files are made. A command that fails says why, and the program then ends
with status one.
-/

import TreeCheck.CommandLine.Repl

namespace TreeCheck.CommandLine

/-! ### Profiles -/

/-- Makes the file of a profile that runs during the command. -/
def startProfile (values : FlagValues) (flag what : String) : CommandM Unit :=
  match values.text flag "" with
  | "" => pure ()
  | path => CommandM.change (.profile what) (·.write path [])

def startProfiles (values : FlagValues) : CommandM Unit := do
  startProfile values "cpu-profile" "cpu profile"
  startProfile values "runtime-trace" "runtime trace"

/-- Makes the file of the profile that is taken at the end. -/
def stopProfiles (values : FlagValues) (console : Console) : Console :=
  match values.text "mem-profile" "" with
  | "" => console
  | path =>
    match console.disk.write path [] with
    | .ok disk => { console with disk }
    | .error failure => console.printError s!"profile: heap profile: {failure.message}\n"

/-! ### Traces -/

/-- The level at which is traced: none unless a level or an output was asked for. -/
def traceLevel (values : FlagValues) : CommandM Trace.Level := do
  let level ← CommandM.ofExcept .traceLevel
    (Trace.Level.ofText (values.text "trace-level" "off"))
  if level = .off ∧ values.text "trace" "" ≠ "" then return ⟨2⟩ else return level

/-- Begins the trace. Events that are written somewhere are kept in memory as well. -/
def startTrace (values : FlagValues) : CommandM Unit := do
  let level ← traceLevel values
  if level = .off then return
  let path := values.text "trace" ""
  let mode ← CommandM.ofExcept .traceMode
    (Trace.StorageMode.ofText (values.text "trace-mode" "ring"))
  let mode := if path ≠ "" ∧ mode = .ring then .both else mode
  let target := if path = "" ∨ path = "-" then none else some path
  match target with
  | some path => if mode ≠ .ring then CommandM.change .traceOutput (·.write path [])
  | none => pure ()
  let size := (values.number? "trace-ring-size").getD Trace.Ring.defaultCapacity
  let tracer := (Trace.Tracer.make? level mode (Trace.Tracer.formatOf path) size).getD .silent
  modify fun console =>
    { console with tracing := { tracer, target, recorder := { level } } }

/-- Hands over what is left of the trace. -/
def stopTrace (console : Console) : Console :=
  Console.collect
    { console with
      tracing := { console.tracing with tracer := console.tracing.tracer.flush } }

/-! ### Both -/

/-- Begins what was asked for. When the trace cannot be begun, profiles end at once. -/
def startWatching (values : FlagValues) : CommandM Unit := do
  startProfiles values
  tryCatch (startTrace values) fun failure => do
    modify (stopProfiles values)
    throw failure

def stopWatching (values : FlagValues) (console : Console) : Console :=
  stopProfiles values (stopTrace console)

/-! ### Commands -/

/-- How the program is used. -/
def usageText (command : Command) : String :=
  "Usage:\n  " ++ command.path ++
    (if command = .root then " [command]\n\nAvailable Commands:\n" ++
      String.join (Command.suggested.map fun other => "  " ++ other.name ++ "\n")
    else " [flags]\n") ++
    "\nFlags:\n" ++
    String.join (command.allFlags.map fun flag => "  " ++ flag.title ++ "\n")

def runCommand (invocation : Invocation) : CommandM Unit :=
  match invocation.command with
  | .check => runCheck invocation
  | .scopes => runScopes invocation
  | .tree => runTree invocation
  | .repl => runRepl invocation
  | .passes => runPasses invocation
  | .convert => runConvert invocation
  | .version => runVersion invocation
  | command => CommandM.print (usageText command)

/-- The line that says why a command failed. -/
def showFailure (failure : CommandError) (console : Console) : Console :=
  match failure.message? with
  | some message => console.printError ("Error: " ++ message ++ "\n")
  | none => console

/-- Runs a command whose words were understood; the status the program ends with. -/
def perform (invocation : Invocation) (console : Console) : Nat × Console :=
  let values := invocation.values
  match (startWatching values).run console with
  | (.error failure, console) => (1, showFailure failure console)
  | (.ok _, console) =>
    match (runCommand invocation).run console with
    | (.ok _, console) => (0, stopWatching values console)
    | (.error failure, console) => (1, stopWatching values (showFailure failure console))

/-- Answers a question about the program, if one was asked. -/
def answer? (invocation : Invocation) : Option String :=
  if invocation.values.isOn "help" then some (usageText invocation.command)
  else if invocation.values.isOn "version" then
    some (Command.program ++ " version " ++ Version.colored Version.current false ++ "\n")
  else if invocation.command.isRunnable then none
  else some (usageText invocation.command)

/-- Runs the program; the status it ends with. -/
def run (words : List String) (console : Console) : Nat × Console :=
  match findCommand words with
  | .error failure =>
    (1, (showFailure (.usage failure) console).printError
      s!"Run '{Command.program} --help' for usage.\n")
  | .ok (command, words) =>
    match Invocation.ofWords command words with
    | .error failure => (1, showFailure (.usage failure) console)
    | .ok invocation =>
      match answer? invocation, invocation.checkArguments with
      | some text, _ => (0, console.print text)
      | none, .error failure => (1, showFailure (.usage failure) console)
      | none, .ok _ => perform invocation console

end TreeCheck.CommandLine
