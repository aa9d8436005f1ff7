/-
What a command works with: files, input, the two outputs, and the trace of what it does.
Events go to the tracer as soon as a piece of work is done, and what the tracer hands
over goes to its file or to the error output.
-/

import TreeCheck.Check.Program
import TreeCheck.CommandLine.Invocation
import TreeCheck.Pipeline.Settings
import TreeCheck.Trace.Tracer

namespace TreeCheck.CommandLine

/-- The trace of a command. -/
structure Tracing where
  tracer : Trace.Tracer := .silent
  /-- The file events are written to; without one it is the error output. -/
  target : Option String := none
  recorder : Trace.Recorder := {}
  /-- How many of the recorded events the tracer was given. -/
  delivered : Nat := 0

structure Console where
  disk : Disk
  /-- The directory of the user. -/
  home : String
  input : List UInt8 := []
  output : String := ""
  errors : String := ""
  tracing : Tracing := {}

/-- Why a command failed. -/
inductive CommandError where
  | usage (failure : UsageError)
  /-- A file that is written while the command runs cannot be made. -/
  | profile (what : String) (failure : DiskError)
  | traceLevel (failure : Trace.SettingError)
  | traceMode (failure : Trace.SettingError)
  | traceOutput (failure : DiskError)
  | search (failure : DiskError)
  | settings (path : String) (failure : SettingsError)
  | config (failure : ConfigError)
  | view (value : String)
  | cache (failure : DiskError)
  | disk (failure : DiskError)
  | noTrees (path : String)
  | program (failure : ProgramError)
  | treeFile (failure : TreeFileError)
  | notResolved (path : String)
  | versionFormat (value : String)
  | load (failure : LoadError)
  /-- The command did its work, and what it found is not in order. -/
  | notInOrder

namespace CommandError

/-- The wording; nothing where the output has said it all. -/
def message? : CommandError → Option String
  | .usage failure => some failure.message
  | .profile what failure => some s!"failed to start profiling: {what}: {failure.message}"
  | .traceLevel failure => some ("invalid trace level: " ++ failure.message)
  | .traceMode failure => some ("invalid trace mode: " ++ failure.message)
  | .traceOutput failure =>
    some ("failed to create tracer: failed to open trace output: " ++ failure.message)
  | .search failure => some s!"failed to stat {Text.quoted failure.path}: {failure.message}"
  | .settings path failure => some (path ++ ": " ++ failure.message)
  | .config failure => some failure.message
  | .view value => some s!"invalid --ui value {Text.quoted value} (expected auto|on|off)"
  | .cache failure => some ("failed to open disk cache: " ++ failure.message)
  | .disk failure => some failure.message
  | .noTrees path => some (path ++ ": no tree files (*.json, *.sbt)")
  | .program failure => some failure.message
  | .treeFile failure => some failure.message
  | .notResolved path => some (path ++ ": name resolution did not run")
  | .versionFormat value =>
    some s!"unsupported format {Text.quoted value} (must be pretty or json)"
  | .load failure => some failure.message
  | .notInOrder => none

end CommandError

/-- Work on a console that may fail. -/
abbrev CommandM := ExceptT CommandError (StateM Console)

namespace Console

def print (text : String) (console : Console) : Console :=
  { console with output := console.output ++ text }

def printError (text : String) (console : Console) : Console :=
  { console with errors := console.errors ++ text }

/-- Adds bytes to a file. -/
def append (path : String) (bytes : List UInt8) (console : Console) : Console :=
  let before := ((console.disk.read path).toOption).getD []
  match console.disk.write path (before ++ bytes) with
  | .ok disk => { console with disk }
  | .error _ => console

/-- Puts what the tracer has handed over where it belongs. -/
def collect (console : Console) : Console :=
  let (bytes, tracer) := console.tracing.tracer.drain
  let console := { console with tracing := { console.tracing with tracer } }
  if bytes.isEmpty then console
  else
    match console.tracing.target with
    | some path => console.append path bytes
    | none => console.printError (Text.Utf8.ofBytes bytes)

/-- Goes on with a recorder, and gives its new events to the tracer. -/
def follow (recorder : Trace.Recorder) (console : Console) : Console :=
  let tracing := console.tracing
  let fresh := recorder.events.toList.drop tracing.delivered
  let tracer := fresh.foldl (fun tracer event => tracer.emit event) tracing.tracer
  collect
    { console with
      tracing := { tracing with tracer, recorder, delivered := recorder.events.size } }

end Console

namespace CommandM

def print (text : String) : CommandM Unit := modify (Console.print text)

def printError (text : String) : CommandM Unit := modify (Console.printError text)

def disk : CommandM Disk := return (← get).disk

/-- An outcome that can fail for a reason of its own. -/
def ofExcept {ε α : Type} (cause : ε → CommandError) (outcome : Except ε α) : CommandM α :=
  ofExceptT (outcome.mapError cause)
where
  ofExceptT : Except CommandError α → CommandM α
    | .ok value => pure value
    | .error failure => throw failure

/-- Changes the files. -/
def change {ε : Type} (cause : ε → CommandError) (act : Disk → Except ε Disk) : CommandM Unit := do
  let disk ← ofExcept cause (act (← get).disk)
  modify ({ · with disk })

/-- Checks programs with the files and the trace of the console. -/
def checking {α : Type} (work : CheckM α) : CommandM α := do
  let console ← get
  let (result, state) := work.run { disk := console.disk, trace := console.tracing.recorder }
  set (Console.follow state.trace { console with disk := state.disk })
  return result

end CommandM

end TreeCheck.CommandLine
