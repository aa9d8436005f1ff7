/-
The settings a command runs with: those of a file that was named, or of the nearest
settings file at or above the working directory, or the defaults; and over them what the
flags say.
-/

import TreeCheck.CommandLine.Console
import TreeCheck.Report.DiagnosticText

namespace TreeCheck

/-! ### Settings files -/

namespace Settings

/-- A directory and all directories above it. -/
def upwards (directory : String) : List String :=
  let segments := Text.Path.cleanSegments directory
  (List.range (segments.length + 1)).reverse.map fun count =>
    "/" ++ Text.join "/" (segments.take count)

/-- The first of some directories that has a settings file. -/
def findIn (disk : Disk) : List String → Except DiskError (Option String)
  | [] => .ok none
  | directory :: rest =>
    let candidate := Text.Path.joinAll [directory, fileName]
    match disk.stat candidate with
    | .ok _ => .ok (some candidate)
    | .error failure => if failure.cause = .missing then findIn disk rest else .error failure

/-- The settings file that is nearest to a directory, going up from it. -/
def find (disk : Disk) (directory : String) : Except DiskError (Option String) :=
  let start :=
    if Text.Path.isAbsolute directory then directory
    else Text.Path.joinAll [disk.herePath, directory]
  findIn disk (upwards start)

/-- The settings of a file. -/
def load (disk : Disk) (path : String) : Except SettingsError Settings :=
  match disk.read path with
  | .ok content => ofFile content
  | .error failure => .error (if failure.cause = .missing then .noFile else .unreadable)

end Settings

namespace CommandLine

/-- The settings without what the flags say. -/
def projectSettings (values : FlagValues) : CommandM Settings := do
  let disk ← CommandM.disk
  let load (path : String) : CommandM Settings :=
    CommandM.ofExcept (.settings path) (Settings.load disk path)
  match values.text "config" "" with
  | "" =>
    match ← CommandM.ofExcept .search (Settings.find disk disk.herePath) with
    | some path => load path
    | none => return {}
  | path => load path

/-! ### Flags over settings -/

/-- A setting that a flag replaces if it was written. -/
def replaced {α : Type} (value : Option α) (settings : Settings) (set : α → Settings) : Settings :=
  value.elim settings set

/-- What flags change before the cutoff is read, which is counted in the passes they name. -/
def overrideFirst (values : FlagValues) (settings : Settings) : Settings :=
  let settings := replaced (values.text? "color") settings fun color =>
    { settings with color := Text.lowerCase color }
  let settings := replaced (values.number? "max-diagnostics") settings fun limit =>
    { settings with limit }
  replaced (values.list? "passes") settings fun passes => { settings with passes, stopAfter := 0 }

def overrideCutoff (values : FlagValues) (settings : Settings) : Except ConfigError Settings := do
  match values.text? "stop-after" with
  | none => return settings
  | some directive =>
    return { settings with
             stopAfter := ← Pipeline.parseCutoff directive settings.passes.length }

def overrideLast (values : FlagValues) (settings : Settings) : Settings :=
  let settings := replaced (values.switch? "interactive") settings fun on =>
    { settings with mode := if on then "interactive" else "batch" }
  let settings := replaced (values.text? "format") settings fun format =>
    { settings with format := Text.lowerCase format }
  replaced (values.switch? "warnings-as-errors") settings fun warningsAsErrors =>
    { settings with warningsAsErrors }

/-- The settings with what the flags say. -/
def overridden (values : FlagValues) (settings : Settings) : Except ConfigError Settings := do
  let settings ← overrideCutoff values (overrideFirst values settings)
  let settings := overrideLast values settings
  settings.check
  return settings

/-- Whether output is coloured. No output is a terminal, so it has to be asked for. -/
def isColored (settings : Settings) : Bool := settings.color = "on"

/-- Shows a configuration that was refused as the diagnostic that it is. -/
def showRefusal (color : Bool) (failure : ConfigError) : CommandM Unit :=
  CommandM.printError
    (PrettyReport.text { naming := { files := none }, color } [failure.diagnostic])

/-- The settings a command runs with, and the pipeline they describe. -/
def settingsFor (values : FlagValues) : CommandM (Settings × Pipeline) := do
  let settings ← tryCatch (projectSettings values) fun failure => do
    match failure with
    | .settings _ (.refused refusal) => showRefusal false refusal
    | _ => pure ()
    throw failure
  match overridden values settings with
  | .error refusal =>
    showRefusal (isColored (overrideFirst values settings)) refusal
    throw (.config refusal)
  | .ok settings =>
    let pipeline ← CommandM.ofExcept .config (Pipeline.make settings.passes settings.stopAfter)
    return (settings, pipeline)

end CommandLine

end TreeCheck
