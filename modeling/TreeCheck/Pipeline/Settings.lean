/-
The settings of a project: which passes run, how diagnostics are delivered, and how they
are shown. A settings file is read over the defaults; what it does not mention keeps its
default value.
-/

import TreeCheck.Pipeline.Pass
import TreeCheck.Text.LetterCase
import TreeCheck.Toml.Document

namespace TreeCheck

structure Settings where
  passes : List String := Pass.allNames
  stopAfter : Int := 0
  mode : String := "batch"
  /-- How many diagnostics are kept; zero or less for all. -/
  limit : Int := 100
  format : String := "pretty"
  color : String := "auto"
  warningsAsErrors : Bool := false
  deriving DecidableEq, Repr, Inhabited

namespace Settings

/-- The name of the settings file of a project. -/
def fileName : String := "sable.toml"

def modes : List String := ["batch", "interactive"]
def formats : List String := ["pretty", "json", "short"]
def colorModes : List String := ["auto", "on", "off"]

def isInteractive (settings : Settings) : Bool := settings.mode = "interactive"

/-- The first setting that cannot be used. -/
def check (settings : Settings) : Except ConfigError Unit := do
  let passes ← Pipeline.passesOf settings.passes
  Pipeline.checkCutoff settings.stopAfter passes.length
  if settings.mode ∉ modes then throw (.of .badMode [settings.mode])
  if settings.format ∉ formats then throw (.of .badSetting ["format", settings.format])
  if settings.color ∉ colorModes then throw (.of .badSetting ["color mode", settings.color])

/-! ### Reading -/

/-- The sections of a settings file. -/
inductive Group where
  | pipeline | diagnostics
  deriving DecidableEq, Repr

inductive Field where
  | passes | stopAfter | mode | limit | format | color | warningsAsErrors
  deriving DecidableEq, Repr

namespace Group

def name : Group → String
  | .pipeline => "pipeline"
  | .diagnostics => "diagnostics"

/-- The fields of a section, by their names. -/
def fields : Group → List (String × Field)
  | .pipeline => [("passes", .passes), ("stop_after", .stopAfter), ("mode", .mode)]
  | .diagnostics =>
    [("max", .limit), ("format", .format), ("color", .color),
      ("warnings_as_errors", .warningsAsErrors)]

/-- The section of a name, which may be written in any case. -/
def ofName? (name : String) : Option Group :=
  [pipeline, diagnostics].find? fun group => Text.sameFolded group.name name

def field? (group : Group) (name : String) : Option Field :=
  (group.fields.find? fun (known, _) => Text.sameFolded known name).map Prod.snd

end Group

def texts? : List Toml → Option (List String)
  | [] => some []
  | .text value :: rest => (texts? rest).map (value :: ·)
  | _ :: _ => none

/-- Sets a field, if the value is of its kind. -/
def set? (settings : Settings) : Field → Toml → Option Settings
  | .passes, .array items => (texts? items).map fun passes => { settings with passes }
  | .stopAfter, .integer stopAfter => some { settings with stopAfter }
  | .mode, .text mode => some { settings with mode }
  | .limit, .integer limit => some { settings with limit }
  | .format, .text format => some { settings with format }
  | .color, .text color => some { settings with color }
  | .warningsAsErrors, .bool warningsAsErrors => some { settings with warningsAsErrors }
  | _, _ => none

/-- Settings so far, and the keys that were understood. -/
abbrev Reading := Settings × List Toml.Key

/-- Reads the fields of a section, which was written under some name. -/
def readGroup? (group : Group) (written : String) : Toml.Fields → Reading → Option Reading
  | [], reading => some reading
  | (name, value) :: rest, (settings, known) =>
    match group.field? name with
    | none => readGroup? group written rest (settings, known)
    | some field => do
      let settings ← settings.set? field value
      readGroup? group written rest (settings, [written, name] :: known)

/-- Reads the sections of a file; what belongs to none is passed over. -/
def readGroups? : Toml.Fields → Reading → Option Reading
  | [], reading => some reading
  | (name, value) :: rest, (settings, known) =>
    match Group.ofName? name with
    | none => readGroups? rest (settings, known)
    | some group =>
      match value with
      | .table fields =>
        (readGroup? group name fields (settings, [name] :: known)).bind (readGroups? rest)
      | _ => none

end Settings

/-- Why settings cannot be had. -/
inductive SettingsError where
  | noFile
  | unreadable
  | unknownKeys (keys : List String)
  | refused (failure : ConfigError)

namespace SettingsError

def message : SettingsError → String
  | .noFile => "failed to parse TOML: no such file or directory"
  | .unreadable => "failed to parse TOML: not a settings file"
  | .unknownKeys keys => "unknown keys: " ++ Text.join ", " keys
  | .refused failure => failure.message

end SettingsError

namespace Settings

/-- Settings that can be used. -/
def checked (settings : Settings) : Except SettingsError Settings :=
  match settings.check with
  | .ok _ => .ok settings
  | .error failure => .error (.refused failure)

/-- The settings of a text, and the keys of it that mean nothing. -/
def read (bytes : List UInt8) : Except SettingsError (Settings × List String) :=
  match Toml.parse? bytes with
  | none => .error .unreadable
  | some document =>
    match readGroups? document.fields ({}, []) with
    | none => .error .unreadable
    | some (settings, known) =>
      .ok (settings, (document.keys.filter (· ∉ known)).map Toml.keyText)

/-- The settings of a text; keys that mean nothing are passed over. -/
def ofText (text : String) : Except SettingsError Settings := do
  (← read (Text.Utf8.encode text)).1.checked

/-- The settings of a file; every key has to mean something. -/
def ofFile (bytes : List UInt8) : Except SettingsError Settings := do
  let (settings, unknown) ← read bytes
  if unknown.isEmpty then settings.checked else throw (.unknownKeys unknown)

end Settings

end TreeCheck
