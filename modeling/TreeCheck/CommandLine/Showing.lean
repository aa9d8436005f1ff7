/-
The commands that show things: the scopes or the tree of a program, the passes that are
configured, the version; and the command that writes a tree file in the other form.
-/

import TreeCheck.CommandLine.Checking

namespace TreeCheck.Version

def current : String := "0.1.0-dev"

def tagline : String := "every name in its place"

/-- Each of three numbers in a colour of its own; the suffix, and any other version, is plain. -/
def colored (version : String) (on : Bool) : String :=
  let isMark (character : Char) : Bool := character = '-' || character = '+'
  let core := String.ofList (version.toList.takeWhile (!isMark ·))
  let suffix := String.ofList (version.toList.dropWhile (!isMark ·))
  let paint (color : Nat) (text : String) : String :=
    Text.Style.paint ⟨[color, Text.Style.bold]⟩ on text
  match Text.splitOn '.' core with
  | [major, minor, patch] =>
    paint Text.Style.yellow major ++ "." ++ paint Text.Style.green minor ++ "." ++
      paint Text.Style.blue patch ++ suffix
  | _ => version

/-- What was not recorded when the program was built. -/
def unknown : String := "unknown"

def prettyText (showHash showDate : Bool) : String :=
  "sable " ++ current ++ ": " ++ tagline ++ "\n" ++
    (if showHash then "commit: " ++ unknown ++ "\n" else "") ++
    (if showDate then "built:  " ++ unknown ++ "\n" else "") ++
    (if showHash || showDate then ""
      else "set --hash, --date, or --full for more build trivia\n")

def jsonText (showHash showDate : Bool) : String :=
  Json.document <| .object <|
    [("tool", .text "sable"), ("version", .text current), ("tagline", .text tagline)] ++
      (if showHash then [("git_commit", .text unknown)] else []) ++
      (if showDate then [("build_date", .text unknown)] else [])

end TreeCheck.Version

namespace TreeCheck.CommandLine

/-! ### Programs -/

/-- Checks one program without a cache. Diagnostics go to the error output, and what the passes
recorded is shown even when one of them found errors. -/
def analyse (invocation : Invocation) (path : String) : CommandM (UnitId × ProgramView) := do
  let (settings, pipeline) ← settingsFor invocation.values
  let result ← CommandM.checking <| checkProgram
    { pipeline, limit := settings.limit, warningsAsErrors := settings.warningsAsErrors
      interactive := settings.isInteractive } 0 path
  let program ← CommandM.ofExcept .program result.outcome
  let view := ProgramView.ofChecked
    { mode := pathMode invocation.values, base := (← CommandM.disk).herePath
      color := isColored settings } program
  if !invocation.isQuiet then CommandM.printError view.prettyText
  return (program.root, view)

def runScopes (invocation : Invocation) : CommandM Unit :=
  invocation.arguments.forM fun path => do
    let (_, view) ← analyse invocation path
    match view.scopesText? with
    | some text => CommandM.print text
    | none => throw (.notResolved path)

def runTree (invocation : Invocation) : CommandM Unit :=
  invocation.arguments.forM fun path => do
    let (root, view) ← analyse invocation path
    CommandM.print (view.treeText root)

/-! ### Passes -/

/-- Number, name, requirement of a pass, and whether it runs. -/
def passRow (pipeline : Pipeline) (name : String) (index : Nat) : List String :=
  let required := ((Pass.ofName? name).bind Pass.requires?).map Pass.name
  [toString (index + 1), name, required.getD "-", if pipeline.has name then "yes" else "no"]

/-- Rows whose columns are as wide as their widest cell and two more, but for the last. -/
def alignRows (rows : List (List String)) : List String :=
  let width (column : Nat) : Nat :=
    (rows.map fun row => Text.width (row[column]?.getD "")).foldl max 0
  rows.map fun row =>
    String.join <| row.zipIdx.map fun (cell, column) =>
      if column + 1 < row.length then Text.fillRight cell (width column + 2) else cell

def runPasses (invocation : Invocation) : CommandM Unit := do
  let (settings, pipeline) ← settingsFor invocation.values
  let rows := settings.passes.zipIdx.map fun (name, index) => passRow pipeline name index
  let table := alignRows (["#", "PASS", "REQUIRES", "RUNS"] :: rows)
  CommandM.print (String.join (table.map (· ++ "\n")))
  if !invocation.isQuiet then
    CommandM.print s!"mode: {settings.mode}\n"
    if 0 < settings.stopAfter then CommandM.print s!"stop after: {settings.stopAfter}\n"

/-! ### Version -/

def runVersion (invocation : Invocation) : CommandM Unit := do
  let values := invocation.values
  let format := values.text "format" "pretty"
  let showHash := values.isOn "hash" || values.isOn "full"
  let showDate := values.isOn "date" || values.isOn "full"
  match Text.lowerCase format with
  | "pretty" => CommandM.print (Version.prettyText showHash showDate)
  | "json" => CommandM.print (Version.jsonText showHash showDate)
  | _ => throw (.versionFormat format)

/-! ### Conversion -/

/-- Writes the document of one file into another, in the form of its extension. -/
def convertFile (source target : String) (disk : Disk) :
    Except TreeFileError (Doc.Document × Disk) := do
  let document ← TreeFile.readStream disk source
  return (document, ← TreeFile.write disk target document)

def runConvert (invocation : Invocation) : CommandM Unit := do
  match invocation.arguments with
  | [source, target] =>
    let (document, disk) ← CommandM.ofExcept .treeFile
      (convertFile source target (← CommandM.disk))
    modify ({ · with disk })
    if !invocation.isQuiet then
      CommandM.print s!"wrote {target} ({document.units.length} units)\n"
  | _ => pure ()

end TreeCheck.CommandLine
