/-
The command that checks programs, and what it prints: diagnostics for people or for
tools, how long everything took, and a summary.
-/

import TreeCheck.CommandLine.Project
import TreeCheck.Report.ProgramView

namespace TreeCheck.CommandLine

/-! ### Arguments -/

/-- The tree files an argument stands for: itself, or those in a directory, in order. -/
def treeFiles (disk : Disk) (path : String) : Except CommandError (List String) :=
  match disk.find path with
  | .error cause => .error (.disk ⟨"stat", path, cause⟩)
  | .ok (_, .file _) => .ok [path]
  | .ok (place, .directory) =>
    let isTree : String × DiskEntry → Bool
      | (name, .file _) => Doc.WireForm.ofPath name ≠ .unknown
      | (_, .directory) => false
    match (disk.list place).filter isTree with
    | [] => .error (.noTrees path)
    | found => .ok (found.map fun (name, _) => Text.Path.joinAll [path, name])

/-- Refuses a value that no progress view has. None is drawn: no output is a terminal. -/
def checkViewFlag (values : FlagValues) : CommandM Unit :=
  let value := values.text "ui" "auto"
  if Text.trim (Text.lowerCase value) ∈ ["", "auto", "on", "off"] then pure ()
  else throw (.view value)

/-- The cache that was asked for. -/
def openCache (values : FlagValues) : CommandM (Option Cache) := do
  let isUsed := values.isOn "disk-cache"
  let isCleared := values.isOn "clear-cache"
  if !isUsed && !isCleared then return none
  let directory ← match values.text "cache-dir" "" with
    | "" => pure (Text.Path.joinAll [(← get).home, ".cache", Command.program])
    | directory => pure directory
  let (cache, disk) ← CommandM.ofExcept .cache (Cache.openAt (← CommandM.disk) directory)
  modify ({ · with disk := if isCleared then cache.clear disk else disk })
  return if isUsed then some cache else none

/-! ### Timings -/

/-- How long a check took. A program that was not loaded has no timings. -/
def timings? (result : ProgramResult) : Option Timings :=
  match result.outcome with
  | .ok program =>
    some { phases := program.verdict.phases.map fun phase => { name := phase.name, note := phase.note } }
  | .error _ => none

def timingsText (result : ProgramResult) : String :=
  match timings? result with
  | some timings =>
    result.path ++ (if result.isCached then " (cached)" else "") ++ "\n" ++ timings.summary
  | none => ""

/-- The sum over several programs. -/
def totalTimingsText (results : List ProgramResult) : String :=
  if results.length < 2 then ""
  else
    let total := Timings.aggregate (results.filterMap timings?)
    let slowest := match Timings.slowest? total.phases with
      | some phase =>
        s!"slowest phase: {phase.name} ({Text.Decimal.fixed 2 phase.duration} ms)\n"
      | none => ""
    s!"all {results.length} programs\n" ++ total.summary ++ slowest

def timingsJson (timings : Timings) : Json :=
  let phaseJson (phase : TimedPhase) : Json :=
    .object <| [("name", .text phase.name), ("duration_ms", .ofNat 0)] ++
      (if phase.note = "" then [] else [("note", .text phase.note)])
  .object [("total_ms", .ofNat 0), ("phases", .array (timings.phases.map phaseJson))]

/-! ### Output -/

/-- Prints what was found in each program; programs that were not loaded, and timings, go to the
error output. -/
def printEach (text : CheckedProgram → String) (timed : Bool) (results : List ProgramResult) :
    CommandM Unit := do
  results.forM fun result =>
    match result.outcome with
    | .error failure => CommandM.printError (failure.message ++ "\n")
    | .ok program => do
      CommandM.print (text program)
      if timed then CommandM.printError (timingsText result)
  if timed then CommandM.printError (totalTimingsText results)

def programJson (options : ViewOptions) (timed : Bool) (result : ProgramResult) : Json :=
  let found := match result.outcome with
    | .error failure => [("error", .text failure.message)]
    | .ok program =>
      let ran := program.verdict.ran
      (if ran.isEmpty then [] else [("ran", .array (ran.map .text))]) ++
        (if program.cached then [("cached", .bool true)] else []) ++
        [("result", (ProgramView.ofChecked options program).json)]
  let timings := if timed then (timings? result).toList else []
  .object <| ("path", .text result.path) :: found ++
    timings.map fun timings => ("timings", timingsJson timings)

/-- Errors and warnings of all programs; one that was not loaded counts as an error. -/
def totals (results : List ProgramResult) : Nat × Nat :=
  let counts := results.map fun result =>
    match result.outcome with
    | .error _ => (1, 0)
    | .ok program => (program.verdict.errors, program.verdict.warnings)
  ((counts.map Prod.fst).foldr (· + ·) 0, (counts.map Prod.snd).foldr (· + ·) 0)

def pathMode (values : FlagValues) : PathMode :=
  if values.isOn "fullpath" then .absolute else .auto

/-- Checks programs and prints what was found. -/
def runCheck (invocation : Invocation) : CommandM Unit := do
  let values := invocation.values
  let (settings, pipeline) ← settingsFor values
  checkViewFlag values
  let cache ← openCache values
  let disk ← CommandM.disk
  let paths ← CommandM.ofExcept id (invocation.arguments.mapM (treeFiles disk))
  let results ← CommandM.checking <| checkPrograms
    { pipeline, limit := settings.limit, warningsAsErrors := settings.warningsAsErrors
      validate := values.isOn "validate", interactive := settings.isInteractive, cache }
    paths.flatten
  let options : ViewOptions :=
    { mode := pathMode values, base := disk.herePath, color := isColored settings
      notes := values.isOn "with-notes", hints := values.isOn "suggest" }
  let timed := values.isOn "timings"
  let (errors, warnings) := totals results
  match settings.format with
  | "json" =>
    CommandM.print <| Json.document <| .object
      [("programs", .array (results.map (programJson options timed))), ("errors", .ofNat errors),
        ("warnings", .ofNat warnings)]
  | "short" =>
    printEach (fun program => (ProgramView.ofChecked options program).shortText) timed results
  | _ =>
    printEach (fun program => (ProgramView.ofChecked options program).prettyText) timed results
    if !invocation.isQuiet then CommandM.print (summaryText errors warnings options.color)
  if !results.all ProgramResult.succeeded then throw .notInOrder

end TreeCheck.CommandLine
