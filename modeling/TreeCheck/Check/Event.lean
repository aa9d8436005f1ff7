/-
What is told about programs while they are checked, and how long the phases of a check took,
in milliseconds. Reports of several programs are added up phase by phase, in the order in
which phases first appear.
-/

import TreeCheck.Json.Value

namespace TreeCheck

/-! ### Events -/

/-- Where a program stands. -/
structure CheckStatus where
  name : String
  deriving DecidableEq, Repr, Inhabited

namespace CheckStatus

def queued : CheckStatus := ⟨"queued"⟩
def loading : CheckStatus := ⟨"loading"⟩
/-- A pass is running. -/
def working : CheckStatus := ⟨"working"⟩
/-- Every pass ran, and none had errors. -/
def done : CheckStatus := ⟨"done"⟩
/-- The outcome of an earlier check was replayed. -/
def cached : CheckStatus := ⟨"cached"⟩
def failed : CheckStatus := ⟨"failed"⟩

/-- Whether nothing is told about a program after this. -/
def isFinal (status : CheckStatus) : Bool := status ∈ [done, cached, failed]

end CheckStatus

structure CheckEvent where
  file : String
  status : CheckStatus
  pass : String := ""
  /-- The place of the pass among all, counted from one. -/
  step : Nat := 0
  steps : Nat := 0
  /-- Why the program could not be loaded. -/
  failure : String := ""
  deriving DecidableEq, Repr, Inhabited

/-! ### Timings -/

structure TimedPhase where
  name : String
  duration : Float := 0
  note : String := ""
  deriving Inhabited

structure Timings where
  total : Float := 0
  phases : List TimedPhase := []

namespace Timings

/-- Reads a report; the outer nothing is a value that is none, the inner one is null. -/
def ofJson? : Json → Option (Option Timings)
  | .null => some none
  | value => do
    let _ ← value.asFields?
    let phases ← (← (value.field "phases").asItems?).mapM fun phase => do
      let _ ← phase.asFields?
      return (⟨← (phase.field "name").asText?, ← (phase.field "duration_ms").asFloat?,
        ← (phase.field "note").asText?⟩ : TimedPhase)
    return some ⟨← (value.field "total_ms").asFloat?, phases⟩

/-- The phase that took longest, the first of several. -/
def slowest? : List TimedPhase → Option TimedPhase
  | [] => none
  | phase :: rest =>
    some (rest.foldl (fun best next => if best.duration < next.duration then next else best) phase)

/-- Adds a duration to the phase of a name; a name not seen before is a new phase. -/
def addPhase (name : String) (duration : Float) : List TimedPhase → List TimedPhase
  | [] => [{ name, duration := 0 + duration }]
  | phase :: rest =>
    if phase.name = name then { phase with duration := phase.duration + duration } :: rest
    else phase :: addPhase name duration rest

/-- The sum of reports; notes are dropped. -/
def aggregate (reports : List Timings) : Timings :=
  { total := reports.foldl (fun total report => total + report.total) 0
    phases := (reports.flatMap phases).foldl
      (fun sums phase => addPhase phase.name phase.duration sums) [] }

def line (name : String) (duration : Float) : String :=
  "  " ++ Text.Decimal.padRight 12 name ++ " " ++
    Text.Decimal.padLeft 8 (Text.Decimal.fixed 2 duration) ++ " ms"

/-- The report as a table that ends in the total. -/
def summary (timings : Timings) : String :=
  let phaseLine (phase : TimedPhase) : String :=
    line phase.name phase.duration ++ (if phase.note = "" then "" else "  // " ++ phase.note) ++
      "\n"
  "timings:\n" ++ String.join (timings.phases.map phaseLine) ++ line "total" timings.total ++ "\n"

end Timings

end TreeCheck
