/-
Batch runs. The passes run one after another over a whole program. What a pass reports is
collected in a bag, sorted and freed of repeats before it is delivered; a pass with
errors is the last one to run.
-/

import TreeCheck.Pipeline.Pass
import TreeCheck.Resolve.Units
import TreeCheck.Rules.Bodies
import TreeCheck.Typing.Units

namespace TreeCheck

structure BatchOptions where
  /-- How many diagnostics are kept of a pass; zero or less for all. -/
  limit : Int := 0
  warningsAsErrors : Bool := false
  /-- Check the invariants of the scope table after resolution. -/
  validate : Bool := false

/-- What one pass delivered. -/
structure PassReport where
  pass : Pass
  diagnostics : List Diagnostic

namespace PassReport

def errors (report : PassReport) : Nat := Diagnostic.errorCount report.diagnostics

def warnings (report : PassReport) : Nat := Diagnostic.warningCount report.diagnostics

/-- The counts as text. -/
def note (report : PassReport) : String :=
  s!"{report.errors} errors, {report.warnings} warnings"

end PassReport

/-- What a batch run delivered: a report for every pass that ran, in order. -/
structure BatchOutcome where
  reports : List PassReport
  analysis : Analysis

namespace BatchOutcome

def ran (outcome : BatchOutcome) : List Pass := outcome.reports.map PassReport.pass

def errors (outcome : BatchOutcome) : Nat := (outcome.reports.map PassReport.errors).foldr (· + ·) 0

def warnings (outcome : BatchOutcome) : Nat := (outcome.reports.map PassReport.warnings).foldr (· + ·) 0

def diagnostics (outcome : BatchOutcome) : List Diagnostic :=
  outcome.reports.flatMap PassReport.diagnostics

/-- The pass whose errors ended the run. -/
def haltedBy? (outcome : BatchOutcome) : Option Pass :=
  (outcome.reports.find? fun report => 0 < report.errors).map PassReport.pass

def succeeded (outcome : BatchOutcome) : Bool := outcome.errors = 0

/-- What is worth saying about each pass that ran. -/
def notes (outcome : BatchOutcome) : List (String × String) :=
  outcome.reports.map fun report => (report.pass.name, report.note)

/-- Whether a pass ran to its end, so that its annotations are there. -/
def completed (outcome : BatchOutcome) (pass : Pass) : Bool := outcome.ran.contains pass

end BatchOutcome

/-- The text of the error a halted run ends with. -/
def Pass.haltText (pass : Pass) : String := pass.name ++ ": pipeline halted"

/-- Runs a pass over a whole program, under a span of the trace. -/
def Pass.runProgram (tree : Tree) (root : UnitId) (validate : Bool) (span : Nat) :
    Pass → AnalysisM Unit
  | .resolve => Resolve.program tree root validate
  | .typecheck => TypeCheck.program tree span
  | .modifiers => Rules.program tree span

/-- Runs all passes one after another on one sink, whatever they report; how many diagnostics
were kept behind each. -/
def Pass.sweep (tree : Tree) (root : UnitId) : AnalysisM (List Nat) :=
  Pass.all.mapM fun pass => do
    pass.runProgram tree root true 0
    return (← get).sink.bag.items.length

namespace Pipeline

/-- The sink in front of the bag of a pass. -/
def batchSink (options : BatchOptions) : Sink :=
  { stages := if options.warningsAsErrors then [.promote] else []
    bag := { limit := options.limit } }

/-- Runs one pass; `index` is its place, counted from one. -/
def runPass (tree : Tree) (root : UnitId) (options : BatchOptions) (parent index : Nat)
    (pass : Pass) (state : Analysis) : Except Abort (PassReport × Analysis) :=
  let (span, trace) := state.trace.start .pass pass.name parent
  let span := span.withExtra "index" (toString index)
  match pass.runProgram tree root options.validate span.id
      { state with sink := batchSink options, trace } with
  | .error abort _ => .error abort
  | .ok _ state =>
    let report : PassReport :=
      { pass, diagnostics := Diagnostic.dedup (Diagnostic.sort state.sink.bag.items) }
    .ok (report, { state with trace := state.trace.finish span report.note })

/-- Runs passes until one has errors; `index` is the place of the first. -/
def runFrom (tree : Tree) (root : UnitId) (options : BatchOptions) (parent : Nat) :
    Nat → List Pass → Analysis → Except Abort BatchOutcome
  | _, [], state => .ok ⟨[], state⟩
  | index, pass :: rest, state =>
    match runPass tree root options parent index pass state with
    | .error abort => .error abort
    | .ok (report, state) =>
      if 0 < report.errors then .ok ⟨[report], state⟩
      else
        match runFrom tree root options parent (index + 1) rest state with
        | .error abort => .error abort
        | .ok outcome => .ok { outcome with reports := report :: outcome.reports }

/-- Runs the passes over the program with a root unit. Spans of the trace are recorded under a
parent. -/
def run (pipeline : Pipeline) (tree : Tree) (root : UnitId) (options : BatchOptions)
    (trace : Trace.Recorder) (parent : Nat) : Except Abort BatchOutcome :=
  runFrom tree root options parent 1 pipeline.passes { trace }

end Pipeline

end TreeCheck
