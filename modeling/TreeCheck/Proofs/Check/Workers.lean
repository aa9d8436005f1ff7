/-
Programs that are checked at the same time. Checking them one after another is one way of
doing it; they may as well be checked by workers that take turns in any order. Workers
share the disk, with the outcomes stored on it, and the list of what was told; everything
else belongs to one of them.

A turn ends where another worker could notice something: when a worker told something,
read the disk or wrote to it. What a pass does goes unnoticed, so a pass is a single turn.
A worker that meets a missing node never finishes. (The process ends there. That others
may go on here only adds to the ways in which turns can be taken.) No bound is put on how
many workers are busy: a bound leaves fewer ways.
-/

import Mathlib.Logic.Relation
import TreeCheck.Check.Program

namespace TreeCheck

variable {failure : ProgramError} {loader : Loader} {root : UnitId} {trace : Trace.Recorder}
  {state after : CheckState} {outcome : BatchOutcome} {results : List ProgramResult}

/-! ### Parts of a check -/

/-- A program that was loaded, with the place that its outcome is stored at. -/
structure LoadedProgram where
  root : UnitId
  loader : Loader
  slot : Option (Cache × Digest)

namespace LoadedProgram

/-- The outcome of an identical check, if there is one on the disk. -/
def stored? (program : LoadedProgram) (disk : Disk) : Option StoredOutcome :=
  program.slot.bind fun (cache, key) => cache.get? disk key

/-- The disk with the outcome of the program stored. -/
def store (program : LoadedProgram) (verdict : Verdict) (disk : Disk) : Disk :=
  match program.slot with
  | some (cache, key) => cache.put disk key (verdict.stored program.loader.files)
  | none => disk

/-- The program with the outcome of an identical check. -/
def replayed (program : LoadedProgram) (limit : Int) (stored : StoredOutcome) : CheckedProgram :=
  let (verdict, files) := stored.replay limit program.loader.files
  { root := program.root, tree := program.loader.tree, files
    verdict := { verdict with phases := [⟨"load", ""⟩] }, cached := true }

/-- The program with an outcome of its own. -/
def checked (program : LoadedProgram) (verdict : Verdict) : CheckedProgram :=
  { root := program.root, tree := program.loader.tree, files := program.loader.files
    verdict := { verdict with phases := ⟨"load", ""⟩ :: verdict.phases } }

end LoadedProgram

namespace CheckOptions

/-- Runs the pipeline in whichever way was asked for. -/
def analyse (options : CheckOptions) :
    Loader → UnitId → Trace.Recorder → Nat → Except ProgramError (Verdict × Trace.Recorder) :=
  if options.interactive then runInteractive options else runBatch options

def batch (options : CheckOptions) : BatchOptions :=
  { limit := options.limit, warningsAsErrors := options.warningsAsErrors
    validate := options.validate }

/-- The verdict of a batch run. -/
def verdictOf (options : CheckOptions) (outcome : BatchOutcome) : Verdict :=
  { ran := outcome.ran.map Pass.name, errors := outcome.errors, warnings := outcome.warnings
    bag := ({ limit := options.limit } : Bag).addAll outcome.diagnostics
    phases := outcome.reports.map fun report => ⟨report.pass.name, report.note⟩
    analysis := outcome.analysis, resolved := outcome.completed .resolve
    typed := outcome.completed .typecheck }

theorem runBatch_eq (options : CheckOptions) (loader : Loader) (root : UnitId)
    (trace : Trace.Recorder) (parent : Nat) :
    runBatch options loader root trace parent =
      match Pipeline.runFrom loader.tree root options.batch parent 1 options.pipeline.passes
        { trace } with
      | .error abort => .error (.abort abort)
      | .ok outcome => .ok (options.verdictOf outcome, outcome.analysis.trace) :=
  rfl

end CheckOptions

/-- What is told when a pass starts; `step` is its place, counted from one. -/
def passEvent (options : CheckOptions) (path : String) (pass : Pass) (step : Nat) : CheckEvent :=
  { file := path, status := .working, pass := pass.name, step
    steps := options.pipeline.passes.length }

/-- What the span of a check ends with. -/
def closing : Except ProgramError CheckedProgram → String
  | .error _ => "load failed"
  | .ok program =>
    if program.cached then "cached"
    else s!"{program.verdict.errors} errors, {program.verdict.warnings} warnings"

/-! ### Events -/

namespace CheckEvent

def queued (path : String) : CheckEvent := { file := path, status := .queued }

def loading (path : String) : CheckEvent := { file := path, status := .loading }

/-- One event for each of some passes, with their places counted from one. -/
def working (path : String) (steps : Nat) (passes : List String) : List CheckEvent :=
  passes.zipIdx.map fun (pass, index) =>
    { file := path, status := .working, pass, step := index + 1, steps }

end CheckEvent

/-! ### Workers -/

/-- How far the check of a program has come. -/
inductive CheckStage where
  /-- No worker has taken up the program. -/
  | waiting
  | loading (span : Trace.OpenSpan)
  | loaded (span : Trace.OpenSpan) (program : LoadedProgram)
  | submitting (span : Trace.OpenSpan) (program : LoadedProgram)
  /-- `reports` are those of the passes that ran, and `index` is the place of the next. -/
  | running (span : Trace.OpenSpan) (program : LoadedProgram) (index : Nat) (rest : List Pass)
      (reports : List PassReport) (analysis : Analysis)
  | analysed (span : Trace.OpenSpan) (program : LoadedProgram) (verdict : Verdict)
      (trace : Trace.Recorder)
  | settled (span : Trace.OpenSpan) (outcome : Except ProgramError CheckedProgram)
  | finished (outcome : Except ProgramError CheckedProgram)
  /-- A node that was needed was missing. -/
  | broken

namespace CheckStage

variable (options : CheckOptions) (parent : Nat) (path : String)

/-- Loads the program. -/
def load (span : Trace.OpenSpan) (disk : Disk) : CheckStage :=
  match loadProgram disk path with
  | .error (.load .crash) => broken
  | .error failure => settled span (.error failure)
  | .ok (root, loader) => loaded span ⟨root, loader, options.slot? disk path loader⟩

/-- Looks for the outcome of an identical check. -/
def lookUp (span : Trace.OpenSpan) (program : LoadedProgram) (state : CheckState) : CheckStage :=
  match program.stored? state.disk with
  | some stored => settled span (.ok (program.replayed options.limit stored))
  | none =>
    if options.interactive then submitting span program
    else running span program 1 options.pipeline.passes [] { trace := state.trace }

/-- Submits the declarations of the program. -/
def submit (span : Trace.OpenSpan) (program : LoadedProgram) (trace : Trace.Recorder) :
    CheckStage :=
  match runInteractive options program.loader program.root trace span.id with
  | .error _ => broken
  | .ok (verdict, trace) => analysed span program verdict trace

/-- Runs a pass. -/
def runPass (span : Trace.OpenSpan) (program : LoadedProgram) (index : Nat) (pass : Pass)
    (rest : List Pass) (reports : List PassReport) (analysis : Analysis) : CheckStage :=
  match Pipeline.runPass program.loader.tree program.root options.batch span.id index pass
    analysis with
  | .error _ => broken
  | .ok (report, analysis) =>
    running span program (index + 1) (if 0 < report.errors then [] else rest) (reports ++ [report])
      analysis

/-- What a worker does in one turn. -/
def next : CheckStage → CheckM CheckStage
  | waiting => do
    let span ← CheckM.startSpan "check" parent
    CheckM.tell { file := path, status := .loading }
    return loading (span.withExtra "path" path)
  | loading span => return load options path span (← get).disk
  | loaded span program => return lookUp options span program (← get)
  | submitting span program => do
    CheckM.tell { file := path, status := .working, pass := "submit", step := 1, steps := 1 }
    return submit options span program (← get).trace
  | running span program index (pass :: rest) reports analysis => do
    CheckM.tell (passEvent options path pass index)
    return runPass options span program index pass rest reports analysis
  | running span program _ [] reports analysis =>
    return analysed span program (options.verdictOf ⟨reports, analysis⟩) analysis.trace
  | analysed span program verdict trace => do
    modify fun state => { state with disk := program.store verdict state.disk, trace }
    return settled span (.ok (program.checked verdict))
  | settled span outcome => do
    CheckM.tell (ProgramResult.finalEvent ⟨path, outcome⟩)
    CheckM.endSpan span (closing outcome)
    return finished outcome
  | finished outcome => return finished outcome
  | broken => return broken

/-- Nothing is left to do. -/
def IsOver : CheckStage → Prop
  | finished _ | broken => True
  | _ => False

/-- Takes so many turns in a row. -/
def proceed : Nat → CheckStage → CheckM CheckStage
  | 0, stage => return stage
  | count + 1, stage => do proceed count (← stage.next options parent path)

end CheckStage

/-- A worker, with the recorder of its own trace. -/
structure Worker where
  path : String
  trace : Trace.Recorder
  stage : CheckStage := .waiting

/-- Workers with what they share. -/
structure Crew where
  /-- The programs that were not announced yet. -/
  unannounced : List String
  workers : List Worker
  disk : Disk
  events : Array CheckEvent := #[]

/-- Whose turn it is: that of the one who announces the programs, or of a worker. -/
inductive Turn where
  | announce
  | work (index : Nat)

namespace Crew

/-- Before anything was told. -/
def gather (jobs : List (String × Trace.Recorder)) (disk : Disk) : Crew :=
  { unannounced := jobs.map Prod.fst, workers := jobs.map fun (path, trace) => { path, trace }, disk }

/-- Announces the next program. -/
def announce (crew : Crew) : Crew :=
  match crew.unannounced with
  | [] => crew
  | path :: rest =>
    { crew with unannounced := rest, events := crew.events.push (.queued path) }

variable (options : CheckOptions) (parent : Nat)

/-- A worker takes a turn. -/
def work (crew : Crew) (index : Nat) (worker : Worker) : Crew :=
  let (stage, state) := (worker.stage.next options parent worker.path).run
    { disk := crew.disk, trace := worker.trace, events := crew.events }
  { crew with
    workers := crew.workers.set index { worker with stage, trace := state.trace }
    disk := state.disk, events := state.events }

/-- Workers start when every program was announced; a turn nobody can take is passed over. -/
def take (crew : Crew) : Turn → Crew
  | .announce => crew.announce
  | .work index =>
    match crew.unannounced, crew.workers[index]? with
    | [], some worker => crew.work options parent index worker
    | _, _ => crew

def run (crew : Crew) (turns : List Turn) : Crew := turns.foldl (take options parent) crew

/-- What was told about a program. -/
def told (crew : Crew) (path : String) : List CheckEvent :=
  crew.events.toList.filter (·.file = path)

end Crew

/-! ### Batch runs -/

namespace Pipeline

variable (tree : Tree) (root : UnitId) (options : BatchOptions) (parent : Nat)

/-- An outcome behind passes that ran before. -/
def behind (reports : List PassReport) (outcome : BatchOutcome) : BatchOutcome :=
  { outcome with reports := reports ++ outcome.reports }

/-- A run goes on with the passes that are left, or with none behind a pass with errors. -/
theorem runFrom_cons (index : Nat) (pass : Pass) (rest : List Pass) (state : Analysis) :
    runFrom tree root options parent index (pass :: rest) state =
      match runPass tree root options parent index pass state with
      | .error abort => .error abort
      | .ok (report, after) =>
        (runFrom tree root options parent (index + 1) (if 0 < report.errors then [] else rest)
          after).map (behind [report]) := by
  rw [runFrom]
  cases runPass tree root options parent index pass state with
  | error abort => rfl
  | ok ran =>
    obtain ⟨report, after⟩ := ran
    by_cases severe : 0 < report.errors
    · simp only [severe, if_true]
      rfl
    · simp only [severe, if_false]
      cases runFrom tree root options parent (index + 1) rest after <;> rfl

theorem report_pass {index : Nat} {pass : Pass} {state after : Analysis} {report : PassReport}
    (ran : runPass tree root options parent index pass state = .ok (report, after)) :
    report.pass = pass := by
  simp only [runPass] at ran
  split at ran
  · cases ran
  · cases ran
    rfl

theorem map_behind_ok {run : Except Abort BatchOutcome} {reports : List PassReport}
    (ends : run.map (behind reports) = .ok outcome) :
    ∃ inner, run = .ok inner ∧ outcome = behind reports inner := by
  cases run with
  | error abort => cases ends
  | ok inner => exact ⟨inner, rfl, (Except.ok.inj ends).symm⟩

/-- The passes of a run are the first ones it was given. -/
theorem prefix_ran {passes : List Pass} {index : Nat} {state : Analysis}
    (ends : runFrom tree root options parent index passes state = .ok outcome) :
    outcome.ran <+: passes := by
  induction passes generalizing index state outcome with
  | nil =>
    cases ends
    exact List.prefix_refl _
  | cons pass rest inductionHypothesis =>
    rw [runFrom_cons] at ends
    split at ends
    · cases ends
    · rename_i report after ran
      obtain ⟨inner, innerEnds, rfl⟩ := map_behind_ok ends
      have later : inner.ran <+: rest := by
        split at innerEnds
        · cases innerEnds
          exact List.nil_prefix
        · exact inductionHypothesis innerEnds
      have first := report_pass tree root options parent ran
      simpa [BatchOutcome.ran, behind, first] using later

end Pipeline

/-! ### Turns, one by one -/

namespace CheckStage

section

variable (options : CheckOptions) (parent : Nat) (path : String) (state : CheckState)
  (span : Trace.OpenSpan) (program : LoadedProgram)

theorem run_loading :
    ((loading span).next options parent path).run state =
      (load options path span state.disk, state) :=
  rfl

theorem run_loaded :
    ((loaded span program).next options parent path).run state =
      (lookUp options span program state, state) :=
  rfl

theorem run_submitting :
    ((submitting span program).next options parent path).run state =
      (submit options span program state.trace,
        { state with events := state.events ++ CheckEvent.working path 1 ["submit"] }) :=
  rfl

theorem run_running (index : Nat) (pass : Pass) (rest : List Pass) (reports : List PassReport)
    (analysis : Analysis) :
    ((running span program index (pass :: rest) reports analysis).next options parent path).run
        state =
      (runPass options span program index pass rest reports analysis,
        { state with events := state.events.push (passEvent options path pass index) }) :=
  rfl

end

end CheckStage

/-! ### A worker alone -/

/-- The check met a missing node. -/
def ProgramError.isCrash : ProgramError → Bool
  | .load .crash | .abort _ => true
  | _ => false

theorem submitAll_breaks {tree : Tree} {decls : List DeclId} {session : Session}
    (fails : submitAll tree decls session = .error failure) : failure.isCrash = true := by
  induction decls generalizing session with
  | nil => cases fails
  | cons decl rest inductionHypothesis =>
    unfold submitAll at fails
    split at fails
    · cases fails
      rfl
    · rename_i after outcome _ _
      rcases later : submitAll tree rest after with deeper | ⟨aborted, last⟩
      · rw [later] at fails
        cases fails
        exact inductionHypothesis later
      · rw [later] at fails
        cases fails

/-- Only a missing node keeps the pipeline from a verdict. -/
theorem CheckOptions.analyse_breaks {options : CheckOptions} {parent : Nat}
    (fails : options.analyse loader root trace parent = .error failure) :
    failure.isCrash = true := by
  unfold analyse at fails
  split at fails
  · simp only [runInteractive] at fails
    rcases ran : submitAll loader.tree
      (((loader.tree.units.get? root).map ProgramUnit.topLevel).getD [])
      (Session.start options.pipeline root
        { stages := [.dedup [], .count 0 0], bag := { limit := options.limit } }
        options.warningsAsErrors trace parent) with deeper | ⟨aborted, session⟩
    · rw [ran] at fails
      cases fails
      exact submitAll_breaks ran
    · rw [ran] at fails
      cases fails
  · rw [runBatch_eq] at fails
    split at fails
    · cases fails
      rfl
    · cases fails

namespace CheckStage

variable {options : CheckOptions} {parent : Nat} {path : String}

/-- One turn, as a relation between what it starts from and what it leads to. -/
def Step (options : CheckOptions) (parent : Nat) (path : String)
    (before after : CheckStage × CheckState) : Prop :=
  (before.1.next options parent path).run before.2 = after

open Relation

/-- The working events of some passes, the first of them at a place. -/
def workingFrom (options : CheckOptions) (path : String) (index : Nat) (passes : List Pass) :
    List CheckEvent :=
  (passes.zipIdx index).map fun (pass, step) => passEvent options path pass step

theorem workingFrom_one (batch : options.interactive = false) (verdict : Verdict)
    (passes : List Pass) (ran : verdict.ran = passes.map Pass.name) :
    workingFrom options path 1 passes = workingEvents options path verdict := by
  simp [workingFrom, workingEvents, passEvent, batch, ran, List.zipIdx_map,
    List.zipIdx_eq_map_add (i := 1), Nat.add_comm]

theorem steps_end (span : Trace.OpenSpan) (program : LoadedProgram) (index : Nat)
    (reports : List PassReport) (analysis : Analysis) (state : CheckState) :
    ReflTransGen (Step options parent path)
      (running span program index [] reports analysis, state)
      (analysed span program (options.verdictOf ⟨reports, analysis⟩) analysis.trace, state) :=
  .single rfl

/-- The passes of a batch run are turns, each with its event. -/
theorem steps_running (span : Trace.OpenSpan) (program : LoadedProgram) (rest : List Pass)
    (index : Nat) (reports : List PassReport) (analysis : Analysis) (state : CheckState)
    (ends : Pipeline.runFrom program.loader.tree program.root options.batch span.id index rest
      analysis = .ok outcome) :
    ReflTransGen (Step options parent path)
      (running span program index rest reports analysis, state)
      (analysed span program (options.verdictOf (Pipeline.behind reports outcome))
          outcome.analysis.trace,
        { state with events := state.events ++ workingFrom options path index outcome.ran }) := by
  induction rest generalizing index reports analysis state outcome with
  | nil =>
    cases ends
    simpa [Pipeline.behind, BatchOutcome.ran, workingFrom] using
      steps_end span program index reports analysis state
  | cons pass rest inductionHypothesis =>
    rw [Pipeline.runFrom_cons] at ends
    split at ends
    · cases ends
    · rename_i report after ran
      obtain ⟨inner, innerEnds, rfl⟩ := Pipeline.map_behind_ok ends
      have first := Pipeline.report_pass _ _ _ _ ran
      let told := { state with events := state.events.push (passEvent options path pass index) }
      have turn : Step options parent path
          (running span program index (pass :: rest) reports analysis, state)
          (running span program (index + 1) (if 0 < report.errors then [] else rest)
            (reports ++ [report]) after, told) := by
        show (runPass .., _) = _
        rw [runPass, ran]
      refine ReflTransGen.head turn ?_
      by_cases severe : 0 < report.errors
      · rw [if_pos severe] at innerEnds ⊢
        cases innerEnds
        simpa [Pipeline.behind, BatchOutcome.ran, workingFrom, first] using
          steps_end span program (index + 1) (reports ++ [report]) after told
      · rw [if_neg severe] at innerEnds ⊢
        simpa [Pipeline.behind, BatchOutcome.ran, workingFrom, first, told] using
          inductionHypothesis (index + 1) (reports ++ [report]) after told innerEnds

/-- A check up to where its program is loaded. -/
def opened (parent : Nat) (path : String) (state : CheckState) : Trace.OpenSpan × CheckState :=
  let (span, trace) := state.trace.start .driver "check" parent
  (span.withExtra "path" path, { state with trace, events := state.events.push (.loading path) })

/-- The end of a check. -/
def closed (path : String) (span : Trace.OpenSpan) (outcome : Except ProgramError CheckedProgram)
    (state : CheckState) : CheckState :=
  { state with
    trace := state.trace.finish span (closing outcome)
    events := state.events.push (ProgramResult.finalEvent ⟨path, outcome⟩) }

theorem run_judge_hit {span : Nat} {stored : StoredOutcome}
    (hit : LoadedProgram.stored? ⟨root, loader, options.slot? state.disk path loader⟩ state.disk =
      some stored) :
    (judge options path root loader span).run state =
      (.ok (LoadedProgram.replayed ⟨root, loader, options.slot? state.disk path loader⟩
        options.limit stored), state) := by
  rw [LoadedProgram.stored?] at hit
  simp only [judge, StateT.run_bind, StateT.run_get, pure_bind, hit]
  rfl

theorem run_judge_miss {span : Nat}
    (miss : LoadedProgram.stored? ⟨root, loader, options.slot? state.disk path loader⟩ state.disk =
      none) :
    (judge options path root loader span).run state =
      match options.analyse loader root state.trace span with
      | .error failure => (.error failure, state)
      | .ok (verdict, trace) =>
        let program : LoadedProgram := ⟨root, loader, options.slot? state.disk path loader⟩
        (.ok (program.checked verdict),
          { disk := program.store verdict state.disk, trace
            events := state.events ++ workingEvents options path verdict }) := by
  rw [LoadedProgram.stored?] at miss
  simp only [judge, StateT.run_bind, StateT.run_get, pure_bind, miss]
  have run : (if options.interactive = true then runInteractive else runBatch) options loader root
      state.trace span = options.analyse loader root state.trace span := by
    unfold CheckOptions.analyse
    split <;> rfl
  rw [run]
  cases options.analyse loader root state.trace span <;> rfl

theorem run_checkProgram_unloaded (state : CheckState)
    (fails : loadProgram state.disk path = .error failure) :
    (checkProgram options parent path).run state =
      (⟨path, .error failure⟩, closed path (opened parent path state).1 (.error failure)
        (opened parent path state).2) := by
  simp only [checkProgram, CheckM.startSpan, CheckM.tell, CheckM.endSpan, StateT.run_bind,
    StateT.run_get, StateT.run_modify, StateT.run_modifyGet, pure_bind, fails]
  rfl

theorem run_checkProgram_loaded (state : CheckState) {outcome : Except ProgramError CheckedProgram}
    (loads : loadProgram state.disk path = .ok (root, loader))
    (judged : (judge options path root loader (opened parent path state).1.id).run
      (opened parent path state).2 = (outcome, after)) :
    ((checkProgram options parent path).run state).1 = ⟨path, outcome⟩ ∧
      ∀ program, outcome = .ok program → ((checkProgram options parent path).run state).2 =
        closed path (opened parent path state).1 outcome after := by
  simp only [opened, CheckEvent.loading] at judged
  simp only [checkProgram, CheckM.startSpan, CheckM.tell, CheckM.endSpan, StateT.run_bind,
    StateT.run_get, StateT.run_modify, StateT.run_modifyGet, pure_bind, loads, judged]
  refine ⟨rfl, ?_⟩
  rintro program rfl
  rfl

/-- Behind a verdict there is only the outcome to store and the last event to tell. -/
theorem steps_analysed (span : Trace.OpenSpan) (program : LoadedProgram) (verdict : Verdict)
    (trace : Trace.Recorder) (state : CheckState) :
    ReflTransGen (Step options parent path) (analysed span program verdict trace, state)
      (finished (.ok (program.checked verdict)), closed path span (.ok (program.checked verdict))
        { state with disk := program.store verdict state.disk, trace }) := by
  have stores : Step options parent path (analysed span program verdict trace, state)
      (settled span (.ok (program.checked verdict)),
        { state with disk := program.store verdict state.disk, trace }) := rfl
  exact .head stores (.single rfl)

/-- From a program that is not stored to the end of its check. -/
theorem steps_loaded (span : Trace.OpenSpan) (program : LoadedProgram) (state : CheckState)
    {verdict : Verdict} (miss : program.stored? state.disk = none)
    (ran : options.analyse program.loader program.root state.trace span.id = .ok (verdict, trace)) :
    ReflTransGen (Step options parent path) (loaded span program, state)
      (finished (.ok (program.checked verdict)), closed path span (.ok (program.checked verdict))
        { disk := program.store verdict state.disk, trace
          events := state.events ++ workingEvents options path verdict }) := by
  have looked : Step options parent path (loaded span program, state)
      (if options.interactive then submitting span program
        else running span program 1 options.pipeline.passes [] { trace := state.trace }, state) := by
    show (lookUp .., _) = _
    rw [lookUp, miss]
  refine .head looked ?_
  by_cases interactive : options.interactive
  · rw [if_pos interactive]
    rw [CheckOptions.analyse, if_pos interactive] at ran
    let told := { state with events := state.events ++ workingEvents options path verdict }
    have submitted : Step options parent path (submitting span program, state)
        (analysed span program verdict trace, told) := by
      show (submit .., _) = _
      rw [submit, ran]
      simp [told, workingEvents, interactive]
    exact .head submitted (steps_analysed span program verdict trace told)
  · have batch : options.interactive = false := by simpa using interactive
    rw [if_neg interactive]
    rw [CheckOptions.analyse, if_neg interactive, CheckOptions.runBatch_eq] at ran
    split at ran
    · cases ran
    · rename_i outcome ends
      cases ran
      refine (steps_running span program _ 1 [] _ state ends).trans ?_
      rw [workingFrom_one batch (options.verdictOf outcome) outcome.ran rfl]
      exact steps_analysed span program (options.verdictOf outcome) outcome.analysis.trace _

theorem load_eq_settled {span : Trace.OpenSpan} {disk : Disk}
    (fails : loadProgram disk path = .error failure) (intact : failure.isCrash = false) :
    load options path span disk = settled span (.error failure) := by
  unfold load
  rw [fails]
  split
  · rename_i same
    cases same
    cases intact
  · rename_i same
    cases same
    rfl
  · rename_i same
    cases same

theorem load_eq_loaded {span : Trace.OpenSpan} {disk : Disk}
    (loads : loadProgram disk path = .ok (root, loader)) :
    load options path span disk =
      loaded span ⟨root, loader, options.slot? disk path loader⟩ := by
  unfold load
  split
  · rename_i crashes
    cases loads.symm.trans crashes
  · rename_i fails
    cases loads.symm.trans fails
  · rename_i same
    cases loads.symm.trans same
    rfl

/-- A worker that is not disturbed by others does what `checkProgram` does. -/
theorem steps_checkProgram {result : ProgramResult}
    (checked : (checkProgram options parent path).run state = (result, after))
    (whole : ∀ failure, result.outcome = .error failure → failure.isCrash = false) :
    ReflTransGen (Step options parent path) (waiting, state) (finished result.outcome, after) := by
  let span := (opened parent path state).1
  let before := (opened parent path state).2
  have first : Step options parent path (waiting, state) (loading span, before) := rfl
  refine .head first ?_
  have second : Step options parent path (loading span, before)
      (load options path span before.disk, before) := run_loading ..
  rcases loads : loadProgram before.disk path with failure | ⟨root, loader⟩
  · rw [run_checkProgram_unloaded state loads] at checked
    cases checked
    rw [load_eq_settled loads (whole failure rfl)] at second
    exact .head second (.single rfl)
  · let program : LoadedProgram := ⟨root, loader, options.slot? before.disk path loader⟩
    rw [load_eq_loaded loads] at second
    refine .head second ?_
    rcases judged : (judge options path root loader span.id).run before with ⟨outcome, afterwards⟩
    obtain ⟨sameResult, sameState⟩ := run_checkProgram_loaded state loads judged
    rw [checked] at sameResult sameState
    cases sameResult
    cases found : program.stored? before.disk with
    | none =>
      rw [run_judge_miss found] at judged
      rcases ran : options.analyse loader root before.trace span.id with
        failure | ⟨verdict, trace⟩
      · rw [ran] at judged
        cases judged
        exact absurd (CheckOptions.analyse_breaks ran) (by simp [whole failure rfl])
      · rw [ran] at judged
        cases judged
        rw [show after = _ from sameState _ rfl]
        exact steps_loaded span program before found ran
    | some stored =>
      rw [run_judge_hit found] at judged
      cases judged
      rw [show after = _ from sameState _ rfl]
      have third : Step options parent path (loaded span program, before)
          (lookUp options span program before, before) := run_loaded ..
      rw [lookUp, found] at third
      exact .head third (.single rfl)

end CheckStage

/-! ### One program after another -/

namespace Crew

variable {options : CheckOptions} {parent : Nat}

theorem run_append (crew : Crew) (first second : List Turn) :
    crew.run options parent (first ++ second) =
      (crew.run options parent first).run options parent second :=
  List.foldl_append

/-- A crew that has told everybody, with a worker at some stage among others. -/
def withWorker (front back : List Worker) (path : String) (at' : CheckStage × CheckState) : Crew :=
  { unannounced := [], workers := front ++ ⟨path, at'.2.trace, at'.1⟩ :: back
    disk := at'.2.disk, events := at'.2.events }

/-- A worker can take all its turns in a row. -/
theorem exists_run_steps {path : String} {before after : CheckStage × CheckState}
    (steps : Relation.ReflTransGen (CheckStage.Step options parent path) before after)
    (front back : List Worker) :
    ∃ turns : List Turn, (withWorker front back path before).run options parent turns =
      withWorker front back path after := by
  induction steps using Relation.ReflTransGen.head_induction_on with
  | refl => exact ⟨[], rfl⟩
  | @head before between step _ inductionHypothesis =>
    obtain ⟨turns, ran⟩ := inductionHypothesis
    refine ⟨.work front.length :: turns, ?_⟩
    have turn : (withWorker front back path before).take options parent (.work front.length) =
        withWorker front back path between := by
      simp only [withWorker, take, List.getElem?_append_right, Nat.le_refl, Nat.sub_self,
        List.getElem?_cons_zero, work, List.set_append_right, List.set_cons_zero,
        ← show _ = between from step]
      rfl
    rw [← ran, ← turn]
    rfl

/-- Programs that are checked one after another are checked by workers, each of which takes all
its turns in a row. -/
theorem exists_run_mapM (paths : List String)
    (checked : (paths.mapM (checkProgram options parent)).run state = (results, after))
    (whole : ∀ result ∈ results, ∀ failure, result.outcome = .error failure →
      failure.isCrash = false) (front : List Worker) :
    ∃ (jobs : List (String × Trace.Recorder)) (turns : List Turn) (workers : List Worker),
      jobs.map Prod.fst = paths ∧
        workers.map Worker.stage = results.map (fun result => .finished result.outcome) ∧
        Crew.run options parent
            { unannounced := [], workers := front ++ jobs.map fun (path, trace) => { path, trace }
              disk := state.disk, events := state.events } turns =
          { unannounced := [], workers := front ++ workers, disk := after.disk
            events := after.events } := by
  induction paths generalizing state results front with
  | nil =>
    cases checked
    exact ⟨[], [], [], rfl, rfl, rfl⟩
  | cons path rest inductionHypothesis =>
    rcases first : (checkProgram options parent path).run state with ⟨result, between⟩
    rcases later : (rest.mapM (checkProgram options parent)).run between with ⟨others, last⟩
    have inOrder : ((path :: rest).mapM (checkProgram options parent)).run state =
        (result :: others, last) := by
      rw [List.mapM_cons]
      simp only [StateT.run_bind, first]
      exact congrArg (fun ran => (result :: ran.1, ran.2)) later
    cases inOrder.symm.trans checked
    have steps := CheckStage.steps_checkProgram first (whole result (.head _))
    obtain ⟨jobs, turns, workers, listed, stages, ran⟩ := inductionHypothesis later
      (fun other member => whole other (.tail _ member))
      (front ++ [⟨path, between.trace, .finished result.outcome⟩])
    obtain ⟨turnsFirst, ranFirst⟩ := exists_run_steps steps front
      (jobs.map fun (path, trace) => { path, trace })
    refine ⟨(path, state.trace) :: jobs, turnsFirst ++ turns,
      ⟨path, between.trace, .finished result.outcome⟩ :: workers, ?_, ?_, ?_⟩
    · simp [listed]
    · simp [stages]
    · rw [run_append]
      have opening : Crew.run options parent
          { unannounced := [], workers :=
            front ++ ((path, state.trace) :: jobs).map fun (path, trace) => { path, trace }
            disk := state.disk, events := state.events } turnsFirst = _ := ranFirst
      rw [opening]
      simpa [withWorker] using ran

/-- The announcements can all be made in a row. -/
theorem run_announce (paths : List String) (crew : Crew) (left : crew.unannounced = paths) :
    crew.run options parent (paths.map fun _ => .announce) =
      { crew with
        unannounced := []
        events := crew.events ++ paths.map CheckEvent.queued } := by
  induction paths generalizing crew with
  | nil =>
    cases crew
    cases left
    simp [run]
  | cons path rest inductionHypothesis =>
    let told : Crew :=
      { crew with unannounced := rest, events := crew.events.push (.queued path) }
    have first : crew.take options parent .announce = told := by
      simp [take, announce, left, CheckEvent.queued, told]
    have later := inductionHypothesis told rfl
    rw [← first] at later
    simpa [run, first, told] using later

theorem run_tellQueued (paths : List String) (state : CheckState) :
    (paths.forM fun path => CheckM.tell { file := path, status := .queued }).run state =
      ((), { state with events := state.events ++ paths.map CheckEvent.queued }) := by
  induction paths generalizing state with
  | nil => simp; rfl
  | cons path rest inductionHypothesis =>
    refine (inductionHypothesis _).trans ?_
    simp [CheckEvent.queued]

/-- Checking programs one after another is one of the ways in which workers can take turns. -/
theorem checkPrograms_is_run (paths : List String) (some : paths ≠ []) (silent : state.events = #[])
    (checked : (checkPrograms options paths).run state = (results, after))
    (whole : ∀ result ∈ results, ∀ failure, result.outcome = .error failure →
      failure.isCrash = false) :
    ∃ (parent : Nat) (jobs : List (String × Trace.Recorder)) (turns : List Turn),
      jobs.map Prod.fst = paths ∧
        let crew := (gather jobs state.disk).run options parent turns
        crew.unannounced = [] ∧
        crew.workers.map Worker.stage = results.map (fun result => .finished result.outcome) ∧
        crew.disk = after.disk ∧ crew.events = after.events := by
  have nonempty : paths.isEmpty = false := by simpa using some
  let span := (state.trace.start .driver "check-all" 0).1
  let announced : CheckState :=
    { state with
      trace := (state.trace.start .driver "check-all" 0).2
      events := state.events ++ paths.map CheckEvent.queued }
  rcases inOrder : (paths.mapM (checkProgram options span.id)).run announced with ⟨found, last⟩
  have value : (checkPrograms options paths).run state =
      (found, { last with trace := last.trace.finish span "" }) := by
    simp only [checkPrograms, nonempty, Bool.false_eq_true, if_false, StateT.run_bind,
      CheckM.startSpan, StateT.run_modifyGet, pure_bind, run_tellQueued, CheckM.endSpan]
    exact congrArg (fun ran => (ran.1, { ran.2 with trace := ran.2.trace.finish span "" })) inOrder
  cases value.symm.trans checked
  obtain ⟨jobs, turns, workers, listed, stages, ran⟩ := exists_run_mapM paths inOrder whole []
  refine ⟨span.id, jobs, (paths.map fun _ => .announce) ++ turns, listed, ?_⟩
  have told : (gather jobs state.disk).events ++ paths.map CheckEvent.queued = announced.events := by
    simp [gather, announced, silent]
  rw [run_append, run_announce paths _ listed, told]
  have whole : Crew.run options span.id
      { gather jobs state.disk with unannounced := [], events := announced.events } turns = _ := ran
  rw [whole]
  exact ⟨rfl, stages, rfl, rfl⟩

end Crew

end TreeCheck
