/-
The verdict of a batch run. A run should say that a program is free of errors exactly when
none of the passes it started reported one, and should start a pass only behind passes
that reported none. The verdict is read off the bag of a pass, though, and a bag with a
limit refuses what comes after it is full: a run is right exactly when no pass had all of
its errors refused (and none gave up without one).
-/

import TreeCheck.Proofs.Rules.Exactness
import TreeCheck.Proofs.Types.Recording

namespace TreeCheck

namespace Pipeline

/-! ### Started passes -/

/-- A pass that was started: what it reported, and whether it came to its end. -/
structure Launch where
  pass : Pass
  reported : List Diagnostic
  completed : Bool

namespace Launch

/-- The pass reported an error, or a warning that the run takes for one. -/
def HasError (launch : Launch) (options : BatchOptions) : Prop :=
  ∃ diagnostic ∈ launch.reported, (options.delivered diagnostic).isError

/-- An error is among the reports that the bag had room for. -/
def KeepsError (launch : Launch) (options : BatchOptions) : Prop :=
  ∃ diagnostic ∈ keptWithin options.limit launch.reported, (options.delivered diagnostic).isError

/-- The bag does not hide that there are errors, and a pass that did not come to its end had
some. -/
def Faithful (launch : Launch) (options : BatchOptions) : Prop :=
  if launch.completed then launch.HasError options → launch.KeepsError options
  else launch.HasError options

theorem KeepsError.hasError {launch : Launch} {options : BatchOptions}
    (kept : launch.KeepsError options) : launch.HasError options := by
  obtain ⟨diagnostic, member, severe⟩ := kept
  exact ⟨diagnostic, mem_of_mem_keptWithin member, severe⟩

/-- Without a limit nothing is refused. -/
theorem faithful_of_unlimited {launch : Launch} {options : BatchOptions}
    (unlimited : options.limit ≤ 0) (completed : launch.completed) : launch.Faithful options := by
  unfold Faithful KeepsError HasError keptWithin
  rw [if_pos completed, if_pos unlimited]
  exact id

end Launch

/-- Starts a pass of a run with some sink. -/
def started (tree : Tree) (root : UnitId) (options : BatchOptions) (parent index : Nat)
    (pass : Pass) (state : Analysis) (sink : Sink) : EStateM.Result Abort Analysis Unit :=
  let (span, trace) := state.trace.start .pass pass.name parent
  pass.runProgram tree root options.validate (span.withExtra "index" (toString index)).id
    { state with sink, trace }

/-- Where a pass ended, or gave up. -/
def finalState : EStateM.Result Abort Analysis Unit → Analysis
  | .error _ state => state
  | .ok _ state => state

/-- A pass came to its end. -/
def isEnd : EStateM.Result Abort Analysis Unit → Bool
  | .error .. => false
  | .ok .. => true

/-- A pass of a run as it goes with a sink that keeps everything. -/
def launch (tree : Tree) (root : UnitId) (options : BatchOptions) (parent index : Nat)
    (pass : Pass) (state : Analysis) : Launch :=
  let outcome := started tree root options parent index pass state {}
  { pass, reported := (finalState outcome).sink.bag.items, completed := isEnd outcome }

/-- The passes that are started; `index` is the place of the first. -/
def launchesFrom (tree : Tree) (root : UnitId) (options : BatchOptions) (parent : Nat) :
    Nat → List Pass → Analysis → List Launch
  | _, [], _ => []
  | index, pass :: rest, state =>
    launch tree root options parent index pass state ::
      match runPass tree root options parent index pass state with
      | .error _ => []
      | .ok (report, state) =>
        if 0 < report.errors then []
        else launchesFrom tree root options parent (index + 1) rest state

/-- The passes that a run starts. -/
def launches (pipeline : Pipeline) (tree : Tree) (root : UnitId) (options : BatchOptions)
    (trace : Trace.Recorder) (parent : Nat) : List Launch :=
  launchesFrom tree root options parent 1 pipeline.passes { trace }

/-! ### What the sink of a pass sees -/

theorem acts_runProgram (tree : Tree) (root : UnitId) (validate : Bool) (span : Nat) (pass : Pass) :
    Acts SinkFree (pass.runProgram tree root validate span) := by
  cases pass with
  | resolve => exact (Resolve.acts_program tree ..).mono fun _ change => change.sinkFree
  | typecheck => exact (TypeCheck.acts_program tree ..).mono fun _ change => change.sinkFree
  | modifiers => exact (Rules.acts_program tree ..).mono fun _ change => change.sinkFree

/-- A pass reports to whatever sink it is given what it reports to one that keeps everything,
and ends in the same way. -/
theorem started_reports (tree : Tree) (root : UnitId) (options : BatchOptions)
    (parent index : Nat) (pass : Pass) (state : Analysis) :
    ∃ outcome : EStateM.Result Abort Analysis Unit,
      (launch tree root options parent index pass state).completed = isEnd outcome ∧
      ∀ sink : Sink, sink.Quiet →
        started tree root options parent index pass state sink =
          withFinalSink outcome
            (sink.reportAll (launch tree root options parent index pass state).reported) := by
  obtain ⟨outcome, reports, uniform⟩ := (acts_runProgram tree root options.validate
    ((state.trace.start .pass pass.name parent).1.withExtra "index" (toString index)).id
    pass).uniform (fun _ free => free)
    { state with trace := (state.trace.start .pass pass.name parent).2 }
  have whatever (sink : Sink) (quiet : sink.Quiet) :
      started tree root options parent index pass state sink =
        withFinalSink outcome (sink.reportAll reports) :=
    uniform sink quiet
  have asLaunch : launch tree root options parent index pass state =
      { pass, reported := reports, completed := isEnd outcome } := by
    unfold launch
    rw [whatever {} Sink.quiet_open]
    cases outcome with
    | ok value after => simp only [withFinalSink, finalState, isEnd, Analysis.withSink,
        Sink.items_reportAll_open]
    | error abort after => simp only [withFinalSink, finalState, isEnd, Analysis.withSink,
        Sink.items_reportAll_open]
  rw [asLaunch]
  exact ⟨outcome, rfl, whatever⟩

theorem runPass_eq_started (tree : Tree) (root : UnitId) (options : BatchOptions)
    (parent index : Nat) (pass : Pass) (state : Analysis) :
    runPass tree root options parent index pass state =
      match started tree root options parent index pass state (batchSink options) with
      | .error abort _ => .error abort
      | .ok _ after =>
        let report : PassReport :=
          { pass, diagnostics := Diagnostic.dedup (Diagnostic.sort after.sink.bag.items) }
        let span := (state.trace.start .pass pass.name parent).1.withExtra "index" (toString index)
        .ok (report, { after with trace := after.trace.finish span report.note }) :=
  rfl

/-- A pass either gives up, or ends with a report that has errors exactly when the bag kept
one. -/
theorem runPass_cases (tree : Tree) (root : UnitId) (options : BatchOptions)
    (parent index : Nat) (pass : Pass) (state : Analysis) :
    (∃ abort, runPass tree root options parent index pass state = .error abort ∧
      (launch tree root options parent index pass state).completed = false) ∨
    ∃ report after, runPass tree root options parent index pass state = .ok (report, after) ∧
      (launch tree root options parent index pass state).completed = true ∧
      (0 < report.errors ↔
        (launch tree root options parent index pass state).KeepsError options) := by
  obtain ⟨outcome, completed, reports⟩ :=
    started_reports tree root options parent index pass state
  rw [runPass_eq_started, reports _ (Sink.quiet_batchSink options)]
  cases outcome with
  | error abort after => exact .inl ⟨abort, rfl, completed⟩
  | ok value after =>
    refine .inr ⟨_, _, rfl, completed, ?_⟩
    refine (Diagnostic.errorCount_dedup_sort _).trans ?_
    show (∃ diagnostic ∈ ((batchSink options).reportAll _).bag.items, _) ↔ _
    rw [Sink.items_reportAll_batch]
    constructor
    · rintro ⟨_, member, severe⟩
      obtain ⟨diagnostic, kept, rfl⟩ := List.mem_map.mp member
      exact ⟨diagnostic, kept, severe⟩
    · rintro ⟨diagnostic, kept, severe⟩
      exact ⟨_, List.mem_map_of_mem kept, severe⟩

/-! ### The verdict -/

/-- A run came to its end and found no errors. -/
def Accepts : Except Abort BatchOutcome → Prop
  | .error _ => False
  | .ok outcome => outcome.haltedBy? = none ∧ outcome.succeeded

theorem not_accepts_halted (report : PassReport) (state : Analysis) (errors : 0 < report.errors) :
    ¬Accepts (.ok ⟨[report], state⟩) := by
  rintro ⟨halted, _⟩
  simp [BatchOutcome.haltedBy?, errors] at halted

theorem accepts_behind (report : PassReport) (clean : ¬0 < report.errors)
    (run : Except Abort BatchOutcome) :
    Accepts (match run with
      | .error abort => .error abort
      | .ok outcome => .ok { outcome with reports := report :: outcome.reports }) ↔
      Accepts run := by
  cases run with
  | error abort => exact Iff.rfl
  | ok outcome =>
    have zero : report.errors = 0 := by omega
    have halted : BatchOutcome.haltedBy? { outcome with reports := report :: outcome.reports } =
        outcome.haltedBy? := by
      simp [BatchOutcome.haltedBy?, zero]
    have errors : BatchOutcome.errors { outcome with reports := report :: outcome.reports } =
        outcome.errors := by
      simp [BatchOutcome.errors, zero]
    simp only [Accepts, halted, BatchOutcome.succeeded, errors]

/-- The verdict is right about what the started passes reported, and no pass was started behind
one that reported an error. -/
def SoundVerdict (options : BatchOptions) (run : Except Abort BatchOutcome)
    (launches : List Launch) : Prop :=
  (Accepts run ↔ ∀ launch ∈ launches, ¬launch.HasError options) ∧
    launches.Pairwise fun earlier _ => ¬earlier.HasError options

/-- A pass without errors in its report is judged with the passes behind it: had it errors that
were refused, the run would go on or end as if there were none. -/
theorem soundVerdict_behind (options : BatchOptions) {whole run : Except Abort BatchOutcome}
    (same : Accepts whole ↔ Accepts run) (first : Launch) (later : List Launch)
    (stops : later = [] → Accepts run) :
    SoundVerdict options whole (first :: later) ↔
      ¬first.HasError options ∧ SoundVerdict options run later := by
  unfold SoundVerdict
  rw [same, List.forall_mem_cons, List.pairwise_cons]
  by_cases severe : first.HasError options
  · refine ⟨fun ⟨verdict, noneLater, _⟩ => ?_, fun sound => absurd severe sound.1⟩
    cases later with
    | nil => exact absurd severe (verdict.mp (stops rfl)).1
    | cons next others => exact absurd severe (noneLater next (.head _))
  · simp [severe]

/-- A run, from a pass on, is right exactly when every pass it starts is faithful. -/
theorem soundVerdict_from (tree : Tree) (root : UnitId) (options : BatchOptions) (parent : Nat)
    (passes : List Pass) (index : Nat) (state : Analysis) :
    SoundVerdict options (runFrom tree root options parent index passes state)
        (launchesFrom tree root options parent index passes state) ↔
      ∀ launch ∈ launchesFrom tree root options parent index passes state,
        launch.Faithful options := by
  induction passes generalizing index state with
  | nil => simp [SoundVerdict, runFrom, launchesFrom, Accepts, BatchOutcome.haltedBy?,
      BatchOutcome.succeeded, BatchOutcome.errors]
  | cons pass rest inductionHypothesis =>
    unfold runFrom launchesFrom
    obtain ⟨abort, aborted, completed⟩ | ⟨report, after, ended, completed, errors⟩ :=
      runPass_cases tree root options parent index pass state
    · -- A pass that gave up is the last one, and the run says nothing good about it.
      simp [aborted, SoundVerdict, Accepts, Launch.Faithful, completed]
    · by_cases severe : 0 < report.errors
      · -- A pass with errors is the last one, and they are known.
        have hasError := (errors.mp severe).hasError
        simp [ended, severe, SoundVerdict, not_accepts_halted, hasError, Launch.Faithful,
          completed, errors.mp severe]
      · have keepsNone : ¬(launch tree root options parent index pass state).KeepsError options :=
          fun kept => severe (errors.mpr kept)
        have faithful : (launch tree root options parent index pass state).Faithful options ↔
            ¬(launch tree root options parent index pass state).HasError options := by
          simp [Launch.Faithful, completed, keepsNone]
        rw [ended]
        simp only [severe, if_false]
        refine (soundVerdict_behind options (accepts_behind report severe
          (runFrom tree root options parent (index + 1) rest after)) _ _ ?_).trans ?_
        · intro nothing
          cases rest with
          | nil => simp [runFrom, Accepts, BatchOutcome.haltedBy?, BatchOutcome.succeeded,
              BatchOutcome.errors]
          | cons next others => simp [launchesFrom] at nothing
        · rw [List.forall_mem_cons, faithful, inductionHypothesis]

/-- The verdict of a run is right, and no pass is started behind one with errors, exactly when
no pass of the run had all of its errors refused by a full bag, and none gave up without
having reported an error. -/
theorem soundVerdict_iff_faithful (pipeline : Pipeline) (tree : Tree) (root : UnitId)
    (options : BatchOptions) (trace : Trace.Recorder) (parent : Nat) :
    SoundVerdict options (pipeline.run tree root options trace parent)
        (pipeline.launches tree root options trace parent) ↔
      ∀ launch ∈ pipeline.launches tree root options trace parent, launch.Faithful options :=
  soundVerdict_from ..

end Pipeline

end TreeCheck

namespace TreeCheck.Pipeline

/-! ### Runs without errors

What a run without a limit stands for when it finds no errors: each of its passes came to its end, and
would have reported no error to a sink that keeps everything either. So the analysis the run delivers
knows what type checking recorded, whatever holds of an expression when it was checked holds of it, and
the rules found no fault that is an error. -/

section Accepted

variable {tree : Tree} {root : UnitId} {options : BatchOptions} {parent : Nat}
variable {diagnostic : Diagnostic} {state after : Analysis} {outcome : BatchOutcome}

/-- A result that is one is whatever stands for it, with any substitute for failure. -/
theorem eq_ok_of_isOk {ε α : Type} {result : Except ε α} (ends : result.isOk) (substitute : α) :
    result = .ok (result.toOption.getD substitute) := by
  cases result with
  | error _ => nomatch ends
  | ok _ => rfl

/-- An action ran from one state to another without reporting an error. -/
structure Clears (action : AnalysisM Unit) (before after : Analysis) : Prop where
  ran : action before = .ok () after
  spotless : after.sink.Spotless

/-- An error is delivered as one. -/
theorem isError_delivered (severe : diagnostic.isError) :
    (options.delivered diagnostic).isError := by
  unfold BatchOptions.delivered Diagnostic.promote
  split
  · split
    · rfl
    · exact severe
  · exact severe

/-- A pass without errors in its report clears the program; what it found out does not depend on
the sink. -/
theorem runPass_clears (unlimited : options.limit ≤ 0) {index : Nat} {pass : Pass}
    {report : PassReport}
    (ran : runPass tree root options parent index pass state = .ok (report, after))
    (clean : report.errors = 0) :
    ∃ span trace ended, Clears (pass.runProgram tree root options.validate span)
        { state with sink := {}, trace } ended ∧
      ∀ sink trace, { after with sink, trace } = { ended with sink, trace } := by
  obtain ⟨outcome, completed, reports⟩ := started_reports tree root options parent index pass state
  obtain ⟨abort, aborted, -⟩ | ⟨report', after', ended, isEnd, errors⟩ :=
    runPass_cases tree root options parent index pass state
  · cases ran.symm.trans aborted
  cases ended.symm.trans ran
  have keepsNone : ¬(launch tree root options parent index pass state).KeepsError options :=
    fun kept => by have := errors.mpr kept; omega
  have hasNone : ¬(launch tree root options parent index pass state).HasError options := by
    have faithful := Launch.faithful_of_unlimited unlimited isEnd
    rw [Launch.Faithful, if_pos isEnd] at faithful
    exact fun severe => keepsNone (faithful severe)
  cases outcome with
  | error abort final => cases isEnd.symm.trans completed
  | ok value final =>
    refine ⟨_, _, _, ⟨reports {} Sink.quiet_open, ?_⟩, fun sink trace => ?_⟩
    · exact Sink.spotless_reportAll_open fun diagnostic member severe =>
        hasNone ⟨diagnostic, member, isError_delivered severe⟩
    · rw [runPass_eq_started, reports _ (Sink.quiet_batchSink options)] at ran
      cases ran
      rfl

/-- A run without errors starts with a pass without errors, and the rest of it has none
either. -/
theorem runFrom_cons_succeeded {index : Nat} {pass : Pass} {rest : List Pass}
    (ran : runFrom tree root options parent index (pass :: rest) state = .ok outcome)
    (succeeded : outcome.succeeded) :
    ∃ report after later, runPass tree root options parent index pass state = .ok (report, after) ∧
      report.errors = 0 ∧ runFrom tree root options parent (index + 1) rest after = .ok later ∧
      later.succeeded ∧ later.analysis = outcome.analysis := by
  unfold runFrom at ran
  split at ran
  · nomatch ran
  · next report after passed =>
    split at ran
    · next severe =>
      cases ran
      have none : report.errors + 0 = 0 := of_decide_eq_true succeeded
      omega
    · next clean =>
      split at ran
      · nomatch ran
      · next later goesOn =>
        cases ran
        have none : report.errors + later.errors = 0 := of_decide_eq_true succeeded
        exact ⟨report, after, later, passed, by omega, goesOn, decide_eq_true (by omega), rfl⟩

/-- What a run without a limit and without errors went through: name resolution, type checking
and the rules, each from where the one before had come. -/
structure Went (tree : Tree) (root : UnitId) (checked : Bool)
    (resolved typed ruled : Analysis) : Prop where
  resolves : ∃ trace, Clears (Resolve.program tree root checked) { trace } resolved
  checks : ∃ span trace, Clears (TypeCheck.program tree span) { resolved with sink := {}, trace } typed
  rules : ∃ span trace, Clears (Rules.program tree span) { typed with sink := {}, trace } ruled

/-- A run of all passes without a limit that finds no errors went through all of them. -/
theorem went_of_succeeded (unlimited : options.limit ≤ 0) {trace : Trace.Recorder}
    (ran : full.run tree root options trace parent = .ok outcome) (succeeded : outcome.succeeded) :
    ∃ resolved typed ruled, Went tree root options.validate resolved typed ruled ∧
      outcome.analysis.names = ruled.names ∧ outcome.analysis.typing = ruled.typing := by
  obtain ⟨_, first, _, passed, clean, ran, succeeded, same⟩ := runFrom_cons_succeeded ran succeeded
  obtain ⟨_, second, _, passed', clean', ran, succeeded, same'⟩ := runFrom_cons_succeeded ran succeeded
  obtain ⟨_, third, _, passed'', clean'', ran, succeeded, same''⟩ := runFrom_cons_succeeded ran succeeded
  obtain ⟨_, _, resolved, resolves, asResolved⟩ := runPass_clears unlimited passed clean
  obtain ⟨span, trace', typed, checks, asTyped⟩ := runPass_clears unlimited passed' clean'
  obtain ⟨span', trace'', ruled, rules, asRuled⟩ := runPass_clears unlimited passed'' clean''
  cases ran
  refine ⟨resolved, typed, ruled, ⟨⟨_, resolves⟩, ⟨span, trace', asResolved .. ▸ checks⟩,
    ⟨span', trace'', asTyped .. ▸ rules⟩⟩, ?_⟩
  rw [← same, ← same', ← same'']
  have names := congrArg Analysis.names (asRuled {} {})
  have typing := congrArg Analysis.typing (asRuled {} {})
  exact ⟨names, typing⟩

/-! ### What follows -/

/-- The rules leave names alone and what is recorded about expressions. -/
theorem keeps_rules {span : Nat} {before : Analysis}
    (ran : Rules.program tree span before = .ok () after) : before.Keeps (fun _ => True) after := by
  refine ActsOver.leads (Analysis.Keeps fun _ => True) .refl .trans (fun change changes state => ?_)
    (fun state diagnostic => ?_) (fun inner => ?_) (fun givesUp _ _ _ ran => absurd ran givesUp.not_ok)
    (Rules.acts_program tree span) ran
  · have typing := changes.typing state
    have sink : (change (state.withSink state.sink)).sink = state.sink := by
      rw [changes.sinkFree]
      rfl
    refine ⟨by rw [changes.names], ?_, fun id _ => ?_, fun clean => sink ▸ clean⟩
    · rw [typing]
      exact .refl _
    · rw [typing]
      rfl
  · exact ⟨rfl, .refl _, fun _ _ => rfl, fun clean => (Sink.Spotless.of_report clean).1⟩
  · exact ⟨inner.names, inner.types, inner.records, inner.spotless⟩

namespace Went

variable {loader : Loader} {checked : Bool} {resolved typed ruled : Analysis}
  (went : Went loader.tree root checked resolved typed ruled) (loaded : loader.Reached)

include went

theorem keeps {final : Analysis} (names : final.names = ruled.names)
    (typing : final.typing = ruled.typing) :
    typed.Keeps (fun _ => True) final := by
  obtain ⟨_, _, checks⟩ := went.checks
  obtain ⟨_, _, rules⟩ := went.rules
  have keeps := keeps_rules rules.ran
  refine ⟨?_, ?_, fun id _ => ?_, fun _ => checks.spotless⟩
  · rw [names]
    exact keeps.names
  · rw [typing]
    exact keeps.types
  · rw [typing]
    exact keeps.records id trivial

include loaded

/-- What holds of every expression when its check ends, and lasts, holds of the expressions that
were checked. -/
theorem sound {sound : Analysis → ExprId → Prop} (settling : TypeCheck.Settling loader.tree sound)
    (lasting : TypeCheck.Lasting loader.tree sound) {id : ExprId}
    (recorded : ¬TypeCheck.Blank typed id) : sound typed id := by
  obtain ⟨_, resolves⟩ := went.resolves
  obtain ⟨_, _, checks⟩ := went.checks
  obtain ⟨once, hold⟩ := Resolve.units_program loaded.forest resolves.ran
  refine TypeCheck.sound_of_recorded loaded.forest settling lasting ?_ ?_ ?_ checks.ran recorded
  · exact once
  · exact hold
  · exact Resolve.typing_program resolves.ran

/-- No fault below the units that were resolved is an error. -/
theorem not_isError {node : Node} (fault : Rules.Fault loader.tree typed node diagnostic)
    {unit : UnitId} (processed : unit ∈ typed.names.unitOrder)
    (below : loader.tree.Reaches (.unit unit) node) : ¬diagnostic.isError := by
  obtain ⟨_, resolves⟩ := went.resolves
  obtain ⟨_, _, checks⟩ := went.checks
  obtain ⟨span, trace, rules⟩ := went.rules
  obtain ⟨-, hold⟩ := Resolve.units_program loaded.forest resolves.ran
  have names : typed.names = resolved.names := (TypeCheck.names_program checks.ran).trans rfl
  rw [← names] at hold
  obtain ⟨reports, found, runs⟩ :=
    (@Rules.reports_program _ _ typed loaded.forest loaded.bare span hold).runs
  obtain ⟨final, ends, -, reported⟩ := runs { typed with sink := {}, trace } ⟨rfl, rfl⟩ Sink.quiet_open
  obtain rfl := (EStateM.Result.ok.inj (ends.symm.trans rules.ran)).2
  have isFault := (Rules.mem_faults_iff loaded.forest hold).mpr ⟨fault, unit, processed, below⟩
  have isFound := List.mem_map_of_mem (f := Prod.snd) isFault
  rw [Rules.map_faults] at isFound
  refine rules.spotless.items diagnostic ?_
  rw [reported, Sink.items_reportAll_open]
  exact List.mem_of_mem_filter (found.mem_iff.mpr isFound)

end Went

end Accepted

end TreeCheck.Pipeline
