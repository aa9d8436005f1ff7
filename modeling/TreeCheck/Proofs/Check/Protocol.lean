/-
The protocol of what is told about programs that are checked. Consumers rely on it
whatever the workers do: every program is announced before anything else is told, its passes are
told one by one, counted from one, and exactly one event ends the account.

A worker tells something in six of its turns. What it told so far is a function of its stage,
so it is carried along as an invariant of the stage, next to where its program came from and
what the run of its passes amounts to. Turns of other workers do not add to it, since they tell
of other programs.
-/

import Mathlib.Data.List.Induction
import Mathlib.Data.List.Nodup
import TreeCheck.Proofs.Check.Workers

namespace TreeCheck

open Pipeline

/-! ### Accounts -/

/-- How many working events there can be. -/
def CheckOptions.steps (options : CheckOptions) : Nat :=
  if options.interactive then 1 else options.pipeline.passes.length

/-- The passes that were started for an outcome; submissions go by a name of their own. -/
def CheckOptions.startedPasses (options : CheckOptions) :
    Except ProgramError CheckedProgram → List String
  | .error _ => []
  | .ok program =>
    if program.cached then [] else if options.interactive then ["submit"] else program.verdict.ran

namespace CheckEvent

/-- All that is told about a program when some passes are started and an event is the last. -/
def account (path : String) (steps : Nat) (passes : List String) (final : CheckEvent) :
    List CheckEvent :=
  queued path :: loading path :: (working path steps passes ++ [final])

/-- Events that are the first of all that is told about a program. -/
def Begins (path : String) (steps : Nat) (told : List CheckEvent) : Prop :=
  ∃ (passes : List String) (final : CheckEvent), passes.length ≤ steps ∧ final.status.isFinal = true ∧
    told <+: account path steps passes final

theorem working_append (path : String) (steps : Nat) (passes : List String) (pass : String) :
    working path steps (passes ++ [pass]) =
      working path steps passes ++
        [{ file := path, status := .working, pass, step := passes.length + 1, steps }] := by
  simp [working, List.zipIdx_append]

theorem Begins.of_prefix {path : String} {steps : Nat} {told shorter : List CheckEvent}
    (begins : Begins path steps told) (front : shorter <+: told) : Begins path steps shorter := by
  obtain ⟨passes, final, few, isFinal, whole⟩ := begins
  exact ⟨passes, final, few, isFinal, front.trans whole⟩

/-- Behind some passes the program may be done. -/
theorem begins_working (path : String) (steps : Nat) (passes : List String)
    (few : passes.length ≤ steps) :
    Begins path steps (queued path :: loading path :: working path steps passes) := by
  refine ⟨passes, { file := path, status := .done }, few, rfl, ?_⟩
  unfold account
  exact List.prefix_append (queued path :: loading path :: working path steps passes) _

end CheckEvent

/-! ### Where outcomes come from -/

/-- A program as it was loaded from a disk. -/
structure LoadedProgram.LoadedFrom (program : LoadedProgram) (options : CheckOptions)
    (path : String) (disk : Disk) : Prop where
  loads : loadProgram disk path = .ok (program.root, program.loader)
  slot : program.slot = options.slot? disk path program.loader

section

variable (options : CheckOptions) (path : String) (seen : Disk → Prop)

/-- A program that was loaded from one of some disks. -/
def LoadedProgram.Known (program : LoadedProgram) : Prop :=
  ∃ disk, seen disk ∧ program.LoadedFrom options path disk

/-- The program could not be loaded. -/
def Unloaded (outcome : Except ProgramError CheckedProgram) : Prop :=
  ∃ disk failure, seen disk ∧ loadProgram disk path = .error failure ∧ outcome = .error failure

/-- The outcome of an identical check was replayed. -/
def Replayed (outcome : Except ProgramError CheckedProgram) : Prop :=
  ∃ (program : LoadedProgram) (disk : Disk) (stored : StoredOutcome),
    program.Known options path seen ∧ seen disk ∧ program.stored? disk = some stored ∧
      outcome = .ok (program.replayed options.limit stored)

/-- The pipeline came to a verdict. -/
def Analysed (outcome : Except ProgramError CheckedProgram) (verdict : Verdict) : Prop :=
  ∃ (program : LoadedProgram) (parent : Nat) (trace after : Trace.Recorder),
    program.Known options path seen ∧
      options.analyse program.loader program.root trace parent = .ok (verdict, after) ∧
      outcome = .ok (program.checked verdict)

/-- The loader or the pipeline met a missing node. -/
def BreaksOff : Prop :=
  (∃ disk, seen disk ∧ loadProgram disk path = .error (.load .crash)) ∨
    ∃ (program : LoadedProgram) (parent : Nat) (trace : Trace.Recorder) (failure : ProgramError),
      program.Known options path seen ∧
        options.analyse program.loader program.root trace parent = .error failure

/-- How a check comes out when the disks it sees are among some. -/
inductive Settled (outcome : Except ProgramError CheckedProgram) : Prop where
  | unloaded (unloaded : Unloaded path seen outcome)
  | replayed (replayed : Replayed options path seen outcome)
  | analysed (verdict : Verdict) (analysed : Analysed options path seen outcome verdict)

end

/-! ### More disks -/

section

variable {options : CheckOptions} {path : String} {seen wider : Disk → Prop}
  {outcome : Except ProgramError CheckedProgram}

theorem LoadedProgram.Known.mono {program : LoadedProgram} (more : ∀ disk, seen disk → wider disk)
    (known : program.Known options path seen) : program.Known options path wider :=
  known.imp fun disk loaded => ⟨more disk loaded.1, loaded.2⟩

theorem Settled.mono (more : ∀ disk, seen disk → wider disk)
    (settled : Settled options path seen outcome) : Settled options path wider outcome := by
  cases settled with
  | unloaded unloaded =>
    obtain ⟨disk, failure, there, rest⟩ := unloaded
    exact .unloaded ⟨disk, failure, more disk there, rest⟩
  | replayed replayed =>
    obtain ⟨program, disk, stored, known, there, rest⟩ := replayed
    exact .replayed ⟨program, disk, stored, known.mono more, more disk there, rest⟩
  | analysed verdict analysed =>
    obtain ⟨program, parent, trace, after, known, rest⟩ := analysed
    exact .analysed verdict ⟨program, parent, trace, after, known.mono more, rest⟩

theorem BreaksOff.mono (more : ∀ disk, seen disk → wider disk)
    (breaks : BreaksOff options path seen) : BreaksOff options path wider := by
  obtain ⟨disk, there, fails⟩ | ⟨program, parent, trace, failure, known, fails⟩ := breaks
  · exact .inl ⟨disk, more disk there, fails⟩
  · exact .inr ⟨program, parent, trace, failure, known.mono more, fails⟩

end

/-! ### Started passes -/

namespace CheckOptions

variable {options : CheckOptions} {program : LoadedProgram} {verdict : Verdict}
  {trace after : Trace.Recorder} {parent : Nat}

theorem prefix_ran (batch : options.interactive = false)
    (analysed : options.analyse program.loader program.root trace parent = .ok (verdict, after)) :
    verdict.ran <+: options.pipeline.passes.map Pass.name := by
  simp only [analyse, batch, Bool.false_eq_true, if_false, runBatch_eq] at analysed
  split at analysed
  · cases analysed
  · rename_i outcome ends
    cases analysed
    exact (prefix_ran _ _ _ _ ends).map Pass.name

theorem length_startedPasses
    (analysed : options.analyse program.loader program.root trace parent = .ok (verdict, after)) :
    (options.startedPasses (.ok (program.checked verdict))).length ≤ options.steps := by
  by_cases interactive : options.interactive
  · simp [startedPasses, LoadedProgram.checked, interactive, steps]
  · have batch : options.interactive = false := by simpa using interactive
    have bound := (prefix_ran batch analysed).length_le
    simpa [startedPasses, LoadedProgram.checked, batch, steps] using bound

end CheckOptions

/-! ### Turns -/

/-- What is known about a batch run between two passes. -/
structure Underway (options : CheckOptions) (parent : Nat) (program : LoadedProgram) (index : Nat)
    (rest : List Pass) (reports : List PassReport) (analysis : Analysis) : Prop where
  batch : options.interactive = false
  place : index = reports.length + 1
  order : reports.map PassReport.pass ++ rest <+: options.pipeline.passes
  goesOn : ∃ trace, runFrom program.loader.tree program.root options.batch parent 1
      options.pipeline.passes { trace } =
    (runFrom program.loader.tree program.root options.batch parent index rest
      analysis).map (behind reports)

namespace Underway

variable {options : CheckOptions} {parent : Nat} {program : LoadedProgram} {index : Nat}
  {pass : Pass} {rest : List Pass} {reports : List PassReport} {analysis after : Analysis}
  {report : PassReport}

theorem begin (batch : options.interactive = false) (trace : Trace.Recorder) :
    Underway options parent program 1 options.pipeline.passes [] { trace } where
  batch := batch
  place := rfl
  order := List.prefix_refl _
  goesOn := by
    refine ⟨trace, ?_⟩
    cases runFrom program.loader.tree program.root options.batch parent 1
      options.pipeline.passes { trace } <;> rfl

theorem step (underway : Underway options parent program index (pass :: rest) reports analysis)
    (ran : runPass program.loader.tree program.root options.batch parent index pass
      analysis = .ok (report, after)) :
    Underway options parent program (index + 1) (if 0 < report.errors then [] else rest)
      (reports ++ [report]) after where
  batch := underway.batch
  place := by simp [underway.place]
  order := by
    have first := report_pass _ _ _ _ ran
    have whole : (reports ++ [report]).map PassReport.pass ++ rest <+: options.pipeline.passes := by
      simpa [first] using underway.order
    split
    · refine List.IsPrefix.trans ?_ whole
      simp
    · exact whole
  goesOn := by
    obtain ⟨trace, goesOn⟩ := underway.goesOn
    refine ⟨trace, goesOn.trans ?_⟩
    rw [runFrom_cons, ran]
    show Except.map _ (Except.map _ _) = _
    cases runFrom program.loader.tree program.root options.batch parent (index + 1)
      (if 0 < report.errors then [] else rest) after with
    | error abort => rfl
    | ok outcome => simp [Except.map, behind]

/-- A run without passes left is the run of the whole pipeline. -/
theorem analysed (underway : Underway options parent program index [] reports analysis) :
    ∃ trace, options.analyse program.loader program.root trace parent =
      .ok (options.verdictOf ⟨reports, analysis⟩, analysis.trace) := by
  obtain ⟨trace, goesOn⟩ := underway.goesOn
  refine ⟨trace, ?_⟩
  simp only [CheckOptions.analyse, underway.batch, Bool.false_eq_true, if_false,
    CheckOptions.runBatch_eq, goesOn]
  simp [runFrom, Except.map, behind]

theorem startedPasses (underway : Underway options parent program index rest reports analysis) :
    options.startedPasses (.ok (program.checked (options.verdictOf ⟨reports, analysis⟩))) =
      reports.map fun report => report.pass.name := by
  simp [CheckOptions.startedPasses, LoadedProgram.checked, underway.batch, CheckOptions.verdictOf,
    BatchOutcome.ran]

theorem length_le (underway : Underway options parent program index rest reports analysis) :
    reports.length + rest.length ≤ options.steps := by
  simpa [CheckOptions.steps, underway.batch] using underway.order.length_le

/-- A run breaks off with the pass that does. -/
theorem breaks (underway : Underway options parent program index (pass :: rest) reports analysis)
    {abort : Abort} (breaks : runPass program.loader.tree program.root options.batch
      parent index pass analysis = .error abort) :
    ∃ trace, options.analyse program.loader program.root trace parent = .error (.abort abort) := by
  obtain ⟨trace, goesOn⟩ := underway.goesOn
  refine ⟨trace, ?_⟩
  simp only [CheckOptions.analyse, underway.batch, Bool.false_eq_true, if_false,
    CheckOptions.runBatch_eq, goesOn, runFrom_cons, breaks]
  rfl

end Underway

namespace CheckStage

/-- What is known about a stage and what the worker told on the way to it. -/
inductive Sound (options : CheckOptions) (path : String) (seen : Disk → Prop) :
    CheckStage → List CheckEvent → Prop where
  | waiting : Sound options path seen waiting []
  | loading (span : Trace.OpenSpan) : Sound options path seen (loading span) [.loading path]
  | loaded {span : Trace.OpenSpan} {program : LoadedProgram}
      (known : program.Known options path seen) :
      Sound options path seen (loaded span program) [.loading path]
  | submitting {span : Trace.OpenSpan} {program : LoadedProgram}
      (known : program.Known options path seen) (interactive : options.interactive = true) :
      Sound options path seen (submitting span program) [.loading path]
  | running {span : Trace.OpenSpan} {program : LoadedProgram} {index : Nat} {rest : List Pass}
      {reports : List PassReport} {analysis : Analysis}
      (known : program.Known options path seen)
      (underway : Underway options span.id program index rest reports analysis) :
      Sound options path seen (running span program index rest reports analysis)
        (.loading path ::
          CheckEvent.working path options.steps (reports.map fun report => report.pass.name))
  | analysed {span : Trace.OpenSpan} {program : LoadedProgram} {verdict : Verdict}
      {parent : Nat} {before trace after : Trace.Recorder}
      (known : program.Known options path seen)
      (ran : options.analyse program.loader program.root before parent = .ok (verdict, after)) :
      Sound options path seen (analysed span program verdict trace)
        (.loading path ::
          CheckEvent.working path options.steps
            (options.startedPasses (.ok (program.checked verdict))))
  | settled {span : Trace.OpenSpan} {outcome : Except ProgramError CheckedProgram}
      (way : Settled options path seen outcome) :
      Sound options path seen (settled span outcome)
        (.loading path :: CheckEvent.working path options.steps (options.startedPasses outcome))
  | finished {outcome : Except ProgramError CheckedProgram}
      (way : Settled options path seen outcome) :
      Sound options path seen (finished outcome)
        (.loading path ::
          (CheckEvent.working path options.steps (options.startedPasses outcome) ++
            [ProgramResult.finalEvent ⟨path, outcome⟩]))
  | broken {passes : List String} (breaks : BreaksOff options path seen)
      (few : passes.length ≤ options.steps) :
      Sound options path seen broken
        (.loading path :: CheckEvent.working path options.steps passes)

variable {options : CheckOptions} {parent : Nat} {path : String} {seen : Disk → Prop}
  {span : Trace.OpenSpan} {program : LoadedProgram} {told : List CheckEvent}

theorem sound_load {disk : Disk} (here : seen disk) :
    (load options path span disk).Sound options path seen [.loading path] := by
  unfold load
  split
  · rename_i crashes
    have none : ([] : List String).length ≤ options.steps := Nat.zero_le _
    exact .broken (.inl ⟨disk, here, crashes⟩) none
  · rename_i failure _ fails
    exact .settled (.unloaded ⟨disk, failure, here, fails, rfl⟩)
  · rename_i root loader loads
    exact .loaded ⟨disk, here, loads, rfl⟩

theorem sound_lookUp {state : CheckState} (here : seen state.disk)
    (known : program.Known options path seen) :
    (lookUp options span program state).Sound options path seen [.loading path] := by
  unfold lookUp
  split
  · rename_i stored hit
    exact .settled (.replayed ⟨program, state.disk, stored, known, here, hit, rfl⟩)
  · split
    · rename_i interactive
      exact .submitting known interactive
    · rename_i batch
      exact .running known (.begin (by simpa using batch) _)

theorem sound_submit {trace : Trace.Recorder} (known : program.Known options path seen)
    (interactive : options.interactive = true) :
    (submit options span program trace).Sound options path seen
      (.loading path :: CheckEvent.working path options.steps ["submit"]) := by
  have analyse : options.analyse = runInteractive options := if_pos interactive
  unfold submit
  split
  · rename_i failure fails
    refine .broken (.inr ⟨program, span.id, trace, failure, known, ?_⟩) ?_
    · rw [analyse, fails]
    · simp [CheckOptions.steps, interactive]
  · rename_i verdict after ran
    rw [← analyse] at ran
    simpa [CheckOptions.startedPasses, LoadedProgram.checked, interactive] using
      (Sound.analysed known ran : (analysed span program verdict after).Sound options path seen _)

theorem sound_runPass {index : Nat} {pass : Pass} {rest : List Pass} {reports : List PassReport}
    {analysis : Analysis} (known : program.Known options path seen)
    (underway : Underway options span.id program index (pass :: rest) reports analysis) :
    (runPass options span program index pass rest reports analysis).Sound options path seen
      (.loading path :: CheckEvent.working path options.steps
        (reports.map (fun report => report.pass.name) ++ [pass.name])) := by
  unfold runPass
  split
  · rename_i abort breaks
    obtain ⟨trace, fails⟩ := underway.breaks breaks
    refine .broken (.inr ⟨program, span.id, trace, .abort abort, known, fails⟩) ?_
    have bound := underway.length_le
    simp only [List.length_cons] at bound
    simp only [List.length_append, List.length_map, List.length_cons, List.length_nil]
    omega
  · rename_i report after ran
    have first := report_pass _ _ _ _ ran
    simpa [first] using Sound.running known (underway.step ran)

variable {stage after : CheckStage} {state stateAfter : CheckState}

/-- A turn tells something about the program of the worker, other than that it is queued. -/
theorem Sound.next (here : seen state.disk) (sound : stage.Sound options path seen told)
    (taken : (stage.next options parent path).run state = (after, stateAfter)) :
    ∃ new : List CheckEvent, stateAfter.events.toList = state.events.toList ++ new ∧
      (∀ event ∈ new, event.file = path ∧ event.status ≠ .queued) ∧
      after.Sound options path seen (told ++ new) := by
  cases sound with
  | waiting =>
    cases taken
    refine ⟨[.loading path], Array.toList_push, ?_, .loading _⟩
    simp [CheckEvent.loading, CheckStatus.loading, CheckStatus.queued]
  | loading span =>
    rw [run_loading] at taken
    cases taken
    exact ⟨[], by simp, by simp, sound_load here⟩
  | loaded known =>
    rw [run_loaded] at taken
    cases taken
    exact ⟨[], by simp, by simp, sound_lookUp here known⟩
  | submitting known interactive =>
    rw [run_submitting] at taken
    cases taken
    refine ⟨CheckEvent.working path options.steps ["submit"], ?_, ?_,
      sound_submit known interactive⟩
    · simp [CheckOptions.steps, interactive]
    · simp [CheckEvent.working, CheckStatus.working, CheckStatus.queued]
  | @running span program index rest reports analysis known underway =>
    cases rest with
    | nil =>
      cases taken
      obtain ⟨trace, ran⟩ := underway.analysed
      refine ⟨[], by simp, by simp, ?_⟩
      simpa [underway.startedPasses] using
        (Sound.analysed known ran : (CheckStage.analysed span program
          (options.verdictOf ⟨reports, analysis⟩) analysis.trace).Sound options path seen _)
    | cons pass rest =>
      rw [run_running] at taken
      cases taken
      refine ⟨[_], Array.toList_push, ?_, ?_⟩
      · simp [passEvent, CheckStatus.working, CheckStatus.queued]
      · have sound := sound_runPass known underway
        rw [CheckEvent.working_append] at sound
        simpa [CheckOptions.steps, underway.batch, underway.place, passEvent] using sound
  | @analysed span program verdict parent before trace after known ran =>
    cases taken
    refine ⟨[], by simp, by simp, ?_⟩
    rw [List.append_nil]
    exact .settled (.analysed verdict ⟨program, parent, before, after, known, ran, rfl⟩)
  | @settled span outcome settled =>
    cases taken
    refine ⟨[_], Array.toList_push, ?_, .finished settled⟩
    cases outcome with
    | error failure => simp [ProgramResult.finalEvent, CheckStatus.failed, CheckStatus.queued]
    | ok program =>
      simp only [ProgramResult.finalEvent, List.mem_singleton, forall_eq, true_and]
      split
      · decide
      · split <;> decide
  | finished settled =>
    cases taken
    exact ⟨[], by simp, by simp, by simpa using Sound.finished settled⟩
  | broken breaks few =>
    cases taken
    exact ⟨[], by simp, by simp, by simpa using Sound.broken breaks few⟩

theorem Sound.mono {wider : Disk → Prop} (more : ∀ disk, seen disk → wider disk)
    (sound : stage.Sound options path seen told) : stage.Sound options path wider told := by
  cases sound with
  | waiting => exact .waiting
  | loading span => exact .loading span
  | loaded known => exact .loaded (known.mono more)
  | submitting known interactive => exact .submitting (known.mono more) interactive
  | running known underway => exact .running (known.mono more) underway
  | analysed known ran => exact .analysed (known.mono more) ran
  | settled settled => exact .settled (settled.mono more)
  | finished settled => exact .finished (settled.mono more)
  | broken breaks few => exact .broken (breaks.mono more) few

theorem Sound.of_finished {outcome : Except ProgramError CheckedProgram}
    (sound : stage.Sound options path seen told) (ended : stage = .finished outcome) :
    Settled options path seen outcome ∧
      told = .loading path ::
        (CheckEvent.working path options.steps (options.startedPasses outcome) ++
          [ProgramResult.finalEvent ⟨path, outcome⟩]) := by
  subst ended
  cases sound with
  | finished way => exact ⟨way, rfl⟩

theorem Sound.of_broken (sound : stage.Sound options path seen told) (ended : stage = .broken) :
    BreaksOff options path seen := by
  subst ended
  cases sound with
  | broken breaks few => exact breaks

/-- How many turns are left at most. -/
def turnsLeft (options : CheckOptions) : CheckStage → Nat
  | waiting => options.pipeline.passes.length + 6
  | loading _ => options.pipeline.passes.length + 5
  | loaded .. => options.pipeline.passes.length + 4
  | submitting .. => 3
  | running _ _ _ rest _ _ => rest.length + 3
  | analysed .. => 2
  | settled .. => 1
  | finished _ | broken => 0

theorem turnsLeft_next (unfinished : ¬stage.IsOver)
    (taken : (stage.next options parent path).run state = (after, stateAfter)) :
    after.turnsLeft options < stage.turnsLeft options := by
  cases stage with
  | waiting => cases taken; simp [turnsLeft]
  | loading span =>
    rw [run_loading] at taken
    cases taken
    unfold load
    split <;> simp [turnsLeft]
  | loaded span program =>
    rw [run_loaded] at taken
    cases taken
    unfold lookUp
    split
    · simp [turnsLeft]
    · split <;> simp [turnsLeft]
  | submitting span program =>
    rw [run_submitting] at taken
    cases taken
    unfold submit
    split <;> simp [turnsLeft]
  | running span program index rest reports analysis =>
    cases rest with
    | nil => cases taken; simp [turnsLeft]
    | cons pass rest =>
      rw [run_running] at taken
      cases taken
      unfold runPass
      split
      · simp [turnsLeft]
      · split <;> simp [turnsLeft]
  | analysed span program verdict trace => cases taken; simp [turnsLeft]
  | settled span outcome => cases taken; simp [turnsLeft]
  | finished outcome => exact absurd trivial unfinished
  | broken => exact absurd trivial unfinished

end CheckStage

/-! ### Runs -/

namespace Crew

/-- What is known about a crew that has told some events since the announcements. -/
structure Sound (options : CheckOptions) (paths : List String) (seen : Disk → Prop) (crew : Crew)
    (later : List CheckEvent) : Prop where
  order : crew.workers.map Worker.path = paths
  announced : ∃ announced, announced ++ crew.unannounced = paths ∧
    crew.events.toList = announced.map CheckEvent.queued ++ later
  begun : later ≠ [] → crew.unannounced = []
  other : ∀ event ∈ later, event.status ≠ .queued
  workers : ∀ (index : Nat) (worker : Worker), crew.workers[index]? = some worker →
    worker.stage.Sound options worker.path seen (later.filter (·.file = worker.path))

variable {options : CheckOptions} {parent : Nat} {paths : List String} {seen : Disk → Prop}
  {crew : Crew} {later : List CheckEvent}

theorem sound_gather (jobs : List (String × Trace.Recorder)) (disk : Disk) :
    (gather jobs disk).Sound options (jobs.map Prod.fst) seen [] where
  order := by simp [gather]
  announced := ⟨[], rfl, rfl⟩
  begun := fun none => absurd rfl none
  other := by simp
  workers := by
    intro index worker there
    obtain ⟨path, trace, _, rfl⟩ : ∃ path trace, jobs[index]? = some (path, trace) ∧
        ({ path, trace } : Worker) = worker := by
      simpa [gather] using there
    exact .waiting

theorem Sound.announce (sound : crew.Sound options paths seen later) :
    crew.announce.Sound options paths seen later := by
  unfold Crew.announce
  split
  · exact sound
  · rename_i path rest left
    have silent : later = [] := Decidable.byContradiction fun some => by
      simp [sound.begun some] at left
    subst silent
    obtain ⟨announced, whole, told⟩ := sound.announced
    refine ⟨sound.order, ⟨announced ++ [path], ?_, ?_⟩, fun none => absurd rfl none, sound.other,
      sound.workers⟩
    · simpa [left] using whole
    · simp [told, CheckEvent.queued]

/-- Workers at different places have different programs. -/
theorem Sound.apart (distinct : paths.Nodup) (sound : crew.Sound options paths seen later)
    {first second : Nat} {worker other : Worker} (there : crew.workers[first]? = some worker)
    (otherThere : crew.workers[second]? = some other) (different : first ≠ second) :
    worker.path ≠ other.path := by
  intro same
  have short : first < (crew.workers.map Worker.path).length := by
    simpa using (List.getElem?_eq_some_iff.mp there).1
  refine different ((List.getElem?_inj short (sound.order ▸ distinct)).mp ?_)
  simp [there, otherThere, same]

theorem Sound.work {index : Nat} {worker : Worker} (distinct : paths.Nodup)
    (here : seen crew.disk) (sound : crew.Sound options paths seen later)
    (allAnnounced : crew.unannounced = []) (there : crew.workers[index]? = some worker) :
    ∃ later, (crew.work options parent index worker).Sound options paths seen later := by
  rcases taken : (worker.stage.next options parent worker.path).run
    { disk := crew.disk, trace := worker.trace, events := crew.events } with ⟨after, state⟩
  obtain ⟨new, told, own, soundAfter⟩ := (sound.workers index worker there).next here taken
  refine ⟨later ++ new, ?_⟩
  simp only [Crew.work, taken]
  refine ⟨?_, ?_, fun _ => allAnnounced, ?_, ?_⟩
  · obtain ⟨short, rfl⟩ := List.getElem?_eq_some_iff.mp there
    rw [← sound.order, List.map_set, ← List.getElem_map Worker.path, List.set_getElem_self]
    simpa using short
  · obtain ⟨announced, whole, toldBefore⟩ := sound.announced
    exact ⟨announced, whole, by rw [told, toldBefore, List.append_assoc]⟩
  · intro event member
    obtain member | member := List.mem_append.mp member
    · exact sound.other event member
    · exact (own event member).2
  · intro place other otherThere
    rw [List.getElem?_set] at otherThere
    split at otherThere
    · rename_i same
      subst same
      split at otherThere
      · cases otherThere
        have kept : new.filter (fun event => event.file = worker.path) = new :=
          List.filter_eq_self.mpr fun event member => by simpa using (own event member).1
        rw [List.filter_append, kept]
        exact soundAfter
      · cases otherThere
    · rename_i different
      have elsewhere := sound.apart distinct there otherThere different
      have dropped : new.filter (fun event => event.file = other.path) = [] :=
        List.filter_eq_nil_iff.mpr fun event member => by simpa [(own event member).1] using elsewhere
      rw [List.filter_append, dropped, List.append_nil]
      exact sound.workers place other otherThere

theorem Sound.take (distinct : paths.Nodup) (here : seen crew.disk)
    (sound : crew.Sound options paths seen later) (turn : Turn) :
    ∃ later, (crew.take options parent turn).Sound options paths seen later := by
  cases turn with
  | announce => exact ⟨later, sound.announce⟩
  | work index =>
    simp only [Crew.take]
    split
    · rename_i worker allAnnounced there
      exact sound.work distinct here allAnnounced there
    · exact ⟨later, sound⟩

theorem Sound.mono {wider : Disk → Prop} (more : ∀ disk, seen disk → wider disk)
    (sound : crew.Sound options paths seen later) : crew.Sound options paths wider later :=
  { sound with workers := fun index worker there =>
    CheckStage.Sound.mono more (sound.workers index worker there) }

/-- A disk that was there at some time of a run. -/
def Saw (options : CheckOptions) (parent : Nat) (crew : Crew) (turns : List Turn) (disk : Disk) :
    Prop :=
  ∃ before, before <+: turns ∧ disk = (crew.run options parent before).disk

/-- A run keeps what is known, and what is known comes from disks that were there before. -/
theorem sound_run (jobs : List (String × Trace.Recorder)) (disk : Disk)
    (distinct : (jobs.map Prod.fst).Nodup) (turns : List Turn) :
    ∃ later, ((gather jobs disk).run options parent turns).Sound options (jobs.map Prod.fst)
      (Saw options parent (gather jobs disk) turns) later := by
  induction turns using List.reverseRecOn with
  | nil => exact ⟨[], sound_gather jobs disk⟩
  | append_singleton turns turn inductionHypothesis =>
    obtain ⟨later, soundBefore⟩ := inductionHypothesis
    have here : Saw options parent (gather jobs disk) (turns ++ [turn])
        ((gather jobs disk).run options parent turns).disk :=
      ⟨turns, List.prefix_append .., rfl⟩
    have more : ∀ disk', Saw options parent (gather jobs disk) turns disk' →
        Saw options parent (gather jobs disk) (turns ++ [turn]) disk' :=
      fun _ ⟨before, early, there⟩ => ⟨before, early.trans (List.prefix_append ..), there⟩
    rw [run, List.foldl_append]
    exact (soundBefore.mono more).take distinct here turn

/-! ### Coming to an end -/

/-- How many turns are left at most. -/
def turnsLeft (options : CheckOptions) (crew : Crew) : Nat :=
  crew.unannounced.length +
    (crew.workers.map fun worker => worker.stage.turnsLeft options).foldr (· + ·) 0

theorem sum_set_lt {counts : List Nat} {index before after : Nat}
    (there : counts[index]? = some before) (less : after < before) :
    (counts.set index after).foldr (· + ·) 0 < counts.foldr (· + ·) 0 := by
  induction counts generalizing index with
  | nil => simp at there
  | cons count rest inductionHypothesis =>
    cases index with
    | zero =>
      obtain rfl : count = before := by simpa using there
      simp only [List.set_cons_zero, List.foldr_cons]
      omega
    | succ index =>
      rw [List.getElem?_cons_succ] at there
      have shorter := inductionHypothesis there
      simp only [List.set_cons_succ, List.foldr_cons]
      omega

theorem turnsLeft_work {index : Nat} {worker : Worker}
    (there : crew.workers[index]? = some worker) (unfinished : ¬worker.stage.IsOver) :
    (crew.work options parent index worker).turnsLeft options < crew.turnsLeft options := by
  rcases taken : (worker.stage.next options parent worker.path).run
    { disk := crew.disk, trace := worker.trace, events := crew.events } with ⟨after, state⟩
  simp only [turnsLeft, Crew.work, taken, List.map_set]
  have counted : (crew.workers.map fun worker => worker.stage.turnsLeft options)[index]? =
      some (worker.stage.turnsLeft options) := by simp [there]
  have fewer := sum_set_lt counted (CheckStage.turnsLeft_next unfinished taken)
  omega

/-- From wherever a crew is, some turns lead to where nothing is left to do. -/
theorem exists_over (crew : Crew) :
    ∃ turns : List Turn, (crew.run options parent turns).unannounced = [] ∧
      ∀ worker ∈ (crew.run options parent turns).workers, worker.stage.IsOver := by
  induction count : crew.turnsLeft options using Nat.strongRecOn generalizing crew with
  | ind left inductionHypothesis =>
    have goesOn (turn : Turn) (fewer : (crew.take options parent turn).turnsLeft options < left) :
        ∃ turns : List Turn, (crew.run options parent turns).unannounced = [] ∧
          ∀ worker ∈ (crew.run options parent turns).workers, worker.stage.IsOver := by
      obtain ⟨turns, ended⟩ := inductionHypothesis _ fewer _ rfl
      exact ⟨turn :: turns, ended⟩
    cases unannounced : crew.unannounced with
    | cons path rest =>
      refine goesOn .announce ?_
      simp only [take, announce, unannounced, turnsLeft, ← count]
      simp
    | nil =>
      by_cases ended : ∀ worker ∈ crew.workers, worker.stage.IsOver
      · exact ⟨[], unannounced, ended⟩
      · simp only [not_forall] at ended
        obtain ⟨worker, member, unfinished⟩ := ended
        obtain ⟨index, there⟩ := List.mem_iff_getElem?.mp member
        refine goesOn (.work index) ?_
        simp only [take, unannounced, there, ← count]
        exact turnsLeft_work there unfinished

end Crew

/-! ### The protocol -/

/-- What was told about a program by the end of its check: one event for each started pass,
and a last one that says how the check came out. -/
structure Concluded (options : CheckOptions) (path : String) (seen : Disk → Prop)
    (outcome : Except ProgramError CheckedProgram) (told : List CheckEvent) : Prop where
  settled : Settled options path seen outcome
  told : told = CheckEvent.account path options.steps (options.startedPasses outcome)
    (ProgramResult.finalEvent ⟨path, outcome⟩)
  few : (options.startedPasses outcome).length ≤ options.steps
  failed : (ProgramResult.finalEvent ⟨path, outcome⟩).status = .failed ↔
    Unloaded path seen outcome ∨
      ∃ verdict, Analysed options path seen outcome verdict ∧ 0 < verdict.errors
  cached : (ProgramResult.finalEvent ⟨path, outcome⟩).status = .cached ↔
    Replayed options path seen outcome
  done : (ProgramResult.finalEvent ⟨path, outcome⟩).status = .done ↔
    ∃ verdict, Analysed options path seen outcome verdict ∧ verdict.errors = 0

section

variable {options : CheckOptions} {path : String} {seen : Disk → Prop}
  {outcome : Except ProgramError CheckedProgram} {verdict : Verdict}

theorem Unloaded.status (unloaded : Unloaded path seen outcome) :
    (ProgramResult.finalEvent ⟨path, outcome⟩).status = .failed := by
  obtain ⟨disk, failure, there, fails, rfl⟩ := unloaded
  rfl

theorem Replayed.status (replayed : Replayed options path seen outcome) :
    (ProgramResult.finalEvent ⟨path, outcome⟩).status = .cached := by
  obtain ⟨program, disk, stored, known, there, hit, rfl⟩ := replayed
  rfl

theorem Analysed.status (analysed : Analysed options path seen outcome verdict) :
    (ProgramResult.finalEvent ⟨path, outcome⟩).status =
      if verdict.errors = 0 then .done else .failed := by
  obtain ⟨program, parent, trace, after, known, ran, rfl⟩ := analysed
  rfl

theorem Settled.length_startedPasses (settled : Settled options path seen outcome) :
    (options.startedPasses outcome).length ≤ options.steps := by
  cases settled with
  | unloaded unloaded =>
    obtain ⟨disk, failure, there, fails, rfl⟩ := unloaded
    exact Nat.zero_le _
  | replayed replayed =>
    obtain ⟨program, disk, stored, known, there, hit, rfl⟩ := replayed
    exact Nat.zero_le _
  | analysed verdict analysed =>
    obtain ⟨program, parent, trace, after, known, ran, rfl⟩ := analysed
    exact CheckOptions.length_startedPasses ran

theorem Settled.isFinal (settled : Settled options path seen outcome) :
    (ProgramResult.finalEvent ⟨path, outcome⟩).status.isFinal := by
  cases settled with
  | unloaded unloaded => rw [unloaded.status]; decide
  | replayed replayed => rw [replayed.status]; decide
  | analysed verdict analysed =>
    rw [analysed.status]
    split <;> decide

/-- The last event tells apart the ways in which a check comes out. -/
theorem Settled.concluded (settled : Settled options path seen outcome) :
    Concluded options path seen outcome
      (CheckEvent.account path options.steps (options.startedPasses outcome)
        (ProgramResult.finalEvent ⟨path, outcome⟩)) where
  settled := settled
  told := rfl
  few := settled.length_startedPasses
  failed := by
    constructor
    · intro status
      cases settled with
      | unloaded unloaded => exact .inl unloaded
      | replayed replayed => exact absurd (replayed.status.symm.trans status) (by decide)
      | analysed verdict analysed =>
        refine .inr ⟨verdict, analysed, Nat.pos_of_ne_zero fun none => ?_⟩
        rw [analysed.status, if_pos none] at status
        exact absurd status (by decide)
    · rintro (unloaded | ⟨verdict, analysed, some⟩)
      · exact unloaded.status
      · rw [analysed.status, if_neg (by omega)]
  cached := by
    refine ⟨fun status => ?_, Replayed.status⟩
    cases settled with
    | unloaded unloaded => exact absurd (unloaded.status.symm.trans status) (by decide)
    | replayed replayed => exact replayed
    | analysed verdict analysed =>
      rw [analysed.status] at status
      split at status <;> exact absurd status (by decide)
  done := by
    constructor
    · intro status
      cases settled with
      | unloaded unloaded => exact absurd (unloaded.status.symm.trans status) (by decide)
      | replayed replayed => exact absurd (replayed.status.symm.trans status) (by decide)
      | analysed verdict analysed =>
        refine ⟨verdict, analysed, Decidable.byContradiction fun some => ?_⟩
        rw [analysed.status, if_neg some] at status
        exact absurd status (by decide)
    · rintro ⟨verdict, analysed, none⟩
      rw [analysed.status, if_pos none]

/-- Whatever a worker told by now is the beginning of what is told in all. -/
theorem CheckStage.Sound.begins {stage : CheckStage} {told : List CheckEvent}
    (sound : stage.Sound options path seen told) :
    CheckEvent.Begins path options.steps (CheckEvent.queued path :: told) := by
  have opening : CheckEvent.Begins path options.steps
      [CheckEvent.queued path, CheckEvent.loading path] :=
    CheckEvent.begins_working path options.steps [] (Nat.zero_le _)
  cases sound with
  | waiting => exact opening.of_prefix (List.prefix_append _ [_])
  | loading | loaded | submitting => exact opening
  | running known underway =>
    refine CheckEvent.begins_working path _ _ ?_
    rw [List.length_map]
    exact Nat.le_of_add_right_le underway.length_le
  | analysed known ran =>
    exact CheckEvent.begins_working path _ _ (CheckOptions.length_startedPasses ran)
  | settled settled => exact CheckEvent.begins_working path _ _ settled.length_startedPasses
  | finished settled =>
    exact ⟨_, _, settled.length_startedPasses, settled.isFinal, List.prefix_refl _⟩
  | broken breaks few => exact CheckEvent.begins_working path _ _ few

end

namespace Crew

variable {options : CheckOptions} {paths : List String} {seen : Disk → Prop} {crew : Crew}
  {later : List CheckEvent}

/-- A program is announced once, and only behind that is anything else told about it. -/
theorem Sound.told (distinct : paths.Nodup) (sound : crew.Sound options paths seen later)
    {path : String} (member : path ∈ paths) :
    crew.told path = .queued path :: later.filter (·.file = path) ∨
      crew.told path = [] ∧ later = [] := by
  obtain ⟨announced, whole, events⟩ := sound.announced
  have split : crew.told path =
      (announced.filter (· = path)).map CheckEvent.queued ++ later.filter (·.file = path) := by
    rw [Crew.told, events, List.filter_append, List.filter_map]
    rfl
  have once : announced.Nodup := (whole ▸ distinct).of_append_left
  by_cases there : path ∈ announced
  · left
    rw [split, List.filter_eq, List.count_eq_one_of_mem once there]
    rfl
  · right
    have silent : later = [] := Decidable.byContradiction fun some => there <| by
      rw [sound.begun some, List.append_nil] at whole
      exact whole ▸ member
    rw [split, List.filter_eq, List.count_eq_zero_of_not_mem there, silent]
    exact ⟨rfl, rfl⟩

/-- Whoever takes turns, and in whichever order: every program is announced before anything
else is told, what is told about a program are the first events of a whole account, and all of it
by the end of its check. A worker that never comes to an end met a missing node, and there are
always turns that bring all others to theirs. -/
theorem events_follow_protocol (options : CheckOptions) (parent : Nat)
    (jobs : List (String × Trace.Recorder)) (disk : Disk) (turns : List Turn)
    (distinct : (jobs.map Prod.fst).Nodup) :
    let crew := (gather jobs disk).run options parent turns
    let seen := Saw options parent (gather jobs disk) turns
    crew.workers.map Worker.path = jobs.map Prod.fst ∧
      (∃ announced later, announced ++ crew.unannounced = jobs.map Prod.fst ∧
        crew.events.toList = announced.map CheckEvent.queued ++ later ∧
        (later ≠ [] → crew.unannounced = []) ∧ ∀ event ∈ later, event.status ≠ .queued) ∧
      (∀ worker ∈ crew.workers,
        CheckEvent.Begins worker.path options.steps (crew.told worker.path) ∧
        (∀ outcome, worker.stage = .finished outcome →
          Concluded options worker.path seen outcome (crew.told worker.path)) ∧
        (worker.stage = .broken → BreaksOff options worker.path seen)) ∧
      ∃ more, ∀ worker ∈ (crew.run options parent more).workers, worker.stage.IsOver := by
  intro crew seen
  obtain ⟨later, sound⟩ : ∃ later, crew.Sound options (jobs.map Prod.fst) seen later :=
    sound_run jobs disk distinct turns
  refine ⟨sound.order, ?_, fun worker member => ?_, ?_⟩
  · obtain ⟨announced, whole, events⟩ := sound.announced
    exact ⟨announced, later, whole, events, sound.begun, sound.other⟩
  · obtain ⟨index, there⟩ := List.mem_iff_getElem?.mp member
    have known := sound.workers index worker there
    have listed : worker.path ∈ jobs.map Prod.fst := by
      rw [← sound.order]
      exact List.mem_map_of_mem member
    obtain told | ⟨told, silent⟩ := sound.told distinct listed
    · rw [told]
      refine ⟨known.begins, fun outcome finished => ?_, fun broken => ?_⟩
      · obtain ⟨settled, told⟩ := known.of_finished finished
        rw [told]
        exact settled.concluded
      · exact known.of_broken broken
    · subst silent
      rw [told]
      refine ⟨known.begins.of_prefix List.nil_prefix, fun outcome finished => ?_, fun broken => ?_⟩
      · exact absurd (known.of_finished finished).2 (by simp)
      · exact known.of_broken broken
  · obtain ⟨more, _, ended⟩ : ∃ turns, (crew.run options parent turns).unannounced = [] ∧
        ∀ worker ∈ (crew.run options parent turns).workers, worker.stage.IsOver := crew.exists_over
    exact ⟨more, ended⟩

/-- A file without a document in it. -/
def emptyFile : Disk := { entries := [(["a.json"], .file [])] }

/-- The file of the first program is empty, and that of the second one is missing. -/
def twoJobs : List (String × Trace.Recorder) := [("a.json", {}), ("b.json", {})]

/-- The turns of the second worker come in between those of the first one, whose first turn comes
too early. -/
def interleaved : List Turn :=
  [.announce, .work 0, .announce, .work 0, .work 1, .work 1, .work 0, .work 1, .work 0]

theorem interleaved_told :
    let crew := (gather twoJobs emptyFile).run {} 0 interleaved
    crew.events.toList.map (fun event => (event.file, event.status.name, event.failure)) =
        [("a.json", "queued", ""), ("b.json", "queued", ""), ("a.json", "loading", ""),
          ("b.json", "loading", ""), ("b.json", "failed", "open b.json: no such file or directory"),
          ("a.json", "failed", "a.json: decode json:")] ∧
      crew.workers.map (fun worker => (worker.path, worker.stage matches .finished _)) =
        [("a.json", true), ("b.json", true)] := by
  decide

theorem events_follow_protocol_interleaved :
    (twoJobs.map Prod.fst).Nodup ∧
      let crew := (gather twoJobs emptyFile).run {} 0 interleaved
      crew.events.toList.map (fun event => (event.file, event.status.name, event.failure)) =
          [("a.json", "queued", ""), ("b.json", "queued", ""), ("a.json", "loading", ""),
            ("b.json", "loading", ""),
            ("b.json", "failed", "open b.json: no such file or directory"),
            ("a.json", "failed", "a.json: decode json:")] ∧
        ∀ worker ∈ crew.workers, ∃ outcome, worker.stage = .finished outcome ∧
          Concluded {} worker.path (Saw {} 0 (gather twoJobs emptyFile) interleaved) outcome
            (crew.told worker.path) := by
  have distinct : (twoJobs.map Prod.fst).Nodup := by decide
  obtain ⟨told, stages⟩ := interleaved_told
  obtain ⟨-, -, accounts, -⟩ :=
    events_follow_protocol {} 0 twoJobs emptyFile interleaved distinct
  refine ⟨distinct, told, fun worker member => ?_⟩
  have listed := List.mem_map_of_mem member (f := fun (worker : Worker) =>
    (worker.path, worker.stage matches .finished _))
  rw [stages] at listed
  cases stage : worker.stage with
  | finished outcome => exact ⟨outcome, rfl, (accounts worker member).2.1 outcome stage⟩
  | _ => simp [stage] at listed

end Crew

end TreeCheck
