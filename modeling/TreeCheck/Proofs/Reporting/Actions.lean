/-
What a pass is made of. A pass reads the state of the analysis but never looks at the
sink, changes everything but the sink, reports diagnostics, gives up where a node is
missing, and cleans up behind itself. `Acts` says so once and for all; the modules beside
this one show it of every function of the three passes.

The consequence is `Acts.uniform`: what a pass does and what it reports is the same
whatever the sink is, as long as no report raises. A run with a bag that refuses
diagnostics, or with warnings promoted, therefore differs from a run that keeps everything
only in what the sink made of one and the same list of reports.
-/

import TreeCheck.Analysis.State

namespace TreeCheck

variable {α β : Type} {before after state : Analysis} {diagnostic : Diagnostic}
  {action : AnalysisM α}

/-! ### Sinks that do not raise -/

namespace Sink

/-- No stage of the sink raises. -/
def Quiet (sink : Sink) : Prop := ∀ stage ∈ sink.stages, stage ≠ .raise

/-- Reports one diagnostic after another; what a report raises is ignored. -/
def reportAll (sink : Sink) (diagnostics : List Diagnostic) : Sink :=
  diagnostics.foldl (fun sink diagnostic => (sink.report diagnostic).1) sink

theorem reportAll_append (sink : Sink) (first second : List Diagnostic) :
    sink.reportAll (first ++ second) = (sink.reportAll first).reportAll second :=
  List.foldl_append

theorem reportThrough_quiet (length : Nat) (stages : List Stage) (bag : Bag)
    (diagnostic : Diagnostic) (quiet : ∀ stage ∈ stages, stage ≠ .raise) :
    (reportThrough length stages bag diagnostic).2 = none ∧
      (reportThrough length stages bag diagnostic).1.Quiet := by
  induction length generalizing stages bag diagnostic with
  | zero => exact ⟨rfl, quiet⟩
  | succ length inductionHypothesis =>
    cases stages with
    | nil => exact ⟨rfl, quiet⟩
    | cons stage rest =>
      have restQuiet : ∀ other ∈ rest, other ≠ .raise :=
        fun other member => quiet other (.tail _ member)
      have behind (sink : Sink) (front : Stage) (loud : front ≠ .raise) (inner : sink.Quiet) :
          (sink.behind front).Quiet := by
        intro other member
        rcases List.mem_cons.mp member with rfl | deeper
        · exact loud
        · exact inner other deeper
      cases stage with
      | dedup seen =>
        unfold reportThrough
        simp only
        split
        · exact ⟨rfl, quiet⟩
        · exact ⟨(inductionHypothesis rest bag diagnostic restQuiet).1,
            behind _ _ (by simp) (inductionHypothesis rest bag diagnostic restQuiet).2⟩
      | promote =>
        exact ⟨(inductionHypothesis rest bag diagnostic.promote restQuiet).1,
          behind _ _ (by simp) (inductionHypothesis rest bag diagnostic.promote restQuiet).2⟩
      | raise => exact absurd rfl (quiet _ (.head _))
      | count errors warnings =>
        exact ⟨(inductionHypothesis rest bag diagnostic restQuiet).1,
          behind _ _ (by simp) (inductionHypothesis rest bag diagnostic restQuiet).2⟩
      | twice =>
        obtain ⟨silent, inner⟩ := inductionHypothesis rest bag diagnostic restQuiet
        unfold reportThrough
        simp only [silent]
        exact ⟨(inductionHypothesis _ _ diagnostic inner).1,
          behind _ _ (by simp) (inductionHypothesis _ _ diagnostic inner).2⟩
      | discard => exact ⟨rfl, quiet⟩

theorem report_quiet {sink : Sink} (quiet : sink.Quiet) (diagnostic : Diagnostic) :
    (sink.report diagnostic).2 = none ∧ (sink.report diagnostic).1.Quiet :=
  reportThrough_quiet _ _ _ _ quiet

theorem reportAll_quiet {sink : Sink} (quiet : sink.Quiet) (diagnostics : List Diagnostic) :
    (sink.reportAll diagnostics).Quiet := by
  induction diagnostics generalizing sink with
  | nil => exact quiet
  | cons diagnostic rest inductionHypothesis =>
    exact inductionHypothesis (report_quiet quiet diagnostic).2

theorem promote_promote (diagnostic : Diagnostic) : diagnostic.promote.promote = diagnostic.promote := by
  unfold Diagnostic.promote
  split <;> rfl

/-- Stages pass a diagnostic on as it is or promoted, and what is raised on the way is an error. -/
theorem raised_of_reportThrough {length : Nat} {stages : List Stage} {bag : Bag}
    {diagnostic found : Diagnostic}
    (raised : (reportThrough length stages bag diagnostic).2 = some found) :
    found.isFatal ∧ (found = diagnostic ∨ found = diagnostic.promote) := by
  induction length generalizing stages bag diagnostic with
  | zero => nomatch raised
  | succ length inductionHypothesis =>
    cases stages with
    | nil => nomatch raised
    | cons stage rest =>
      cases stage with
      | dedup seen =>
        unfold reportThrough at raised
        simp only at raised
        split at raised
        · nomatch raised
        · exact inductionHypothesis raised
      | promote =>
        obtain ⟨fatal, same⟩ := @inductionHypothesis rest bag diagnostic.promote raised
        exact ⟨fatal, .inr (same.elim id fun again => again.trans (promote_promote diagnostic))⟩
      | raise =>
        unfold reportThrough at raised
        simp only [Option.or_eq_some_iff] at raised
        rcases raised with inner | ⟨-, own⟩
        · exact inductionHypothesis inner
        · obtain ⟨fatal, same⟩ := Option.ite_none_right_eq_some.mp own
          cases same
          exact ⟨fatal, .inl rfl⟩
      | count errors warnings => exact @inductionHypothesis rest bag diagnostic raised
      | twice =>
        unfold reportThrough at raised
        simp only at raised
        split at raised
        · next inner isInner =>
          obtain rfl : inner = found := Option.some.inj raised
          exact inductionHypothesis isInner
        · exact inductionHypothesis raised
      | discard => nomatch raised

end Sink

/-! ### Actions -/

/-- Where two actions one after the other come to their end, so does each. -/
theorem AnalysisM.bind_eq_ok {next : α → AnalysisM β} {value : β}
    (ran : (action >>= next) before = .ok value after) :
    ∃ found middle, action before = .ok found middle ∧ next found middle = .ok value after := by
  change EStateM.bind action next before = _ at ran
  unfold EStateM.bind at ran
  split at ran
  · next found middle ends => exact ⟨found, middle, ends, ran⟩
  · nomatch ran

/-- An action that cleans up comes to its end where the action inside does. -/
theorem AnalysisM.ensuring_eq_ok {cleanup : Analysis → Analysis} {value : α}
    (ran : ensuring cleanup action before = .ok value after) :
    ∃ middle, action before = .ok value middle ∧ after = cleanup middle := by
  unfold ensuring at ran
  cases runs : action before with
  | ok found middle =>
    rw [runs] at ran
    cases ran
    exact ⟨middle, rfl, rfl⟩
  | error abort middle =>
    rw [runs] at ran
    nomatch ran

theorem AnalysisM.map_eq_bind (action : AnalysisM α) (view : α → β) :
    view <$> action = action >>= fun value => pure (view value) := by
  funext state
  show EStateM.map view action state = EStateM.bind action _ state
  unfold EStateM.map EStateM.bind
  cases action state <;> rfl

/-- The state with another sink. -/
def Analysis.withSink (state : Analysis) (sink : Sink) : Analysis := { state with sink }

theorem AnalysisM.report_eq (diagnostic : Diagnostic) (state : Analysis) :
    AnalysisM.report diagnostic state =
      match (state.sink.report diagnostic).2 with
      | some raised => .error (.raised raised) (state.withSink (state.sink.report diagnostic).1)
      | none => .ok () (state.withSink (state.sink.report diagnostic).1) :=
  rfl

theorem AnalysisM.report_eq_ok {value : Unit}
    (ran : AnalysisM.report diagnostic state = .ok value after) :
    after = state.withSink (state.sink.report diagnostic).1 := by
  rw [report_eq] at ran
  cases raised : (state.sink.report diagnostic).2 with
  | none =>
    rw [raised] at ran
    exact (EStateM.Result.ok.inj ran).2.symm
  | some inner =>
    rw [raised] at ran
    nomatch ran

/-- A change that neither looks at the sink nor touches it. -/
def SinkFree (change : Analysis → Analysis) : Prop :=
  ∀ state sink, change (state.withSink sink) = (change state).withSink sink

/-- Actions made of reading everything but the sink, of allowed changes, of reports, of allowed
clean-up, of going through scopes that are there, and of blocks, which are not taken apart. -/
inductive ActsOver (block : (α : Type) → AnalysisM α → Prop) (allowed : (Analysis → Analysis) → Prop) :
    {α : Type} → AnalysisM α → Prop where
  | pure {α : Type} (value : α) : ActsOver block allowed (pure value : AnalysisM α)
  | bind {α β : Type} {action : AnalysisM α} {next : α → AnalysisM β} :
      ActsOver block allowed action → (∀ value, ActsOver block allowed (next value)) →
      ActsOver block allowed (action >>= next)
  | read {α : Type} {next : Analysis → AnalysisM α} :
      (∀ state, ActsOver block allowed (next state)) →
      (∀ state sink, next (state.withSink sink) = next state) →
      ActsOver block allowed (get >>= next)
  | select {α : Type} {step : Analysis → α × Analysis} :
      (∀ state sink, (step (state.withSink sink)).1 = (step state).1) →
      allowed (fun state => (step state).2) →
      ActsOver block allowed (modifyGet step : AnalysisM α)
  | report (diagnostic : Diagnostic) : ActsOver block allowed (AnalysisM.report diagnostic)
  | ensuring {α : Type} {cleanup : Analysis → Analysis} {action : AnalysisM α} :
      allowed cleanup → ActsOver block allowed action →
      ActsOver block allowed (AnalysisM.ensuring cleanup action)
  | within {α : Type} (scope : ScopeId) {action : AnalysisM α} :
      ActsOver block allowed action → ActsOver block allowed (AnalysisM.within scope action)
  | block {α : Type} {action : AnalysisM α} : block α action → ActsOver block allowed action

/-- Giving up where a node is missing. -/
inductive GivesUp : (α : Type) → AnalysisM α → Prop where
  | giveUp {α : Type} : GivesUp α (throw .missingNode)

theorem GivesUp.not_ok (givesUp : GivesUp α action) {value : α} :
    action before ≠ .ok value after := by
  cases givesUp with
  | giveUp => exact nofun

/-- Actions that are taken apart completely and may give up. -/
abbrev Acts (allowed : (Analysis → Analysis) → Prop) {α : Type} (action : AnalysisM α) : Prop :=
  ActsOver GivesUp allowed action

/-- Actions that are taken apart completely and do not give up. -/
abbrev Steady (allowed : (Analysis → Analysis) → Prop) {α : Type} (action : AnalysisM α) : Prop :=
  ActsOver (fun _ _ => False) allowed action

/-- The state with another scope entered. -/
def Analysis.entering (state : Analysis) (scope : ScopeId) : Analysis :=
  { state with names := { state.names with scopes := state.names.scopes.enter scope } }

/-- The state in which scopes were left until so many are open. -/
def Analysis.backTo (depth : Nat) (state : Analysis) : Analysis :=
  { state with names := { state.names with scopes := state.names.scopes.truncate depth } }

theorem AnalysisM.within_eq (scope : ScopeId) (action : AnalysisM α) (state : Analysis) :
    AnalysisM.within scope action state =
      AnalysisM.ensuring (Analysis.backTo state.names.scopes.depth) action (state.entering scope) :=
  rfl

/-! ### The outcome does not depend on the sink -/

/-- An outcome with another sink in its state. -/
def withFinalSink {α : Type} (outcome : EStateM.Result Abort Analysis α) (sink : Sink) :
    EStateM.Result Abort Analysis α :=
  match outcome with
  | .ok value state => .ok value (state.withSink sink)
  | .error abort state => .error abort (state.withSink sink)

namespace Acts

variable {allowed : (Analysis → Analysis) → Prop} {α : Type}
variable {action : AnalysisM α}

/-- A report to the sink of a state ended an action. -/
def Raises (action : AnalysisM α) (state : Analysis) : Prop :=
  ∃ diagnostic after, action state = .error (.raised diagnostic) after

/-- Cleaning up does not make an action depend on the sink. -/
theorem uniform_ensuring {cleanup : Analysis → Analysis} {state : Analysis}
    (free : SinkFree cleanup)
    (uniform : ∃ (outcome : EStateM.Result Abort Analysis α) (reports : List Diagnostic),
      ∀ sink : Sink,
        action (state.withSink sink) = withFinalSink outcome (sink.reportAll reports) ∨
          ¬ sink.Quiet ∧ Raises action (state.withSink sink)) :
    ∃ (outcome : EStateM.Result Abort Analysis α) (reports : List Diagnostic), ∀ sink : Sink,
      AnalysisM.ensuring cleanup action (state.withSink sink) =
          withFinalSink outcome (sink.reportAll reports) ∨
        ¬ sink.Quiet ∧ Raises (AnalysisM.ensuring cleanup action) (state.withSink sink) := by
  obtain ⟨outcome, reports, same⟩ := uniform
  have raises {sink : Sink} (raises : Raises action (state.withSink sink)) :
      Raises (AnalysisM.ensuring cleanup action) (state.withSink sink) := by
    obtain ⟨diagnostic, after, ends⟩ := raises
    exact ⟨diagnostic, cleanup after, by rw [AnalysisM.ensuring, ends]⟩
  cases outcome with
  | ok value after =>
    refine ⟨.ok value (cleanup after), reports, fun sink => ?_⟩
    refine (same sink).imp (fun ends => ?_) fun ⟨loud, ends⟩ => ⟨loud, raises ends⟩
    rw [AnalysisM.ensuring, ends]
    simp only [withFinalSink, free after]
  | error abort after =>
    refine ⟨.error abort (cleanup after), reports, fun sink => ?_⟩
    refine (same sink).imp (fun ends => ?_) fun ⟨loud, ends⟩ => ⟨loud, raises ends⟩
    rw [AnalysisM.ensuring, ends]
    simp only [withFinalSink, free after]

/-- An action does the same and reports the same whatever the sink is, unless a report raises,
which it may only where a stage does. The outcome and the reports are chosen before the sink
is. -/
theorem uniform_or_raises (acts : Acts allowed action)
    (free : ∀ change, allowed change → SinkFree change) (state : Analysis) :
    ∃ (outcome : EStateM.Result Abort Analysis α) (reports : List Diagnostic), ∀ sink : Sink,
      action (state.withSink sink) = withFinalSink outcome (sink.reportAll reports) ∨
        ¬ sink.Quiet ∧ Raises action (state.withSink sink) := by
  induction acts generalizing state with
  | pure value => exact ⟨.ok value state, [], fun _ => .inl rfl⟩
  | @bind α β action next _ _ firstHypothesis nextHypothesis =>
    have stops {sink : Sink} {abort : Abort} {after : Analysis}
        (ends : action (state.withSink sink) = .error abort after) :
        (action >>= next) (state.withSink sink) = .error abort after := by
      show EStateM.bind action next (state.withSink sink) = _
      rw [EStateM.bind, ends]
    obtain ⟨outcome, reports, same⟩ := firstHypothesis state
    cases outcome with
    | ok value after =>
      obtain ⟨final, later, sameLater⟩ := nextHypothesis value after
      refine ⟨final, reports ++ later, fun sink => ?_⟩
      rcases same sink with ends | ⟨loud, diagnostic, raised, ends⟩
      · have goesOn : (action >>= next) (state.withSink sink) =
            next value (after.withSink (sink.reportAll reports)) := by
          show EStateM.bind action next (state.withSink sink) = _
          rw [EStateM.bind, ends]
          rfl
        rw [Raises, goesOn, Sink.reportAll_append]
        exact (sameLater (sink.reportAll reports)).imp_right fun ⟨loud, raises⟩ =>
          ⟨fun quiet => loud (Sink.reportAll_quiet quiet reports), raises⟩
      · exact .inr ⟨loud, diagnostic, raised, stops ends⟩
    | error abort after =>
      refine ⟨.error abort after, reports, fun sink => ?_⟩
      rcases same sink with ends | ⟨loud, diagnostic, raised, ends⟩
      · exact .inl (stops ends)
      · exact .inr ⟨loud, diagnostic, raised, stops ends⟩
  | @read α next _ blind inductionHypothesis =>
    obtain ⟨outcome, reports, same⟩ := inductionHypothesis state state
    refine ⟨outcome, reports, fun sink => ?_⟩
    have reads : (get >>= next) (state.withSink sink) = next state (state.withSink sink) := by
      show next (state.withSink sink) (state.withSink sink) = _
      rw [blind]
    rw [Raises, reads]
    exact same sink
  | @select α step blind permitted =>
    refine ⟨.ok (step state).1 (step state).2, [], fun sink => .inl ?_⟩
    have untouched : (step (state.withSink sink)).2 = (step state).2.withSink sink :=
      free _ permitted state sink
    show EStateM.Result.ok (step (state.withSink sink)).1 (step (state.withSink sink)).2 = _
    rw [blind, untouched]
    rfl
  | report diagnostic =>
    refine ⟨.ok () state, [diagnostic], fun sink => ?_⟩
    unfold Raises AnalysisM.report
    simp only [Analysis.withSink]
    cases raised : (sink.report diagnostic).2 with
    | none => exact .inl rfl
    | some found =>
      refine .inr ⟨fun quiet => ?_, found, _, rfl⟩
      rw [(Sink.report_quiet quiet diagnostic).1] at raised
      nomatch raised
  | @ensuring α cleanup action permitted _ inductionHypothesis =>
    exact uniform_ensuring (free _ permitted) (inductionHypothesis state)
  | @within α scope action _ inductionHypothesis =>
    have cleans : SinkFree (Analysis.backTo state.names.scopes.depth) := fun _ _ => rfl
    exact uniform_ensuring cleans (inductionHypothesis (state.entering scope))
  | block givesUp =>
    cases givesUp with
    | giveUp => exact ⟨.error .missingNode state, [], fun _ => .inl rfl⟩

/-- With a sink that does not raise, an action does the same and reports the same. -/
theorem uniform (acts : Acts allowed action) (free : ∀ change, allowed change → SinkFree change)
    (state : Analysis) :
    ∃ (outcome : EStateM.Result Abort Analysis α) (reports : List Diagnostic),
      ∀ sink : Sink, sink.Quiet →
        action (state.withSink sink) = withFinalSink outcome (sink.reportAll reports) := by
  obtain ⟨outcome, reports, same⟩ := acts.uniform_or_raises free state
  exact ⟨outcome, reports, fun sink quiet => (same sink).resolve_right fun loud => loud.1 quiet⟩

/-! ### What an action leaves alone -/

/-- The state in which an action ended, early or not. -/
def behind : EStateM.Result Abort Analysis α → Analysis
  | .ok _ state => state
  | .error _ state => state

/-- A run has come to its end. -/
def ended : EStateM.Result Abort Analysis Unit → Bool
  | .ok .. => true
  | .error .. => false

theorem eq_ok_behind {outcome : EStateM.Result Abort Analysis Unit}
    (ends : ended outcome = true) : outcome = .ok () (behind outcome) := by
  cases outcome with
  | ok value state => rfl
  | error abort state => nomatch ends

theorem behind_ensuring (cleanup : Analysis → Analysis) (action : AnalysisM α) (state : Analysis) :
    behind (AnalysisM.ensuring cleanup action state) = cleanup (behind (action state)) := by
  unfold AnalysisM.ensuring
  cases action state with
  | ok value after => rfl
  | error abort after => rfl

/-- What holds between a state and the next whatever a step does, and may be put together, holds
between the beginning and the end of an action, however it ends. -/
theorem leads_behind (related : Analysis → Analysis → Prop) (refl : ∀ state, related state state)
    (trans : ∀ {first second third}, related first second → related second third →
      related first third)
    (changes : ∀ change, allowed change → ∀ state, related state (change state))
    (reports : ∀ state diagnostic, related state (state.withSink (state.sink.report diagnostic).1))
    (scopes : ∀ {state scope after}, related (Analysis.entering state scope) after →
      related state (after.backTo state.names.scopes.depth)) (acts : Acts allowed action)
    (state : Analysis) : related state (behind (action state)) := by
  induction acts generalizing state with
  | pure value => exact refl state
  | @bind α β action next _ _ firstHypothesis nextHypothesis =>
    have first := firstHypothesis state
    show related state (behind (EStateM.bind action next state))
    unfold EStateM.bind
    cases ran : action state with
    | ok value after =>
      rw [ran] at first
      exact trans first (nextHypothesis value after)
    | error abort after =>
      rw [ran] at first
      exact first
  | read _ _ inductionHypothesis => exact inductionHypothesis state state
  | select _ permitted => exact changes _ permitted state
  | report diagnostic =>
    rw [AnalysisM.report_eq]
    cases (state.sink.report diagnostic).2 with
    | none => exact reports state diagnostic
    | some raised => exact reports state diagnostic
  | ensuring permitted _ inductionHypothesis =>
    rw [behind_ensuring]
    exact trans (inductionHypothesis state) (changes _ permitted _)
  | within scope _ inductionHypothesis =>
    rw [AnalysisM.within_eq, behind_ensuring]
    exact scopes (inductionHypothesis (state.entering scope))
  | block givesUp =>
    cases givesUp with
    | giveUp => exact refl state

/-- Where no allowed change is one of the names, the names are afterwards what they were, the
stack of open scopes included, however the action ends. -/
theorem names_eq (acts : Acts allowed action)
    (leaves : ∀ change, allowed change → ∀ state, (change state).names = state.names)
    (state : Analysis) : (behind (action state)).names = state.names := by
  refine leads_behind (fun before after => after.names = before.names) (fun _ => rfl)
    (fun first second => second.trans first) leaves (fun _ _ => rfl) (fun same => ?_) acts state
  simp [Analysis.backTo, same, Analysis.entering, ScopeTable.truncate, ScopeTable.enter,
    ScopeTable.depth]

/-- Where no allowed change is one of the progress of units, that is afterwards what it was. -/
theorem progress_eq (acts : Acts allowed action)
    (leaves : ∀ change, allowed change → ∀ state, (change state).progress = state.progress)
    (state : Analysis) : (behind (action state)).progress = state.progress :=
  leads_behind (fun before after => after.progress = before.progress) (fun _ => rfl)
    (fun first second => second.trans first) leaves (fun _ _ => rfl) (fun same => same) acts state

/-- What every report keeps up about the sink, an action keeps up, however it ends. -/
theorem sink_keeps {holds : Sink → Prop}
    (reports : ∀ sink diagnostic, holds sink → holds (sink.report diagnostic).1)
    (acts : Acts SinkFree action) (state : Analysis) :
    holds state.sink → holds (behind (action state)).sink := by
  refine leads_behind (fun before after => holds before.sink → holds after.sink) (fun _ kept => kept)
    (fun first second kept => second (first kept)) (fun change free state => ?_)
    (fun state diagnostic => reports state.sink diagnostic) (fun kept => kept) acts state
  have same : (change (state.withSink state.sink)).sink = state.sink := by
    rw [free]
    rfl
  exact fun kept => same ▸ kept

/-- An action that is ended by a report is ended by an error. -/
theorem isFatal_of_raised (acts : Acts allowed action) {state after : Analysis}
    (ends : action state = .error (.raised diagnostic) after) : diagnostic.isFatal := by
  have ensured {β : Type} {cleanup : Analysis → Analysis} {action : AnalysisM β}
      {state after : Analysis}
      (inner : ∀ {after : Analysis}, action state = .error (.raised diagnostic) after →
        diagnostic.isFatal)
      (ends : AnalysisM.ensuring cleanup action state = .error (.raised diagnostic) after) :
      diagnostic.isFatal := by
    unfold AnalysisM.ensuring at ends
    cases ran : action state with
    | ok value middle => rw [ran] at ends; nomatch ends
    | error abort middle =>
      rw [ran] at ends
      injection ends with same
      exact inner (same ▸ ran)
  induction acts generalizing state after with
  | pure value => nomatch ends
  | @bind α β action next _ _ firstHypothesis nextHypothesis =>
    change EStateM.bind action next state = _ at ends
    unfold EStateM.bind at ends
    cases ran : action state with
    | ok value middle =>
      rw [ran] at ends
      exact nextHypothesis value ends
    | error abort middle =>
      rw [ran] at ends
      injection ends with same
      exact firstHypothesis (same ▸ ran)
  | read _ _ inductionHypothesis => exact inductionHypothesis state ends
  | select _ _ => nomatch ends
  | report found =>
    unfold AnalysisM.report at ends
    dsimp only at ends
    cases raised : (state.sink.report found).2 with
    | none => rw [raised] at ends; nomatch ends
    | some inner =>
      rw [raised] at ends
      injection ends with same
      injection same with same
      exact (Sink.raised_of_reportThrough (same ▸ raised)).1
  | ensuring _ _ inductionHypothesis => exact ensured inductionHypothesis ends
  | @within α scope action _ inductionHypothesis =>
    rw [AnalysisM.within_eq] at ends
    exact ensured inductionHypothesis ends
  | block givesUp =>
    cases givesUp with
    | giveUp => nomatch ends

end Acts

/-! ### Coming to the end -/

/-- An action that does not give up comes to its end, unless the sink raises. -/
theorem Steady.ends {allowed : (Analysis → Analysis) → Prop} (steady : Steady allowed action)
    (free : ∀ change, allowed change → SinkFree change) (quiet : state.sink.Quiet) :
    ∃ value after, action state = .ok value after ∧ after.sink.Quiet := by
  have sink {change : Analysis → Analysis} (permitted : allowed change) (state : Analysis) :
      (change state).sink = state.sink := by
    have same := free change permitted state state.sink
    rw [show state.withSink state.sink = state from rfl] at same
    rw [same]
    rfl
  induction steady generalizing state with
  | pure value => exact ⟨value, state, rfl, quiet⟩
  | @bind α β action next _ _ first second =>
    obtain ⟨value, middle, ran, quiet⟩ := first quiet
    obtain ⟨found, after, goesOn, quiet⟩ := second value quiet
    refine ⟨found, after, ?_, quiet⟩
    show EStateM.bind action next state = _
    rw [EStateM.bind, ran]
    exact goesOn
  | read _ _ inductionHypothesis => exact inductionHypothesis state quiet
  | select _ permitted => exact ⟨_, _, rfl, (sink permitted state).symm ▸ quiet⟩
  | report diagnostic =>
    obtain ⟨silent, quiet⟩ := Sink.report_quiet quiet diagnostic
    exact ⟨(), _, by rw [AnalysisM.report_eq, silent], quiet⟩
  | ensuring permitted _ inductionHypothesis =>
    obtain ⟨value, after, ran, quiet⟩ := inductionHypothesis quiet
    exact ⟨value, _, by rw [AnalysisM.ensuring, ran], (sink permitted after).symm ▸ quiet⟩
  | @within α scope action _ inductionHypothesis =>
    obtain ⟨value, after, ran, quiet⟩ := @inductionHypothesis (state.entering scope) quiet
    exact ⟨value, after.backTo state.names.scopes.depth,
      by rw [AnalysisM.within_eq, AnalysisM.ensuring, ran], quiet⟩
  | block never => exact never.elim

namespace ActsOver

variable {block : (α : Type) → AnalysisM α → Prop} {allowed : (Analysis → Analysis) → Prop}
  {α : Type}
variable {weaker : (Analysis → Analysis) → Prop} {action : AnalysisM α}
  {actions : α → AnalysisM PUnit}

/-- Blocks are taken apart. -/
theorem expand {more : (α : Type) → AnalysisM α → Prop} (acts : ActsOver block allowed action)
    (changes : ∀ change, allowed change → weaker change)
    (blocks : ∀ {α : Type} {action : AnalysisM α}, block α action → ActsOver more weaker action) :
    ActsOver more weaker action := by
  induction acts with
  | pure value => exact .pure value
  | bind _ _ first next => exact .bind first next
  | read _ blind inductionHypothesis => exact .read inductionHypothesis blind
  | select blind permitted => exact .select blind (changes _ permitted)
  | report diagnostic => exact .report diagnostic
  | ensuring permitted _ inductionHypothesis =>
    exact .ensuring (changes _ permitted) inductionHypothesis
  | within scope _ inductionHypothesis => exact .within scope inductionHypothesis
  | block isBlock => exact blocks isBlock

theorem mono (acts : ActsOver block allowed action)
    (changes : ∀ change, allowed change → weaker change) : ActsOver block weaker action :=
  acts.expand changes .block

/-- What holds between a state and the next whatever a step does, and may be put together, holds
between the beginning and the end of an action that comes to its end. -/
theorem leads (related : Analysis → Analysis → Prop) (refl : ∀ state, related state state)
    (trans : ∀ {first second third}, related first second → related second third →
      related first third)
    (changes : ∀ change, allowed change → ∀ state, related state (change state))
    (reports : ∀ state diagnostic, related state (state.withSink (state.sink.report diagnostic).1))
    (scopes : ∀ {state scope after}, related (Analysis.entering state scope) after →
      related state (after.backTo state.names.scopes.depth))
    (blocks : ∀ {α : Type} {action : AnalysisM α}, block α action → ∀ {state value after},
      action state = .ok value after → related state after) (acts : ActsOver block allowed action)
    {state after : Analysis} {value : α} (ran : action state = .ok value after) :
    related state after := by
  induction acts generalizing state after with
  | pure found =>
    cases ran
    exact refl state
  | bind _ _ first next =>
    obtain ⟨found, middle, ran, goesOn⟩ := AnalysisM.bind_eq_ok ran
    exact trans (first ran) (next found goesOn)
  | read _ _ inductionHypothesis => exact inductionHypothesis state ran
  | select _ permitted =>
    cases ran
    exact changes _ permitted state
  | report diagnostic =>
    obtain rfl := AnalysisM.report_eq_ok ran
    exact reports state diagnostic
  | ensuring permitted _ inductionHypothesis =>
    obtain ⟨middle, runs, rfl⟩ := AnalysisM.ensuring_eq_ok ran
    exact trans (inductionHypothesis runs) (changes _ permitted middle)
  | within scope _ inductionHypothesis =>
    rw [AnalysisM.within_eq] at ran
    obtain ⟨middle, runs, rfl⟩ := AnalysisM.ensuring_eq_ok ran
    exact scopes (inductionHypothesis runs)
  | block isBlock => exact blocks isBlock ran

/-! ### Derived actions -/

theorem modify {change : Analysis → Analysis} (permitted : allowed change) :
    ActsOver block allowed (modify change : AnalysisM PUnit) :=
  .select (fun _ _ => rfl) permitted

theorem map (acts : ActsOver block allowed action) (view : α → β) :
    ActsOver block allowed (view <$> action) := by
  rw [AnalysisM.map_eq_bind]
  exact .bind acts fun value => .pure (view value)

theorem discard (acts : ActsOver block allowed action) : ActsOver block allowed (discard action) :=
  acts.map _

theorem forM {items : List α} (acts : ∀ item ∈ items, ActsOver block allowed (actions item)) :
    ActsOver block allowed (items.forM actions) := by
  induction items with
  | nil => exact .pure _
  | cons item rest inductionHypothesis =>
    exact .bind (acts item (.head _)) fun _ =>
      inductionHypothesis fun other member => acts other (.tail _ member)

theorem optionForM (acts : ∀ item, ActsOver block allowed (actions item)) (item : Option α) :
    ActsOver block allowed (item.forM actions) := by
  cases item with
  | none => exact .pure _
  | some item => exact acts item

theorem foldlM {step : β → α → AnalysisM β}
    (acts : ∀ value item, ActsOver block allowed (step value item)) (items : List α) (start : β) :
    ActsOver block allowed (items.foldlM step start) := by
  induction items generalizing start with
  | nil => exact .pure _
  | cons item rest inductionHypothesis =>
    exact .bind (acts start item) inductionHypothesis

theorem mapM {actions : α → AnalysisM β} (acts : ∀ item, ActsOver block allowed (actions item))
    (items : List α) : ActsOver block allowed (items.mapM actions) := by
  induction items with
  | nil => exact .pure _
  | cons item rest inductionHypothesis =>
    rw [List.mapM_cons]
    exact .bind (acts item) fun _ => .bind inductionHypothesis fun _ => .pure _

theorem error (code : Code) (span : Span) (args : List String) :
    ActsOver block allowed (AnalysisM.error code span args) :=
  .report _

theorem scopes : ActsOver block allowed AnalysisM.scopes := .read (fun _ => .pure _) fun _ _ => rfl

theorem find? (key : Key) : ActsOver block allowed (AnalysisM.find? key) := .bind scopes fun _ => .pure _

theorem visibleNames : ActsOver block allowed AnalysisM.visibleNames := .bind scopes fun _ => .pure _

theorem types : ActsOver block allowed AnalysisM.types := .read (fun _ => .pure _) fun _ _ => rfl

end ActsOver

end TreeCheck
