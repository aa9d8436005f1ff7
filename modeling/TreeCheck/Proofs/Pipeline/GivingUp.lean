/-
What ends a pass early. A report to a sink that raises does, at any place and in any pass.
Besides that a pass gives up where a node it needs was left out of the tree. The loader leaves
no node out that something refers to, so there is one such place: a written type may have no
type for one of its arguments, and type checking wants to say where that argument stands.

Whether a pass gives up does not depend on the sink. So it is enough to look at a sink that
raises nothing, and there each pass is known to come to its end.
-/

import TreeCheck.Proofs.Types.Writing

namespace TreeCheck

open Resolve TypeCheck

/-- A pass came to its end, or a report ended it, to a sink that raises. -/
def EndsOrRaises (sink : Sink) : EStateM.Result Abort Analysis Unit → Prop
  | .ok _ _ => True
  | .error (.raised _) _ => ¬sink.Quiet
  | .error .missingNode _ => False

/-- A pass gave up. -/
def gaveUp : EStateM.Result Abort Analysis Unit → Bool
  | .error .missingNode _ => true
  | _ => false

theorem EndsOrRaises.not_gaveUp {sink : Sink} {outcome : EStateM.Result Abort Analysis Unit}
    (ends : EndsOrRaises sink outcome) : gaveUp outcome = false := by
  cases outcome with
  | ok value after => rfl
  | error abort after =>
    cases abort with
    | raised diagnostic => rfl
    | missingNode => exact ends.elim

/-- What comes to its end with a sink that keeps everything raises with another sink at most. -/
theorem Acts.endsOrRaises {allowed : (Analysis → Analysis) → Prop} {action : AnalysisM Unit}
    (acts : Acts allowed action) (free : ∀ change, allowed change → SinkFree change)
    (state : Analysis) (ends : ∃ final, action (state.withSink {}) = .ok () final) (sink : Sink) :
    EndsOrRaises sink (action (state.withSink sink)) := by
  obtain ⟨outcome, reports, same⟩ := acts.uniform_or_raises free state
  obtain ⟨final, ran⟩ := ends
  have keeps := (same {}).resolve_right fun loud => loud.1 Sink.quiet_open
  rcases same sink with ran' | ⟨loud, diagnostic, after, raised⟩
  · cases outcome with
    | ok value after =>
      rw [ran']
      trivial
    | error abort after => nomatch ran.symm.trans keeps
  · rw [raised]
    exact loud

/-- The passes run one after another over a tree that was loaded, whatever they report and whatever
becomes of the reports. What a node of the tree refers to is in the tree. Resolution and rules come
to their end, unless a report raises, and so does type checking, unless a written type leaves out
one of its arguments. -/
theorem passes_end_or_raise {loader : Loader} (loaded : loader.Reached) (root : UnitId)
    (checked : Bool) (sink : Sink) (trace : Trace.Recorder) :
    (∀ whole part, part ∈ loader.tree.parts whole → loader.tree.Holds part) ∧
    EndsOrRaises sink (program loader.tree root checked { sink, trace }) ∧
    ∀ resolved, program loader.tree root checked { sink, trace } = .ok () resolved →
      ∀ (sink' : Sink) (trace' : Trace.Recorder) (span : Nat),
        (EndsOrRaises sink'
            (TypeCheck.program loader.tree span { resolved with sink := sink', trace := trace' }) ∨
          ¬loader.tree.WritesArgs) ∧
        ∀ typed, TypeCheck.program loader.tree span
            { resolved with sink := sink', trace := trace' } = .ok () typed →
          ∀ (sink'' : Sink) (trace'' : Trace.Recorder) (parent : Nat),
            EndsOrRaises sink''
              (Rules.program loader.tree parent { typed with sink := sink'', trace := trace'' }) := by
  have forest := loaded.forest
  refine ⟨fun whole part isPart => forest.holds_part isPart, ?_, ?_⟩
  · obtain ⟨-, -, ends, -⟩ := Lexical.program_ends forest root checked {} trace
    exact (acts_program loader.tree root checked).endsOrRaises
      (fun _ change => change.sinkFree) { trace } (ends {} Sink.quiet_open) sink
  · intro resolved resolves sink' trace' span
    refine ⟨?_, fun typed checks sink'' trace'' parent => ?_⟩
    · by_cases writesArgs : loader.tree.WritesArgs
      · have steady : Steady (TypingChange TypeCheck.everywhere)
            (TypeCheck.program loader.tree span) :=
          (TypeCheck.checks_program loader.tree span).steady loader.tree (writesArgs.complete forest)
        obtain ⟨_, final, ran, -⟩ := steady.ends (fun _ change => change.sinkFree)
          (show ({ resolved with sink := {}, trace := trace' } : Analysis).sink.Quiet from
            Sink.quiet_open)
        exact .inl ((TypeCheck.acts_program loader.tree span).endsOrRaises
          (fun _ change => change.sinkFree) { resolved with trace := trace' } ⟨final, ran⟩ sink')
      · exact .inr writesArgs
    · obtain ⟨-, hold⟩ := units_program forest resolves
      have names : typed.names = resolved.names := (TypeCheck.names_program checks).trans rfl
      rw [← names] at hold
      obtain ⟨reports, -, runs⟩ :=
        (@Rules.reports_program _ _ typed forest loaded.bare parent hold).runs
      obtain ⟨final, ran, -⟩ :=
        runs { typed with sink := {}, trace := trace'' } ⟨rfl, rfl⟩ Sink.quiet_open
      exact (Rules.acts_program loader.tree parent).endsOrRaises
        (fun _ change => change.sinkFree) { typed with trace := trace'' } ⟨final, ran⟩ sink''

/-- A class with a template parameter, and a variable whose type is an instance of it. -/
def instanceOf (arg : Option Doc.TypeExpr) : Loader :=
  let document : Doc.Document :=
    { version := 1
      units := [some
        { path := "main"
          globals := [some { name := "g", type := some { kind := "named", name := "A", args := [arg] } }]
          classes := [some { name := "A", typeParams := [some { name := "T" }] }] }] }
  Loader.behind (Loader.load document {})

def writtenOut : Loader := instanceOf (some { kind := "named", name := "Int" })

def leftOut : Loader := instanceOf none

/-- The programs when they were resolved. -/
def writtenOutResolved : Analysis := Acts.behind (program writtenOut.tree 1 true {})

def leftOutResolved : Analysis := Acts.behind (program leftOut.tree 1 true {})

def writtenOutTyped : Analysis :=
  Acts.behind (program writtenOut.tree 0 writtenOutResolved)

theorem instances_run :
    Acts.ended (program writtenOut.tree 1 true {}) ∧
      Acts.ended (program writtenOut.tree 0 writtenOutResolved) ∧
      Acts.ended (program leftOut.tree 1 true {}) ∧
      gaveUp (program leftOut.tree 0 leftOutResolved) := by
  simp only [writtenOutResolved, writtenOut, leftOutResolved, leftOut, instanceOf,
    Loader.load_eq_loadWithin]
  decide +kernel

theorem writtenOut_resolves : program writtenOut.tree 1 true {} = .ok () writtenOutResolved :=
  Acts.eq_ok_behind instances_run.1

theorem writtenOut_checks :
    program writtenOut.tree 0 writtenOutResolved = .ok () writtenOutTyped :=
  Acts.eq_ok_behind instances_run.2.1

theorem leftOut_resolves : program leftOut.tree 1 true {} = .ok () leftOutResolved :=
  Acts.eq_ok_behind instances_run.2.2.1

theorem passes_end_or_raise_instances :
    EndsOrRaises {} (Rules.program writtenOut.tree 0 { writtenOutTyped with sink := {} }) ∧
      gaveUp (program leftOut.tree 0 leftOutResolved) ∧ ¬leftOut.tree.WritesArgs := by
  have givesUp := instances_run.2.2.2
  refine ⟨?_, givesUp, ?_⟩
  · obtain ⟨-, -, runs⟩ := passes_end_or_raise (.load _ (.fresh {}) : writtenOut.Reached) 1 true {} {}
    obtain ⟨-, ends⟩ := runs _ writtenOut_resolves writtenOutResolved.sink writtenOutResolved.trace 0
    exact ends _ writtenOut_checks {} writtenOutTyped.trace 0
  · obtain ⟨-, -, runs⟩ := passes_end_or_raise (.load _ (.fresh {}) : leftOut.Reached) 1 true {} {}
    obtain ⟨either, -⟩ := runs _ leftOut_resolves leftOutResolved.sink leftOutResolved.trace 0
    exact either.resolve_left fun ends => Bool.noConfusion (givesUp.symm.trans ends.not_gaveUp)

end TreeCheck
