/-
Interactive sessions. A program is given one declaration or statement at a time, and
every pass looks at each in the context of all that was given before. The first error
ends the work on a submission; what was found out up to there stays, the stack of open
scopes is as deep as before, and the session can go on.
-/

import TreeCheck.Pipeline.Batch

namespace TreeCheck

/-- Why a submission failed. -/
inductive SubmitError where
  | noDecl (submission id : Nat)
  | noStmt (submission id : Nat)
  | abort (abort : Abort)
  deriving Repr

structure Session where
  pipeline : Pipeline
  /-- The unit submissions belong to. -/
  unit : UnitId
  /-- The span of the trace the session was opened under. -/
  parent : Nat := 0
  analysis : Analysis
  /-- How many submissions there were. -/
  count : Nat := 0
  /-- The passes that looked at a submission. -/
  started : List Pass := []

namespace Session

/-- Opens a session whose diagnostics go to a sink as soon as they are reported; errors end the
submission after that. -/
def start (pipeline : Pipeline) (unit : UnitId) (sink : Sink) (warningsAsErrors : Bool)
    (trace : Trace.Recorder) (parent : Nat) : Session :=
  let raising := sink.behind .raise
  { pipeline, unit, parent
    analysis := { sink := if warningsAsErrors then raising.behind .promote else raising, trace } }

/-- Takes out the diagnostics that were kept since the last time. -/
def drain (session : Session) : List Diagnostic × Session :=
  let sink := session.analysis.sink
  (sink.bag.items,
    { session with
      analysis :=
        { session.analysis with sink := { sink with bag := { limit := sink.bag.limit } } } })

/-! ### Passes over a submission -/

/-- What a submission is. -/
inductive Item where
  | decl (id : DeclId)
  | stmt (id : StmtId)

/-- Runs a pass over a submission. -/
def submitTo (tree : Tree) (unit : UnitId) : Pass → Item → AnalysisM Unit
  | .resolve, .decl id => Resolve.submitDecl tree unit id
  | .resolve, .stmt id => Resolve.submitStmt tree unit id
  | .typecheck, .decl id => TypeCheck.submitDecl tree unit id
  | .typecheck, .stmt id => TypeCheck.submitStmt tree unit id
  | .modifiers, .decl id => Rules.decl tree id
  | .modifiers, .stmt id => Rules.stmt tree {} id

/-- Runs passes over a submission until one is aborted; the passes that were started. -/
def submitThrough (tree : Tree) (unit : UnitId) (item : Item) :
    List Pass → Analysis → List Pass × Analysis × Option Abort
  | [], state => ([], state, none)
  | pass :: rest, state =>
    match submitTo tree unit pass item state with
    | .error abort state => ([pass], state, some abort)
    | .ok _ state =>
      let (started, state, abort) := submitThrough tree unit item rest state
      (pass :: started, state, abort)

/-- Runs every pass over a submission, inside a span of the trace. -/
def submitItem (session : Session) (tree : Tree) (what label : String) (item : Item) :
    Session × Option SubmitError :=
  let (span, trace) := session.analysis.trace.start .node "submit" session.parent
  let span := span.withExtra what label
  let (started, state, abort) :=
    submitThrough tree session.unit item session.pipeline.passes { session.analysis with trace }
  let trace := match abort with
    | some (.raised diagnostic) =>
      (state.trace.point .node "raised" span.id diagnostic.message).finish span diagnostic.code.id
    | some .missingNode => state.trace
    | none => state.trace.finish span ""
  ({ session with
      analysis := { state with trace }
      count := session.count + 1
      started := session.started ++ started.filter (· ∉ session.started) },
    abort.map .abort)

/-- Submits a declaration of the unit. -/
def submitDecl (session : Session) (tree : Tree) (id : DeclId) : Session × Option SubmitError :=
  match tree.decls.get? id with
  | none =>
    let count := session.count + 1
    ({ session with count }, some (.noDecl count id))
  | some _ => session.submitItem tree "decl" (tree.nameOf id) (.decl id)

/-- Submits a statement of the unit. -/
def submitStmt (session : Session) (tree : Tree) (id : StmtId) : Session × Option SubmitError :=
  match tree.stmts.get? id with
  | none =>
    let count := session.count + 1
    ({ session with count }, some (.noStmt count id))
  | some stmt => session.submitItem tree "stmt" stmt.form.name (.stmt id)

end Session

/-- The wording of a failed submission; an analysis that was not finished has none. -/
def SubmitError.message? : SubmitError → Option String
  | .noDecl submission id => some s!"submission {submission}: no declaration {id}"
  | .noStmt submission id => some s!"submission {submission}: no statement {id}"
  | .abort (.raised diagnostic) => some diagnostic.raisedText
  | .abort .missingNode => none

end TreeCheck
