/-
What runs and sessions leave behind. Only resolution changes names, and it stays on valid
ground however it ends; the passes behind it go through scopes that are there and come
back. So the annotations are valid after any number of passes and submissions, whether they
came to their end, were ended by a report, or gave up. Between submissions no scope is open,
and what was bound stays bound.

A session goes on while its program grows. `Session.Reached` is a session at any point of
this, with the loader that holds the program.
-/

import TreeCheck.Pipeline.Session
import TreeCheck.Proofs.Reporting.Resolution
import TreeCheck.Proofs.Reporting.Rules
import TreeCheck.Proofs.Reporting.Typing
import TreeCheck.Proofs.Scoping.Staying
import TreeCheck.Proofs.Tree.Loading

namespace TreeCheck

open Resolve Loader

open Resolve (Anywhere)

variable {tree : Tree} {loose : List Node}
variable {α : Type} {touched : Node → Prop} {before : Analysis} {names : Resolution}
  {passes : List Pass} {session : Session} {action : AnalysisM α}

/-! ### Passes -/

/-- An action that leaves the names alone stays where it is. -/
theorem Restores.of_acts {allowed : (Analysis → Analysis) → Prop} (acts : Acts allowed action)
    (leaves : ∀ change, allowed change → ∀ state, (change state).names = state.names)
    (valid : before.names.Valid tree) : Restores tree touched before Any action := by
  have same := acts.names_eq leaves before
  have leads {after : Analysis} (same : after.names = before.names) :
      Evolves tree touched before after :=
    .of_same (same ▸ valid) (same ▸ rfl) (same ▸ rfl) (fun _ => .inl (same ▸ rfl))
      (fun _ => .inl (same ▸ rfl))
      (same ▸ rfl) (same ▸ rfl) (same ▸ rfl)
  unfold Restores
  cases ran : action before with
  | ok value after =>
    rw [ran] at same
    exact ⟨leads same, same ▸ rfl, trivial⟩
  | error abort after =>
    rw [ran] at same
    exact ⟨leads same, same ▸ rfl⟩

/-- What an action that restores the stack leaves behind, however it ends. -/
theorem Restores.behind {post : α → Analysis → Prop}
    (restores : Restores tree touched before post action) :
    Evolves tree touched before (Acts.behind (action before)) ∧
      (Acts.behind (action before)).names.scopes.stack = before.names.scopes.stack := by
  unfold Restores at restores
  cases ran : action before with
  | ok value after =>
    rw [ran] at restores
    exact ⟨restores.1, restores.2.1⟩
  | error abort after =>
    rw [ran] at restores
    exact restores

theorem restores_runProgram (forest : tree.Forest loose) (valid : before.names.Valid tree)
    (root : UnitId) (checked : Bool) (span : Nat) (pass : Pass) :
    Restores tree Anywhere before Any (pass.runProgram tree root checked span) := by
  cases pass with
  | resolve => exact restores_program forest valid root checked
  | typecheck =>
    exact .of_acts (TypeCheck.acts_program tree span) (fun _ change => change.names) valid
  | modifiers =>
    exact .of_acts (Rules.acts_program tree span) (fun _ change => change.names) valid

namespace Pipeline

variable {root : UnitId} {options : BatchOptions} {parent index : Nat} {state : Analysis}

theorem valid_runPass (forest : tree.Forest loose) {pass : Pass} {report : PassReport}
    {after : Analysis} (valid : state.names.Valid tree)
    (ran : runPass tree root options parent index pass state = .ok (report, after)) :
    after.names.Valid tree := by
  have left {sink : Sink} {trace : Trace.Recorder} {span : Nat} {value : Unit} {ended : Analysis}
      (isEnd : pass.runProgram tree root options.validate span { state with sink, trace } =
        .ok value ended) : ended.names.Valid tree := by
    have valid : { state with sink, trace }.names.Valid tree := valid
    have restored := (restores_runProgram forest valid root options.validate span pass).behind
    rw [isEnd] at restored
    exact restored.1.valid
  unfold runPass at ran
  dsimp only at ran
  split at ran
  · nomatch ran
  · next value ended isEnd =>
    cases ran
    have valid : ended.names.Valid tree := left isEnd
    exact valid

/-- The passes of a run keep the annotations valid. -/
theorem valid_runFrom (forest : tree.Forest loose) {outcome : BatchOutcome}
    (valid : state.names.Valid tree)
    (ran : runFrom tree root options parent index passes state = .ok outcome) :
    outcome.analysis.names.Valid tree := by
  induction passes generalizing index state outcome with
  | nil =>
    cases ran
    exact valid
  | cons pass rest inductionHypothesis =>
    unfold runFrom at ran
    split at ran
    · nomatch ran
    · next report after first =>
      have valid := valid_runPass forest valid first
      split at ran
      · cases ran
        exact valid
      · split at ran
        · nomatch ran
        · next final second =>
          cases ran
          have valid : final.analysis.names.Valid tree := inductionHypothesis valid second
          exact valid

end Pipeline

namespace Session

/-! ### One submission -/

/-- Submits a declaration or a statement. -/
def submit (session : Session) (tree : Tree) : Item → Session × Option SubmitError
  | .decl id => session.submitDecl tree id
  | .stmt id => session.submitStmt tree id

/-- The tree has the declaration or statement. -/
def Item.isIn (tree : Tree) : Item → Bool
  | .decl id => (tree.decls.get? id).isSome
  | .stmt id => (tree.stmts.get? id).isSome

/-- Whether a submission looked at something depends on the tree alone. -/
theorem submit_cases (session : Session) (tree : Tree) (item : Item) :
    (item.isIn tree = false ∧
      (session.submit tree item).1 = { session with count := session.count + 1 }) ∨
    (item.isIn tree ∧ ∃ what label,
      session.submit tree item = session.submitItem tree what label item) := by
  cases item with
  | decl id =>
    simp only [submit, submitDecl, Item.isIn]
    cases tree.decls.get? id with
    | none => exact .inl ⟨rfl, rfl⟩
    | some decl => exact .inr ⟨rfl, _, _, rfl⟩
  | stmt id =>
    simp only [submit, submitStmt, Item.isIn]
    cases tree.stmts.get? id with
    | none => exact .inl ⟨rfl, rfl⟩
    | some stmt => exact .inr ⟨rfl, _, _, rfl⟩

/-- The state in which the passes find a submission; all that is new is a span of the trace. -/
def begun (session : Session) : Analysis :=
  { session.analysis with trace := (session.analysis.trace.start .node "submit" session.parent).2 }

/-- Submitting something touches certain nodes and no others, wherever it is done. -/
def Touches (tree : Tree) (touched : Node → Prop) (item : Item) : Prop :=
  ∀ (before : Analysis) (unit : UnitId), before.names.Valid tree →
    Restores tree touched before Any (submitTo tree unit .resolve item)

theorem touches_anywhere (forest : tree.Forest loose) (item : Item) : Touches tree Anywhere item := by
  intro before unit valid
  cases item with
  | decl id => exact restores_submitDecl forest valid unit id
  | stmt id =>
    exact restores_submitStmt forest (closed_anywhere tree) valid unit
      (anywhere _)

section Touches

variable {touched : Node → Prop} {item : Item} (touches : Touches tree touched item)

include touches

theorem restores_submitTo (valid : before.names.Valid tree) (unit : UnitId) (pass : Pass) :
    Restores tree touched before Any (submitTo tree unit pass item) := by
  cases pass with
  | resolve => exact touches before unit valid
  | typecheck =>
    cases item with
    | decl id =>
      exact .of_acts (TypeCheck.acts_submitDecl tree unit id) (fun _ change => change.names) valid
    | stmt id =>
      exact .of_acts (TypeCheck.acts_submitStmt tree unit id) (fun _ change => change.names) valid
  | modifiers =>
    cases item with
    | decl id => exact .of_acts (Rules.acts_decl tree id) (fun _ change => change.names) valid
    | stmt id => exact .of_acts (Rules.acts_stmt tree _ id) (fun _ change => change.names) valid

/-- Passes over a submission stay on valid ground and leave the stack of open scopes as it
was, whichever of them is aborted. -/
theorem submitThrough_restores (unit : UnitId) (passes : List Pass)
    (valid : before.names.Valid tree) :
    Evolves tree touched before (submitThrough tree unit item passes before).2.1 ∧
      (submitThrough tree unit item passes before).2.1.names.scopes.stack =
        before.names.scopes.stack := by
  induction passes generalizing before with
  | nil => exact ⟨.refl valid, rfl⟩
  | cons pass rest inductionHypothesis =>
    obtain ⟨leads, stack⟩ := (restores_submitTo touches valid unit pass).behind
    unfold submitThrough
    cases ran : submitTo tree unit pass item before with
    | error abort after =>
      rw [ran] at leads stack
      exact ⟨leads, stack⟩
    | ok value after =>
      rw [ran] at leads stack
      obtain ⟨leads', stack'⟩ := inductionHypothesis leads.valid
      exact ⟨leads.trans leads', stack'.trans stack⟩

/-- What a submission does to the scopes: those that were there grow, and as many are open as
before. -/
theorem submit_restores (valid : session.analysis.names.Valid tree) :
    Evolves tree touched session.analysis (session.submit tree item).1.analysis ∧
      (session.submit tree item).1.analysis.names.scopes.stack =
        session.analysis.names.scopes.stack := by
  rcases submit_cases session tree item with ⟨-, same⟩ | ⟨-, what, label, same⟩
  · rw [same]
    exact ⟨.refl valid, rfl⟩
  · rw [same]
    -- The trace is all that `submitItem` itself adds to what the passes leave behind.
    have valid' : session.begun.names.Valid tree := valid
    obtain ⟨leads, stack⟩ :=
      submitThrough_restores touches session.unit session.pipeline.passes valid'
    exact ⟨{ leads with }, stack⟩

end Touches

theorem acts_submitTo (tree : Tree) (unit : UnitId) (pass : Pass) (item : Item) :
    Acts SinkFree (submitTo tree unit pass item) := by
  cases pass with
  | resolve =>
    cases item with
    | decl id => exact (acts_submitDecl tree unit id).mono fun _ change => change.sinkFree
    | stmt id => exact (acts_submitStmt tree unit id).mono fun _ change => change.sinkFree
  | typecheck =>
    cases item with
    | decl id => exact (TypeCheck.acts_submitDecl tree unit id).mono fun _ change => change.sinkFree
    | stmt id => exact (TypeCheck.acts_submitStmt tree unit id).mono fun _ change => change.sinkFree
  | modifiers =>
    cases item with
    | decl id => exact (Rules.acts_decl tree id).mono fun _ change => change.sinkFree
    | stmt id => exact (Rules.acts_stmt tree _ id).mono fun _ change => change.sinkFree

/-- What every report keeps up about the sink, the passes over a submission keep up. -/
theorem submitThrough_keeps {holds : Sink → Prop}
    (reports : ∀ sink diagnostic, holds sink → holds (sink.report diagnostic).1) (unit : UnitId)
    (item : Item) (passes : List Pass) (kept : holds before.sink) :
    holds (submitThrough tree unit item passes before).2.1.sink := by
  induction passes generalizing before with
  | nil => exact kept
  | cons pass rest inductionHypothesis =>
    have first := (acts_submitTo tree unit pass item).sink_keeps reports before kept
    unfold submitThrough
    cases ran : submitTo tree unit pass item before with
    | error abort after =>
      rw [ran] at first
      exact first
    | ok value after =>
      rw [ran] at first
      exact inductionHypothesis first

theorem isFatal_of_submitThrough {unit : UnitId} {item : Item} {diagnostic : Diagnostic}
    (raised : (submitThrough tree unit item passes before).2.2 = some (.raised diagnostic)) :
    diagnostic.isFatal := by
  induction passes generalizing before with
  | nil => nomatch raised
  | cons pass rest inductionHypothesis =>
    unfold submitThrough at raised
    cases ran : submitTo tree unit pass item before with
    | error abort after =>
      rw [ran] at raised
      obtain rfl : abort = .raised diagnostic := Option.some.inj raised
      exact (acts_submitTo tree unit pass item).isFatal_of_raised ran
    | ok value after =>
      rw [ran] at raised
      exact inductionHypothesis raised

/-- A submission that something came of fails with a message only where an error was raised. -/
theorem raised_of_message? {after : Session} {what label text : String} {item : Item}
    {error : SubmitError} (failed : session.submitItem tree what label item = (after, some error))
    (hasText : error.message? = some text) :
    ∃ diagnostic, error = .abort (.raised diagnostic) ∧ diagnostic.isFatal ∧
      text = diagnostic.raisedText := by
  have isAbort := congrArg Prod.snd failed
  unfold submitItem at isAbort
  dsimp only at isAbort
  obtain ⟨abort, aborted, rfl⟩ := Option.map_eq_some_iff.mp isAbort
  cases abort with
  | raised diagnostic =>
    exact ⟨diagnostic, rfl, isFatal_of_submitThrough aborted, (Option.some.inj hasText).symm⟩
  | missingNode => nomatch hasText

/-! ### Sessions -/

/-- A session at any point: something is submitted, whatever comes of it, diagnostics are taken
out, and the program grows in between, whether or not a load succeeds. -/
inductive Reached : Loader → Session → Prop
  | start {loader : Loader} (reached : loader.Reached) (pipeline : Pipeline) (unit : UnitId)
      (sink : Sink) (warningsAsErrors : Bool) (trace : Trace.Recorder) (parent : Nat) :
      Reached loader (Session.start pipeline unit sink warningsAsErrors trace parent)
  | submit {loader : Loader} {session : Session} (item : Item) :
      Reached loader session → Reached loader (session.submit loader.tree item).1
  | drain {loader : Loader} {session : Session} :
      Reached loader session → Reached loader session.drain.2
  | load {loader : Loader} {session : Session} (document : Doc.Document) :
      Reached loader session → Reached (behind (load document loader)) session
  | newUnit {loader : Loader} {session : Session} (path : String) :
      Reached loader session → Reached (behind (newUnit path loader)) session
  | addTopLevel {loader : Loader} {session : Session} (unit : UnitId) (item : Doc.TopLevel) :
      Reached loader session → Reached (behind (addTopLevel unit item loader)) session

namespace Reached

variable {loader : Loader} {session : Session}

theorem loaded (reached : Reached loader session) : loader.Reached := by
  induction reached with
  | start loaded => exact loaded
  | submit item _ loaded => exact loaded
  | drain _ loaded => exact loaded
  | load document _ loaded => exact .load document loaded
  | newUnit path _ loaded => exact .newUnit path loaded
  | addTopLevel unit item _ loaded => exact .addTopLevel unit item loaded

/-- A program that grows does not put annotations in doubt. -/
theorem valid_behind {action : LoadM α} {gives : α → List Node} (loaded : loader.Reached)
    (builds : LoadM.Builds [] action gives) (valid : names.Valid loader.tree) :
    names.Valid (behind (action loader)).tree :=
  valid.mono fun id kind isKind => (builds.keeps loader [] loaded.forest).holds (.decl kind id) isKind

/-- At any point of a session the annotations are valid and no scope is open. -/
theorem valid_and_closed (reached : Reached loader session) :
    session.analysis.names.Valid loader.tree ∧ session.analysis.names.scopes.stack = [] := by
  induction reached with
  | start => exact ⟨.empty _, rfl⟩
  | submit item reached inductionHypothesis =>
    obtain ⟨valid, closed⟩ := inductionHypothesis
    obtain ⟨leads, stack⟩ := submit_restores (touches_anywhere reached.loaded.forest item) valid
    exact ⟨leads.valid, stack.trans closed⟩
  | drain _ inductionHypothesis => exact inductionHypothesis
  | load document reached inductionHypothesis =>
    exact inductionHypothesis.imp_left (valid_behind reached.loaded (builds_load document))
  | newUnit path reached inductionHypothesis =>
    exact inductionHypothesis.imp_left (valid_behind reached.loaded (builds_newUnit path))
  | addTopLevel unit item reached inductionHypothesis =>
    exact inductionHypothesis.imp_left
      (valid_behind reached.loaded (builds_addTopLevel unit item))

end Reached

/-- A submission, accepted or not, leaves no scope open, and every scope that was there keeps its
parent, its keys in front of any new ones, and what they are bound to. It fails with a message
only where there was nothing to submit, or where an error was raised. -/
theorem submit_keeps_scopes {loader : Loader} {session after : Session}
    (reached : Reached loader session) (item : Item) {failure : Option SubmitError}
    (submitted : session.submit loader.tree item = (after, failure)) :
    after.analysis.names.scopes.stack = session.analysis.names.scopes.stack ∧
    session.analysis.names.scopes.stack = [] ∧
    (∀ id scope, session.analysis.names.scopes.get? id = some scope →
      ∃ later, after.analysis.names.scopes.get? id = some later ∧
        later.parent = scope.parent ∧ scope.keys <+: later.keys ∧
        ∀ key decl, scope.find? key = some decl → later.find? key = some decl) ∧
    ∀ error text, failure = some error → error.message? = some text →
      (item.isIn loader.tree = false ∧ after = { session with count := session.count + 1 }) ∨
      ∃ diagnostic, error = .abort (.raised diagnostic) ∧ diagnostic.isFatal ∧
        text = diagnostic.raisedText := by
  obtain ⟨valid, closed⟩ := reached.valid_and_closed
  obtain ⟨leads, stack⟩ := submit_restores (touches_anywhere reached.loaded.forest item) valid
  rw [submitted] at leads stack
  refine ⟨stack, closed, fun id scope found => ?_, fun error text failed hasText => ?_⟩
  · obtain ⟨later, found', grows⟩ := leads.grows id scope found
    exact ⟨later, found', grows.parent, grows.keys, fun _ _ => grows.find?⟩
  · rcases submit_cases session loader.tree item with ⟨absent, same⟩ | ⟨-, what, label, same⟩
    · rw [submitted] at same
      exact .inl ⟨absent, same⟩
    · rw [same, failed] at submitted
      exact .inr (raised_of_message? submitted hasText)

/-- Two numbers, of which the second begins as a truth value. -/
def twoNumbers : Loader :=
  let number (name kind value : String) : Option Doc.Variable :=
    some { name, type := some { kind := "named", name := "Int" },
           init := some { kind := "lit", lit := kind, value } }
  let document : Doc.Document :=
    { version := 1
      units :=
        [some { path := "main", globals := [number "n" "int" "1", number "m" "bool" "true"] }] }
  behind (load document {})

/-- The session in which the first number was submitted. -/
def oneNumber : Session :=
  ((start .full 1 {} false {} 0).submit twoNumbers.tree (.decl 1)).1

theorem twoNumbers_refused :
    ((oneNumber.submit twoNumbers.tree (.decl 2)).2.bind SubmitError.message?).isSome := by
  simp only [oneNumber, twoNumbers, load_eq_loadWithin]
  decide +kernel

theorem submit_keeps_scopes_twoNumbers :
    ((oneNumber.submit twoNumbers.tree (.decl 2)).2.bind SubmitError.message?).isSome ∧
      (oneNumber.submit twoNumbers.tree (.decl 2)).1.analysis.names.scopes.stack = [] ∧
      ∀ scope, oneNumber.analysis.names.scopes.get? 1 = some scope → ∃ later,
        (oneNumber.submit twoNumbers.tree (.decl 2)).1.analysis.names.scopes.get? 1 = some later ∧
        scope.keys <+: later.keys := by
  have reached : Reached twoNumbers oneNumber :=
    .submit (.decl 1) (.start (.load _ (.fresh {})) .full 1 {} false {} 0)
  obtain ⟨stack, closed, keeps, -⟩ := submit_keeps_scopes reached (.decl 2) rfl
  refine ⟨twoNumbers_refused, stack.trans closed, fun scope found => ?_⟩
  obtain ⟨later, found', -, keys, -⟩ := keeps 1 scope found
  exact ⟨later, found', keys⟩

end Session

/-! ### Runs and sessions -/

/-- The annotations agree with each other and with the tree, and neither the check of the scope
table nor that of the annotations finds anything. -/
def Resolution.Flawless (tree : Tree) (names : Resolution) : Prop :=
  names.Valid tree ∧ names.scopes.faults = [] ∧ names.faults tree = []

theorem Resolution.Valid.flawless (valid : names.Valid tree) : names.Flawless tree :=
  ⟨valid, valid.table.faults_eq_nil fun id scope found entry member =>
    (valid.holds id scope found entry member).ne_zero, valid.faults_eq_nil⟩

/-- Whatever is resolved, in a run or in a session, comes to its end or not, the annotations are
without a flaw. -/
theorem annotations_flawless {loader : Loader} (loaded : loader.Reached) :
    (∀ root checked typing sink trace, (Acts.behind (program loader.tree root checked
      { typing, sink, trace })).names.Flawless loader.tree) ∧
    (∀ pipeline root options trace parent outcome,
      Pipeline.run pipeline loader.tree root options trace parent = .ok outcome →
      outcome.analysis.names.Flawless loader.tree) ∧
    ∀ session, Session.Reached loader session → session.analysis.names.Flawless loader.tree := by
  have forest := loaded.forest
  refine ⟨fun root checked typing sink trace => ?_, fun _ _ _ trace _ outcome ran => ?_,
    fun session reached => reached.valid_and_closed.1.flawless⟩
  · let start : Analysis := { typing, sink, trace }
    have valid : start.names.Valid loader.tree := .empty _
    exact (restores_program forest valid root checked).behind.1.valid.flawless
  · let start : Analysis := { trace }
    have valid : start.names.Valid loader.tree := .empty _
    exact (Pipeline.valid_runFrom forest valid ran).flawless

/-- Both in a run and behind a submission that fails. -/
theorem annotations_flawless_twoNumbers :
    (Acts.behind (program Session.twoNumbers.tree 1 true {})).names.Flawless
        Session.twoNumbers.tree ∧
      (Session.oneNumber.submit Session.twoNumbers.tree (.decl 2)).2.isSome ∧
      (Session.oneNumber.submit Session.twoNumbers.tree (.decl 2)).1.analysis.names.Flawless
        Session.twoNumbers.tree := by
  have loaded : Session.twoNumbers.Reached := .load _ (.fresh {})
  obtain ⟨run, -, session⟩ := annotations_flawless loaded
  obtain ⟨_, refused⟩ := Option.isSome_iff_exists.mp Session.twoNumbers_refused
  obtain ⟨_, failed, -⟩ := Option.bind_eq_some_iff.mp refused
  refine ⟨run 1 true {} {} {}, Option.isSome_of_eq_some failed, session _ ?_⟩
  exact .submit (.decl 2) (.submit (.decl 1) (.start loaded .full 1 {} false {} 0))

end TreeCheck
