/-
Units that wait in a session. A unit waits from when its resolution begins until it is
finished, and an import of a unit that waits is refused, since it leads back. A report that
is raised inside of an imported unit ends the submission there, and nobody takes back that
the units on the way wait. So what is raised of an import that leads back closes a cycle of
imports, or it leads to a unit that an earlier submission left waiting: one of an import,
that failed.
-/

import TreeCheck.Proofs.Imports.Cycles
import TreeCheck.Proofs.Pipeline.Descent
import TreeCheck.Proofs.Pipeline.Redeclaring

namespace TreeCheck

variable {tree : Tree} {loose : List Node}

open Relation (ReflTransGen)

variable {session : Session} {loader : Loader} {id : DeclId} {unit other : UnitId}

/-- A unit is being resolved. -/
def Analysis.Waits (state : Analysis) (unit : UnitId) : Prop :=
  state.progress[unit]? = some .visiting

theorem Analysis.waits_insert {state : Analysis} {progress : UnitProgress} :
    Analysis.Waits { state with progress := state.progress.insert unit progress } other ↔
      (other = unit ∧ progress = .visiting) ∨ (other ≠ unit ∧ state.Waits other) := by
  simp only [Waits, Std.TreeMap.getElem?_insert, Std.compare_eq_iff_eq]
  by_cases same : unit = other
  · simp [same]
  · simp [same, Ne.symm same]

namespace Resolve

open AnalysisM Lexical

variable {action : AnalysisM α}

/-! ### Imports that lead back -/

/-- An import of a unit leads to that unit by imports, or to a unit that was left waiting. -/
def LeadsBack (tree : Tree) (left : UnitId → Prop) (unit : UnitId) (id : DeclId) : Prop :=
  ∃ target, importTarget? tree id = some target ∧ (ReflTransGen tree.Imports target unit ∨ left target)

/-- An action that comes to its end leaves certain units waiting; and where it raises that an import
leads back, this is said of an import that does. -/
structure Unwinds {α : Type} (tree : Tree) (back : DeclId → Prop) (waiting : UnitId → Prop)
    (before : Analysis) (action : AnalysisM α) : Prop where
  waits : ∀ value after, action before = .ok value after → ∀ unit, after.Waits unit ↔ waiting unit
  raised : ∀ diagnostic after, action before = .error (.raised diagnostic) after →
    diagnostic.code = .importCycle → ∃ id, back id ∧ diagnostic = cycleReport tree id

variable {back : DeclId → Prop} {left waiting : UnitId → Prop} {before : Analysis} {α β : Type}

theorem Local.unwinds (inside : Local action) (waits : ∀ unit, before.Waits unit ↔ waiting unit) :
    Unwinds tree back waiting before action := by
  refine ⟨fun value after ran unit => ?_, fun diagnostic after ran same =>
    absurd same (inside.raised before diagnostic after ran)⟩
  have progress := inside.progress before
  rw [ran] at progress
  rw [Analysis.Waits, show after.progress = before.progress from progress]
  exact waits unit

namespace Unwinds

theorem bind {action : AnalysisM α} {next : α → AnalysisM β} {between : UnitId → Prop}
    (first : Unwinds tree back between before action)
    (second : ∀ value middle, (∀ unit, middle.Waits unit ↔ between unit) →
      Unwinds tree back waiting middle (next value)) :
    Unwinds tree back waiting before (action >>= next) := by
  rcases bind_cases action next before with ⟨value, middle, ran, same⟩ | ⟨abort, after, ran, same⟩
  · have rest := second value middle (first.waits value middle ran)
    exact ⟨fun found after ends => rest.waits found after (same ▸ ends),
      fun diagnostic after ends => rest.raised diagnostic after (same ▸ ends)⟩
  · refine ⟨fun found final ends => ?_, fun diagnostic final ends => ?_⟩
    · rw [same] at ends
      nomatch ends
    · cases same.symm.trans ends
      exact first.raised diagnostic _ ran

theorem read {next : Analysis → AnalysisM α} (inside : Unwinds tree back waiting before (next before)) :
    Unwinds tree back waiting before (get >>= next) :=
  ⟨inside.waits, inside.raised⟩

theorem modify {change : Analysis → Analysis}
    (waits : ∀ unit, (change before).Waits unit ↔ waiting unit) :
    Unwinds tree back waiting before (modify change : AnalysisM PUnit) := by
  refine ⟨fun value after ran => ?_, fun _ _ ran => nomatch ran⟩
  cases ran
  exact waits

theorem within {scope : ScopeId}
    (inside : Unwinds tree back waiting (before.entering scope) action) :
    Unwinds tree back waiting before (AnalysisM.within scope action) := by
  refine ⟨fun value after ran => ?_, fun diagnostic after ran => ?_⟩
  · rw [within_eq] at ran
    obtain ⟨middle, runs, rfl⟩ := ensuring_eq_ok ran
    exact inside.waits value middle runs
  · rw [within_eq] at ran
    unfold AnalysisM.ensuring at ran
    split at ran
    · nomatch ran
    · next abort middle ends =>
      cases ran
      exact inside.raised diagnostic middle ends

theorem forM {actions : α → AnalysisM PUnit} {items : List α}
    (each : ∀ item ∈ items, ∀ state : Analysis, (∀ unit, state.Waits unit ↔ waiting unit) →
      Unwinds tree back waiting state (actions item))
    (waits : ∀ unit, before.Waits unit ↔ waiting unit) :
    Unwinds tree back waiting before (items.forM actions) := by
  induction items generalizing before with
  | nil => exact (Local.pure _).unwinds waits
  | cons item rest inductionHypothesis =>
    exact .bind (each item (.head _) before waits) fun _ middle waits =>
      inductionHypothesis (fun other member => each other (.tail _ member)) waits

/-- It is reported that an import leads back. -/
theorem report (isBack : back id) (waits : ∀ unit, before.Waits unit ↔ waiting unit) :
    Unwinds tree back waiting before (AnalysisM.report (cycleReport tree id)) := by
  refine ⟨fun value after ran => ?_, fun diagnostic after ran _ => ?_⟩
  · obtain rfl := report_eq_ok ran
    exact waits
  · rw [report_eq] at ran
    cases raised : (before.sink.report (cycleReport tree id)).2 with
    | none => rw [raised] at ran; nomatch ran
    | some inner =>
      rw [raised] at ran
      obtain ⟨same, -⟩ := EStateM.Result.error.inj ran
      cases same
      exact ⟨id, isBack, Sink.eq_of_reportThrough rfl raised⟩

end Unwinds

/-- An import leaves waiting what waited before. Where it is refused, it leads back, if whatever
waits leads to the unit or was left. -/
theorem unwinds_importUnit {resolveUnit : UnitId → AnalysisM ScopeId} {unit : UnitId}
    (resolves : ∀ target, importTarget? tree id = some target → ∀ state : Analysis,
      (∀ other, state.Waits other ↔ waiting other) →
      Unwinds tree back waiting state (resolveUnit target))
    (leads : ∀ other, waiting other → ReflTransGen tree.Imports other unit ∨ left other)
    (isBack : LeadsBack tree left unit id → back id)
    (waits : ∀ other, before.Waits other ↔ waiting other) :
    Unwinds tree back waiting before (importUnit tree resolveUnit unit id) := by
  rcases importUnit_eq resolveUnit unit id before with ⟨-, same⟩ | ⟨-, same⟩
  · refine ⟨fun value after ran => ?_, fun diagnostic after ran => ?_⟩
    · cases same.symm.trans ran
      exact waits
    · rw [same] at ran
      nomatch ran
  · have noted : ∀ other, (noting id before).Waits other ↔ waiting other := waits
    suffices ran : Unwinds tree back waiting (noting id before) _ from
      ⟨fun value after ends => ran.waits value after (same ▸ ends),
        fun diagnostic after ends => ran.raised diagnostic after (same ▸ ends)⟩
    cases isTarget : importTarget? tree id with
    | none => exact (Local.report (show Code.unresolvedImport ≠ .importCycle by decide)).unwinds noted
    | some target =>
      dsimp only
      split
      · next refused =>
        refine .report (isBack ⟨target, isTarget, ?_⟩) noted
        rcases refused with rfl | isWaiting
        · exact .inl .refl
        · exact leads target ((waits target).mp isWaiting)
      · exact .bind (resolves target isTarget _ noted) fun home middle waits =>
          (Local.modifyNames _).unwinds waits

theorem local_ensureGlobal (unit : UnitId) : Local (ensureGlobal tree unit) := by
  refine .read fun state => ?_
  split
  · exact .pure _
  · exact .bind (.read fun _ => .pure _) fun _ => .bind (.modifyNames _) fun _ => .pure _

theorem unwinds_finishUnit {id : UnitId} (idle : ¬waiting id)
    (waits : ∀ other, before.Waits other ↔ other = id ∨ waiting other) :
    Unwinds tree back waiting before (finishUnit id) := by
  have done : Unwinds tree back waiting before (setProgress id .done) := by
    refine .modify fun other => Analysis.waits_insert.trans ?_
    rw [waits other]
    constructor
    · rintro (⟨-, never⟩ | ⟨different, same | isWaiting⟩)
      · nomatch never
      · exact absurd same different
      · exact isWaiting
    · exact fun isWaiting => .inr ⟨fun same => idle (same ▸ isWaiting), .inr isWaiting⟩
  exact .bind done fun _ middle waits => (Local.modifyNames _).unwinds waits

/-- A unit that is resolved leaves waiting what waited before. While it is, whatever waits leads to
it, and it leads to what it imports. -/
theorem unwinds_unitWithin (forest : tree.Forest loose)
    (isBack : ∀ unit, ∀ id ∈ importsOf tree unit, LeadsBack tree left unit id → back id)
    (fuel : Nat) (id : UnitId)
    (leads : ∀ other, waiting other → ReflTransGen tree.Imports other id ∨ left other)
    (waits : ∀ other, before.Waits other ↔ waiting other) :
    Unwinds tree back waiting before (unitWithin tree fuel id) := by
  induction fuel generalizing id before waiting with
  | zero => exact (Local.pure _).unwinds waits
  | succ fuel inductionHypothesis =>
    unfold unitWithin
    refine .read ?_
    split
    · exact .read ((Local.pure _).unwinds waits)
    · next fresh =>
      split
      · exact (Local.pure _).unwinds waits
      · next unit isUnit =>
        have idle : ¬waiting id := by
          intro isWaiting
          have started : before.progress[id]? = _ := (waits id).mpr isWaiting
          rw [started] at fresh
          exact fresh rfl
        have leads' (other : UnitId) (isWaiting : other = id ∨ waiting other) :
            ReflTransGen tree.Imports other id ∨ left other :=
          isWaiting.elim (fun same => same ▸ .inl .refl) (leads other)
        have starts : Unwinds tree back (fun other => other = id ∨ waiting other) before
            (setProgress id .visiting) := by
          refine .modify fun other => Analysis.waits_insert.trans ?_
          rw [waits other]
          by_cases same : other = id <;> simp [same]
        have imports {state : Analysis}
            (waits : ∀ other, state.Waits other ↔ other = id ∨ waiting other) :
            Unwinds tree back (fun other => other = id ∨ waiting other) state
              (unit.imports.forM (importUnit tree (unitWithin tree fuel) id)) := by
          refine .forM (fun decl member state waits => ?_) waits
          have isImport : decl ∈ importsOf tree id := by simp [importsOf, isUnit, member]
          refine unwinds_importUnit (fun target isTarget state waits => ?_) leads'
            (isBack id decl isImport) waits
          exact inductionHypothesis target (fun other isWaiting => (leads' other isWaiting).imp_left
            fun leads => leads.tail ⟨unit, isUnit, decl, member, isTarget⟩) waits
        exact .bind starts fun _ middle waits => .bind ((local_ensureGlobal id).unwinds waits)
          fun global ready waits => .bind (.within (.bind (.bind (imports waits) fun _ imported waits =>
            (local_contents forest isUnit).unwinds waits) fun _ ended waits =>
              unwinds_finishUnit idle waits)) fun _ final waits => (Local.pure _).unwinds waits

/-! ### Submissions -/

/-- What happens at the top level of a unit happens in a state in which no other unit waits. -/
theorem atTopLevel_within (tree : Tree) (unit : UnitId) (action : AnalysisM Unit) (before : Analysis) :
    ∃ home opened, atTopLevel tree unit action before = within home action opened ∧
      ∀ other, opened.Waits other → before.Waits other := by
  obtain ⟨home, first, ensures, -⟩ := ensureGlobal_eq_ok tree unit before
  have progress := (local_ensureGlobal unit : Local (ensureGlobal tree unit)).progress before
  rw [ensures] at progress
  have keeps (other : UnitId) (isWaiting : first.Waits other) : before.Waits other := by
    rwa [Analysis.Waits, show first.progress = before.progress from progress] at isWaiting
  have enters : atTopLevel tree unit action before =
      (if first.progress[unit]? ≠ some .done then do finishUnit unit; within home action
        else within home action) first := by
    show EStateM.bind (ensureGlobal tree unit) _ before = _
    rw [EStateM.bind, ensures]
    rfl
  rw [enters]
  split
  · refine ⟨home, _, rfl, fun other isWaiting => ?_⟩
    rcases Analysis.waits_insert.mp isWaiting with ⟨-, never⟩ | ⟨-, isWaiting⟩
    · nomatch never
    · exact keeps other isWaiting
  · exact ⟨home, first, rfl, keeps⟩

/-- However something ends at the top level that imports nothing, no other unit waits. -/
theorem waits_atTopLevel {action : AnalysisM Unit} (inside : Local action)
    (isWaiting : (Acts.behind (atTopLevel tree unit action before)).Waits other) :
    before.Waits other := by
  obtain ⟨home, opened, same, keeps⟩ := atTopLevel_within tree unit action before
  rw [same, within_eq, Acts.behind_ensuring] at isWaiting
  refine keeps other ?_
  have progress := inside.progress (opened.entering home)
  rwa [Analysis.Waits, show (Analysis.backTo _ _).progress = _ from progress] at isWaiting

/-- An import that is submitted makes no other unit wait if it comes to its end. Where it is
refused, it leads back, or one that was resolved on the way does. -/
theorem submit_import (forest : tree.Forest loose) {unit : UnitId}
    (isImport : tree.kindOf? id = some .importDecl) :
    (∀ value after, submitDecl tree unit id before = .ok value after →
      ∀ other, after.Waits other → before.Waits other) ∧
    ∀ diagnostic after, submitDecl tree unit id before = .error (.raised diagnostic) after →
      diagnostic.code = .importCycle → ∃ home edge, diagnostic = cycleReport tree edge ∧
        (home = unit ∧ edge = id ∨ edge ∈ importsOf tree home) ∧
        LeadsBack tree before.Waits home edge := by
  have submits : submitDecl tree unit id =
      atTopLevel tree unit (importUnit tree (Resolve.unit tree) unit id) := by
    unfold submitDecl
    simp only [isImport]
  obtain ⟨home, opened, same, keeps⟩ :=
    atTopLevel_within tree unit (importUnit tree (Resolve.unit tree) unit id) before
  have ran : Unwinds tree (fun edge => ∃ home, (home = unit ∧ edge = id ∨ edge ∈ importsOf tree home) ∧
      LeadsBack tree before.Waits home edge) opened.Waits (opened.entering home)
      (importUnit tree (Resolve.unit tree) unit id) := by
    refine unwinds_importUnit (fun target _ state waits => ?_)
      (fun other isWaiting => .inr (keeps other isWaiting))
      (fun isBack => ⟨unit, .inl ⟨rfl, rfl⟩, isBack⟩) fun other => .rfl
    exact unwinds_unitWithin forest (fun home edge isEdge isBack => ⟨home, .inr isEdge, isBack⟩) _ target
      (fun other isWaiting => .inr (keeps other isWaiting)) waits
  have whole := ran.within
  rw [submits, same]
  refine ⟨fun value after ends other isWaiting => ?_, fun diagnostic after ends isCycle => ?_⟩
  · exact keeps other ((whole.waits value after ends other).mp isWaiting)
  · obtain ⟨edge, ⟨home, isEdge, isBack⟩, report⟩ := whole.raised diagnostic after ends isCycle
    exact ⟨home, edge, report, isEdge, isBack⟩

/-- A declaration that is no import makes no unit wait, however its submission ends. -/
theorem waits_submitDecl (forest : tree.Forest loose)
    (noImport : tree.kindOf? id ≠ some .importDecl)
    (isWaiting : (Acts.behind (submitDecl tree unit id before)).Waits other) : before.Waits other := by
  unfold submitDecl at isWaiting
  cases isKind : tree.kindOf? id with
  | none =>
    simp only [isKind] at isWaiting
    exact isWaiting
  | some kind =>
    simp only [isKind] at isWaiting
    refine waits_atTopLevel ?_ isWaiting
    have apart {α : Type} {action : AnalysisM α} (spares : Sparing tree (fun _ => True) action) :
        Local action := spares.toLocal
    cases kind with
    | importDecl => exact absurd isKind noImport
    | enum => exact apart (sparing_declareEnum forest _ fun _ => trivial)
    | global => exact apart (sparing_declareVariable _ fun _ => trivial)
    | classDecl =>
      exact .bind (apart (sparing_bindName fun _ => trivial)) fun _ => .bind (.modifyNames _) fun _ =>
        apart (sparing_resolveClass forest _ fun _ _ _ _ => trivial)
    | function =>
      exact .bind (apart (sparing_declareCallable fun _ => trivial)) fun _ =>
        apart (sparing_callableBody forest ..)
    | _ => exact .pure _

theorem waits_submitStmt (forest : tree.Forest loose) {id : StmtId}
    (isWaiting : (Acts.behind (submitStmt tree unit id before)).Waits other) : before.Waits other := by
  unfold submitStmt at isWaiting
  split at isWaiting
  · exact isWaiting
  · have spares : Sparing tree (fun _ => True) (stmt tree {} id) := sparing_stmtWithin forest ..
    exact waits_atTopLevel spares.toLocal isWaiting

end Resolve

namespace Session

open Lexical

/-- Units that wait after a pass over a submission waited before, unless an import was submitted and
the pass failed. -/
theorem waits_submitTo (forest : tree.Forest loose) {pass : Pass} {item : Item}
    {before : Analysis} (isWaiting : (Acts.behind (submitTo tree unit pass item before)).Waits other) :
    before.Waits other ∨ item.isImport tree ∧ ∃ abort after,
      submitTo tree unit pass item before = .error abort after := by
  have still
      {change : (Analysis → Analysis) → Prop} {action : AnalysisM Unit} (acts : Acts change action)
      (leaves : ∀ other, change other → ∀ state, (other state).progress = state.progress)
      (isWaiting : (Acts.behind (action before)).Waits other) : before.Waits other := by
    rwa [Analysis.Waits, acts.progress_eq leaves] at isWaiting
  cases pass with
  | resolve =>
    cases item with
    | stmt id => exact .inl (Resolve.waits_submitStmt forest isWaiting)
    | decl id =>
      by_cases isImport : tree.kindOf? id = some .importDecl
      · cases ran : submitTo tree unit .resolve (.decl id) before with
        | ok value after =>
          rw [ran] at isWaiting
          exact .inl ((Resolve.submit_import forest isImport).1 value after ran other isWaiting)
        | error abort after => exact .inr ⟨by simpa [Item.isImport] using isImport, abort, after, rfl⟩
      · exact .inl (Resolve.waits_submitDecl forest isImport isWaiting)
  | typecheck =>
    refine .inl ?_
    cases item with
    | decl id => exact still (TypeCheck.acts_submitDecl tree unit id) (fun _ change =>
      change.progress) isWaiting
    | stmt id => exact still (TypeCheck.acts_submitStmt tree unit id) (fun _ change =>
      change.progress) isWaiting
  | modifiers =>
    refine .inl ?_
    cases item with
    | decl id => exact still (Rules.acts_decl tree id) (fun _ change => change.progress) isWaiting
    | stmt id => exact still (Rules.acts_stmt tree _ id) (fun _ change => change.progress) isWaiting

theorem waits_submitThrough (forest : tree.Forest loose) {passes : List Pass} {item : Item}
    {before : Analysis}
    (isWaiting : (submitThrough tree unit item passes before).2.1.Waits other) :
    before.Waits other ∨ item.isImport tree ∧
      (submitThrough tree unit item passes before).2.2.isSome := by
  induction passes generalizing before with
  | nil => exact .inl isWaiting
  | cons pass rest inductionHypothesis =>
    unfold submitThrough at isWaiting ⊢
    have first := @waits_submitTo tree loose unit other forest pass item before
    cases ran : submitTo tree unit pass item before with
    | error abort after =>
      rw [ran] at isWaiting first
      exact (first isWaiting).imp_right fun failed => ⟨failed.1, rfl⟩
    | ok value after =>
      rw [ran] at isWaiting first
      rcases inductionHypothesis isWaiting with isWaiting | failed
      · exact .inl ((first isWaiting).resolve_right (by rintro ⟨_, _, _, never⟩; cases never))
      · exact .inr failed

/-- Only where an import is submitted and the submission fails, units begin to wait. -/
theorem waits_submit (forest : tree.Forest loose) {item : Item} {other : UnitId}
    (isWaiting : (session.submit tree item).1.analysis.Waits other) :
    session.analysis.Waits other ∨ item.isImport tree ∧ (session.submit tree item).2.isSome := by
  rcases submit_cases session tree item with ⟨-, same⟩ | ⟨-, what, label, same⟩
  · rw [same] at isWaiting
    exact .inl isWaiting
  · rw [same] at isWaiting ⊢
    have isWaiting : (submitThrough tree session.unit item session.pipeline.passes
        session.begun).2.1.Waits other := isWaiting
    refine (waits_submitThrough forest isWaiting).imp
      (fun waited => waited) fun ⟨isImport, failed⟩ => ⟨isImport, ?_⟩
    show (Option.map _
      (submitThrough tree session.unit item session.pipeline.passes session.begun).2.2).isSome
    rw [Option.isSome_map]
    exact failed

/-- A session in which no import has failed. -/
inductive Unbroken : Loader → Session → Prop
  | start {loader : Loader} (reached : loader.Reached) (pipeline : Pipeline) (unit : UnitId)
      (sink : Sink) (warningsAsErrors : Bool) (trace : Trace.Recorder) (parent : Nat) :
      Unbroken loader (Session.start pipeline unit sink warningsAsErrors trace parent)
  | submit {loader : Loader} {session : Session} (item : Item)
      (through : item.isImport loader.tree → (session.submit loader.tree item).2 = none) :
      Unbroken loader session → Unbroken loader (session.submit loader.tree item).1
  | drain {loader : Loader} {session : Session} :
      Unbroken loader session → Unbroken loader session.drain.2
  | load {loader : Loader} {session : Session} (document : Doc.Document) :
      Unbroken loader session → Unbroken (Loader.behind (Loader.load document loader)) session
  | newUnit {loader : Loader} {session : Session} (path : String) :
      Unbroken loader session → Unbroken (Loader.behind (Loader.newUnit path loader)) session
  | addTopLevel {loader : Loader} {session : Session} (unit : UnitId) (item : Doc.TopLevel) :
      Unbroken loader session → Unbroken (Loader.behind (Loader.addTopLevel unit item loader)) session

theorem Unbroken.reached (unbroken : Unbroken loader session) : Reached loader session := by
  induction unbroken with
  | start loaded => exact .start loaded ..
  | submit item _ _ reached => exact .submit item reached
  | drain _ reached => exact .drain reached
  | load document _ reached => exact .load document reached
  | newUnit path _ reached => exact .newUnit path reached
  | addTopLevel unit item _ reached => exact .addTopLevel unit item reached

theorem Unbroken.rests (unbroken : Unbroken loader session) (unit : UnitId) :
    ¬session.analysis.Waits unit := by
  induction unbroken with
  | start => exact fun isWaiting => by simp [Analysis.Waits, Session.start] at isWaiting
  | submit item through unbroken rests =>
    intro isWaiting
    rcases waits_submit unbroken.reached.loaded.forest isWaiting with waited | ⟨isImport, failed⟩
    · exact rests waited
    · rw [through isImport] at failed
      cases failed
  | drain _ rests => exact rests
  | load _ _ rests => exact rests
  | newUnit _ _ rests => exact rests
  | addTopLevel _ _ _ rests => exact rests

/-- The later passes have nothing to say of an import. -/
theorem submitTo_import {pass : Pass} (later : pass ≠ .resolve) {unit : UnitId}
    (isImport : tree.kindOf? id = some .importDecl) (before : Analysis) :
    ∃ after, submitTo tree unit pass (.decl id) before = .ok () after := by
  cases pass with
  | resolve => exact absurd rfl later
  | typecheck =>
    show ∃ after, TypeCheck.inScope before.names.units[unit]? _ before = .ok () after
    simp only [isImport]
    cases before.names.units[unit]? <;> exact ⟨_, rfl⟩
  | modifiers =>
    show ∃ after, Rules.decl tree id before = .ok () after
    unfold Rules.decl
    simp only [isImport]
    exact ⟨before, rfl⟩

/-- Where it is raised that an import leads back, one does: the import that was submitted, or one of
a unit. -/
def RaisesBack (tree : Tree) (left : UnitId → Prop) (unit : UnitId) (id : DeclId)
    (diagnostic : Diagnostic) : Prop :=
  ∃ home edge, diagnostic = cycleReport tree edge ∧
    (home = unit ∧ edge = id ∨ edge ∈ importsOf tree home) ∧ Resolve.LeadsBack tree left home edge

theorem raised_submitThrough (forest : tree.Forest loose) {passes : List Pass} {unit : UnitId}
    (isImport : tree.kindOf? id = some .importDecl) {before : Analysis}
    {diagnostic : Diagnostic}
    (raised : (submitThrough tree unit (.decl id) passes before).2.2 = some (.raised diagnostic))
    (isCycle : diagnostic.code = .importCycle) :
    RaisesBack tree before.Waits unit id diagnostic := by
  induction passes generalizing before with
  | nil => cases raised
  | cons pass rest inductionHypothesis =>
    unfold submitThrough at raised
    cases ran : submitTo tree unit pass (.decl id) before with
    | error abort after =>
      rw [ran] at raised
      obtain rfl : abort = .raised diagnostic := Option.some.inj raised
      by_cases isFirst : pass = .resolve
      · subst isFirst
        exact (Resolve.submit_import forest isImport).2 diagnostic after ran isCycle
      · obtain ⟨_, ends⟩ := @submitTo_import tree id pass isFirst unit isImport before
        cases ends.symm.trans ran
    | ok value after =>
      rw [ran] at raised
      obtain ⟨home, edge, report, isEdge, target, isTarget, back⟩ := inductionHypothesis raised
      refine ⟨home, edge, report, isEdge, target, isTarget, back.imp_right fun isWaiting => ?_⟩
      have before := @waits_submitTo tree loose unit target forest pass (.decl id) before
      rw [ran] at before
      exact (before isWaiting).resolve_right (by rintro ⟨_, _, _, never⟩; cases never)

/-- Where it is raised of a submitted import that an import leads back, that import closes a cycle
of imports, or it leads to a unit that was left waiting. No unit waits between submissions as long
as no import has failed. -/
theorem import_leads_back {loader : Loader} {session : Session} (reached : Reached loader session) :
    (Unbroken loader session → ∀ unit, ¬session.analysis.Waits unit) ∧
    ∀ (id : DeclId) (after : Session) (diagnostic : Diagnostic),
      loader.tree.kindOf? id = some .importDecl →
      session.submit loader.tree (.decl id) = (after, some (.abort (.raised diagnostic))) →
      diagnostic.code = .importCycle →
      ∃ home edge target, diagnostic = cycleReport loader.tree edge ∧
        (home = session.unit ∧ edge = id ∨ edge ∈ importsOf loader.tree home) ∧
        importTarget? loader.tree edge = some target ∧
        (ReflTransGen loader.tree.Imports target home ∨
          session.analysis.Waits target ∧ ¬Unbroken loader session) := by
  refine ⟨Unbroken.rests, fun id after diagnostic isImport submitted isCycle => ?_⟩
  have outcome := (submit_decl_eq isImport).2.symm.trans (congrArg Prod.snd submitted)
  obtain ⟨abort, raised, same⟩ := Option.map_eq_some_iff.mp outcome
  obtain rfl := SubmitError.abort.inj same
  obtain ⟨home, edge, report, isEdge, target, isTarget, back⟩ :=
    raised_submitThrough reached.loaded.forest isImport raised isCycle
  refine ⟨home, edge, target, report, isEdge, isTarget, back.imp_right fun isWaiting => ?_⟩
  have isWaiting : session.analysis.Waits target := isWaiting
  exact ⟨isWaiting, fun unbroken => unbroken.rests target isWaiting⟩

/-- A unit with a variable of a type that there is not, and a unit that imports it twice. -/
def missingType : Loader :=
  let broken : Option Doc.Variable := some { name := "g", type := some { kind := "named", name := "T" } }
  let document : Doc.Document :=
    { version := 1
      units :=
        [some { path := "main", imports := [some { path := "b" }, some { path := "b" }] },
          some { path := "b", globals := [broken] }] }
  Loader.behind (Loader.load document {})

/-- The session in which the first import was submitted, and failed. -/
def onceImported : Session := ((start .full 1 {} false {} 0).submit missingType.tree (.decl 2)).1

/-- The diagnostic that ended a submission. -/
def endedBy : Option SubmitError → Option Diagnostic
  | some (.abort (.raised diagnostic)) => some diagnostic
  | _ => none

theorem eq_of_endedBy {outcome : Option SubmitError} {diagnostic : Diagnostic}
    (ended : endedBy outcome = some diagnostic) : outcome = some (.abort (.raised diagnostic)) := by
  unfold endedBy at ended
  split at ended
  · rw [Option.some.inj ended]
  · cases ended

theorem onceImported_submits :
    importsOf missingType.tree 2 = [] ∧ missingType.tree.kindOf? 3 = some .importDecl ∧
      onceImported.analysis.Waits 2 ∧
      (onceImported.submit missingType.tree (.decl 3)).2 =
        some (.abort (.raised (cycleReport missingType.tree 3))) := by
  obtain ⟨noImports, isImport, isWaiting, ended⟩ :
      importsOf missingType.tree 2 = [] ∧ missingType.tree.kindOf? 3 = some .importDecl ∧
        onceImported.analysis.progress[2]? = some .visiting ∧
        endedBy (onceImported.submit missingType.tree (.decl 3)).2 =
          some (cycleReport missingType.tree 3) := by
    simp only [onceImported, missingType, Loader.load_eq_loadWithin]
    decide +kernel
  exact ⟨noImports, isImport, isWaiting, eq_of_endedBy ended⟩

/-- The second import is said to lead back, though the unit that it leads to imports nothing: that
unit was left waiting. -/
theorem import_leads_back_missingType :
    importsOf missingType.tree 2 = [] ∧ onceImported.analysis.Waits 2 ∧
      ¬Unbroken missingType onceImported ∧
      (onceImported.submit missingType.tree (.decl 3)).2 =
        some (.abort (.raised (cycleReport missingType.tree 3))) ∧
      ∃ home edge target, cycleReport missingType.tree 3 = cycleReport missingType.tree edge ∧
        importTarget? missingType.tree edge = some target ∧
        (ReflTransGen missingType.tree.Imports target home ∨ onceImported.analysis.Waits target) := by
  have reached : Reached missingType onceImported :=
    .submit (.decl 2) (.start (.load _ (.fresh {})) .full 1 {} false {} 0)
  obtain ⟨rests, leads⟩ := import_leads_back reached
  obtain ⟨noImports, isImport, isWaiting, submitted⟩ := onceImported_submits
  obtain ⟨home, edge, target, same, -, isTarget, back⟩ :=
    leads 3 _ _ isImport (Prod.ext rfl submitted) rfl
  exact ⟨noImports, isWaiting, fun unbroken => rests unbroken 2 isWaiting, submitted, home, edge, target,
    same, isTarget, back.imp_right And.left⟩

end Session

end TreeCheck
