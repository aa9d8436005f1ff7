/-
The rules on modifiers are made of actions. They note which methods override which, and
change nothing else about names and types.
-/

import TreeCheck.Proofs.Reporting.Actions
import TreeCheck.Rules.Bodies

namespace TreeCheck

/-- A change that the check of modifiers makes: it leaves the names and the progress of
units alone, and of the types everything but what methods override. -/
structure RulesChange (change : Analysis → Analysis) : Prop where
  sinkFree : SinkFree change
  names : ∀ state, (change state).names = state.names
  progress : ∀ state, (change state).progress = state.progress
  typing : ∀ state, (change state).typing =
    { state.typing with overrides := (change state).typing.overrides }

namespace Rules

open AnalysisM

variable (tree : Tree)

/-! ### Classes -/

/-- Overriding is the one thing that the rules record. -/
theorem acts_noteOverride (method inherited : DeclId) :
    Acts RulesChange (modifyTyping fun typing =>
      { typing with overrides := typing.overrides.insert method inherited }) :=
  .modify ⟨fun _ _ => rfl, fun _ => rfl, fun _ => rfl, fun _ => rfl⟩

theorem acts_checkBase (id : DeclId) (decl : Decl) (base : DeclId) :
    Acts RulesChange (checkBase tree id decl base) := by
  unfold checkBase
  split
  · exact .pure _
  · next baseDecl _ =>
    have template (_ : PUnit) : Acts RulesChange (do
        if !baseDecl.typeParams.isEmpty then
          error .templatedBase decl.span [tree.nameOf base, tree.nameOf id]) := by
      split
      · exact .error ..
      · exact .pure _
    dsimp only
    split
    · exact .bind (.report _) template
    · exact template ⟨⟩

theorem acts_checkOverride (owner method : DeclId) (decl : Decl) :
    Acts RulesChange (checkOverride tree owner method decl) := by
  refine .read (fun state => ?_) fun _ _ => rfl
  split
  · exact .pure _
  · refine .bind (acts_noteOverride ..) fun _ => ?_
    split
    · exact .pure _
    · split
      · exact .report _
      · exact .pure _

theorem acts_checkMethod (owner : DeclId) (isAbstract : Bool) (method : DeclId) :
    Acts RulesChange (checkMethod tree owner isAbstract method) := by
  unfold checkMethod
  split
  · exact .pure _
  · refine .bind (acts_checkOverride tree ..) fun _ => ?_
    split
    · exact .error ..
    · exact .pure _

theorem acts_checkClass (id : DeclId) : Acts RulesChange (checkClass tree id) := by
  unfold checkClass
  split
  · refine .read (fun state => ?_) fun _ _ => rfl
    refine .bind (.optionForM (fun _ => acts_checkBase tree ..) _) fun _ =>
      .bind (.forM fun method _ => acts_checkMethod tree ..) fun _ => ?_
    split
    · refine .read (fun state => ?_) fun _ _ => rfl
      split
      · exact .pure _
      · exact .report _
    · exact .pure _
  · exact .pure _

/-! ### Expressions -/

theorem acts_checkAccess (place : Place) (receiver : ExprId) (member : Option DeclId)
    (span : Span) : Acts RulesChange (checkAccess tree place receiver member span) := by
  unfold checkAccess
  split
  · dsimp only
    split
    · exact .pure _
    · split
      · exact .pure _
      · split
        · exact .pure _
        · exact .report _
  · exact .pure _

theorem acts_checkRecursion (place : Place) (callee : Option DeclId) (span : Span) :
    Acts RulesChange (checkRecursion tree place callee span) := by
  unfold checkRecursion
  split
  · exact .pure _
  · dsimp only
    split
    · exact .pure _
    · exact .report _

theorem acts_checkCreation (created : TypeExprId) (span : Span) :
    Acts RulesChange (checkCreation tree created span) := by
  refine .read (fun state => ?_) fun _ _ => rfl
  split
  · exact .pure _
  · split
    · exact .error ..
    · exact .pure _

/-- Which declaration an assignment changes does not depend on the sink. -/
theorem rootWithin_withSink (state : Analysis) (sink : Sink) (fuel : Nat) (target : ExprId) :
    rootWithin tree (state.withSink sink) fuel target = rootWithin tree state fuel target := by
  induction fuel generalizing target with
  | zero => rfl
  | succ fuel inductionHypothesis =>
    unfold rootWithin
    simp only [inductionHypothesis]
    rfl

theorem acts_checkPurity (place : Place) (target : ExprId) (span : Span) :
    Acts RulesChange (checkPurity tree place target span) := by
  unfold checkPurity
  split
  · exact .pure _
  · dsimp only
    split
    · exact .pure _
    · refine .read (fun state => ?_) fun state sink => ?_
      · split
        · split
          · exact .report _
          · split
            · exact .report _
            · exact .pure _
        · exact .pure _
      · simp only [root?, rootWithin_withSink]

theorem acts_checkAssign (place : Place) (target : ExprId) (span : Span) :
    Acts RulesChange (checkAssign tree place target span) := by
  refine .read (fun state => ?_) fun _ _ => rfl
  dsimp only
  split
  · exact .report _
  · exact acts_checkPurity tree ..

theorem acts_exprWithin (place : Place) (fuel : Nat) (id : ExprId) :
    Acts RulesChange (exprWithin tree place fuel id) := by
  induction fuel generalizing id with
  | zero => exact .pure _
  | succ fuel inner =>
    unfold exprWithin
    dsimp only
    split
    · exact .pure _
    · split
      · exact .pure _
      · exact .pure _
      · exact .pure _
      · exact .bind (inner _) fun _ => .read (fun _ => acts_checkAccess tree ..) fun _ _ => rfl
      · exact .bind (inner _) fun _ => .forM fun index _ => inner index
      · exact .bind (.forM fun arg _ => inner arg) fun _ =>
          .read (fun _ => acts_checkRecursion tree ..) fun _ _ => rfl
      · exact .bind (inner _) fun _ => .bind (.forM fun arg _ => inner arg) fun _ =>
          .read (fun _ => .bind (acts_checkAccess tree ..) fun _ => acts_checkRecursion tree ..)
            fun _ _ => rfl
      · exact .bind (inner _) fun _ => inner _
      · exact inner _
      · exact inner _
      · exact .bind (acts_checkCreation tree ..) fun _ => .forM fun init _ => inner init.value
      · exact .forM fun elem _ => inner elem
      · exact .forM fun elem _ => inner elem

theorem acts_expr (place : Place) (id : ExprId) : Acts RulesChange (expr tree place id) :=
  acts_exprWithin tree ..

/-! ### Statements and units -/

theorem acts_initialValue (place : Place) (id : DeclId) :
    Acts RulesChange (initialValue tree place id) :=
  .optionForM (acts_expr tree place) _

theorem acts_stmtWithin (place : Place) (fuel : Nat) (id : StmtId) :
    Acts RulesChange (stmtWithin tree place fuel id) := by
  induction fuel generalizing id with
  | zero => exact .pure _
  | succ fuel inner =>
    unfold stmtWithin
    dsimp only
    split
    · exact .pure _
    · split
      · refine .forM fun child _ => ?_
        split
        · exact inner _
        · exact .pure _
      · exact acts_initialValue tree ..
      · exact acts_expr tree ..
      · exact .bind (acts_checkAssign tree ..) fun _ => .bind (acts_expr tree ..) fun _ =>
          acts_expr tree ..
      · exact .bind (acts_expr tree ..) fun _ => .bind (inner _) fun _ => .optionForM inner _
      · exact .bind (acts_expr tree ..) fun _ => inner _
      · exact .bind (acts_expr tree ..) fun _ => .bind (acts_expr tree ..) fun _ => inner _
      · exact .bind (acts_expr tree ..) fun _ => .bind
          (.forM fun arm _ => .bind (.forM fun value _ => acts_expr tree ..) fun _ => inner _)
          fun _ => .optionForM inner _
      · exact .optionForM (acts_expr tree place) _

theorem acts_stmt (place : Place) (id : StmtId) : Acts RulesChange (stmt tree place id) :=
  acts_stmtWithin tree ..

theorem acts_callable (place : Place) (id : DeclId) :
    Acts RulesChange (callable tree place id) := by
  unfold callable
  split
  · exact .pure _
  · exact .bind (.forM fun param _ => acts_initialValue tree ..) fun _ =>
      .optionForM (acts_stmt tree _) _

theorem acts_decl (id : DeclId) : Acts RulesChange (decl tree id) := by
  unfold decl
  dsimp only
  split
  · exact acts_initialValue tree ..
  · refine .bind (acts_checkClass tree id) fun _ => ?_
    split
    · exact .pure _
    · exact .bind (.forM fun field _ => acts_initialValue tree ..) fun _ =>
        .forM fun method _ => acts_callable tree ..
  · exact acts_callable tree ..
  · exact .pure _

theorem acts_spanned {α : Type} (grain : Trace.Grain) (name : String) (parent : Nat)
    (extra : Trace.Extra) {action : Nat → AnalysisM α}
    (acts : ∀ span, Acts RulesChange (action span)) :
    Acts RulesChange (spanned grain name parent extra action) :=
  .bind (.select (fun _ _ => rfl) ⟨fun _ _ => rfl, fun _ => rfl, fun _ => rfl, fun _ => rfl⟩) fun _ =>
    .ensuring ⟨fun _ _ => rfl, fun _ => rfl, fun _ => rfl, fun _ => rfl⟩ (acts _)

theorem acts_unit (parent : Nat) (id : UnitId) : Acts RulesChange (unit tree parent id) := by
  unfold unit
  split
  · exact .pure _
  · exact acts_spanned _ _ _ _ fun _ => .bind (.forM fun id _ => acts_decl tree id) fun _ =>
      .forM fun child _ => acts_stmt tree ..

/-- A run of the rules does the same whatever its sink is. -/
theorem acts_program (parent : Nat) : Acts RulesChange (program tree parent) :=
  .read (fun _ => .forM fun id _ => acts_unit tree parent id) fun _ _ => rfl

end Rules

end TreeCheck
