/-
Name resolution is made of actions. It changes the names, the progress of units and the
classes known to be cyclic; the sink sees nothing but reports, and neither types nor the
trace are touched.
-/

import TreeCheck.Proofs.Reporting.Actions
import TreeCheck.Proofs.Tree.Parts
import TreeCheck.Resolve.Units

namespace TreeCheck

variable {tree : Tree} {change : Resolution → Resolution} {action : AnalysisM Unit}
  {resolveUnit : UnitId → AnalysisM ScopeId}

/-- A name in a written type was found to refer to a declaration of a type. -/
def Tree.NamesType (tree : Tree) (names : Resolution) (id : TypeExprId) : Prop :=
  ∃ decl kind, names.typeRefs[id]? = some decl ∧ tree.kindOf? decl = some kind ∧ kind.isTypeName

/-- A written type stands for a type: its name is that of a primitive type or refers to a type, or
it is a list or an array of what stands for one, a tuple or a union. -/
inductive Tree.Denotes (tree : Tree) (names : Resolution) : TypeExprId → Prop
  | primitive {id : TypeExprId} {written : TypeExpr} {name : NameId}
      {args : List (Option TypeExprId)} :
      tree.types.get? id = some written → written.form = .named name args →
      (TypeKind.ofBuiltin? (tree.text name)).isSome → Denotes tree names id
  | named {id : TypeExprId} {written : TypeExpr} {name : NameId} {args : List (Option TypeExprId)} :
      tree.types.get? id = some written → written.form = .named name args →
      tree.NamesType names id → Denotes tree names id
  | list {id base : TypeExprId} {written : TypeExpr} {dims : UInt8} :
      tree.types.get? id = some written → written.form = .list base dims →
      Denotes tree names base → Denotes tree names id
  | array {id base : TypeExprId} {written : TypeExpr} {dims : UInt8} :
      tree.types.get? id = some written → written.form = .array base dims →
      Denotes tree names base → Denotes tree names id
  | tuple {id : TypeExprId} {written : TypeExpr} {members : List (Option TypeExprId)} :
      tree.types.get? id = some written → written.form = .tuple members → Denotes tree names id
  | union {id : TypeExprId} {written : TypeExpr} {members : List (Option TypeExprId)} :
      tree.types.get? id = some written → written.form = .union members → Denotes tree names id

namespace Tree.Denotes

variable {tree : Tree} {names later : Resolution} {id base : TypeExprId} {written : TypeExpr}
  {dims : UInt8}

theorem mono (denotes : tree.Denotes names id)
    (more : ∀ id, tree.NamesType names id → tree.NamesType later id) : tree.Denotes later id := by
  induction denotes with
  | primitive isType form known => exact .primitive isType form known
  | named isType form known => exact .named isType form (more _ known)
  | list isType form _ inductionHypothesis => exact .list isType form inductionHypothesis
  | array isType form _ inductionHypothesis => exact .array isType form inductionHypothesis
  | tuple isType form => exact .tuple isType form
  | union isType form => exact .union isType form

theorem there (denotes : tree.Denotes names id) : ∃ written, tree.types.get? id = some written := by
  cases denotes with
  | primitive isType | named isType | list isType | array isType | tuple isType | union isType =>
    exact ⟨_, isType⟩

theorem name (denotes : tree.Denotes names id) (there : tree.types.get? id = some written)
    {name : NameId} {args : List (Option TypeExprId)} (form : written.form = .named name args) :
    (TypeKind.ofBuiltin? (tree.text name)).isSome ∨ tree.NamesType names id := by
  cases denotes with
  | primitive isType isForm known =>
    cases there.symm.trans isType
    cases form.symm.trans isForm
    exact .inl known
  | named _ _ known => exact .inr known
  | list isType isForm | array isType isForm | tuple isType isForm | union isType isForm =>
    cases there.symm.trans isType
    cases form.symm.trans isForm

theorem element (denotes : tree.Denotes names id) (there : tree.types.get? id = some written)
    (form : written.form = .list base dims ∨ written.form = .array base dims) :
    tree.Denotes names base := by
  cases denotes with
  | list isType isForm inner | array isType isForm inner =>
    cases there.symm.trans isType
    rcases form with form | form <;> cases form.symm.trans isForm
    exact inner
  | primitive isType isForm | named isType isForm | tuple isType isForm | union isType isForm =>
    cases there.symm.trans isType
    rcases form with form | form <;> cases form.symm.trans isForm

end Tree.Denotes

/-- A change that resolution makes: it leaves the sink, the types and the trace alone. A name in a
written type that was found to refer to a type goes on doing so. -/
structure ResolutionChange (tree : Tree) (change : Analysis → Analysis) : Prop where
  sinkFree : SinkFree change
  typing : ∀ state, (change state).typing = state.typing
  trace : ∀ state, (change state).trace = state.trace
  typeRefs : ∀ (state : Analysis) id, tree.NamesType state.names id →
    tree.NamesType (change state).names id

/-- Names with the same scopes and keys, and the same scopes of nodes. -/
structure Resolution.SameScopes (names other : Resolution) : Prop where
  scopes : names.scopes = other.scopes
  keys : names.keys = other.keys
  stmtScopes : names.scopeOfStmt = other.scopeOfStmt
  declScopes : names.scopeOfDecl = other.scopeOfDecl
  units : names.units = other.units
  unitOrder : names.unitOrder = other.unitOrder

/-- A change of what names refer to or of what is known about the order of classes: no scope is
touched, nor how far units have come. -/
structure ReferringChange (tree : Tree) (change : Analysis → Analysis) : Prop
    extends ResolutionChange tree change where
  names : ∀ state, (change state).names.SameScopes state.names
  progress : ∀ state, (change state).progress = state.progress

namespace Resolve

open AnalysisM

theorem acts_of_refers {α : Type} {action : AnalysisM α} (refers : Acts (ReferringChange tree) action) :
    Acts (ResolutionChange tree) action :=
  refers.mono fun _ change => change.toResolutionChange

theorem change_names
    (typeRefs : ∀ (names : Resolution) id, tree.NamesType names id → tree.NamesType (change names) id) :
    ResolutionChange tree fun state => { state with names := change state.names } :=
  ⟨fun _ _ => rfl, fun _ => rfl, fun _ => rfl, fun state => typeRefs state.names⟩

theorem acts_modifyNames
    (typeRefs : ∀ (names : Resolution) id, tree.NamesType names id → tree.NamesType (change names) id) :
    Acts (ResolutionChange tree) (modifyNames change) :=
  .modify (change_names typeRefs)

/-- The scopes may change in any way. -/
theorem acts_modifyScopes (change : ScopeTable → ScopeTable) :
    Acts (ResolutionChange tree) (modifyScopes change) :=
  .modify ⟨fun _ _ => rfl, fun _ => rfl, fun _ => rfl, fun _ _ known => known⟩

theorem refers_modifyNames
    (typeRefs : ∀ (names : Resolution) id, tree.NamesType names id → tree.NamesType (change names) id)
    (same : ∀ names, (change names).SameScopes names) : Acts (ReferringChange tree)
      (modifyNames change) :=
  .modify ⟨change_names typeRefs, fun state => same state.names, fun _ => rfl⟩

/-! ### Types -/

/-- What is noted about a name that refers to a type. -/
theorem namesType_insert {names : Resolution} {id other : TypeExprId} {decl : DeclId}
    (isType : ((tree.kindOf? decl).map DeclKind.isTypeName).getD false)
    (known : other = id ∨ tree.NamesType names other) :
    tree.NamesType { names with typeRefs := names.typeRefs.insert id decl } other := by
  by_cases same : other = id
  · cases isKind : tree.kindOf? decl with
    | none => simp [isKind] at isType
    | some kind => exact ⟨decl, kind, by simp [same], isKind, by simpa [isKind] using isType⟩
  · obtain ⟨found, kind, isRef, isKind⟩ := known.resolve_left same
    exact ⟨found, kind, by simpa [Std.TreeMap.getElem?_insert, Ne.symm same] using isRef, isKind⟩

variable (tree : Tree)

theorem refers_typeNames : Acts (ReferringChange tree) (typeNames tree) :=
  .bind .scopes fun _ => .bind .visibleNames fun _ => .pure _

/-- A name is noted only where a type was found under it. -/
theorem refers_referTo (id : TypeExprId) (span : Span) (missing : Code) (name : String) :
    Acts (ReferringChange tree) (referTo tree id span missing name) := by
  have complains : Acts (ReferringChange tree) (referTo.complain tree span missing name) :=
    .bind (refers_typeNames tree) fun _ => .bind (.report _) fun _ => .pure _
  unfold referTo
  split
  · exact .pure _
  · refine .bind (.find? _) fun found => ?_
    split
    · split
      · next isType =>
        exact .bind (refers_modifyNames (fun _ _ known => namesType_insert isType (.inr known))
          fun _ => ⟨rfl, rfl, rfl, rfl, rfl, rfl⟩) fun _ => .pure _
      · exact complains
    · exact complains

/-- The arguments of a name are resolved before the name itself. -/
theorem refers_typeWithin (fuel : Nat) (missing : Code) (id : Option TypeExprId) :
    Acts (ReferringChange tree) (typeWithin tree fuel missing id) := by
  induction fuel generalizing missing id with
  | zero => exact .pure _
  | succ fuel inductionHypothesis =>
    unfold typeWithin
    split
    · exact .pure _
    · split
      · exact .bind (.forM fun arg _ => (inductionHypothesis _ arg).discard) fun _ =>
          refers_referTo tree ..
      · exact .bind (inductionHypothesis _ _).discard fun _ => .pure _
      · exact .bind (inductionHypothesis _ _).discard fun _ => .pure _
      · exact .bind (.forM fun member _ => (inductionHypothesis _ member).discard) fun _ => .pure _
      · exact .bind (.forM fun member _ => (inductionHypothesis _ member).discard) fun _ => .pure _

theorem refers_type (id : Option TypeExprId) : Acts (ReferringChange tree) (type tree id) :=
  refers_typeWithin tree ..

theorem refers_classType (id : TypeExprId) : Acts (ReferringChange tree) (classType tree id) := by
  unfold classType
  refine .bind (refers_typeWithin tree ..) fun found => ?_
  split
  · exact .pure _
  · split
    · exact .error ..
    · exact .pure _

/-! ### Expressions -/

theorem refers_use {tree : Tree} (id : ExprId) (decl : DeclId) : Acts (ReferringChange tree)
    (use id decl) :=
  refers_modifyNames (fun _ _ known => known) fun _ => ⟨rfl, rfl, rfl, rfl, rfl, rfl⟩

theorem refers_nameUse (place : Place) (id : ExprId) (span : Span) (name : NameId) :
    Acts (ReferringChange tree) (nameUse tree place id span name) := by
  unfold nameUse
  dsimp only
  split
  · exact .error ..
  · refine .bind (.find? _) fun found => ?_
    split
    · exact refers_use ..
    · exact .bind .visibleNames fun _ => .report _

theorem refers_ownField (id : ExprId) (span : Span) (owner : DeclId) (name : String) :
    Acts (ReferringChange tree) (ownField tree id span owner name) := by
  refine .read (fun state => ?_) fun _ _ => rfl
  dsimp only
  split
  · exact refers_use ..
  · exact .report _

theorem refers_enumField (id : ExprId) (span : Span) (enum : DeclId) (name : String) :
    Acts (ReferringChange tree) (enumField tree id span enum name) := by
  unfold enumField
  split
  · exact .pure _
  · split
    · exact refers_use ..
    · exact .report _

theorem refers_fieldUse (place : Place) (id : ExprId) (span : Span) (receiver : ExprId)
    (name : String) : Acts (ReferringChange tree) (fieldUse tree place id span receiver name) := by
  unfold fieldUse
  split
  · split
    · exact refers_ownField tree ..
    · exact .pure _
  · refine .read (fun state => ?_) fun _ _ => rfl
    split
    · exact refers_enumField tree ..
    · exact .pure _
  · exact .pure _

theorem refers_callUse {tree : Tree} (place : Place) (id : ExprId) (span : Span) (name : String) :
    Acts (ReferringChange tree) (callUse place id span name) := by
  refine .read (fun state => ?_) fun _ _ => rfl
  dsimp only
  split
  · exact .bind .visibleNames fun _ => .report _
  · exact refers_use ..
  · exact .pure _

theorem refers_methodUse (place : Place) (id : ExprId) (span : Span) (receiver : ExprId)
    (name : String) : Acts (ReferringChange tree) (methodUse tree place id span receiver name) := by
  unfold methodUse
  split
  · exact .pure _
  · split
    · refine .read (fun state => ?_) fun _ _ => rfl
      split
      · exact .report _
      · exact refers_use ..
      · exact .pure _
    · exact .pure _

theorem refers_exprWithin (place : Place) (fuel : Nat) (id : ExprId) :
    Acts (ReferringChange tree) (exprWithin tree place fuel id) := by
  induction fuel generalizing id with
  | zero => exact .pure _
  | succ fuel inner =>
    have all (ids : List ExprId) :
        Acts (ReferringChange tree) (ids.forM (exprWithin tree place fuel)) :=
      .forM fun id _ => inner id
    unfold exprWithin
    dsimp only
    split
    · exact .pure _
    · split
      · exact .pure _
      · exact refers_nameUse tree ..
      · split
        · exact .error ..
        · exact refers_use ..
      · exact .bind (inner _) fun _ => refers_fieldUse tree ..
      · exact .bind (inner _) fun _ => all _
      · exact .bind (.forM fun arg _ => (refers_type tree arg).discard) fun _ =>
          .bind (all _) fun _ => refers_callUse ..
      · exact .bind (inner _) fun _ => .bind (all _) fun _ => refers_methodUse tree ..
      · exact .bind (inner _) fun _ => inner _
      · exact inner _
      · exact .bind (refers_type tree _).discard fun _ => inner _
      · exact .bind (refers_classType tree _) fun _ => .forM fun init _ => inner init.value
      · exact .bind (refers_type tree _).discard fun _ => all _
      · exact all _

theorem refers_expr (place : Place) (id : ExprId) : Acts (ReferringChange tree) (expr tree place id) :=
  refers_exprWithin tree ..

theorem acts_type (id : Option TypeExprId) : Acts (ResolutionChange tree) (type tree id) :=
  acts_of_refers (refers_type tree id)

theorem acts_expr (place : Place) (id : ExprId) : Acts (ResolutionChange tree) (expr tree place id) :=
  acts_of_refers (refers_expr tree place id)

/-! ### Variables -/

/-- A clash is reported and binds nothing. -/
theorem acts_bind (key : Key) (id : DeclId) : Acts (ResolutionChange tree)
    (Resolve.bind tree key id) := by
  refine .bind .scopes fun table => ?_
  split
  · exact acts_modifyNames fun _ _ known => known
  · dsimp only
    split
    · exact .report _
    · exact .report _

theorem acts_bindName (id : DeclId) : Acts (ResolutionChange tree) (bindName tree id) :=
    acts_bind tree ..

/-- What a name hides is read off, and nothing is changed. -/
theorem acts_hidden? (name : String) : Acts (ResolutionChange tree) (hidden? tree name) := by
  refine .bind .scopes fun table => ?_
  dsimp only
  split
  · exact .pure _
  · exact .pure _

theorem acts_bindVariable (id : DeclId) (decl : Decl) :
    Acts (ResolutionChange tree) (bindVariable tree id decl) := by
  refine .bind .scopes fun table => ?_
  dsimp only
  split
  · exact .report _
  · split
    · refine .bind (acts_hidden? tree _) fun hides => ?_
      split
      · exact .report _
      · exact acts_bind tree ..
    · exact acts_bind tree ..

theorem acts_declareVariable (place : Place) (id : DeclId) :
    Acts (ResolutionChange tree) (declareVariable tree place id) := by
  unfold declareVariable
  split
  · exact .pure _
  · refine .bind (acts_type tree _).discard fun _ => ?_
    dsimp only
    split
    · exact .bind (acts_expr tree ..) fun _ => acts_bindVariable tree ..
    · exact acts_bindVariable tree ..

/-! ### Statements -/

theorem acts_openFor {tree : Tree} (kind : ScopeKind) (id : StmtId) (span : Span) :
    Acts (ResolutionChange tree) (openFor kind id span) :=
  acts_modifyNames fun _ _ known => known

theorem acts_close {tree : Tree} : Acts (ResolutionChange tree) close := acts_modifyScopes _

/-- What holds of doing nothing, and of two actions one after the other if it holds of both. -/
structure Composes (good : AnalysisM Unit → Prop) : Prop where
  pure : good (pure ())
  andThen : ∀ {first second : AnalysisM Unit}, good first → good second →
    good (first >>= fun _ => second)

namespace Composes

variable {tree : Tree} {good : AnalysisM Unit → Prop} {α : Type} {actions : α → AnalysisM Unit}
  (composes : Composes good)

include composes

theorem forM {items : List α} (each : ∀ item ∈ items, good (actions item)) : good
    (items.forM actions) := by
  induction items with
  | nil => exact composes.pure
  | cons item rest inductionHypothesis =>
    exact composes.andThen (each item (.head _))
      (inductionHypothesis fun other member => each other (.tail _ member))

theorem optionForM (each : ∀ value, good (actions value)) (item : Option α) : good
    (item.forM actions) := by
  cases item with
  | none => exact composes.pure
  | some value => exact each value

variable {place : Place} (values : ∀ id, good (expr tree place id))
  (opens : ∀ kind id span, good (openFor kind id span)) (closes : good close)

include opens closes

theorem inOwnScope {walk : StmtId → AnalysisM Unit} (each : ∀ id, good (walk id)) (id : StmtId) :
    good (inOwnScope tree walk id) := by
  unfold Resolve.inOwnScope
  split
  · exact composes.pure
  · split
    · exact each id
    · exact composes.andThen (opens ..) (composes.andThen (each id) closes)

include values

/-- What holds of the parts of statements holds of walking through them. -/
theorem stmtWithin (declares : ∀ (id : StmtId) (decl : DeclId),
      .decl .localVar decl ∈ tree.parts (.stmt id) → good (declareVariable tree place decl))
    (fuel : Nat) (id : StmtId) : good (stmtWithin tree place fuel id) := by
  induction fuel generalizing id with
  | zero => exact composes.pure
  | succ fuel inner =>
    have own (id : StmtId) : good (Resolve.inOwnScope tree (Resolve.stmtWithin tree place fuel) id) :=
      composes.inOwnScope opens closes inner id
    unfold Resolve.stmtWithin
    dsimp only
    cases found : tree.stmts.get? id with
    | none => exact composes.pure
    | some stmt =>
      have declares {decl : DeclId} (member : .decl .localVar decl ∈ stmt.form.parts) :
          good (declareVariable tree place decl) :=
        declares id decl (by simpa [Tree.parts, found] using member)
      dsimp only
      cases form : stmt.form with
      | block stmts =>
        refine composes.andThen (opens ..) (composes.andThen (composes.forM fun child _ => ?_) closes)
        split
        · exact inner _
        · exact composes.pure
      | decl decl => exact declares (by simp [form, StmtForm.parts])
      | expr _ => exact values _
      | assign _ _ => exact composes.andThen (values _) (values _)
      | branch _ _ _ =>
        exact composes.andThen (values _) (composes.andThen (own _) (composes.optionForM own _))
      | whileLoop _ _ => exact composes.andThen (values _) (own _)
      | forLoop counter _ _ _ =>
        exact composes.andThen (values _) <| composes.andThen (values _) <| composes.andThen
          (opens ..) <|
          composes.andThen (declares (by simp [form, StmtForm.parts])) <| composes.andThen (own _) closes
      | case _ _ _ =>
        exact composes.andThen (values _) <| composes.andThen
          (composes.forM fun arm _ => composes.andThen (composes.forM fun _ _ => values _) (own _))
          (composes.optionForM own _)
      | ret _ => exact composes.optionForM values _

end Composes

theorem acts_stmtWithin (place : Place) (fuel : Nat) (id : StmtId) :
    Acts (ResolutionChange tree) (stmtWithin tree place fuel id) :=
  Composes.stmtWithin ⟨.pure _, fun first second => .bind first fun _ => second⟩ (acts_expr tree place)
    (fun _ _ _ => acts_openFor ..) acts_close (fun _ _ _ => acts_declareVariable tree ..) fuel id

theorem acts_stmt (place : Place) (id : StmtId) : Acts (ResolutionChange tree) (stmt tree place id) :=
  acts_stmtWithin tree ..

/-! ### Declarations that open scopes -/

theorem acts_declareEnum (place : Place) (id : DeclId) :
    Acts (ResolutionChange tree) (declareEnum tree place id) := by
  refine .bind (acts_bindName tree id) fun _ => ?_
  split
  · exact .forM fun const _ => acts_declareVariable tree place const
  · exact .pure _

theorem acts_declareCallable (id : DeclId) : Acts (ResolutionChange tree) (declareCallable tree id) := by
  unfold declareCallable
  split
  · exact .pure _
  · exact .bind .scopes fun _ => acts_bind tree ..

/-- The close at the end is deferred: it happens after a raise as well. -/
theorem acts_inDeclScope {tree : Tree} (kind : ScopeKind) (id : DeclId) (span : Span)
    (acts : Acts (ResolutionChange tree) action) :
    Acts (ResolutionChange tree) (inDeclScope kind id span action) :=
  .bind (acts_modifyNames fun _ _ known => known) fun _ =>
    .ensuring ⟨fun _ _ => rfl, fun _ => rfl, fun _ => rfl, fun _ _ known => known⟩ acts

theorem acts_callableBody (place : Place) (id : DeclId) :
    Acts (ResolutionChange tree) (callableBody tree place id) := by
  unfold callableBody
  split
  · refine acts_inDeclScope _ _ _ ?_
    refine .bind (.forM fun param _ => acts_bindName tree param) fun _ =>
      .bind (acts_type tree _).discard fun _ =>
        .bind (.forM fun param _ => acts_declareVariable tree _ param) fun _ =>
          .optionForM (fun body => .forM fun child _ => ?_) _
    split
    · exact acts_stmt tree ..
    · exact .pure _
  · exact .pure _

/-- An inherited field is bound, or clashes with one of the class. -/
theorem acts_inheritField (span : Span) (key : Key) (field : DeclId) :
    Acts (ResolutionChange tree) (inheritField tree span key field) := by
  refine .bind .scopes fun table => ?_
  split
  · exact acts_modifyScopes _
  · exact .report _
  · exact .pure _

theorem acts_inheritFields (span : Span) (base : DeclId) :
    Acts (ResolutionChange tree) (inheritFields tree span base) := by
  refine .read (fun state => ?_) fun _ _ => rfl
  dsimp only
  split
  · exact .pure _
  · refine .forM fun key _ => ?_
    split
    · split
      · exact acts_inheritField tree ..
      · exact .pure _
    · exact .pure _

/-- A base is resolved before what it passes on is bound. -/
theorem acts_resolveBase (id : DeclId) (decl : Decl) (base : TypeExprId) :
    Acts (ResolutionChange tree) (resolveBase tree id decl base) := by
  refine .bind (acts_type tree _) fun found => ?_
  split
  · exact .pure _
  · split
    · exact .error ..
    · refine .read (fun state => ?_) fun _ _ => rfl
      split
      · exact .pure _
      · exact .bind (acts_modifyNames fun _ _ known => known) fun _ => acts_inheritFields tree ..

theorem acts_resolveClass (place : Place) (id : DeclId) :
    Acts (ResolutionChange tree) (resolveClass tree place id) := by
  unfold resolveClass
  split
  · refine acts_inDeclScope _ _ _ ?_
    exact .bind (.forM fun param _ => acts_bindName tree param) fun _ =>
      .bind (.optionForM (acts_resolveBase tree id _) _) fun _ =>
        .bind (.forM fun field _ => acts_declareVariable tree _ field) fun _ =>
          .bind (.forM fun method _ => acts_declareCallable tree method) fun _ =>
            .forM fun method _ => acts_callableBody tree _ method
  · exact .pure _

/-! ### Order of classes -/

theorem refers_baseCandidate? (id : DeclId) : Acts (ReferringChange tree) (baseCandidate? tree id) := by
  unfold baseCandidate?
  split
  · split
    · exact .find? _
    · exact .pure _
  · exact .pure _

theorem refers_reportCyclic (id : DeclId) : Acts (ReferringChange tree) (reportCyclic tree id) := by
  refine .read (fun state => ?_) fun _ _ => rfl
  split
  · exact .pure _
  · exact .bind (.modify ⟨⟨fun _ _ => rfl, fun _ => rfl, fun _ => rfl, fun _ _ known => known⟩,
      fun _ => ⟨rfl, rfl, rfl, rfl, rfl, rfl⟩, fun _ => rfl⟩) fun _ => .error ..

/-- A class on the way is reported as cyclic, one that is done is left alone. -/
theorem refers_visitWithin (classes : List DeclId) (fuel : Nat) (visit : ClassVisit) (id : DeclId) :
    Acts (ReferringChange tree) (visitWithin tree classes fuel visit id) := by
  induction fuel generalizing visit id with
  | zero => exact .pure _
  | succ fuel inductionHypothesis =>
    unfold visitWithin
    split
    · exact .pure _
    · exact .bind (refers_reportCyclic tree id) fun _ => .pure _
    · refine .bind (refers_baseCandidate? tree id) fun base => ?_
      dsimp only
      split
      · split
        · exact .bind (inductionHypothesis ..) fun _ => .pure _
        · exact .bind (.pure _) fun _ => .pure _
      · exact .bind (.pure _) fun _ => .pure _

theorem refers_classOrder (classes : List DeclId) :
    Acts (ReferringChange tree) (classOrder tree classes) :=
  .bind (.foldlM (refers_visitWithin tree classes _) _ _) fun _ =>
    .bind (refers_modifyNames (fun _ _ known => known) fun _ => ⟨rfl, rfl, rfl, rfl, rfl, rfl⟩)
      fun _ => .pure _

/-! ### Units and programs -/

theorem acts_ensureGlobal (unit : UnitId) : Acts (ResolutionChange tree) (ensureGlobal tree unit) := by
  refine .read (fun state => ?_) fun _ _ => rfl
  split
  · exact .pure _
  · exact .bind .scopes fun _ => .bind (acts_modifyNames fun _ _ known => known) fun _ => .pure _

theorem acts_setProgress {tree : Tree} (unit : UnitId) (progress : UnitProgress) :
    Acts (ResolutionChange tree) (setProgress unit progress) :=
  .modify ⟨fun _ _ => rfl, fun _ => rfl, fun _ => rfl, fun _ _ known => known⟩

theorem acts_finishUnit {tree : Tree} (unit : UnitId) : Acts (ResolutionChange tree) (finishUnit unit) :=
  .bind (acts_setProgress ..) fun _ => acts_modifyNames fun _ _ known => known

/-- An import resolves the unit first and links its scope afterwards. -/
theorem acts_importUnit (acts : ∀ unit, Acts (ResolutionChange tree) (resolveUnit unit)) (unit : UnitId)
    (id : DeclId) : Acts (ResolutionChange tree) (importUnit tree resolveUnit unit id) := by
  unfold importUnit
  split
  · refine .bind (acts_modifyNames fun _ _ known => known) fun _ => ?_
    split
    · exact .error ..
    · refine .read (fun state => ?_) fun _ _ => rfl
      split
      · exact .error ..
      · refine .bind (acts _) fun _ => acts_modifyNames fun names id known => ?_
        split
        · exact known
        · exact known
  · exact .pure _

theorem acts_unitDeclarations (unit : ProgramUnit) :
    Acts (ResolutionChange tree) (unitDeclarations tree unit) :=
  .bind (.forM fun enum _ => acts_declareEnum tree _ enum) fun _ =>
  .bind (.forM fun decl _ => acts_bindName tree decl) fun _ =>
  .bind (.forM fun function _ => acts_declareCallable tree function) fun _ =>
  .bind (.optionForM (acts_declareCallable tree) _) fun _ =>
  .forM fun global _ => acts_declareVariable tree _ global

theorem acts_unitClasses (unit : ProgramUnit) : Acts (ResolutionChange tree) (unitClasses tree unit) :=
  .bind (acts_of_refers (refers_classOrder tree _)) fun _ => .forM fun decl _ =>
    acts_resolveClass tree _ decl

theorem acts_unitBodies (unit : ProgramUnit) : Acts (ResolutionChange tree) (unitBodies tree unit) :=
  .bind (.forM fun function _ => acts_callableBody tree _ function) fun _ =>
  .bind (.optionForM (acts_callableBody tree _) _) fun _ =>
  .forM fun child _ => acts_stmt tree _ child

theorem acts_unitContents (acts : ∀ unit, Acts (ResolutionChange tree) (resolveUnit unit)) (id : UnitId)
    (unit : ProgramUnit) : Acts (ResolutionChange tree) (unitContents tree resolveUnit id unit) :=
  .bind (.forM fun decl _ => acts_importUnit tree acts id decl) fun _ =>
  .bind (acts_unitDeclarations tree unit) fun _ =>
  .bind (acts_unitClasses tree unit) fun _ => acts_unitBodies tree unit

/-- A unit on the way is not entered again. -/
theorem acts_unitWithin (fuel : Nat) (id : UnitId) :
    Acts (ResolutionChange tree) (unitWithin tree fuel id) := by
  induction fuel generalizing id with
  | zero => exact .pure _
  | succ fuel inductionHypothesis =>
    unfold unitWithin
    refine .read (fun state => ?_) fun _ _ => rfl
    split
    · exact .read (fun _ => .pure _) fun _ _ => rfl
    · split
      · exact .pure _
      · exact .bind (acts_setProgress ..) fun _ => .bind (acts_ensureGlobal tree id) fun global =>
          .bind (.within global (.bind (acts_unitContents tree inductionHypothesis ..) fun _ =>
            acts_finishUnit id)) fun _ => .pure _

/-- A run of name resolution does the same whatever its sink is. -/
theorem acts_program (root : UnitId) (checked : Bool) :
    Acts (ResolutionChange tree) (program tree root checked) := by
  refine .bind (acts_unitWithin tree ..).discard fun _ => ?_
  split
  · refine .bind .scopes fun table => ?_
    split
    · exact .pure _
    · exact .report _
  · exact .pure _

/-! ### Submissions -/

theorem acts_atTopLevel (unit : UnitId) (acts : Acts (ResolutionChange tree) action) :
    Acts (ResolutionChange tree) (atTopLevel tree unit action) := by
  refine .bind (acts_ensureGlobal tree unit) fun global => .read (fun state => ?_) fun _ _ => rfl
  split
  · exact .bind (acts_finishUnit unit) fun _ => .within global acts
  · exact .within global acts

theorem acts_submitDecl (unit : UnitId) (id : DeclId) :
    Acts (ResolutionChange tree) (submitDecl tree unit id) := by
  unfold submitDecl
  dsimp only
  split
  · exact .pure _
  · refine acts_atTopLevel tree unit ?_
    split
    · exact acts_importUnit tree (acts_unitWithin tree _) unit id
    · exact acts_declareEnum tree _ id
    · exact acts_declareVariable tree _ id
    · exact .bind (acts_bindName tree id) fun _ =>
        .bind (acts_modifyNames fun _ _ known => known) fun _ =>
        acts_resolveClass tree _ id
    · exact .bind (acts_declareCallable tree id) fun _ => acts_callableBody tree _ id
    · exact .pure _

theorem acts_submitStmt (unit : UnitId) (id : StmtId) :
    Acts (ResolutionChange tree) (submitStmt tree unit id) := by
  unfold submitStmt
  split
  · exact .pure _
  · exact acts_atTopLevel tree unit (acts_stmt tree _ id)

end Resolve

end TreeCheck
