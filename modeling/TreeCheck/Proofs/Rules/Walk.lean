/-
What the walk of the rules reports. `Reports` says of an action that it runs to its end
whatever the sink makes of reports, as long as none raises, and that the faults of bodies
it reports are those of a list, in some order. Actions one after the other report the
lists one after the other, so each function of the walk is taken apart as it is written
down; what it reports is the list of faults of the nodes below the one it is called on,
because it comes to all of them that can have any.
-/

import TreeCheck.Proofs.Reporting.Rules
import TreeCheck.Proofs.Rules.Classes
import TreeCheck.Proofs.Rules.Faults
import TreeCheck.Proofs.Tree.Loading

namespace TreeCheck

open TreeCheck.Tree

/-- Another state has the names and the targets of expressions that a state has. -/
structure Analysis.Agrees (state current : Analysis) : Prop where
  names : current.names = state.names
  targets : current.typing.targets = state.typing.targets

namespace Rules

/-! ### Actions and what they report -/

/-- An action runs to its end and makes the reports of a list, whatever the sink makes of them, as
long as it does not raise. -/
def Delivers (state : Analysis) (action : AnalysisM Unit) (reports : List Diagnostic) : Prop :=
  ∀ current, state.Agrees current → current.sink.Quiet →
    ∃ after, action current = .ok () after ∧ state.Agrees after ∧
      after.sink = current.sink.reportAll reports

namespace Delivers

variable {state : Analysis} {action : AnalysisM Unit} {reports : List Diagnostic}

theorem pure : Delivers state (pure ()) [] :=
  fun current agrees _ => ⟨current, rfl, agrees, rfl⟩

theorem bind {next : Unit → AnalysisM Unit} {later : List Diagnostic}
    (first : Delivers state action reports) (second : Delivers state (next ()) later) :
    Delivers state (action >>= next) (reports ++ later) := by
  intro current agrees quiet
  obtain ⟨middle, ends, agrees, sink⟩ := first current agrees quiet
  obtain ⟨after, ends', agrees, sink'⟩ :=
    second middle agrees (sink ▸ Sink.reportAll_quiet quiet reports)
  refine ⟨after, ?_, agrees, by rw [sink', sink, Sink.reportAll_append]⟩
  show EStateM.bind action next current = _
  rw [EStateM.bind, ends]
  exact ends'

/-- What is read is what the walk leaves alone. -/
theorem read {next : Analysis → AnalysisM Unit}
    (blind : ∀ current, state.Agrees current → next current = next state)
    (delivers : Delivers state (next state) reports) : Delivers state (get >>= next) reports := by
  intro current agrees quiet
  obtain ⟨after, ends, rest⟩ := delivers current agrees quiet
  exact ⟨after, (congrFun (blind current agrees) current).trans ends, rest⟩

theorem report (diagnostic : Diagnostic) :
    Delivers state (AnalysisM.report diagnostic) [diagnostic] := by
  intro current agrees quiet
  refine ⟨{ current with sink := (current.sink.report diagnostic).1 }, ?_, ⟨agrees.1, agrees.2⟩, rfl⟩
  unfold AnalysisM.report
  dsimp only
  rw [(Sink.report_quiet quiet diagnostic).1]

theorem modify {change : Analysis → Analysis}
    (leaves : ∀ current, state.Agrees current → state.Agrees (change current))
    (sink : ∀ current, (change current).sink = current.sink) :
    Delivers state (modify change) [] :=
  fun current agrees _ => ⟨change current, rfl, leaves current agrees, sink current⟩

theorem forM {α : Type} {actions : α → AnalysisM Unit} {each : α → List Diagnostic} {items : List α}
    (delivers : ∀ item ∈ items, Delivers state (actions item) (each item)) :
    Delivers state (items.forM actions) (items.flatMap each) := by
  induction items with
  | nil => exact pure
  | cons item rest inductionHypothesis =>
    rw [List.flatMap_cons]
    exact bind (delivers item (.head _))
      (inductionHypothesis fun other member => delivers other (.tail _ member))

/-- A report that is made under a condition. -/
theorem reportIf {condition : Prop} [Decidable condition] (diagnostic : Diagnostic) :
    Delivers state (if condition then AnalysisM.report diagnostic else Pure.pure ())
      (if condition then [diagnostic] else []) := by
  split
  · exact .report diagnostic
  · exact .pure

theorem spanned (grain : Trace.Grain) (name : String) (parent : Nat) (extra : Trace.Extra)
    (delivers : Delivers state action reports) :
    Delivers state (AnalysisM.spanned grain name parent extra fun _ => action) reports := by
  intro current agrees quiet
  let started : Analysis := { current with trace := (current.trace.start grain name parent).2 }
  let span := extra.foldl (fun span entry => span.withExtra entry.1 entry.2)
    (current.trace.start grain name parent).1
  obtain ⟨after, ends, agrees, sink⟩ := delivers started ⟨agrees.names, agrees.targets⟩ quiet
  refine ⟨{ after with trace := after.trace.finish span "" }, ?_,
    ⟨agrees.names, agrees.targets⟩, sink⟩
  show AnalysisM.ensuring (fun state => { state with trace := state.trace.finish span "" }) action
    started = _
  rw [AnalysisM.ensuring, ends]

end Delivers

/-- An action runs to its end and reports, of the faults of bodies, those in a list. -/
structure Reports (state : Analysis) (action : AnalysisM Unit) (found : List Diagnostic) : Prop where
  runs : ∃ reports : List Diagnostic, (reports.filter (·.code ∈ bodyCodes)).Perm found ∧
    Delivers state action reports

namespace Reports

variable {state : Analysis} {action : AnalysisM Unit} {found : List Diagnostic}

theorem perm {other : List Diagnostic} (reports : Reports state action found)
    (same : found.Perm other) : Reports state action other := by
  obtain ⟨all, isFound, runs⟩ := reports.runs
  exact ⟨all, isFound.trans same, runs⟩

theorem pure : Reports state (pure ()) [] := ⟨[], .refl _, .pure⟩

theorem bind {next : Unit → AnalysisM Unit} {later : List Diagnostic}
    (first : Reports state action found) (second : Reports state (next ()) later) :
    Reports state (action >>= next) (found ++ later) := by
  obtain ⟨all, isFound, runs⟩ := first.runs
  obtain ⟨rest, isLater, runsOn⟩ := second.runs
  exact ⟨all ++ rest, by rw [List.filter_append]; exact isFound.append isLater, runs.bind runsOn⟩

theorem read {next : Analysis → AnalysisM Unit}
    (blind : ∀ current, state.Agrees current → next current = next state)
    (reports : Reports state (next state) found) : Reports state (get >>= next) found := by
  obtain ⟨all, isFound, runs⟩ := reports.runs
  exact ⟨all, isFound, .read blind runs⟩

theorem report (diagnostic : Diagnostic) :
    Reports state (AnalysisM.report diagnostic) ([diagnostic].filter (·.code ∈ bodyCodes)) :=
  ⟨[diagnostic], .refl _, .report diagnostic⟩

/-- A report about a body. -/
theorem own {diagnostic : Diagnostic} (code : Code) (isCode : diagnostic.code = code)
    (bodily : code ∈ bodyCodes) : Reports state (AnalysisM.report diagnostic) [diagnostic] := by
  rw [← isCode] at bodily
  have reports := @report state diagnostic
  rwa [List.filter_cons_of_pos (by simpa using bodily), List.filter_nil] at reports

theorem forM {α : Type} {actions : α → AnalysisM Unit} {each : α → List Diagnostic} {items : List α}
    (reports : ∀ item ∈ items, Reports state (actions item) (each item)) :
    Reports state (items.forM actions) (items.flatMap each) := by
  induction items with
  | nil => exact pure
  | cons item rest inductionHypothesis =>
    rw [List.flatMap_cons]
    exact bind (reports item (.head _))
      (inductionHypothesis fun other member => reports other (.tail _ member))

theorem append {α : Type} {actions : α → AnalysisM Unit} {items others : List α}
    {later : List Diagnostic} (first : Reports state (items.forM actions) found)
    (second : Reports state (others.forM actions) later) :
    Reports state ((items ++ others).forM actions) (found ++ later) := by
  have split : (items ++ others).forM actions =
      items.forM actions >>= fun _ => others.forM actions := List.forM_append
  rw [split]
  exact bind first second

/-- Actions that report no faults of bodies, one for each item. -/
theorem forMSome {α : Type} {actions : Option α → AnalysisM Unit} {each : α → List Diagnostic}
    {items : List (Option α)} (skips : actions none = Pure.pure ())
    (reports : ∀ item, some item ∈ items → Reports state (actions (some item)) (each item)) :
    Reports state (items.forM actions) (items.flatMap fun item => item.toList.flatMap each) := by
  refine forM fun item member => ?_
  cases item with
  | none => exact skips ▸ pure
  | some value =>
    rw [Option.toList_some, List.flatMap_singleton]
    exact reports value member

theorem optionForM {α : Type} {actions : α → AnalysisM Unit} {each : α → List Diagnostic}
    {item : Option α} (reports : ∀ value ∈ item, Reports state (actions value) (each value)) :
    Reports state (item.forM actions) (item.toList.flatMap each) := by
  cases item with
  | none => exact pure
  | some value =>
    rw [Option.toList_some, List.flatMap_singleton]
    exact reports value rfl

theorem spanned (grain : Trace.Grain) (name : String) (parent : Nat) (extra : Trace.Extra)
    (reports : Reports state action found) :
    Reports state (AnalysisM.spanned grain name parent extra fun _ => action) found := by
  obtain ⟨all, isFound, runs⟩ := reports.runs
  exact ⟨all, isFound, runs.spanned grain name parent extra⟩

end Reports

variable {tree : Tree} {loose : List Node} {state : Analysis} {place : Place} {id : DeclId}

/-! ### Classes -/

theorem delivers_checkBase (id : DeclId) (decl : Decl) (base : DeclId) :
    Delivers state (checkBase tree id decl base) (baseFindings tree id decl base) := by
  unfold checkBase baseFindings
  cases tree.decls.get? base with
  | none => exact .pure
  | some baseDecl =>
    dsimp only
    split
    · exact .bind (.report _) (.reportIf _)
    · exact .reportIf _

theorem delivers_checkOverride (owner method : DeclId) (decl : Decl) :
    Delivers state (checkOverride tree owner method decl)
      (overrideFindings tree state.names owner method decl) := by
  refine .read (fun current agrees => by rw [agrees.names]) ?_
  unfold overrideFindings
  cases state.names.overridden? method owner with
  | none => exact .pure
  | some inherited =>
    have noted : Delivers state (AnalysisM.modifyTyping fun typing =>
        { typing with overrides := typing.overrides.insert method inherited }) [] :=
      .modify (fun _ agrees => ⟨agrees.names, agrees.targets⟩) fun _ => rfl
    refine noted.bind ?_
    rw [Option.bind_some]
    cases tree.decls.get? inherited with
    | none => exact .pure
    | some _ => exact .reportIf _

theorem delivers_checkMethod (owner : DeclId) (isAbstract : Bool) (method : DeclId) :
    Delivers state (checkMethod tree owner isAbstract method)
      (methodFindings tree state.names owner isAbstract method) := by
  unfold checkMethod methodFindings
  cases tree.decls.get? method with
  | none => exact .pure
  | some decl => exact (delivers_checkOverride owner method decl).bind (.reportIf _)

/-- The check of a class reports what is wrong with it, in order. -/
theorem delivers_checkClass (id : DeclId) :
    Delivers state (checkClass tree id) (classFindings tree state.names id) := by
  unfold checkClass classFindings
  cases tree.decls.get? id with
  | none => exact .pure
  | some decl =>
    cases tree.classBody? id with
    | none => exact .pure
    | some body =>
    dsimp only
    refine .read (fun current agrees => by rw [agrees.names]) ?_
    have bases : Delivers state (state.names.bases[id]?.forM (checkBase tree id decl))
        (state.names.bases[id]?.toList.flatMap (baseFindings tree id decl)) := by
      cases state.names.bases[id]? with
      | none => exact .pure
      | some base =>
        rw [Option.toList_some, List.flatMap_singleton]
        exact delivers_checkBase id decl base
    have methods : Delivers state
        (body.methods.forM (checkMethod tree id (decl.mods.has .isAbstract))) _ :=
      .forM fun method _ => delivers_checkMethod id (decl.mods.has .isAbstract) method
    rw [List.append_assoc]
    refine bases.bind (methods.bind ?_)
    split
    · refine .read (fun current agrees => by rw [agrees.names]) ?_
      unfold missingFindings
      cases unimplemented tree state.names id with
      | nil => exact .pure
      | cons first rest => exact .report _
    · exact .pure

theorem reports_checkClass (isClass : tree.kindOf? id = some .classDecl) :
    Reports state (checkClass tree id) [] := by
  refine ⟨_, .of_eq (List.filter_eq_nil_iff.mpr fun diagnostic member => ?_), delivers_checkClass id⟩
  have isCode := (isError_classFindings isClass diagnostic member).2
  have apart : ∀ code ∈ classCodes, code ∉ bodyCodes := by decide
  simpa using apart _ isCode

/-! ### Expressions -/

theorem target?_eq {current : Analysis} (agrees : state.Agrees current) (id : ExprId) :
    target? current id = target? state id := by
  rw [target?, target?, agrees.names, agrees.targets]

theorem assigned?_eq {current : Analysis} (agrees : state.Agrees current) (target : ExprId) :
    assigned? tree current target = assigned? tree state target := by
  unfold assigned?
  simp only [target?_eq agrees]

theorem root?_eq {current : Analysis} (agrees : state.Agrees current) (target : ExprId) :
    root? tree current target = root? tree state target := by
  have within (fuel : Nat) (id : ExprId) :
      rootWithin tree current fuel id = rootWithin tree state fuel id := by
    induction fuel generalizing id with
    | zero => rfl
    | succ fuel inductionHypothesis =>
      unfold rootWithin
      simp only [inductionHypothesis, target?_eq agrees, agrees.names]
  exact within _ _

theorem reports_checkAccess (place : Place) (receiver : ExprId) (member : Option DeclId)
    (span : Span) : Reports state (checkAccess tree place receiver member span)
      (accessFindings tree place receiver member span) := by
  unfold checkAccess accessFindings
  cases member with
  | none => exact .pure
  | some id =>
    rw [Option.bind_some]
    cases tree.decls.get? id with
    | none => exact .pure
    | some decl =>
      dsimp only
      split_ifs
      · exact .pure
      · exact .pure
      · exact .pure
      · exact .own .privateAccess rfl (by decide)

theorem reports_checkRecursion (place : Place) (callee : Option DeclId) (span : Span) :
    Reports state (checkRecursion tree place callee span)
      (recursionFindings tree place callee span) := by
  unfold checkRecursion recursionFindings
  cases place.callable with
  | none => exact .pure
  | some callable =>
    dsimp only
    split_ifs
    · exact .pure
    · exact .own .recursion rfl (by decide)

theorem reports_checkCreation (created : TypeExprId) (span : Span) :
    Reports state (checkCreation tree created span)
      (creationFindings tree state created span) := by
  refine .read (fun current agrees => by rw [agrees.names]) ?_
  unfold creationFindings
  cases state.names.typeRefs[created]? with
  | none => exact .pure
  | some id =>
    dsimp only
    split_ifs
    · exact .own .abstractInstantiation rfl (by decide)
    · exact .pure

theorem reports_checkPurity (place : Place) (target : ExprId) (span : Span) :
    Reports state (checkPurity tree place target span)
      (purityFindings tree state place target span) := by
  unfold checkPurity purityFindings
  cases place.callable with
  | none => exact .pure
  | some callable =>
    dsimp only
    split_ifs
    · exact .pure
    · refine .read (fun current agrees => by simp only [root?_eq agrees]) ?_
      cases root? tree state target with
      | none => exact .pure
      | some id =>
        rw [Option.bind_some]
        cases tree.decls.get? id with
        | none => exact .pure
        | some decl =>
          dsimp only
          split_ifs
          · exact .own .pureSideEffect rfl (by decide)
          · exact .own .pureSideEffect rfl (by decide)
          · exact .pure

theorem reports_checkAssign (place : Place) (target : ExprId) (span : Span) :
    Reports state (checkAssign tree place target span)
      (assignFindings tree state place target span) := by
  refine .read (fun current agrees => by simp only [assigned?_eq agrees]) ?_
  dsimp only
  unfold assignFindings
  cases assigned? tree state target with
  | none => exact reports_checkPurity place target span
  | some id =>
    cases ((some id).bind tree.decls.get?).filter isConstant with
    | none => exact reports_checkPurity place target span
    | some decl => exact .own .constAssign rfl (by decide)

/-! ### Faults below a node -/

/-- The faults of a node and of everything below it, when a place is around it. -/
def found (tree : Tree) (state : Analysis) (place : Place) (node : Node) : List Diagnostic :=
  (tree.placed place node).flatMap fun entry => findings tree state entry.2 entry.1

theorem found_eq (forest : tree.Forest loose) {node : Node}
    (holds : tree.Holds node) :
    found tree state place node = findings tree state (place.entering node) node ++
      (tree.parts node).flatMap (found tree state (place.entering node)) := by
  rw [found, forest.placed_eq holds, List.flatMap_cons, List.flatMap_assoc]
  rfl

theorem found_type (place : Place) (id : TypeExprId) : found tree state place (.type id) = [] := by
  have within (fuel : Nat) (id : TypeExprId) :
      (tree.placedWithin fuel place (.type id)).flatMap
        (fun entry => findings tree state entry.2 entry.1) = [] := by
    induction fuel generalizing id with
    | zero => rfl
    | succ fuel inductionHypothesis =>
      rw [placedWithin, List.flatMap_cons, List.flatMap_assoc]
      refine List.flatMap_eq_nil_iff.mpr fun part member => ?_
      have isType : ∃ id, part = .type id := by
        simp only [parts] at member
        cases there : tree.types.get? id with
        | none => simp [there] at member
        | some type => exact mem_typeParts (by simpa [there] using member)
      obtain ⟨other, rfl⟩ := isType
      exact inductionHypothesis other
  exact within _ id

theorem found_types (place : Place) (types : List (Option TypeExprId)) :
    (types.filterMap (·.map .type)).flatMap (found tree state place) = [] := by
  refine List.flatMap_eq_nil_iff.mpr fun part member => ?_
  obtain ⟨type, -, isPart⟩ := List.mem_filterMap.mp member
  obtain ⟨id, -, rfl⟩ := Option.map_eq_some_iff.mp isPart
  exact found_type place id

theorem found_expr (forest : tree.Forest loose) {id : ExprId} {expr : Expr}
    (isExpr : tree.exprs.get? id = some expr) :
    found tree state place (.expr id) = findings tree state place (.expr id) ++
      expr.form.parts.flatMap (found tree state place) := by
  have holds : tree.Holds (.expr id) := Option.isSome_of_eq_some isExpr
  have parts := tree.parts_expr isExpr
  rw [found_eq forest holds, parts]
  rfl

theorem found_stmt (forest : tree.Forest loose) {id : StmtId} {stmt : Stmt}
    (isStmt : tree.stmts.get? id = some stmt) :
    found tree state place (.stmt id) = findings tree state place (.stmt id) ++
      stmt.form.parts.flatMap (found tree state place) := by
  have holds : tree.Holds (.stmt id) := Option.isSome_of_eq_some isStmt
  have parts := tree.parts_stmt isStmt
  rw [found_eq forest holds, parts]
  rfl

/-- A declaration has no fault itself, and neither has its type. -/
theorem found_decl (forest : tree.Forest loose) {decl : Decl}
    (isDecl : tree.decls.get? id = some decl) :
    found tree state place (.decl decl.kind id) =
      decl.init.toList.flatMap
          (fun value => found tree state (place.entering (.decl decl.kind id)) (.expr value)) ++
        decl.form.parts.flatMap (found tree state (place.entering (.decl decl.kind id))) := by
  have holds : tree.Holds (.decl decl.kind id) := Option.map_eq_some_iff.mpr ⟨decl, isDecl, rfl⟩
  have parts := tree.parts_decl decl.kind isDecl
  rw [found_eq forest holds, parts, Decl.parts, List.flatMap_append, List.flatMap_append]
  have noType : (decl.type.map Node.type).toList.flatMap
      (found tree state (place.entering (.decl decl.kind id))) = [] := by
    cases decl.type with
    | none => rfl
    | some type => simp [found_type]
  have value : (decl.init.map Node.expr).toList.flatMap
      (found tree state (place.entering (.decl decl.kind id))) = decl.init.toList.flatMap
        fun value => found tree state (place.entering (.decl decl.kind id)) (.expr value) := by
    cases decl.init with
    | none => rfl
    | some value => simp
  rw [noType, value]
  rfl

/-- Of variables, template parameters and imports only initial values have faults. -/
theorem found_leaf (forest : tree.Forest loose) {decl : Decl}
    (isDecl : tree.decls.get? id = some decl)
    (leaf : decl.kind.isVariable ∨ decl.kind = .templateParam ∨ decl.kind = .importDecl) :
    found tree state place (.decl decl.kind id) =
      decl.init.toList.flatMap fun value => found tree state place (.expr value) := by
  have stays : place.entering (.decl decl.kind id) = place := by
    cases kind : decl.kind <;> first | rfl | simp [kind, DeclKind.isVariable] at leaf
  rw [found_decl forest isDecl, stays, decl.form_parts_of_leaf leaf, List.flatMap_nil, List.append_nil]

/-! ### Walks -/

section

variable (forest : tree.Forest loose)

include forest

theorem reports_exprWithin {fuel id : Nat}
    (enough : id < fuel) (holds : tree.Holds (.expr id)) :
    Reports state (exprWithin tree place fuel id) (found tree state place (.expr id)) := by
  induction fuel generalizing id with
  | zero => omega
  | succ fuel inductionHypothesis =>
    obtain ⟨expr, isExpr⟩ := Option.isSome_iff_exists.mp holds
    have inner {part : Nat} (isPart : .expr part ∈ expr.form.parts) :
        Reports state (exprWithin tree place fuel part) (found tree state place (.expr part)) := by
      have lower := forest.exprsBelow id expr isExpr part isPart
      have isPart' : .expr part ∈ tree.parts (.expr id) := by simpa [parts, isExpr] using isPart
      exact inductionHypothesis (by omega) (forest.holds_part isPart')
    have each {parts : List ExprId} (areParts : ∀ part ∈ parts, .expr part ∈ expr.form.parts) :
        Reports state (parts.forM (exprWithin tree place fuel))
          (parts.flatMap fun part => found tree state place (.expr part)) :=
      .forM fun part member => inner (areParts part member)
    rw [found_expr forest isExpr]
    unfold exprWithin findings
    simp only [isExpr]
    cases form : expr.form with
    | literal kind value => exact .pure
    | name name => exact .pure
    | this => exact .pure
    | field receiver name =>
      refine .perm (.bind (inner (by simp [form, ExprForm.parts]))
        (.read (fun _ agrees => by rw [target?_eq agrees]) (reports_checkAccess ..))) ?_
      simp [ExprForm.parts, List.perm_append_comm]
    | index target indices =>
      refine .perm (.bind (inner (by simp [form, ExprForm.parts]))
        (each (by simp +contextual [form, ExprForm.parts]))) ?_
      simp [ExprForm.parts, List.flatMap_map]
    | call name typeArgs args =>
      refine .perm (.bind (each (by simp +contextual [form, ExprForm.parts]))
        (.read (fun _ agrees => by rw [target?_eq agrees]) (reports_checkRecursion ..))) ?_
      simp [ExprForm.parts, List.flatMap_map, found_types, List.perm_append_comm]
    | methodCall receiver name args =>
      refine .perm (.bind (inner (by simp [form, ExprForm.parts]))
        (.bind (each (by simp +contextual [form, ExprForm.parts]))
          (.read (fun _ agrees => by rw [target?_eq agrees])
            (.bind (reports_checkAccess ..) (reports_checkRecursion ..))))) ?_
      simp only [ExprForm.parts, List.flatMap_cons, List.flatMap_map, ← List.append_assoc]
      rw [List.append_assoc _ (accessFindings ..)]
      exact List.perm_append_comm.trans (by simp)
    | binary op left right =>
      refine .perm (.bind (inner (by simp [form, ExprForm.parts]))
        (inner (by simp [form, ExprForm.parts]))) ?_
      simp [ExprForm.parts]
    | unary op operand =>
      refine .perm (inner (by simp [form, ExprForm.parts])) ?_
      simp [ExprForm.parts]
    | cast target operand =>
      refine .perm (inner (by simp [form, ExprForm.parts])) ?_
      simp [ExprForm.parts, found_type]
    | create created inits =>
      refine .perm (.bind (reports_checkCreation ..) (.forM fun init member =>
        @inner init.value ?_)) ?_
      · rw [form]
        exact .tail _ (List.mem_map.mpr ⟨init, member, rfl⟩)
      · simp [ExprForm.parts, List.flatMap_map, found_type]
    | list elem elems =>
      refine .perm (each (by simp +contextual [form, ExprForm.parts])) ?_
      cases elem <;> simp [ExprForm.parts, List.flatMap_map, found_type]
    | tuple elems =>
      refine .perm (each (by simp +contextual [form, ExprForm.parts])) ?_
      simp [ExprForm.parts, List.flatMap_map]

theorem reports_expr (place : Place) {id : ExprId}
    (holds : tree.Holds (.expr id)) :
    Reports state (expr tree place id) (found tree state place (.expr id)) := by
  obtain ⟨_, isExpr⟩ := Option.isSome_iff_exists.mp holds
  exact reports_exprWithin forest (Nat.lt_succ_of_le (Arena.get?_eq_some_le isExpr).2) holds

theorem reports_initialValue (place : Place) {kind : DeclKind}
    (isVariable : kind.isVariable) (holds : tree.Holds (.decl kind id)) :
    Reports state (initialValue tree place id) (found tree state place (.decl kind id)) := by
  obtain ⟨decl, isDecl, rfl⟩ := Option.map_eq_some_iff.mp (show tree.kindOf? id = _ from holds)
  rw [found_leaf forest isDecl (.inl isVariable)]
  unfold initialValue
  rw [isDecl, Option.bind_some]
  refine .optionForM fun value isValue => reports_expr forest place ?_
  have isPart : .expr value ∈ tree.parts (.decl decl.kind id) := by
    simp [parts, isDecl, Decl.parts, Option.mem_def.mp isValue]
  exact forest.holds_part isPart

theorem reports_stmtWithin (bare : tree.Bare)
    {fuel id : Nat} (enough : id < fuel) (holds : tree.Holds (.stmt id)) :
    Reports state (stmtWithin tree place fuel id) (found tree state place (.stmt id)) := by
  induction fuel generalizing id with
  | zero => omega
  | succ fuel inductionHypothesis =>
    obtain ⟨stmt, isStmt⟩ := Option.isSome_iff_exists.mp holds
    have isPart {part : Node} (member : part ∈ stmt.form.parts) :
        part ∈ tree.parts (.stmt id) := by
      simpa [parts, isStmt] using member
    have inner {part : Nat} (member : .stmt part ∈ stmt.form.parts) :
        Reports state (stmtWithin tree place fuel part) (found tree state place (.stmt part)) := by
      have lower := forest.stmtsBelow id stmt isStmt part member
      exact inductionHypothesis (by omega) (forest.holds_part (isPart member))
    have value {part : ExprId} (member : .expr part ∈ stmt.form.parts) :
        Reports state (expr tree place part) (found tree state place (.expr part)) :=
      reports_expr forest place (forest.holds_part (isPart member))
    rw [found_stmt forest isStmt]
    unfold stmtWithin findings
    simp only [isStmt]
    cases form : stmt.form with
    | block stmts =>
      refine .perm (.forMSome rfl fun part member =>
        inner (form ▸ List.mem_filterMap.mpr ⟨some part, member, rfl⟩)) (.of_eq ?_)
      simp only [StmtForm.parts, List.filterMap_eq_flatMap_toList, List.flatMap_assoc,
          Option.toList_map, List.flatMap_map, List.nil_append]
    | decl declared =>
      have member : .decl .localVar declared ∈ stmt.form.parts := by simp [form, StmtForm.parts]
      refine .perm (reports_initialValue forest place rfl (forest.holds_part (isPart member))) ?_
      simp [StmtForm.parts]
    | expr part =>
      refine .perm (value (by simp [form, StmtForm.parts])) ?_
      simp [StmtForm.parts]
    | assign target assigned =>
      refine .perm (.bind (reports_checkAssign ..) (.bind (value (by simp [form, StmtForm.parts]))
        (value (by simp [form, StmtForm.parts])))) ?_
      simp [StmtForm.parts]
    | branch cond thenBranch elseBranch =>
      refine .perm (.bind (value (by simp [form, StmtForm.parts]))
        (.bind (inner (by simp [form, StmtForm.parts]))
          (.optionForM fun part isElse => inner ?_))) ?_
      · simp [form, StmtForm.parts, Option.mem_def.mp isElse]
      · cases elseBranch <;> simp [StmtForm.parts]
    | whileLoop cond body =>
      refine .perm (.bind (value (by simp [form, StmtForm.parts]))
        (inner (by simp [form, StmtForm.parts]))) ?_
      simp [StmtForm.parts]
    | forLoop counter first last body =>
      obtain ⟨decl, isDecl, unset⟩ := bare.counters isStmt form
      have isCounter : .decl .localVar counter ∈ stmt.form.parts := by simp [form, StmtForm.parts]
      have isLocal : decl.kind = .localVar := by
        have := forest.holds_part (isPart isCounter)
        simpa [Tree.Holds, kindOf?, isDecl] using this
      have nothing : found tree state place (.decl .localVar counter) = [] := by
        rw [← isLocal, found_leaf forest isDecl (.inl (isLocal ▸ rfl)), unset]
        rfl
      refine .perm (.bind (value (by simp [form, StmtForm.parts]))
        (.bind (value (by simp [form, StmtForm.parts]))
          (inner (by simp [form, StmtForm.parts])))) ?_
      simp [StmtForm.parts, nothing]
    | case subject arms default =>
      refine .perm (.bind (value (by simp [form, StmtForm.parts])) (.bind
        (.forM fun arm isArm => .bind (.forM fun part isValue => value ?_) (inner ?_))
        (.optionForM fun part isDefault => inner ?_))) ?_
      · simp only [form, StmtForm.parts, CaseArm.parts, List.mem_cons, List.mem_append,
          List.mem_flatMap, List.mem_map]
        exact .inr (.inl ⟨arm, isArm, .inl ⟨part, isValue, rfl⟩⟩)
      · simp only [form, StmtForm.parts, CaseArm.parts, List.mem_cons, List.mem_append,
          List.mem_flatMap]
        exact .inr (.inl ⟨arm, isArm, .inr (.inl rfl)⟩)
      · simp [form, StmtForm.parts, Option.mem_def.mp isDefault]
      · simp [StmtForm.parts, CaseArm.parts, List.flatMap_assoc, List.flatMap_map,
          Option.toList_map]
    | ret result =>
      refine .perm (.optionForM fun part isResult => value ?_) ?_
      · simp [form, StmtForm.parts, Option.mem_def.mp isResult]
      · cases result <;> simp [StmtForm.parts]

theorem reports_stmt (bare : tree.Bare) (place : Place) {id : StmtId}
    (holds : tree.Holds (.stmt id)) :
    Reports state (stmt tree place id) (found tree state place (.stmt id)) := by
  obtain ⟨_, isStmt⟩ := Option.isSome_iff_exists.mp holds
  exact reports_stmtWithin forest bare (Nat.lt_succ_of_le (Arena.get?_eq_some_le isStmt).2) holds

end

/-! ### Units -/

section

variable (forest : tree.Forest loose)

include forest

/-- Template parameters have no faults. -/
theorem found_typeParams {params : List DeclId}
    (hold : ∀ param ∈ params, tree.Holds (.decl .templateParam param)) :
    (params.map (.decl .templateParam)).flatMap (found tree state place) = [] := by
  rw [List.flatMap_map]
  refine List.flatMap_eq_nil_iff.mpr fun param member => ?_
  obtain ⟨decl, isDecl, kind⟩ := Option.map_eq_some_iff.mp
    (show tree.kindOf? param = _ from hold param member)
  rw [← kind, found_leaf forest isDecl (.inr (.inl kind)),
    forest.init_eq_none isDecl (by rw [kind]; rfl)]
  rfl

theorem reports_callable (bare : tree.Bare) (place : Place)
    {kind : DeclKind} (isCallable : kind.isCallable)
    (holds : tree.Holds (.decl kind id)) :
    Reports state (callable tree place id) (found tree state place (.decl kind id)) := by
  obtain ⟨decl, isDecl, rfl⟩ := Option.map_eq_some_iff.mp (show tree.kindOf? id = _ from holds)
  obtain ⟨body, isBody, parts⟩ := decl.callable?_of_isCallable isCallable
  have enters : place.entering (.decl decl.kind id) = { place with callable := some id } := by
    cases kind : decl.kind <;> first | rfl | simp [kind, DeclKind.isCallable] at isCallable
  have isPart {part : Node} (member : part ∈ body.parts) : tree.Holds part := by
    refine forest.holds_part (show part ∈ tree.parts (.decl decl.kind id) from ?_)
    simp [Tree.parts, isDecl, Decl.parts, parts, member]
  have unset := forest.init_eq_none isDecl (by
    cases kind : decl.kind <;> first | rfl | simp [kind, DeclKind.isCallable] at isCallable)
  rw [found_decl forest isDecl, enters, unset, parts]
  unfold callable
  rw [Tree.callable?, isDecl, Option.bind_some, isBody]
  refine .perm (.bind
    (.forM fun param member => reports_initialValue forest _ rfl
      (isPart (show .decl .param param ∈ body.parts by simp [Callable.parts, member])))
    (.optionForM fun block isBlock => reports_stmt forest bare _
      (isPart (by simp [Callable.parts, Option.mem_def.mp isBlock])))) ?_
  rw [Callable.parts, List.flatMap_append, List.flatMap_append, found_typeParams forest
    fun param member => isPart (by simp [Callable.parts, member])]
  simp [List.flatMap_map, Option.toList_map]

theorem reports_members (bare : tree.Bare) {decl : Decl}
    {body : ClassBody} (isDecl : tree.decls.get? id = some decl)
    (form : decl.form = .classDecl body) :
    Reports state (do
      body.fields.forM (initialValue tree { enclosing := some id })
      body.methods.forM (callable tree { enclosing := some id }))
      (found tree state {} (.decl .classDecl id)) := by
  have kind : decl.kind = .classDecl := by rw [Decl.kind, form]
  have isPart {part : Node} (member : part ∈ body.parts) : tree.Holds part := by
    refine forest.holds_part (show part ∈ tree.parts (.decl .classDecl id) from ?_)
    simp [parts, isDecl, Decl.parts, form, DeclForm.parts, member]
  have foundHere := @found_decl tree loose state {} id forest decl isDecl
  rw [kind, forest.init_eq_none isDecl (by rw [kind]; rfl), form] at foundHere
  rw [foundHere]
  refine .perm (.bind
    (.forM fun field member => reports_initialValue forest _ rfl
      (isPart (show .decl .field field ∈ body.parts by simp [ClassBody.parts, member])))
    (.forM fun method member => reports_callable forest bare _ rfl
      (isPart (show .decl .method method ∈ body.parts by simp [ClassBody.parts, member])))) ?_
  have noBase : (body.base.map Node.type).toList.flatMap
      (found tree state (Place.entering {} (.decl .classDecl id))) = [] := by
    cases body.base <;> simp [found_type]
  rw [DeclForm.parts, ClassBody.parts, List.flatMap_append, List.flatMap_append,
    List.flatMap_append, noBase, found_typeParams forest
      fun param member => isPart (by simp [ClassBody.parts, member])]
  simp [List.flatMap_map, Place.entering]

/-- The constants of an enum have no initial values. -/
theorem found_enum (bare : tree.Bare)
    {decl : Decl} (isDecl : tree.decls.get? id = some decl) (isEnum : decl.kind = .enum) :
    found tree state place (.decl .enum id) = [] := by
  obtain ⟨consts, form⟩ := Decl.form_of_enum isEnum
  rw [← isEnum, found_decl forest isDecl, forest.init_eq_none isDecl (by rw [isEnum]; rfl), form,
    DeclForm.parts, List.flatMap_map]
  refine List.flatMap_eq_nil_iff.mpr fun const member => ?_
  have isPart : .decl .enumConst const ∈ tree.parts (.decl .enum id) := by
    simp [parts, isDecl, Decl.parts, form, DeclForm.parts, member]
  obtain ⟨value, isConst, kind⟩ := Option.map_eq_some_iff.mp
    (show tree.kindOf? const = _ from forest.holds_part isPart)
  rw [← kind, found_leaf forest isConst (.inl (kind ▸ rfl)), bare.consts isConst kind]
  rfl

/-- A declaration at the top level, which is of one of five kinds. -/
theorem reports_decl (bare : tree.Bare) {kind : DeclKind}
    (top : kind ∈ [DeclKind.importDecl, .enum, .global, .classDecl, .function])
    (holds : tree.Holds (.decl kind id)) :
    Reports state (decl tree id) (found tree state {} (.decl kind id)) := by
  obtain ⟨declared, isDecl, isKind⟩ :=
    Option.map_eq_some_iff.mp (show tree.kindOf? id = _ from holds)
  unfold decl
  rw [show tree.kindOf? id = some kind from holds]
  cases kind with
  | importDecl =>
    have foundHere := @found_leaf tree loose state {} id forest declared isDecl (.inr (.inr isKind))
    rw [forest.init_eq_none isDecl (by rw [isKind]; rfl), isKind] at foundHere
    rw [foundHere]
    exact .pure
  | enum =>
    rw [found_enum forest bare isDecl isKind]
    exact .pure
  | global => exact reports_initialValue forest {} rfl holds
  | classDecl =>
    obtain ⟨body, form⟩ := Decl.form_of_classDecl isKind
    have isBody := classBody?_eq_some.mpr ⟨declared, isDecl, form⟩
    simp only [isBody]
    exact (reports_checkClass holds).bind (reports_members forest bare isDecl form)
  | function => exact reports_callable forest bare {} rfl holds
  | _ => simp at top

theorem reports_unit (bare : tree.Bare) (parent : Nat) {id : UnitId}
    (holds : tree.Holds (.unit id)) :
    Reports state (unit tree parent id) (found tree state {} (.unit id)) := by
  obtain ⟨body, isUnit⟩ := Option.isSome_iff_exists.mp holds
  have parts := tree.parts_unit isUnit
  have each (kind : DeclKind) {decls : List DeclId}
      (top : kind ∈ [DeclKind.importDecl, .enum, .global, .classDecl, .function])
      (areParts : ∀ id ∈ decls, .decl kind id ∈ body.parts) :
      Reports state (decls.forM (decl tree))
        (decls.flatMap fun id => found tree state {} (.decl kind id)) :=
    .forM fun id member =>
      reports_decl forest bare top (forest.holds_part (parts ▸ areParts id member))
  have isStmt {child : StmtId} (member : child ∈ body.stmts) :
      .stmt child ∈ tree.parts (.unit id) := by
    simp [parts, ProgramUnit.parts, member]
  rw [found_eq forest holds, parts]
  unfold unit
  rw [isUnit]
  refine .spanned _ _ _ _ (.perm (.bind (.append (.append (.append (.append (.append
    (each .importDecl (by decide) (by simp +contextual [ProgramUnit.parts]))
    (each .enum (by decide) (by simp +contextual [ProgramUnit.parts])))
    (each .global (by decide) (by simp +contextual [ProgramUnit.parts])))
    (each .classDecl (by decide) (by simp +contextual [ProgramUnit.parts])))
    (each .function (by decide) (by simp +contextual [ProgramUnit.parts])))
    (each .function (by decide) (by simp +contextual [ProgramUnit.parts])))
    (.forM fun child member => reports_stmt forest bare {} (forest.holds_part (isStmt member)))) ?_)
  simp [ProgramUnit.parts, List.flatMap_map, Option.toList_map, findings, Place.entering]

/-- The walk through a program reports the faults of every unit that was resolved. -/
theorem reports_program (bare : tree.Bare) (parent : Nat)
    (hold : ∀ unit ∈ state.names.unitOrder, tree.Holds (.unit unit)) :
    Reports state (program tree parent)
      (state.names.unitOrder.flatMap fun unit => found tree state {} (.unit unit)) :=
  .read (fun current agrees => by rw [agrees.names])
    (.forM fun unit member => reports_unit forest bare parent (hold unit member))

end

/-! ### What is reported of classes -/

/-- An action runs to its end, and the reports of a list are among those that it makes. -/
def Covers (state : Analysis) (action : AnalysisM Unit) (told : List Diagnostic) : Prop :=
  ∃ reports, told ⊆ reports ∧ Delivers state action reports

theorem Reports.covers {action : AnalysisM Unit} {found : List Diagnostic}
    (reports : Reports state action found) : Covers state action [] := by
  obtain ⟨all, -, runs⟩ := reports.runs
  exact ⟨all, List.nil_subset _, runs⟩

namespace Covers

variable {action : AnalysisM Unit} {told : List Diagnostic}

theorem bind {next : Unit → AnalysisM Unit} {later : List Diagnostic}
    (first : Covers state action told) (second : Covers state (next ()) later) :
    Covers state (action >>= next) (told ++ later) := by
  obtain ⟨all, isTold, runs⟩ := first
  obtain ⟨rest, isLater, runsOn⟩ := second
  refine ⟨all ++ rest, ?_, runs.bind runsOn⟩
  exact List.append_subset.mpr ⟨List.subset_append_of_subset_left _ isTold,
    List.subset_append_of_subset_right _ isLater⟩

theorem forM {α : Type} {actions : α → AnalysisM Unit} {each : α → List Diagnostic} {items : List α}
    (covers : ∀ item ∈ items, Covers state (actions item) (each item)) :
    Covers state (items.forM actions) (items.flatMap each) := by
  induction items with
  | nil => exact ⟨[], List.nil_subset _, .pure⟩
  | cons item rest inductionHypothesis =>
    rw [List.flatMap_cons]
    exact bind (covers item (.head _))
      (inductionHypothesis fun other member => covers other (.tail _ member))

end Covers

/-- What is reported of a declaration at the top level, if it is a class. -/
def headerFindings (tree : Tree) (names : Resolution) (id : DeclId) : List Diagnostic :=
  if tree.kindOf? id = some .classDecl then classFindings tree names id else []

theorem covers_decl (forest : tree.Forest loose) (bare : tree.Bare) {kind : DeclKind}
    (top : kind ∈ [DeclKind.importDecl, .enum, .global, .classDecl, .function])
    (holds : tree.Holds (.decl kind id)) :
    Covers state (decl tree id) (headerFindings tree state.names id) := by
  have isKind : tree.kindOf? id = some kind := holds
  unfold headerFindings
  by_cases isClass : kind = .classDecl
  · subst isClass
    obtain ⟨declared, isDecl, same⟩ := Option.map_eq_some_iff.mp isKind
    obtain ⟨body, form⟩ := Decl.form_of_classDecl same
    have isBody := classBody?_eq_some.mpr ⟨declared, isDecl, form⟩
    have header : Covers state (checkClass tree id) (classFindings tree state.names id) :=
      ⟨_, .refl _, delivers_checkClass id⟩
    have members := @reports_members tree loose state id forest bare declared body isDecl form
    unfold decl
    rw [if_pos isKind, isKind, ← List.append_nil (classFindings ..)]
    simp only [isBody]
    exact header.bind members.covers
  · rw [if_neg (fun same => isClass (Option.some.inj (isKind.symm.trans same)))]
    exact (reports_decl forest bare top holds).covers

/-- Where a unit is checked, everything that is wrong with its classes is reported. -/
theorem covers_unit (forest : tree.Forest loose) (bare : tree.Bare) (parent : Nat) {id : UnitId}
    {body : ProgramUnit} (isUnit : tree.units.get? id = some body) :
    Covers state (unit tree parent id) (body.topLevel.flatMap (headerFindings tree state.names)) := by
  have parts := tree.parts_unit isUnit
  have declared (decl : DeclId) (member : decl ∈ body.topLevel) :
      ∃ kind ∈ [DeclKind.importDecl, .enum, .global, .classDecl, .function],
        tree.Holds (.decl kind decl) := by
    have placed : ∃ kind ∈ [DeclKind.importDecl, .enum, .global, .classDecl, .function],
        .decl kind decl ∈ body.parts := by
      simp only [ProgramUnit.topLevel, List.mem_append, Option.mem_toList] at member
      simp [ProgramUnit.parts]
      tauto
    obtain ⟨kind, top, isPart⟩ := placed
    exact ⟨kind, top, forest.holds_part (parts ▸ isPart)⟩
  have statements : Reports state (body.stmts.forM (stmt tree {})) _ :=
    .forM fun child member => reports_stmt forest bare {} (forest.holds_part (by
      rw [parts]
      simp [ProgramUnit.parts, member]))
  have covers : Covers state (do
      body.topLevel.forM (decl tree)
      body.stmts.forM (stmt tree {})) (body.topLevel.flatMap (headerFindings tree state.names)) := by
    rw [← List.append_nil (List.flatMap ..)]
    refine .bind (.forM fun decl member => ?_) statements.covers
    obtain ⟨kind, top, holds⟩ := declared decl member
    exact covers_decl forest bare top holds
  obtain ⟨all, isTold, runs⟩ := covers
  unfold unit
  rw [isUnit]
  exact ⟨all, isTold, runs.spanned _ _ _ _⟩

/-- The walk through a program reports everything that is wrong with the classes of the units that
were resolved. -/
theorem covers_program (forest : tree.Forest loose) (bare : tree.Bare) (parent : Nat)
    (hold : ∀ unit ∈ state.names.unitOrder, tree.Holds (.unit unit)) :
    ∃ reports, Delivers state (program tree parent) reports ∧
      ∀ unit ∈ state.names.unitOrder, ∀ body, tree.units.get? unit = some body →
        ∀ id ∈ body.classes, classFindings tree state.names id ⊆ reports := by
  have covers : Covers state (state.names.unitOrder.forM (unit tree parent))
      (state.names.unitOrder.flatMap fun unit =>
        (((tree.units.get? unit).map ProgramUnit.topLevel).getD []).flatMap
          (headerFindings tree state.names)) := by
    refine .forM fun unit member => ?_
    obtain ⟨body, isUnit⟩ := Option.isSome_iff_exists.mp (hold unit member)
    rw [isUnit]
    exact covers_unit forest bare parent isUnit
  obtain ⟨all, isTold, runs⟩ := covers
  refine ⟨all, .read (fun current agrees => by rw [agrees.names]) runs, ?_⟩
  intro unit member body isUnit id isClass diagnostic isFound
  have isKind : tree.kindOf? id = some .classDecl := by
    refine forest.holds_part (show .decl .classDecl id ∈ tree.parts (.unit unit) from ?_)
    simp [parts, isUnit, ProgramUnit.parts, isClass]
  refine isTold (List.mem_flatMap.mpr ⟨unit, member, List.mem_flatMap.mpr ⟨id, ?_, ?_⟩⟩)
  · simp [isUnit, ProgramUnit.topLevel, isClass]
  · rwa [headerFindings, if_pos isKind]

end Rules

end TreeCheck
