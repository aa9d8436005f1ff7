/-
The walk of type checking, taken apart. Every check of an expression, a statement or a
declaration is one of the node and of what is below it, so what holds of an expression when
its check ends, and lasts, holds of every expression that something was recorded about when
a program was checked.
-/

import TreeCheck.Proofs.Types.Visits

namespace TreeCheck.TypeCheck

open AnalysisM TypeM

variable {tree : Tree} {loose : List Node} {names : Resolution} {here : ScopeId} {whole : Node}
variable {place : Place} {fuel parent : Nat} {id value receiver target : ExprId}
  {before after : Analysis} {args : List ExprId} {kind : DeclKind} {order classes : List DeclId}

/-! ### Expressions with parts -/

section Parts

variable {check : Checker}

theorem walks_castType {operand : ExprId}
    (walks : Walks tree names here whole [(.expr operand, here)] (check operand 0))
    (span : Span) (target : TypeExprId) :
    Walks tree names here whole [(.expr operand, here)] (castType tree check span target operand) := by
  refine .behind (checks_typeOf tree _).aims fun type => .andAside walks fun source =>
    .bind .types fun table => ?_
  dsimp only
  split
  · exact .bind (acts_label _) fun _ => .bind (acts_label _) fun _ =>
      .bind (.error ..) fun _ => .pure _
  · exact .pure _

theorem walks_fieldType
    (walks : Walks tree names here (.expr id) [(.expr receiver, here)] (check receiver 0))
    (span : Span) (name : String) :
    Walks tree names here (.expr id) [(.expr receiver, here)]
      (fieldType tree check id span receiver name) := by
  refine .andAside walks fun type => .read (fun state => ?_) fun _ _ => rfl
  dsimp only
  split
  · refine .bind (aims_recordTarget tree (own id) _) fun _ => ?_
    split
    · exact (checks_declType tree _).aims
    · exact (checks_memberType tree ..).aims
  · split
    · exact .pure _
    · split
      · exact .pure _
      · exact aims_fieldThroughType tree (own id) ..

theorem walks_checkInt
    (walks : Walks tree names here whole [(.expr id, here)] (check id TypeId.int)) (code : Code) :
    Walks tree names here whole [(.expr id, here)] (checkInt tree check code id) := by
  refine .andAside walks fun type => .bind (acts_kindOf _) fun kind => ?_
  split
  · exact .bind (acts_label _) fun _ => .error ..
  · exact .pure _

theorem walks_indexType {indices : List ExprId}
    (walks : Walks tree names here whole [(.expr target, here)] (check target 0))
    (each : ∀ index ∈ indices,
      Walks tree names here whole [(.expr index, here)] (check index TypeId.int))
    (span : Span) :
    Walks tree names here whole
      ([(.expr target, here)] ++ indices.flatMap fun index => [(.expr index, here)])
      (indexType tree check span target indices) := by
  refine .bind walks fun type =>
    .andAside (.forM fun index member => walks_checkInt (each index member) _) fun _ => ?_
  split
  · exact .pure _
  · refine .bind .types fun table => ?_
    split
    · exact acts_sequenceElement ..
    · exact acts_sequenceElement ..
    · dsimp only
      split
      · exact acts_tooManyIndices ..
      · split
        · exact .pure _
        · exact acts_inTypes (growing_makeMulti _)
    · split
      · exact acts_tooManyIndices ..
      · exact .pure _
    · split
      · exact acts_tooManyIndices ..
      · exact .pure _
    · exact .bind (acts_label _) fun _ => .bind (.error ..) fun _ => .pure _

theorem walks_checkInit {init : FieldInit}
    (walks : ∀ expected,
      Walks tree names here whole [(.expr init.value, here)] (check init.value expected))
    (type : TypeId) (seen : List NameId) :
    Walks tree names here whole [(.expr init.value, here)] (checkInit tree check type seen init) := by
  unfold checkInit
  dsimp only
  split
  case' isTrue => refine .behind (.error ..) fun _ => ?_
  all_goals
    refine .behind .types fun table => ?_
    split
    · exact .andAside (walks _).discard fun _ => .pure _
    · refine .behind (checks_field? tree ..).aims fun found => ?_
      split
      · exact .andAside (walks _).discard fun _ => .bind (checks_fieldNames tree _).aims fun _ =>
          .bind (acts_label _) fun _ => .bind (.report _) fun _ => .pure _
      · refine .andAside (walks _) fun value => .bind (acts_compatible ..) fun fits => ?_
        split
        · exact .bind (acts_label _) fun _ => .bind (acts_label _) fun _ =>
            .bind (.report _) fun _ => .pure _
        · exact .pure _

theorem walks_createType {inits : List FieldInit}
    (walks : ∀ init ∈ inits, ∀ expected,
      Walks tree names here whole [(.expr init.value, here)] (check init.value expected))
    (created : TypeExprId) :
    Walks tree names here whole (inits.flatMap fun init => [(.expr init.value, here)])
      (createType tree check created inits) :=
  .behind (checks_typeOf tree _).aims fun type => .andAside
    (Walks.foldlM (fun init member seen => walks_checkInit (walks init member) type seen) _).discard
      fun _ => .bind .types fun _ => .pure _

theorem walks_checkElement {hint : TypeId}
    (walks : Walks tree names here whole [(.expr id, here)] (check id hint)) (elem : TypeId) :
    Walks tree names here whole [(.expr id, here)] (checkElement tree check hint elem id) := by
  refine .andAside walks fun type => ?_
  split
  · exact .pure _
  · refine .bind (acts_compatible ..) fun fits => ?_
    dsimp only
    split
    · exact .bind (acts_label _) fun _ => .bind (acts_label _) fun _ =>
        .bind (.error ..) fun _ => .pure _
    · exact .pure _

theorem walks_listType {elems : List ExprId}
    (walks : ∀ elem ∈ elems, ∀ expected,
      Walks tree names here whole [(.expr elem, here)] (check elem expected))
    (span : Span) (expected : TypeId) (written : Option TypeExprId) :
    Walks tree names here whole (elems.flatMap fun elem => [(.expr elem, here)])
      (listType tree check span expected written elems) := by
  refine .behind (checks_typeOf tree _).aims fun elem => ?_
  split
  · next empty =>
    rw [List.isEmpty_iff.mp empty]
    refine .aside ?_
    split
    · exact acts_listOf ..
    · refine .bind (acts_kindOf _) fun kind => ?_
      split
      · exact .pure _
      · split
        · exact .pure _
        · exact .bind (.error ..) fun _ => .pure _
  · have finish (hint : TypeId) : Walks tree names here whole
        (elems.flatMap fun elem => [(.expr elem, here)]) (do
        let elem ← elems.foldlM (checkElement tree check hint) elem
        listOf elem 1) :=
      .andAside (.foldlM (fun id member elem => walks_checkElement (walks id member hint) elem) _)
        fun _ => acts_listOf ..
    dsimp only
    split
    · exact .behind (acts_elementHint _) finish
    · exact .behind (.pure _) finish

theorem walks_callType
    (walks : ∀ arg ∈ args, Walks tree names here (.expr id) [(.expr arg, here)] (check arg 0))
    (place : Place) (span : Span) (name : String) (typeArgs : List (Option TypeExprId)) :
    Walks tree names here (.expr id) (args.flatMap fun arg => [(.expr arg, here)])
      (callType tree place check id span name typeArgs args) := by
  refine .andAside (.mapM walks) fun argTypes =>
    .bind (.mapM (fun arg => (checks_typeOf tree arg).aims) _) fun explicit =>
      .read (fun state => ?_) fun _ _ => rfl
  extract_lets candidates
  split
  · exact .pure _
  · split
    · exact .bind (checks_nominal tree _).aims fun _ => aims_callAmong tree (own id) ..
    · exact .bind (.pure _) fun _ => aims_callAmong tree (own id) ..

theorem walks_methodCallType
    (walks : Walks tree names here (.expr id) [(.expr receiver, here)] (check receiver 0))
    (each : ∀ arg ∈ args, Walks tree names here (.expr id) [(.expr arg, here)] (check arg 0))
    (place : Place) (span : Span) (name : String) :
    Walks tree names here (.expr id)
      ([(.expr receiver, here)] ++ args.flatMap fun arg => [(.expr arg, here)])
      (methodCallType tree place check id span receiver name args) := by
  refine .bind walks fun type => .andAside (.mapM each) fun argTypes => ?_
  split
  · exact aims_ownMethodCall tree _ (own id) ..
  · refine .bind (acts_kindOf _) fun kind => ?_
    split
    · exact .pure _
    · refine .bind .types fun table => .read (fun state => ?_) fun _ _ => rfl
      split
      · exact .bind (acts_label _) fun _ => .bind (.error ..) fun _ => .pure _
      · exact aims_callAmong tree (own id) ..
    · exact aims_unionCall tree (own id) ..
    · exact .bind (acts_label _) fun _ => .bind (.error ..) fun _ => .pure _

end Parts

/-! ### Expressions -/

theorem walks_exprWithin (forest : tree.Forest loose) {id : Nat} (enough : id < fuel)
    (holds : tree.Holds (.expr id)) (expected : TypeId) :
    Walks tree names here whole [(.expr id, here)] (exprWithin tree place fuel id expected) := by
  induction fuel generalizing whole id expected with
  | zero => omega
  | succ fuel inductionHypothesis =>
    obtain ⟨expr, isExpr⟩ := Option.isSome_iff_exists.mp holds
    have parts := tree.parts_expr isExpr
    have inner {part : Nat} (isPart : .expr part ∈ expr.form.parts) (expected : TypeId) :
        Walks tree names here (.expr id) [(.expr part, here)]
          (exprWithin tree place fuel part expected) := by
      have lower := forest.exprsBelow id expr isExpr part isPart
      exact inductionHypothesis (by omega) (forest.holds_part (parts ▸ isPart)) expected
    have closes {visited : List (Node × ScopeId)} (find : AnalysisM TypeId)
        (isCheck : exprWithin tree place (fuel + 1) id expected =
          (find >>= fun type => recordExpr id type >>= fun _ => pure type))
        (walks : Walks tree names here (.expr id) visited find)
        (same : visited = (expr.form.parts.filter (isChecked names)).map fun part => (part, here)) :
        Walks tree names here whole [(.expr id, here)]
          (exprWithin tree place (fuel + 1) id expected) := by
      refine .expr enough holds isCheck walks (.of_eq ?_) fun part member => ?_
      · simp [same, checkedParts, parts, Function.comp_def]
      · rw [same] at member
        obtain ⟨other, -, rfl⟩ := List.mem_map.mp member
        exact ⟨fun isBody => absurd isBody (not_isBody (by rintro _ ⟨⟩)), fun _ => rfl⟩
    unfold exprWithin at closes ⊢
    simp only [isExpr] at closes ⊢
    cases form : expr.form with
    | literal kind text =>
      simp only [form] at closes ⊢
      exact closes _ rfl (.aside (.pure _)) rfl
    | name name =>
      simp only [form] at closes ⊢
      exact closes _ rfl (.aside (checks_nameType tree _).aims) rfl
    | this =>
      simp only [form] at closes ⊢
      cases owner : place.enclosing with
      | some owner =>
        simp only [owner] at closes ⊢
        exact closes _ rfl (.aside (checks_nominal tree _).aims) rfl
      | none =>
        simp only [owner] at closes ⊢
        exact closes _ rfl (.aside (.pure _)) rfl
    | field receiver name =>
      simp only [form] at closes ⊢
      exact closes _ rfl (walks_fieldType (inner (by simp [form, ExprForm.parts]) 0) _ _) rfl
    | index target indices =>
      simp only [form] at closes ⊢
      refine closes _ rfl (walks_indexType (inner (by simp [form, ExprForm.parts]) 0)
        (fun index member => inner (by simp [form, ExprForm.parts, member]) _) _) ?_
      simp [ExprForm.parts, isChecked, List.filter_cons, List.filter_map, Function.comp_def,
        ← List.map_eq_flatMap]
    | call name typeArgs args =>
      simp only [form] at closes ⊢
      refine closes _ rfl (walks_callType
        (fun arg member => inner (by simp [form, ExprForm.parts, member]) 0) _ _ _ _) ?_
      simp [ExprForm.parts, isChecked, List.filter_map, Function.comp_def, ← List.map_eq_flatMap]
    | methodCall receiver name args =>
      simp only [form] at closes ⊢
      refine closes _ rfl (walks_methodCallType (inner (by simp [form, ExprForm.parts]) 0)
        (fun arg member => inner (by simp [form, ExprForm.parts, member]) 0) _ _ _) ?_
      simp [ExprForm.parts, isChecked, List.filter_cons, List.filter_map, Function.comp_def,
        ← List.map_eq_flatMap]
    | binary op left right =>
      simp only [form] at closes ⊢
      exact closes (do
          let leftType ← exprWithin tree place fuel left 0
          let rightType ← exprWithin tree place fuel right leftType
          binaryType op expr.span leftType rightType) (by simp only [bind_assoc])
        (.bind (inner (by simp [form, ExprForm.parts]) 0) fun _ =>
          .andAside (inner (by simp [form, ExprForm.parts]) _) fun _ => acts_binaryType ..) rfl
    | unary op operand =>
      simp only [form] at closes ⊢
      exact closes (do
          let operandType ← exprWithin tree place fuel operand 0
          unaryType op expr.span operandType) (by simp only [bind_assoc])
        (.andAside (inner (by simp [form, ExprForm.parts]) 0) fun _ => acts_unaryType ..) rfl
    | cast target operand =>
      simp only [form] at closes ⊢
      exact closes _ rfl (walks_castType (inner (by simp [form, ExprForm.parts]) 0) _ _) rfl
    | create created inits =>
      simp only [form] at closes ⊢
      refine closes _ rfl (walks_createType (fun init member => inner ?_) _) ?_
      · simp only [form, ExprForm.parts, List.mem_cons, List.mem_map]
        exact .inr ⟨init, member, rfl⟩
      · simp [ExprForm.parts, isChecked, List.filter_map, Function.comp_def, ← List.map_eq_flatMap]
    | list elem elems =>
      simp only [form] at closes ⊢
      refine closes _ rfl (walks_listType
        (fun elem member => inner (by simp [form, ExprForm.parts, member])) _ _ _) ?_
      simp [ExprForm.parts, isChecked, List.filter_map, Function.comp_def, ← List.map_eq_flatMap]
    | tuple elems =>
      simp only [form] at closes ⊢
      refine closes (do
          let elemTypes ← elems.mapM fun elem => exprWithin tree place fuel elem 0
          inTypes (makeTuple elemTypes)) (by simp only [bind_assoc])
        (.andAside (.mapM fun elem member =>
          inner (by simp [form, ExprForm.parts, member]) 0) fun _ =>
            acts_inTypes (growing_makeTuple _)) ?_
      simp [ExprForm.parts, isChecked, List.filter_map, Function.comp_def, ← List.map_eq_flatMap]

/-- An action that ends with recording the type it finds for an expression. -/
structure RecordsType (id : ExprId) (action : AnalysisM TypeId) : Prop where
  recorded : ∀ {before after value}, action before = .ok value after →
    after.typing.exprTypes[id]? = some value

theorem RecordsType.bind {α : Type} {action : AnalysisM α} {next : α → AnalysisM TypeId}
    (records : ∀ value, RecordsType id (next value)) : RecordsType id (action >>= next) := by
  refine ⟨fun ran => ?_⟩
  obtain ⟨found, middle, -, ran⟩ := bind_eq_ok ran
  exact (records found).recorded ran

theorem records_exprWithin (place : Place) (fuel : Nat) (id : ExprId) (expected : TypeId) :
    RecordsType id (exprWithin tree place (fuel + 1) id expected) := by
  have record (type : TypeId) : RecordsType id (do recordExpr id type; return type) := by
    refine ⟨fun ran => ?_⟩
    obtain ⟨_, last, records, ends⟩ := bind_eq_ok ran
    cases ends
    cases records
    simp
  unfold exprWithin
  split
  · exact .bind record
  · split
    case _ => exact .bind record
    case _ => exact .bind record
    case _ => split <;> exact .bind record
    case _ => exact .bind record
    case _ => exact .bind record
    case _ => exact .bind record
    case _ => exact .bind record
    case _ => exact .bind fun _ => .bind fun _ => .bind record
    case _ => exact .bind fun _ => .bind record
    case _ => exact .bind record
    case _ => exact .bind record
    case _ => exact .bind record
    case _ => exact .bind fun _ => .bind record

/-- A check of an expression records nothing about expressions that are not below it. -/
theorem keeps_exprWithin (forest : tree.Forest loose) {id : Nat} (enough : id < fuel)
    (holds : tree.Holds (.expr id)) {expected value : TypeId}
    (ran : exprWithin tree place fuel id expected before = .ok value after) :
    before.Keeps (fun other => ¬tree.Reaches (.expr id) (.expr other)) after := by
  have walks : Walks tree before.names.atRest 0 (.unit 0) [(.expr id, 0)]
      (exprWithin tree place fuel id expected) := walks_exprWithin forest enough holds expected
  refine (walks.keeps rfl ran).mono fun other apart => ⟨nofun, ?_⟩
  simpa using apart

section Walk

variable (forest : tree.Forest loose)

include forest

theorem walks_expr (place : Place) (holds : tree.Holds (.expr id)) (expected : TypeId) :
    Walks tree names here whole [(.expr id, here)] (expr tree place id expected) := by
  obtain ⟨_, isExpr⟩ := Option.isSome_iff_exists.mp holds
  exact walks_exprWithin forest (Nat.lt_succ_of_le (Arena.get?_eq_some_le isExpr).2) holds expected

/-! ### Variables -/

theorem walks_initializedType (place : Place) (decl : Decl) {init : ExprId}
    (holds : tree.Holds (.expr init)) :
    Walks tree names here whole [(.expr init, here)] (initializedType tree place decl init) := by
  refine .behind (checks_typeOf tree _).aims fun declared =>
    .andAside (walks_expr forest place holds declared) fun value => ?_
  split
  · exact .pure _
  · refine .bind (acts_compatible ..) fun fits => ?_
    dsimp only
    split
    · exact .bind (acts_label _) fun _ => .bind (acts_label _) fun _ =>
        .bind (.report _) fun _ => .pure _
    · exact .pure _

theorem walks_checkVariable (place : Place) (isVariable : kind.isVariable) {id : DeclId}
    (holds : tree.Holds (.decl kind id)) :
    Walks tree names here whole [(.decl kind id, here)] (checkVariable tree place id) := by
  obtain ⟨decl, isDecl, rfl⟩ := Option.map_eq_some_iff.mp (show tree.kindOf? id = _ from holds)
  have parts : tree.parts (.decl decl.kind id) =
      (decl.type.map .type).toList ++ (decl.init.map .expr).toList := by
    simp [Tree.parts, isDecl, Decl.parts, decl.form_parts_of_leaf (.inl isVariable)]
  have walks : Walks tree names here (.decl decl.kind id)
      (decl.init.toList.map fun init => (.expr init, here)) (checkVariable tree place id) := by
    unfold checkVariable
    simp only [isDecl]
    split
    · next init isInit =>
      rw [isInit]
      have isPart : .expr init ∈ tree.parts (.decl decl.kind id) := by simp [parts, isInit]
      exact .andNothing (walks_initializedType forest place decl (forest.holds_part isPart)) fun _ =>
        .declare isVariable holds
    · next isInit _ =>
      rw [isInit]
      exact .behind (checks_typeOf tree _).aims fun _ => .declare isVariable holds
    · next isInit _ =>
      rw [isInit]
      exact .aside (.pure _)
  have scope (part : Node) : scopeOfPart tree names here (.decl decl.kind id) part = here := by
    cases kind : decl.kind <;> simp [kind, DeclKind.isVariable] at isVariable <;> rfl
  refine .ofParts holds (by rintro _ ⟨⟩) (not_isBody (by rintro _ ⟨⟩)) walks (.of_eq ?_)
  simp only [checkedParts, parts, scope, List.filter_append, filter_isChecked_type, List.nil_append]
  cases decl.init <;> rfl

/-! ### Statements -/

theorem walks_checkCondition (place : Place) {cond : ExprId} (holds : tree.Holds (.expr cond)) :
    Walks tree names here whole [(.expr cond, here)] (checkCondition tree place cond) := by
  refine .andAside (walks_expr forest place holds _) fun type =>
    .bind (acts_kindOf _) fun kind => ?_
  split
  · exact .bind (acts_label _) fun _ => .error ..
  · exact .pure _

theorem walks_checkAssign (place : Place) (holds : tree.Holds (.expr target))
    (holds' : tree.Holds (.expr value)) :
    Walks tree names here whole [(.expr target, here), (.expr value, here)]
      (checkAssign tree place target value) := by
  refine .bind (walks_expr forest place holds _) fun targetType =>
    .andAside (walks_expr forest place holds' _) fun valueType =>
      .bind (checks_assignable tree target).aims fun allowed => ?_
  split
  · exact .error ..
  · refine .bind (acts_compatible ..) fun fits => ?_
    split
    · exact .bind (acts_label _) fun _ => .bind (acts_label _) fun _ => .error ..
    · exact .pure _

theorem walks_checkReturn (place : Place) (span : Span) {value : Option ExprId}
    (holds : ∀ part ∈ value, tree.Holds (.expr part)) :
    Walks tree names here whole (value.toList.flatMap fun part => [(.expr part, here)])
      (checkReturn tree place span value) := by
  unfold checkReturn
  split
  · exact .optionForM fun part isValue => (walks_expr forest place (holds part isValue) 0).discard
  · refine .behind (checks_declType tree _).aims fun result => .behind (acts_kindOf _) fun kind => ?_
    dsimp only
    split
    · refine .aside ?_
      split
      · exact .bind (acts_label _) fun _ => .error ..
      · exact .pure _
    · refine .andAside (walks_expr forest place (holds _ rfl) _) fun type => ?_
      split
      · exact .error ..
      · refine .bind (acts_compatible ..) fun fits => ?_
        split
        · exact .bind (acts_label _) fun _ => .bind (acts_label _) fun _ => .error ..
        · exact .pure _

theorem walks_checkCaseValue (place : Place) (subject : TypeId) (holds : tree.Holds (.expr value)) :
    Walks tree names here whole [(.expr value, here)] (checkCaseValue tree place subject value) := by
  refine .andAside (walks_expr forest place holds _) fun type =>
    .bind (acts_compatible ..) fun fits => ?_
  split
  · exact .bind (acts_label _) fun _ => .bind (acts_label _) fun _ => .error ..
  · exact .pure _

theorem walks_checkCounter (place : Place) {counter : DeclId}
    (holds : tree.Holds (.decl .localVar counter)) :
    Walks tree names here whole [(.decl .localVar counter, here)] (checkCounter tree place counter) := by
  refine .andNothing (walks_checkVariable forest place rfl holds) fun _ => .read fun state _ => ?_
  split
  · exact .declare rfl holds
  · exact .aside (.pure _)

omit forest in
/-- A branch, loop or arm is checked in its own scope. -/
theorem walks_inOwnScope {check : StmtId → AnalysisM Unit} {id : StmtId} (holds : tree.Holds (.stmt id))
    (walks : ∀ here, Walks tree names here whole [(.stmt id, here)] (check id)) :
    Walks tree names here whole [(.stmt id, scopeOfBranch tree names here id)]
      (inOwnScope tree check id) := by
  obtain ⟨stmt, isStmt⟩ := Option.isSome_iff_exists.mp holds
  unfold inOwnScope scopeOfBranch
  simp only [isStmt, Option.map_some]
  cases form : stmt.form with
  | block stmts => exact walks here
  | _ =>
    exact .inSlot (·.scopeOfStmt[id]?) (fun _ => rfl) (walks _)

/-- Only declarations have bodies. -/
theorem not_isBody_of_part {whole part : Node} (holds : tree.Holds whole)
    (other : ∀ kind id, whole ≠ .decl kind id) (isPart : part ∈ tree.parts whole) :
    ¬IsBody tree part := by
  rintro ⟨id, callable, body, _, isCallable, isBody, -, rfl⟩
  obtain ⟨decl, isDecl, -⟩ := Option.bind_eq_some_iff.mp isCallable
  have isDecl : tree.Holds (.decl decl.kind id) := by simp [Tree.Holds, Tree.kindOf?, isDecl]
  have member : .stmt body ∈ callable.parts := by simp [Callable.parts, isBody]
  exact other _ _ (forest.whole_unique holds isDecl isPart
    (Tree.mem_parts_of_callable? isCallable member decl.kind))

theorem walks_stmtWithin {id : Nat} (enough : id < fuel) (holds : tree.Holds (.stmt id))
    (notBody : ¬IsBody tree (.stmt id)) :
    Walks tree names here whole [(.stmt id, here)] (stmtWithin tree place fuel id) := by
  induction fuel generalizing here whole id with
  | zero => omega
  | succ fuel inductionHypothesis =>
    obtain ⟨stmt, isStmt⟩ := Option.isSome_iff_exists.mp holds
    have parts := tree.parts_stmt isStmt
    have isPart {part : Node} (member : part ∈ stmt.form.parts) : tree.Holds part :=
      forest.holds_part (parts ▸ member)
    have inner {here : ScopeId} {part : Nat} (member : .stmt part ∈ stmt.form.parts) :
        Walks tree names here (.stmt id) [(.stmt part, here)] (stmtWithin tree place fuel part) := by
      have lower := forest.stmtsBelow id stmt isStmt part member
      exact inductionHypothesis (by omega) (isPart member)
        (not_isBody_of_part forest holds (by rintro _ _ ⟨⟩) (parts ▸ member))
    have inside {here : ScopeId} {part : Nat} (member : .stmt part ∈ stmt.form.parts) :
        Walks tree names here (.stmt id) [(.stmt part, scopeOfBranch tree names here part)]
          (inOwnScope tree (stmtWithin tree place fuel) part) :=
      walks_inOwnScope (isPart member) fun _ => inner member
    have value {part : ExprId} (member : .expr part ∈ stmt.form.parts) : tree.Holds (.expr part) :=
      isPart member
    have closes {visited : List (Node × ScopeId)} {action : AnalysisM Unit}
        (walks : Walks tree names here (.stmt id) visited action)
        (same : visited = stmt.form.parts.map fun part =>
          (part, scopeOfPart tree names here (.stmt id) part)) :
        Walks tree names here whole [(.stmt id, here)] action := by
      refine .ofParts holds (by rintro _ ⟨⟩) notBody walks (.of_eq ?_)
      rw [same, checkedParts, parts, List.filter_eq_self.mpr fun part member => ?_]
      rcases Tree.mem_stmtParts member with ⟨_, rfl⟩ | ⟨_, rfl⟩ | ⟨_, rfl⟩ <;> rfl
    unfold stmtWithin
    simp only [isStmt]
    cases form : stmt.form with
    | block stmts =>
      refine closes (.inSlot (·.scopeOfStmt[id]?) (fun _ => rfl) (.forMSome rfl fun part member =>
        inner (form ▸ List.mem_filterMap.mpr ⟨some part, member, rfl⟩))) ?_
      simp [form, StmtForm.parts, scopeOfPart, isStmt, List.filterMap_eq_flatMap_toList,
        Option.toList_map, List.map_eq_flatMap, List.flatMap_assoc]
    | decl declared =>
      have member : .decl .localVar declared ∈ stmt.form.parts := by simp [form, StmtForm.parts]
      refine closes (walks_checkVariable forest place rfl (isPart member)) ?_
      simp [form, StmtForm.parts, scopeOfPart, isStmt]
    | expr part =>
      refine closes (walks_expr forest place
        (value (by simp [form, StmtForm.parts] : Node.expr part ∈ stmt.form.parts)) 0).discard ?_
      simp [form, StmtForm.parts, scopeOfPart, isStmt]
    | assign target assigned =>
      refine closes (walks_checkAssign forest place
        (value (by simp [form, StmtForm.parts])) (value (by simp [form, StmtForm.parts]))) ?_
      simp [form, StmtForm.parts, scopeOfPart, isStmt]
    | branch cond thenBranch elseBranch =>
      refine closes (.bind (walks_checkCondition forest place
        (value (by simp [form, StmtForm.parts]))) fun _ =>
          .bind (inside (by simp [form, StmtForm.parts])) fun _ =>
            .optionForM fun part isElse => inside ?_) ?_
      · simp [form, StmtForm.parts, Option.mem_def.mp isElse]
      · cases elseBranch <;> simp [form, StmtForm.parts, scopeOfPart, isStmt]
    | whileLoop cond body =>
      refine closes (.bind (walks_checkCondition forest place
        (value (by simp [form, StmtForm.parts]))) fun _ => inside (by simp [form, StmtForm.parts])) ?_
      simp [form, StmtForm.parts, scopeOfPart, isStmt]
    | forLoop counter first last body =>
      have bound {part : ExprId} (member : .expr part ∈ stmt.form.parts) :
          Walks tree names here (.stmt id) [(.expr part, here)]
            (checkInt tree (expr tree place) .loopBound part) :=
        walks_checkInt (walks_expr forest place (value member) _) .loopBound
      refine closes (.bind (bound (by simp [form, StmtForm.parts])) fun _ =>
        .bind (bound (by simp [form, StmtForm.parts])) fun _ =>
          .inSlot (·.scopeOfStmt[id]?) (fun _ => rfl) (.bind (walks_checkCounter forest place
            (isPart (by simp [form, StmtForm.parts]))) fun _ =>
              inside (by simp [form, StmtForm.parts]))) ?_
      simp [form, StmtForm.parts, scopeOfPart, isStmt]
    | case subject arms default =>
      have armParts : CaseArm.parts =
          fun arm => (arm.values.flatMap fun part => [.expr part]) ++ [.stmt arm.body] := by
        funext arm
        simp [CaseArm.parts, List.map_eq_flatMap]
      refine closes (.bind (walks_expr forest place
        (value (by simp [form, StmtForm.parts])) 0) fun subjectType => .bind
          (.forM fun arm isArm => .bind
            (.forM fun part isValue => walks_checkCaseValue forest place _ (value ?_))
            fun _ => inside ?_)
          fun _ => .optionForM fun part isDefault => inside ?_) ?_
      · simp only [form, StmtForm.parts, CaseArm.parts, List.mem_cons, List.mem_append,
          List.mem_flatMap, List.mem_map]
        exact .inr (.inl ⟨arm, isArm, .inl ⟨part, isValue, rfl⟩⟩)
      · simp only [form, StmtForm.parts, CaseArm.parts, List.mem_cons, List.mem_append,
          List.mem_flatMap]
        exact .inr (.inl ⟨arm, isArm, .inr (.inl rfl)⟩)
      · simp [form, StmtForm.parts, Option.mem_def.mp isDefault]
      · cases default <;> simp [form, StmtForm.parts, armParts, scopeOfPart, isStmt, List.map_flatMap]
    | ret result =>
      refine closes (walks_checkReturn forest place _ fun part isResult => value ?_) ?_
      · simp [form, StmtForm.parts, Option.mem_def.mp isResult]
      · cases result <;> simp [form, StmtForm.parts, scopeOfPart, isStmt]

theorem walks_stmt (place : Place) {id : StmtId} (holds : tree.Holds (.stmt id))
    (notBody : ¬IsBody tree (.stmt id)) :
    Walks tree names here whole [(.stmt id, here)] (stmt tree place id) := by
  obtain ⟨_, isStmt⟩ := Option.isSome_iff_exists.mp holds
  exact walks_stmtWithin forest (Nat.lt_succ_of_le (Arena.get?_eq_some_le isStmt).2) holds notBody

/-! ### Declarations -/

/-- The statements of a body are checked in the scope of the callable. -/
theorem walks_bodyPart (place : Place) {part : Option StmtId}
    (holds : ∀ id ∈ part, tree.Holds (.stmt id) ∧ ¬IsBody tree (.stmt id)) (returned : Bool) :
    Walks tree names here whole (part.toList.flatMap fun part => [(.stmt part, here)]) (do
      match part with
      | none => return returned
      | some child =>
        TypeCheck.stmt tree place child
        return returned || returns tree child) := by
  cases part with
  | none => exact .aside (.pure _)
  | some part =>
    exact .andAside (walks_stmt forest place (holds part rfl).1 (holds part rfl).2) fun _ => .pure _

theorem walks_checkBody (place : Place) {id : DeclId} {callable : Callable} {body : StmtId}
    (isCallable : tree.callable? id = some callable) (isBody : callable.body = some body)
    (holds : tree.Holds (.stmt body)) :
    Walks tree names here whole [(.stmt body, here)]
      (checkBody tree place (Resolve.bodyStmts tree body)) := by
  obtain ⟨stmt, isStmt⟩ := Option.isSome_iff_exists.mp holds
  have parts := tree.parts_stmt isStmt
  unfold checkBody Resolve.bodyStmts
  simp only [isStmt, Option.map_some]
  split
  · next stmts form =>
    have form : stmt.form = .block stmts := Option.some.inj form
    have isPart : ∀ part ∈ stmts, ∀ id ∈ part,
        tree.Holds (.stmt id) ∧ ¬IsBody tree (.stmt id) := by
      rintro _ member id ⟨⟩
      have isPart : .stmt id ∈ tree.parts (.stmt body) := by
        rw [parts, form]
        exact List.mem_filterMap.mpr ⟨some id, member, rfl⟩
      exact ⟨forest.holds_part isPart, not_isBody_of_part forest holds (by rintro _ _ ⟨⟩) isPart⟩
    have walks : Walks tree names here (.stmt body) (stmts.flatMap _) _ :=
      .foldlM (fun part member returned =>
        walks_bodyPart forest place (isPart part member) returned) false
    have isBlock : IsBody tree (.stmt body) :=
      ⟨id, callable, body, stmts, isCallable, isBody, by simp [isStmt, form], rfl⟩
    refine .node holds (by rintro _ ⟨⟩) walks (.of_eq ?_) fun part member =>
      ⟨fun _ => ?_, (absurd isBlock ·)⟩
    · rw [checkedParts, parts, form, StmtForm.parts, List.filter_eq_self.mpr fun part member => ?_]
      · simp [List.filterMap_eq_flatMap_toList, Option.toList_map, List.map_eq_flatMap,
          List.flatMap_assoc]
      · obtain ⟨_, -, isStmt⟩ := List.mem_filterMap.mp member
        obtain ⟨_, -, rfl⟩ := Option.map_eq_some_iff.mp isStmt
        rfl
    · obtain ⟨_, -, member⟩ := List.mem_flatMap.mp member
      obtain ⟨_, -, member⟩ := List.mem_flatMap.mp member
      obtain rfl := List.mem_singleton.mp member
      rfl
  · next other =>
    have notBody : ¬IsBody tree (.stmt body) := by
      rintro ⟨_, _, _, stmts, -, -, isBlock, ⟨⟩⟩
      rw [isStmt] at isBlock
      exact other stmts isBlock
    refine .andAside (walks_bodyPart forest place ?_ false : Walks tree names here whole
      ((some body).toList.flatMap _) _) fun _ => .pure _
    rintro _ ⟨⟩
    exact ⟨holds, notBody⟩

theorem walks_checkCallable (place : Place) {id : DeclId} (isCallable : kind.isCallable)
    (holds : tree.Holds (.decl kind id)) :
    Walks tree names here whole [(.decl kind id, here)] (checkCallable tree place id) := by
  obtain ⟨decl, isDecl, rfl⟩ := Option.map_eq_some_iff.mp (show tree.kindOf? id = _ from holds)
  obtain ⟨callable, isBody, parts⟩ := decl.callable?_of_isCallable isCallable
  have noInit : decl.init = none := forest.init_eq_none isDecl
    (by cases kind : decl.kind <;> simp [kind, DeclKind.isCallable] at isCallable <;> rfl)
  have parts : tree.parts (.decl decl.kind id) = (decl.type.map .type).toList ++ callable.parts := by
    simp [Tree.parts, isDecl, Decl.parts, parts, noInit]
  have isPart {part : Node} (member : part ∈ callable.parts) : tree.Holds part :=
    forest.holds_part (parts ▸ List.mem_append_right _ member)
  have isCallable? : tree.callable? id = some callable := by
    rw [Tree.callable?, isDecl, Option.bind_some, isBody]
  have walks : Walks tree names here (.decl decl.kind id)
      ((callable.params.flatMap fun param =>
          [(.decl .param param, names.scopeOfDecl[id]?.getD here)]) ++
        callable.body.toList.flatMap fun body => [(.stmt body, names.scopeOfDecl[id]?.getD here)])
      (checkCallable tree place id) := by
    unfold checkCallable
    rw [isCallable?, isDecl]
    refine .inSlot (·.scopeOfDecl[id]?) (fun _ => rfl) ?_
    refine .behind (.forM fun param _ => (checks_nominal tree param).aims.discard) fun _ => .bind
      (.forM fun param member => walks_checkVariable forest _ rfl
        (isPart (by simp [Callable.parts, member]))) fun _ =>
          .behind (checks_declType tree id).aims fun result => ?_
    split
    · next noBody =>
      rw [noBody]
      exact .aside (.pure _)
    · next body isBody =>
      rw [isBody]
      refine .andAside (walks_checkBody forest _ isCallable? isBody
        (isPart (by simp [Callable.parts, isBody]))) fun returned => .bind
          (acts_modifyTyping (fun _ => rfl) (fun _ => rfl) (fun _ => rfl) (fun _ _ known => known)
            (fun _ => rfl) fun _ _ _ => rfl) fun _ => .bind (acts_kindOf _) fun kind => ?_
      split
      · exact .bind (acts_label _) fun _ => .report _
      · exact .pure _
  have scope (part : Node) : scopeOfPart tree names here (.decl decl.kind id) part =
      names.scopeOfDecl[id]?.getD here := by
    cases kind : decl.kind <;> simp [kind, DeclKind.isCallable] at isCallable <;> rfl
  refine .ofParts holds (by rintro _ ⟨⟩) (not_isBody (by rintro _ ⟨⟩)) walks (.of_eq ?_)
  simp only [checkedParts, parts, Callable.parts, scope]
  cases callable.body <;>
    simp [isChecked, List.filter_map, Function.comp_def, ← List.map_eq_flatMap, List.filter_cons]

theorem walks_checkClass (place : Place) {id : DeclId} (holds : tree.Holds (.decl .classDecl id)) :
    Walks tree names here whole [(.decl .classDecl id, here)] (checkClass tree place id) := by
  obtain ⟨decl, isDecl, kind⟩ := Option.map_eq_some_iff.mp (show tree.kindOf? id = _ from holds)
  obtain ⟨body, form⟩ := Decl.form_of_classDecl kind
  have noInit : decl.init = none := forest.init_eq_none isDecl (by rw [kind]; rfl)
  have parts : tree.parts (.decl .classDecl id) = (decl.type.map .type).toList ++ body.parts := by
    simp [Tree.parts, isDecl, Decl.parts, form, DeclForm.parts, noInit]
  have isPart {part : Node} (member : part ∈ body.parts) : tree.Holds part :=
    forest.holds_part (parts ▸ List.mem_append_right _ member)
  have walks : Walks tree names here (.decl .classDecl id)
      ((body.fields.flatMap fun field => [(.decl .field field, names.scopeOfDecl[id]?.getD here)]) ++
        body.methods.flatMap fun method => [(.decl .method method, names.scopeOfDecl[id]?.getD here)])
      (checkClass tree place id) := by
    unfold checkClass
    rw [Tree.classBody?, isDecl, Option.bind_some, Decl.classBody?, form]
    refine .behind (checks_nominal tree id).aims.discard fun _ => .spanned _ _ _ _ fun _ =>
      .inSlot (·.scopeOfDecl[id]?) (fun _ => rfl) (.bind (.forM fun field member =>
        walks_checkVariable forest _ rfl (isPart (by simp [ClassBody.parts, member]))) fun _ =>
          .behind (.forM fun method _ => (checks_declType tree method).aims.discard) fun _ =>
            .forM fun method member => walks_checkCallable forest _ rfl
              (isPart (by simp [ClassBody.parts, member])))
  refine .ofParts holds (by rintro _ ⟨⟩) (not_isBody (by rintro _ ⟨⟩)) walks (.of_eq ?_)
  simp only [checkedParts, parts, ClassBody.parts, scopeOfPart]
  simp [isChecked, List.filter_map, Function.comp_def, ← List.map_eq_flatMap]

/-! ### Units and programs -/

omit forest in
theorem nodup_unitClasses (order classes : List DeclId) : (unitClasses order classes).Nodup := by
  have grows (items placed : List DeclId) (once : placed.Nodup) :
      (items.foldl (fun placed id => if id ∈ placed then placed else placed ++ [id]) placed).Nodup := by
    induction items generalizing placed with
    | nil => exact once
    | cons item rest inductionHypothesis =>
      rw [List.foldl_cons]
      split
      · exact inductionHypothesis placed once
      · next fresh => exact inductionHypothesis _ (List.nodup_append.mpr
          ⟨once, List.nodup_singleton _, fun other member last isLast same =>
            fresh (List.mem_singleton.mp isLast ▸ same ▸ member)⟩)
  exact grows _ _ .nil

omit forest in
/-- The classes of a unit that are checked are those in the order of resolution. -/
theorem mem_unitClasses {id : DeclId} :
    id ∈ unitClasses order classes ↔ id ∈ order ∧ id ∈ classes := by
  have comes (items placed : List DeclId) :
      id ∈ items.foldl (fun placed id => if id ∈ placed then placed else placed ++ [id]) placed ↔
        id ∈ items ∨ id ∈ placed := by
    induction items generalizing placed with
    | nil => simp
    | cons item rest inductionHypothesis =>
      rw [List.foldl_cons, inductionHypothesis]
      split <;> grind
  simp [unitClasses, comes]

omit forest in
theorem perm_unitClasses (once : classes.Nodup) :
    (unitClasses order classes).Perm (classes.filter (· ∈ order)) :=
  (List.perm_ext_iff_of_nodup (nodup_unitClasses ..) (once.filter _)).mpr fun id => by
    rw [mem_unitClasses, List.mem_filter, decide_eq_true_iff, and_comm]

theorem walks_unit {id : UnitId} (holds : tree.Holds (.unit id)) :
    Walks tree names here whole [(.unit id, here)] (unit tree parent id) := by
  obtain ⟨body, isUnit⟩ := Option.isSome_iff_exists.mp holds
  have parts := tree.parts_unit isUnit
  have isPart {part : Node} (member : part ∈ body.parts) : tree.Holds part :=
    forest.holds_part (parts ▸ member)
  have callable {here : ScopeId} (place : Place) {function : DeclId}
      (member : .decl .function function ∈ body.parts) :
      Walks tree names here (.unit id) [(.decl .function function, here)]
        (checkCallable tree place function) :=
    walks_checkCallable forest place rfl (isPart member)
  have walks : Walks tree names here (.unit id)
      ((body.globals.flatMap fun global => [(.decl .global global, names.units[id]?.getD here)]) ++
        (((unitClasses names.order body.classes).flatMap fun other =>
            [(.decl .classDecl other, names.units[id]?.getD here)]) ++
          ((body.functions.flatMap fun function =>
              [(.decl .function function, names.units[id]?.getD here)]) ++
            ((body.main.toList.flatMap fun function =>
                [(.decl .function function, names.units[id]?.getD here)]) ++
              body.stmts.flatMap fun child => [(.stmt child, names.units[id]?.getD here)]))))
      (unit tree parent id) := by
    unfold unit
    simp only [isUnit]
    refine .spanned _ _ _ _ fun span => .inSlot (·.units[id]?) (fun _ => rfl) (.behind
      (.forM fun enum _ => (checks_checkEnum tree enum).aims) fun _ => .bind
        (.forM fun global member => walks_checkVariable forest _ rfl (isPart ?_)) fun _ =>
          .read fun state isNames => .bind ?_ fun _ => .bind (.forM fun function member => callable _ ?_)
            fun _ => .bind (.optionForM fun function isMain => callable _ ?_) fun _ =>
              .forM fun child member => walks_stmt forest _ (isPart ?_)
                (not_isBody_of_part forest holds (by rintro _ _ ⟨⟩) (parts ▸ ?_)))
    · simp [ProgramUnit.parts, member]
    · rw [show state.names.order = names.order from isNames ▸ rfl]
      refine .forM fun other member => walks_checkClass forest _ (isPart ?_)
      simp [ProgramUnit.parts, (mem_unitClasses.mp member).2]
    · simp [ProgramUnit.parts, member]
    · simp [ProgramUnit.parts, Option.mem_def.mp isMain]
    · simp [ProgramUnit.parts, member]
    · simp [ProgramUnit.parts, member]
  refine .ofParts holds (by rintro _ ⟨⟩) (not_isBody (by rintro _ ⟨⟩)) walks ?_
  have classes : (unitClasses names.order body.classes).Perm
      (body.classes.filter (· ∈ names.order)) := perm_unitClasses (forest.nodup_classes isUnit)
  simp only [checkedParts, parts, ProgramUnit.parts, scopeOfPart]
  simp only [isChecked, List.filter_append, List.filter_map, Function.comp_def, List.filter_true,
    List.filter_false, List.map_nil, List.nil_append, Option.toList_map, List.map_append, List.map_map,
    ← List.map_eq_flatMap, List.append_assoc]
  exact .append_left _ (.append_right _ (classes.map _))

theorem apart_units {units : List UnitId} (once : units.Nodup)
    (hold : ∀ unit ∈ units, tree.Holds (.unit unit)) :
    Apart tree (.unit 0) (units.map .unit) where
  proper _ _ _ _ := nofun
  once := List.pairwise_map.mpr <| once.imp_of_mem fun member member' different _ below below' =>
    different (forest.unit_unique (hold _ member) (hold _ member') below below')

theorem walks_program (hold : ∀ unit ∈ names.unitOrder, tree.Holds (.unit unit)) :
    Walks tree names here (.unit 0) (names.unitOrder.map fun unit => (.unit unit, here))
      (program tree parent) := by
  rw [List.map_eq_flatMap]
  refine .read fun state isNames => ?_
  rw [show state.names.unitOrder = names.unitOrder from isNames ▸ rfl]
  exact .forM fun unit member => walks_unit forest (hold unit member)

/-- What holds of every expression when its check ends, and lasts, holds of every expression that
something was recorded about when a program was checked. -/
theorem sound_of_recorded {sound : Analysis → ExprId → Prop} (settling : Settling tree sound)
    (lasting : Lasting tree sound) (once : before.names.unitOrder.Nodup)
    (hold : ∀ unit ∈ before.names.unitOrder, tree.Holds (.unit unit)) (typing : before.typing = {})
    (ran : program tree parent before = .ok () after) (recorded : ¬Blank after id) :
    sound after id := by
  have walks : Walks tree before.names.atRest 0 (.unit 0)
      (before.names.unitOrder.map fun unit => (.unit unit, 0)) (program tree parent) :=
    walks_program forest hold
  have nodes : (before.names.unitOrder.map fun unit => (Node.unit unit, 0)).map Prod.fst =
      before.names.unitOrder.map .unit := by simp
  have blank (id : ExprId) : Blank before id := by
    rw [Blank, typing]
    rfl
  have keeps := walks.keeps rfl ran
  have settled := walks.settles forest settling lasting (nodes ▸ apart_units forest once hold) rfl
    (typing ▸ .refl _) (fun _ _ id _ => blank id) ran
  rw [nodes] at keeps settled
  by_cases below : ∃ node ∈ before.names.unitOrder.map .unit, tree.Reaches node (.expr id)
  · obtain ⟨node, member, below⟩ := below
    exact settled node member id below recorded
  · exact absurd
      ((keeps.records id ⟨nofun, fun node member below' => below ⟨node, member, below'⟩⟩).trans
      (blank id)) recorded

end Walk

end TreeCheck.TypeCheck
