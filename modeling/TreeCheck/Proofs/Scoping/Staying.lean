/-
Statements, declarations, units and submissions: whatever they do and however they end,
the annotations stay valid and scopes only grow. A block, branch or loop closes its scope
only when it comes to its end, a class or callable in any case; resolving a unit, and
whatever is submitted, restores the stack of open scopes exactly.
-/

import TreeCheck.Proofs.Scoping.Noting
import TreeCheck.Resolve.Units

namespace TreeCheck.Resolve

open AnalysisM ScopeTable

variable {tree : Tree} {loose : List Node} {touched : Node → Prop} {before : Analysis}
variable {id : DeclId} {place : Place} {kind : DeclKind} {body : ClassBody}
  {action : AnalysisM Unit} {resolveUnit : UnitId → AnalysisM ScopeId} {unit : ProgramUnit}

/-! ### Variables -/

theorem stays_bind (inside : Inside tree before) (bindable : tree.Bindable id)
    (new : News tree touched id) (key : Key) :
    Stays tree touched before Any (Resolve.bind tree key id) := by
  unfold Resolve.bind
  refine .read rfl ?_
  split
  · next table ok =>
    obtain ⟨-, grows, stack, -⟩ := inside.valid.bindScopes bindable ok
    exact .modifyNames (.of_scopes (inside.valid.bind bindable ok) grows
      (gains_bind ok new) (fun keyed => keyed.bind ok _) rfl rfl rfl (fun _ _ isHome => isHome)
      fun _ => .inl rfl) stack
  · dsimp only
    split
    · exact .report inside.valid _
    · exact .report inside.valid _

theorem stays_bindName (inside : Inside tree before) (bindable : tree.Bindable id)
    (new : News tree touched id) : Stays tree touched before Any (bindName tree id) :=
  stays_bind inside bindable new _

theorem notes_hidden? (name : String) : Notes tree touched before Any (hidden? tree name) := by
  unfold hidden?
  refine .read rfl ?_
  dsimp only
  split
  · exact .pure trivial
  · exact .pure trivial

theorem stays_bindVariable (inside : Inside tree before) (bindable : tree.Bindable id)
    (new : News tree touched id) (decl : Decl) :
    Stays tree touched before Any (bindVariable tree id decl) := by
  unfold bindVariable
  refine .read rfl ?_
  dsimp only
  split
  · exact .report inside.valid _
  · split
    · refine .bind (.of_notes inside.valid (notes_hidden? _)) fun hides _ leads stack _ => ?_
      split
      · exact .report leads.valid _
      · exact stays_bind (inside.leads leads stack) bindable new _
    · exact stays_bind inside bindable new _

theorem stays_declareVariable (forest : tree.Forest loose) (closed : tree.Closed touched)
    (inside : Inside tree before) (known : KnownPlace tree place) (bindable : tree.Bindable id)
    (here : touched (.decl kind id)) :
    Stays tree touched before Any (declareVariable tree place id) := by
  have new : News tree touched id := .inr ⟨kind, here⟩
  unfold declareVariable
  cases found : tree.decls.get? id with
  | none => exact .pure inside.valid trivial
  | some decl =>
    have part {node : Node} (member : node ∈ decl.parts) : touched node :=
      closed (.decl kind id) _ here (by simp [Tree.parts, found, member])
    refine .bind (.of_notes inside.valid (.discard (notes_type closed inside fun type same => ?_)))
      fun _ after leads stack _ => ?_
    · exact part (by simp [Decl.parts, Option.mem_def.mp same])
    · have inside := inside.leads leads stack
      dsimp only
      split
      · next init isInit =>
        have known : KnownPlace tree { place with declaring := decl.name } := known
        refine .bind (.of_notes inside.valid (notes_expr forest closed inside known (part ?_)))
          fun _ after' leads' stack' _ =>
            stays_bindVariable (inside.leads leads' stack') bindable new decl
        simp [Decl.parts, isInit]
      · exact stays_bindVariable inside bindable new decl

/-! ### Statements -/

/-- A scope is opened for a statement, something happens inside, and the scope is closed. -/
theorem stays_openFor (inside : Inside tree before) {kind : ScopeKind}
    (inner : kind ≠ .invalid ∧ kind ≠ .global) (id : StmtId) (span : Span) {body : AnalysisM PUnit}
    (walk : ∀ opened, Inside tree opened → Stays tree touched opened Any body) :
    Stays tree touched before Any (do openFor kind id span; body; close) := by
  obtain ⟨table, opens, valid, grows, stack⟩ := inside.valid.openStmt inside.isOpen inner id span
  let opened : Analysis :=
    { before with
      names :=
        { before.names with
          scopes := table.modify before.names.scopes.scopes.next fun opened =>
            { opened with stmt := id }
          scopeOfStmt := before.names.scopeOfStmt.insert id before.names.scopes.scopes.next } }
  have gains {news : DeclId → Prop} : before.names.scopes.Gains news opened.names.scopes :=
    (gains_openScope opens).trans (gains_modify _ _ fun _ => rfl)
  have leads : Evolves tree touched before opened :=
    .of_scopes valid grows gains (fun keyed => keyed.of_gains gains rfl) rfl rfl rfl
      (fun _ _ isHome => isHome) fun _ => .inl rfl
  have stack : opened.names.scopes.stack =
    before.names.scopes.scopes.next :: before.names.scopes.stack := stack
  have runs : openFor kind id span before = .ok ⟨⟩ opened := by
    show EStateM.Result.ok _ _ = _
    simp only [opens, opened]
  have open' : Inside tree opened := ⟨valid, by rw [stack]; exact List.cons_ne_nil _ _⟩
  show Ends _ _ (EStateM.bind (openFor kind id span) _ before)
  rw [EStateM.bind, runs]
  refine Ends.bind ((walk opened open').mono (fun after ⟨leads', below⟩ => ?_) fun _ _ h => h)
    fun _ after ⟨leads', stack', _⟩ => ?_
  · exact ⟨leads.trans leads', (stack ▸ List.suffix_cons _ _).trans below⟩
  · refine ⟨(leads.trans leads').trans (.ofScopes leads'.valid.close
      (Resolution.Valid.grows_close _) (gains_close _) (gains_close _)), ?_, trivial⟩
    show after.names.scopes.stack.tail = _
    rw [stack', stack, List.tail_cons]

theorem stays_inOwnScope (inside : Inside tree before) {walk : StmtId → AnalysisM Unit} {id : StmtId}
    (walks : ∀ opened, Inside tree opened → Stays tree touched opened Any (walk id)) :
    Stays tree touched before Any (inOwnScope tree walk id) := by
  unfold inOwnScope
  split
  · exact .pure inside.valid trivial
  · split
    · exact walks before inside
    · exact stays_openFor inside (by decide) id _ walks

theorem stays_stmtWithin (forest : tree.Forest loose) (closed : tree.Closed touched)
    (inside : Inside tree before) (known : KnownPlace tree place) (fuel : Nat) {id : StmtId}
    (here : touched (.stmt id)) :
    Stays tree touched before Any (stmtWithin tree place fuel id) := by
  induction fuel generalizing id before with
  | zero => exact .pure inside.valid trivial
  | succ fuel inductionHypothesis =>
    unfold stmtWithin
    dsimp only
    cases found : tree.stmts.get? id with
    | none => exact .pure inside.valid trivial
    | some stmt =>
      have isPart {node : Node} (member : node ∈ stmt.form.parts) : node ∈ tree.parts (.stmt id) := by
        simp [Tree.parts, found, member]
      have part {node : Node} (member : node ∈ stmt.form.parts) : touched node :=
        closed (.stmt id) _ here (isPart member)
      have value {state : Analysis} (inside : Inside tree state) {value : ExprId}
          (member : .expr value ∈ stmt.form.parts) :
          Stays tree touched state Any (expr tree place value) :=
        .of_notes inside.valid (notes_expr forest closed inside known (part member))
      have own {state : Analysis} (inside : Inside tree state) {child : StmtId}
          (member : .stmt child ∈ stmt.form.parts) :
          Stays tree touched state Any (inOwnScope tree (stmtWithin tree place fuel) child) :=
        stays_inOwnScope inside fun opened open' => inductionHypothesis open' (part member)
      have declares {state : Analysis} (inside : Inside tree state) {decl : DeclId}
          (member : .decl .localVar decl ∈ stmt.form.parts) :
          Stays tree touched state Any (declareVariable tree place decl) :=
        stays_declareVariable forest closed inside known
          (forest.bindable_part (isPart member) (by decide)) (part member)
      dsimp only
      cases form : stmt.form with
      | block stmts =>
        refine stays_openFor inside (by decide) id stmt.span fun opened open' =>
          .forM open'.valid fun child member state leads stack => ?_
        split
        · next child =>
          refine inductionHypothesis (open'.leads leads stack) (part ?_)
          simp [form, StmtForm.parts, member]
        · exact .pure leads.valid trivial
      | decl decl => exact declares inside (by simp [form, StmtForm.parts])
      | expr value' => exact value inside (by simp [form, StmtForm.parts])
      | assign target assigned =>
        exact .bind (value inside (by simp [form, StmtForm.parts])) fun _ after leads stack _ =>
          value (inside.leads leads stack) (by simp [form, StmtForm.parts])
      | branch cond thenBranch elseBranch =>
        refine .bind (value inside (by simp [form, StmtForm.parts])) fun _ after leads stack _ => ?_
        have inside := inside.leads leads stack
        refine .bind (own inside (by simp [form, StmtForm.parts])) fun _ after' leads' stack' _ =>
          .optionForM leads'.valid fun child member => own (inside.leads leads' stack') ?_
        simp [form, StmtForm.parts, Option.mem_def.mp member]
      | whileLoop cond body =>
        exact .bind (value inside (by simp [form, StmtForm.parts])) fun _ after leads stack _ =>
          own (inside.leads leads stack) (by simp [form, StmtForm.parts])
      | forLoop counter first last body =>
        refine .bind (value inside (by simp [form, StmtForm.parts])) fun _ after leads stack _ => ?_
        have inside := inside.leads leads stack
        refine .bind (value inside (by simp [form, StmtForm.parts])) fun _ after' leads' stack' _ => ?_
        have inside := inside.leads leads' stack'
        have walk (opened : Analysis) (open' : Inside tree opened) :
            Stays tree touched opened Any (do
              declareVariable tree place counter
              inOwnScope tree (stmtWithin tree place fuel) body) :=
          .bind (declares open' (by simp [form, StmtForm.parts])) fun _ _ leads stack _ =>
            own (open'.leads leads stack) (by simp [form, StmtForm.parts])
        have inner : ScopeKind.loop ≠ .invalid ∧ ScopeKind.loop ≠ .global := by decide
        simpa only [bind_assoc] using stays_openFor inside inner id stmt.span walk
      | case subject arms default =>
        refine .bind (value inside (by simp [form, StmtForm.parts])) fun _ after leads stack _ => ?_
        have inside := inside.leads leads stack
        have inArm {arm : CaseArm} {node : Node} (member : arm ∈ arms) (among : node ∈ arm.parts) :
            node ∈ stmt.form.parts := by
          rw [form]
          exact .tail _ (List.mem_append_left _ (List.mem_flatMap.mpr ⟨arm, member, among⟩))
        refine .bind (.forM inside.valid fun arm member state leads' stack' => ?_)
          fun _ after' leads' stack' _ => .optionForM leads'.valid fun child member =>
            own (inside.leads leads' stack') ?_
        · have inside := inside.leads leads' stack'
          refine .bind (.forM inside.valid fun item among state' leads'' stack'' =>
            value (inside.leads leads'' stack'') (inArm member ?_)) fun _ _ leads'' stack'' _ =>
              own (inside.leads leads'' stack'') (inArm member ?_)
          · simp [CaseArm.parts, among]
          · simp [CaseArm.parts]
        · simp [form, StmtForm.parts, Option.mem_def.mp member]
      | ret returned =>
        exact .optionForM inside.valid fun item member => value inside (by
          simp [form, StmtForm.parts, Option.mem_def.mp member])

theorem stays_stmt (forest : tree.Forest loose) (closed : tree.Closed touched)
    (inside : Inside tree before) (known : KnownPlace tree place) {id : StmtId}
    (here : touched (.stmt id)) : Stays tree touched before Any (stmt tree place id) :=
  stays_stmtWithin forest closed inside known _ here

theorem touched_bodyStmts (closed : tree.Closed touched) {body : StmtId} (here : touched (.stmt body))
    {child : StmtId} (member : some child ∈ bodyStmts tree body) : touched (.stmt child) := by
  unfold bodyStmts at member
  split at member
  · next stmts isBlock =>
    obtain ⟨stmt, found, form⟩ := Option.map_eq_some_iff.mp isBlock
    refine closed (.stmt body) _ here ?_
    simp [Tree.parts, found, form, StmtForm.parts, member]
  · cases List.mem_singleton.mp member
    exact here

/-! ### Callables -/

theorem stays_declareConsts (forest : tree.Forest loose) (closed : tree.Closed touched)
    (inside : Inside tree before) (known : KnownPlace tree place)
    (here : touched (.decl .enum id)) :
    Stays tree touched before Any (match (tree.decls.get? id).bind Decl.consts? with
      | some consts => consts.forM (declareVariable tree place)
      | none => return) := by
  split
  · next consts isEnum =>
    refine .forM inside.valid fun const member state leads stack => ?_
    have part := tree.const_mem_parts isEnum member
    exact stays_declareVariable forest closed (inside.leads leads stack) known
      (forest.bindable_part part (by decide)) (closed _ _ here part)
  · exact .pure inside.valid trivial

theorem stays_declareEnum (forest : tree.Forest loose) (closed : tree.Closed touched)
    (inside : Inside tree before) (known : KnownPlace tree place) (bindable : tree.Bindable id)
    (here : touched (.decl .enum id)) : Stays tree touched before Any (declareEnum tree place id) :=
  .bind (stays_bindName inside bindable (.inr ⟨_, here⟩)) fun _ _ leads stack _ =>
    stays_declareConsts forest closed (inside.leads leads stack) known here

theorem stays_declareCallable (inside : Inside tree before) (bindable : tree.Bindable id)
    (new : News tree touched id) : Stays tree touched before Any (declareCallable tree id) := by
  unfold declareCallable
  split
  · exact .pure inside.valid trivial
  · exact .read rfl (stays_bind inside bindable new _)

/-- A scope is opened for a declaration, something happens inside, and the innermost open scope
is closed, however that ends. -/
theorem openScope_ran {kind : ScopeKind} {span : Span} {scope : ScopeId} {table : ScopeTable}
    (opens : before.names.scopes.openScope kind id span = (scope, table)) :
    (modifyNames fun names =>
      let (scope, table) := names.scopes.openScope kind id span
      { names with scopes := table, scopeOfDecl := names.scopeOfDecl.insert id scope }) before =
        .ok ⟨⟩
          { before with
            names :=
              { before.names with
                scopes := table, scopeOfDecl := before.names.scopeOfDecl.insert id scope } } := by
  show EStateM.Result.ok _ _ = _
  simp only [opens]

theorem stays_inDeclScope (inside : Inside tree before) {kind : ScopeKind}
    (inner : kind ≠ .invalid ∧ kind ≠ .global) {declKind : DeclKind}
    (here : touched (.decl declKind id)) (span : Span)
    (walk : ∀ opened, Inside tree opened → Stays tree touched opened Any action) :
    Stays tree touched before Any (inDeclScope kind id span action) := by
  obtain ⟨table, opens, valid, grows, stack⟩ := inside.valid.openDecl inside.isOpen inner id span
  let opened : Analysis :=
    { before with
      names :=
        { before.names with
          scopes := table
          scopeOfDecl := before.names.scopeOfDecl.insert id before.names.scopes.scopes.next } }
  have leads : Evolves tree touched before opened := by
    refine .of_scopes valid grows (gains_openScope opens)
      (fun keyed => keyed.of_gains (gains_openScope opens) rfl) rfl rfl rfl
      (fun _ _ isHome => isHome) fun other => ?_
    by_cases same : other = id
    · exact .inr ⟨declKind, same ▸ here⟩
    · exact .inl (by simp [opened, Std.TreeMap.getElem?_insert, Ne.symm same])
  have back {after : Analysis} (leads' : Evolves tree touched opened after) :
      Evolves tree touched before
        { after with names := { after.names with scopes := after.names.scopes.close } } :=
    (leads.trans leads').trans (.ofScopes leads'.valid.close (Resolution.Valid.grows_close _)
      (gains_close _) (gains_close _))
  have open' : Inside tree opened := ⟨valid, by
    show table.stack ≠ []
    rw [stack]
    exact List.cons_ne_nil _ _⟩
  unfold inDeclScope
  show Ends _ _ (EStateM.bind _ _ before)
  rw [EStateM.bind, openScope_ran opens]
  refine Ends.ensuring ((walk opened open').mono (fun after kept => ⟨back kept.1, ?_⟩)
    fun _ after kept => ⟨back kept.1, ?_, trivial⟩)
  · obtain ⟨above, same⟩ := kept.2
    show before.names.scopes.stack <:+ after.names.scopes.stack.tail
    rw [← same, show opened.names.scopes.stack = _ from stack]
    cases above with
    | nil => exact List.suffix_rfl
    | cons first rest => exact (List.suffix_cons _ _).trans (List.suffix_append _ _)
  · show after.names.scopes.stack.tail = _
    rw [kept.2.1, show opened.names.scopes.stack = _ from stack, List.tail_cons]

theorem stays_callableBody (forest : tree.Forest loose) (closed : tree.Closed touched)
    (inside : Inside tree before) (known : KnownPlace tree place) (here : touched (.decl kind id)) :
    Stays tree touched before Any (callableBody tree place id) := by
  unfold callableBody
  split
  · next decl callable found isCallable =>
    have isPart {node : Node} (member : node ∈ callable.parts) : node ∈ tree.parts (.decl kind id) :=
      Tree.mem_parts_of_callable? isCallable member kind
    have known : KnownPlace tree { place with callable := some id, declaring := 0 } := known
    have result {type : TypeExprId} (isType : decl.type = some type) : touched (.type type) :=
      closed _ _ here (by simp [Tree.parts, found, Decl.parts, isType])
    refine stays_inDeclScope inside (by decide) here decl.span fun opened open' => ?_
    refine .bind (.forM open'.valid fun param member state leads stack => ?_)
      fun _ after leads stack _ => ?_
    · have part : .decl .templateParam param ∈ callable.parts :=
        List.mem_append_left _ (List.mem_append_left _ (List.mem_map_of_mem member))
      exact stays_bindName (open'.leads leads stack) (forest.bindable_part (isPart part) (by decide))
        (.inr ⟨_, closed _ _ here (isPart part)⟩)
    have inside := open'.leads leads stack
    refine .bind (.of_notes inside.valid (.discard (notes_type closed inside fun _ same => result same)))
      fun _ after' leads' stack' _ => ?_
    have inside := inside.leads leads' stack'
    refine .bind (.forM inside.valid fun param member state leads stack => ?_)
      fun _ after'' leads'' stack'' _ => ?_
    · have part : .decl .param param ∈ callable.parts :=
        List.mem_append_left _ (List.mem_append_right _ (List.mem_map_of_mem member))
      exact stays_declareVariable forest closed (inside.leads leads stack) known
        (forest.bindable_part (isPart part) (by decide)) (closed _ _ here (isPart part))
    have inside := inside.leads leads'' stack''
    refine .optionForM inside.valid fun body isBody => .forM inside.valid fun child member state
      leads stack => ?_
    have body : touched (.stmt body) := closed _ _ here (isPart
      (List.mem_append_right _ (by simp [Option.mem_def.mp isBody])))
    split
    · exact stays_stmt forest closed (inside.leads leads stack) known
        (touched_bodyStmts closed body member)
    · exact .pure leads.valid trivial
  · exact .pure inside.valid trivial

/-! ### Classes -/

theorem stays_inheritField (inside : Inside tree before) (span : Span) (key : Key) {field : DeclId}
    (bindable : tree.Bindable field) (isField : tree.kindOf? field = some .field)
    (held : before.names.scopes.Binds field) :
    Stays tree touched before Any (inheritField tree span key field) := by
  unfold inheritField
  refine .read rfl ?_
  split
  · next table ok =>
    obtain ⟨valid, grows, stack, -⟩ := inside.valid.bindScopes bindable ok
    exact ⟨.ofScopes valid grows (gains_bind ok (.inl isField)) (gains_bind ok held),
      stack, trivial⟩
  · exact .report inside.valid _
  · exact .pure inside.valid trivial

theorem stays_inheritFields (inside : Inside tree before) (span : Span) (base : DeclId) :
    Stays tree touched before Any (inheritFields tree span base) := by
  unfold inheritFields
  refine .read rfl ?_
  dsimp only
  split
  · exact .pure inside.valid trivial
  · next scope found =>
    refine .forM inside.valid fun key member state leads stack => ?_
    split
    · next field held =>
      split
      · next isField =>
        have binds : before.names.scopes.Binds field :=
          ⟨_, scope, found, _, Scope.mem_entries_of_find? held, rfl⟩
        exact stays_inheritField (inside.leads leads stack) span key
          (inside.valid.bindable_of_find? found held) isField (binds.grows leads.grows)
      · exact .pure leads.valid trivial
    · exact .pure leads.valid trivial

theorem stays_resolveBase (closed : tree.Closed touched) (inside : Inside tree before)
    (here : touched (.decl .classDecl id)) (decl : Decl) {base : TypeExprId}
    (written : touched (.type base)) :
    Stays tree touched before Any (resolveBase tree id decl base) := by
  unfold resolveBase
  refine .bind (.of_notes inside.valid (notes_type closed inside fun _ same =>
    Option.mem_some.mp same ▸ written)) fun found after leads stack refers => ?_
  have inside := inside.leads leads stack
  split
  · exact .pure inside.valid trivial
  · next found =>
    obtain ⟨-, -, -, binds⟩ := refers found rfl
    split
    · exact .error inside.valid ..
    · next isClass =>
      refine .read rfl ?_
      split
      · exact .pure inside.valid trivial
      · refine .bind (.modifyNames ⟨⟨{ inside.valid with bases := fun owner base isBase => ?_ }, .refl _,
          fun _ => .inl rfl, fun _ => .inl rfl, fun other => ?_, fun _ => .inl rfl⟩, .refl _,
            fun keyed => keyed,
          fun owner base isBase => ?_, fun _ _ isHome => isHome⟩ rfl)
          fun _ _ leads stack _ => stays_inheritFields (inside.leads leads stack) ..
        · rw [Std.TreeMap.getElem?_insert] at isBase
          split at isBase
          · cases isBase
            exact not_not.mp isClass
          · exact inside.valid.bases owner base isBase
        · by_cases same : other = id
          · exact .inr (same ▸ here)
          · exact .inl (by simp [Std.TreeMap.getElem?_insert, Ne.symm same])
        · rw [Std.TreeMap.getElem?_insert] at isBase
          split at isBase
          · cases isBase
            exact .inr binds
          · exact .inl isBase

/-- What a class declares itself, apart from its template parameters. -/
def members (body : ClassBody) : List Node :=
  body.fields.map (.decl .field) ++ body.methods.map (.decl .method)

theorem mem_parts_of_members {node : Node} (member : node ∈ members body) : node ∈ body.parts := by
  rcases List.mem_append.mp member with field | method
  · exact List.mem_append_left _ (List.mem_append_right _ field)
  · exact List.mem_append_right _ method

theorem stays_members (forest : tree.Forest loose) (closed : tree.Closed touched)
    (inside : Inside tree before) (known : KnownPlace tree place)
    (isClass : tree.classBody? id = some body) (here : ∀ node ∈ members body, touched node) :
    Stays tree touched before Any (do
      body.fields.forM (declareVariable tree place)
      body.methods.forM (declareCallable tree)
      body.methods.forM (callableBody tree place)) := by
  have isField {field : DeclId} (member : field ∈ body.fields) :
      .decl .field field ∈ members body := List.mem_append_left _ (List.mem_map_of_mem member)
  have isMethod {method : DeclId} (member : method ∈ body.methods) :
      .decl .method method ∈ members body := List.mem_append_right _ (List.mem_map_of_mem member)
  have bindable {kind : DeclKind} {decl : DeclId} (noImport : kind ≠ .importDecl)
      (member : .decl kind decl ∈ members body) : tree.Bindable decl :=
    forest.bindable_part (Tree.mem_parts_of_classBody? isClass (mem_parts_of_members member) .classDecl)
      noImport
  refine .bind (.forM inside.valid fun field member state leads stack =>
    stays_declareVariable forest closed (inside.leads leads stack) known
      (bindable (by decide) (isField member)) (here _ (isField member))) fun _ _ leads stack _ => ?_
  have inside := inside.leads leads stack
  refine .bind (.forM inside.valid fun method member state leads stack =>
    stays_declareCallable (inside.leads leads stack) (bindable (by decide) (isMethod member))
      (.inr ⟨_, here _ (isMethod member)⟩))
    fun _ _ leads stack _ => ?_
  have inside := inside.leads leads stack
  exact .forM inside.valid fun method member state leads stack =>
    stays_callableBody forest closed (inside.leads leads stack) known (here _ (isMethod member))

theorem stays_resolveClass (forest : tree.Forest loose) (closed : tree.Closed touched)
    (inside : Inside tree before) (place : Place) (here : touched (.decl .classDecl id)) :
    Stays tree touched before Any (resolveClass tree place id) := by
  unfold resolveClass
  split
  · next decl body found isClass =>
    have isPart {node : Node} (member : node ∈ body.parts) :
        node ∈ tree.parts (.decl .classDecl id) := Tree.mem_parts_of_classBody? isClass member _
    have known : KnownPlace tree { place with enclosing := some id, callable := none } := by
      intro owner same
      obtain rfl := Option.mem_some.mp same
      rw [found]
      rfl
    refine stays_inDeclScope inside (by decide) here decl.span fun opened open' => ?_
    refine .bind (.forM open'.valid fun param member state leads stack => ?_)
      fun _ first leads stack _ => ?_
    · have part : .decl .templateParam param ∈ body.parts :=
        List.mem_append_left _ (List.mem_append_left _ (List.mem_append_left _
          (List.mem_map_of_mem member)))
      exact stays_bindName (open'.leads leads stack) (forest.bindable_part (isPart part) (by decide))
        (.inr ⟨_, closed _ _ here (isPart part)⟩)
    have inside := open'.leads leads stack
    refine .bind (.optionForM inside.valid fun base isBase => stays_resolveBase closed inside here
      decl (closed _ _ here (isPart ?_))) fun _ second leads stack _ => ?_
    · exact List.mem_append_left _ (List.mem_append_left _ (List.mem_append_right _
        (by simp [Option.mem_def.mp isBase])))
    have inside := inside.leads leads stack
    exact stays_members forest closed inside known isClass fun node member =>
      closed _ _ here (isPart (mem_parts_of_members member))
  · exact .pure inside.valid trivial

/-! ### Order of classes -/

theorem notes_baseCandidate? (id : DeclId) :
    Notes tree touched before Any (baseCandidate? tree id) := by
  unfold baseCandidate?
  split
  · split
    · exact .read rfl (.pure trivial)
    · exact .pure trivial
  · exact .pure trivial

theorem stays_reportCyclic (valid : before.names.Valid tree) (id : DeclId) :
    Stays tree touched before Any (reportCyclic tree id) := by
  unfold reportCyclic
  refine .read rfl ?_
  split
  · exact .pure valid trivial
  · exact .bind (.of_restores (.modify valid rfl)) fun _ _ leads _ _ => .error leads.valid ..

theorem stays_visitWithin (valid : before.names.Valid tree) (classes : List DeclId) (fuel : Nat)
    (visit : ClassVisit) (id : DeclId) :
    Stays tree touched before Any (visitWithin tree classes fuel visit id) := by
  induction fuel generalizing visit id before with
  | zero => exact .pure valid trivial
  | succ fuel inductionHypothesis =>
    unfold visitWithin
    split
    · exact .pure valid trivial
    · exact .bind (stays_reportCyclic valid id) fun _ _ leads _ _ => .pure leads.valid trivial
    · dsimp only
      refine .bind (.of_notes valid (notes_baseCandidate? id)) fun base after leads _ _ => ?_
      split
      · split
        · exact .bind (inductionHypothesis leads.valid _ _) fun _ _ leads' _ _ =>
            .pure leads'.valid trivial
        · exact .pure leads.valid trivial
      · exact .pure leads.valid trivial

theorem stays_classOrder (valid : before.names.Valid tree) (classes : List DeclId) :
    Stays tree touched before Any (classOrder tree classes) := by
  have visits (ids : List DeclId) {state : Analysis} (valid : state.names.Valid tree)
      (visit : ClassVisit) : Stays tree touched state Any
        (ids.foldlM (visitWithin tree classes (classes.length + 1)) visit) := by
    induction ids generalizing state visit with
    | nil => exact .pure valid trivial
    | cons id rest inductionHypothesis =>
      exact .bind (stays_visitWithin valid classes _ visit id) fun visit' _ leads _ _ =>
        inductionHypothesis leads.valid visit'
  refine .bind (visits classes valid {}) fun visit after leads _ _ =>
    .bind (.modifyNames ?_ rfl) fun _ _ leads _ _ => .pure leads.valid trivial
  exact .of_same { leads.valid with } rfl rfl (fun _ => .inl rfl) (fun _ => .inl rfl) rfl rfl rfl

/-! ### Units and programs -/

/-- Resolving a unit may touch whatever is in a tree. -/
def Anywhere (_ : Node) : Prop := True

theorem anywhere (node : Node) : Anywhere node := trivial

theorem closed_anywhere (tree : Tree) : tree.Closed Anywhere := fun _ _ _ _ => trivial

/-- A value that is the number of a global scope, or no number of a scope. -/
def IsGlobal (id : ScopeId) (state : Analysis) : Prop :=
  id = 0 ∨ ∃ scope, state.names.scopes.get? id = some scope ∧ scope.parent = 0

theorem isGlobal_units (valid : before.names.Valid tree) (unit : UnitId) :
    IsGlobal (before.names.units.getD unit 0) before := by
  rw [Std.TreeMap.getD_eq_getD_getElem?]
  cases found : before.names.units[unit]? with
  | none => exact .inl rfl
  | some id => exact .inr (valid.units unit id found)

theorem restores_ensureGlobal (valid : before.names.Valid tree) (unit : UnitId) :
    Restores tree touched before (fun id after => after.names.units[unit]? = some id)
      (ensureGlobal tree unit) := by
  unfold ensureGlobal
  refine .read rfl ?_
  split
  · next id found => exact .pure valid found
  · next absent =>
    obtain ⟨table, creates, valid', grows, stack⟩ := valid.newRoot unit
      (((tree.units.get? unit).map ProgramUnit.span).getD {})
    refine .read rfl ?_
    dsimp only
    rw [creates]
    refine ⟨.of_scopes valid' grows (gains_newRoot creates)
      (fun keyed => keyed.of_gains (gains_newRoot creates) rfl) rfl rfl rfl
      (fun other home isHome => ?_) fun _ => .inl rfl, stack, by simp⟩
    have otherUnit : unit ≠ other := by
      rintro rfl
      rw [absent] at isHome
      nomatch isHome
    simp [Std.TreeMap.getElem?_insert, otherUnit, isHome]

/-- A global scope is there for the asking. -/
theorem ensureGlobal_eq_ok (tree : Tree) (unit : UnitId) (before : Analysis) :
    ∃ home after, ensureGlobal tree unit before = .ok home after ∧ after.sink = before.sink := by
  rw [ensureGlobal, bind_eq (rfl : (get : AnalysisM Analysis) before = .ok before before)]
  cases before.names.units[unit]? with
  | some home => exact ⟨home, before, rfl, rfl⟩
  | none => exact ⟨_, _, rfl, rfl⟩

theorem restores_finishUnit (valid : before.names.Valid tree) (unit : UnitId) :
    Restores tree touched before Any (finishUnit unit) := by
  refine .bind (.modify valid rfl) fun _ after leads _ _ => ?_
  exact ⟨.of_same { leads.valid with } rfl rfl (fun _ => .inl rfl) (fun _ => .inl rfl) rfl rfl rfl,
    rfl, trivial⟩

/-- An import is never bound, so what is recorded as its home concerns no binding. -/
theorem evolves_importHome (valid : before.names.Valid tree)
    (isImport : tree.kindOf? id = some .importDecl) (home : ScopeId) :
    Evolves tree touched before { before with
      names := { before.names with declScope := before.names.declScope.insert id home } } := by
  refine .of_same { valid with bound := fun decl key isKey => ?_ } rfl rfl (fun _ => .inl rfl)
    (fun _ => .inl rfl) rfl rfl rfl
  obtain ⟨home, scope, isHome, there, held⟩ := valid.bound decl key isKey
  refine ⟨home, scope, ?_, there, held⟩
  have other : id ≠ decl := by
    rintro rfl
    obtain ⟨kind, isKind, noImport⟩ := valid.bindable_of_find? there held
    exact noImport (Option.some.inj (isKind.symm.trans isImport))
  simp [Std.TreeMap.getElem?_insert, other, isHome]

theorem stays_importUnit
    (resolves : ∀ unit state, state.names.Valid tree →
      Stays tree Anywhere state IsGlobal (resolveUnit unit)) (inside : Inside tree before)
    (unit : UnitId) (id : DeclId) :
    Stays tree Anywhere before Any (importUnit tree resolveUnit unit id) := by
  unfold importUnit
  split
  · next name path target span _ found =>
    have isImport : tree.kindOf? id = some .importDecl := by simp [Tree.kindOf?, found, Decl.kind]
    refine .bind (.modifyNames (evolves_importHome inside.valid isImport _) rfl)
      fun _ after leads stack _ => ?_
    have inside := inside.leads leads stack
    split
    · exact .error inside.valid ..
    · refine .read rfl ?_
      split
      · exact .error inside.valid ..
      · refine .bind (resolves _ after inside.valid) fun imported final leads' stack' isGlobal => ?_
        show Stays tree Anywhere final Any (modifyNames _)
        have unchanged : Evolves tree Anywhere final final := .refl leads'.valid
        unfold Stays
        show Ends _ _ (EStateM.Result.ok _ _)
        dsimp only
        split
        · next attached table attaches =>
          rcases isGlobal with rfl | ⟨target, there, top⟩
          · simp only [attachImport?, true_or, or_true, if_true, Option.some.injEq,
              Prod.mk.injEq] at attaches
            obtain ⟨-, rfl⟩ := attaches
            exact ⟨unchanged, rfl, trivial⟩
          · obtain ⟨valid, grows, stack''⟩ := leads'.valid.attach there top
              (isGlobal_units leads'.valid unit) attaches
            exact ⟨.ofScopes valid grows (gains_attachImport? attaches)
              (gains_attachImport? attaches), stack'', trivial⟩
        · exact ⟨unchanged, rfl, trivial⟩
  · exact .pure inside.valid trivial

/-- The parts of a unit that are no classes. -/
def besideClasses (unit : ProgramUnit) : List Node :=
  unit.parts.filter fun
    | .decl .classDecl _ => false
    | _ => true

section Declarations

variable (forest : tree.Forest loose) (closed : tree.Closed touched) (inside : Inside tree before)
  {id : UnitId} {unit : ProgramUnit} (found : tree.units.get? id = some unit)

include forest found

theorem bindable_unitPart {decl : DeclId} (noImport : kind ≠ .importDecl)
    (member : .decl kind decl ∈ unit.parts) : tree.Bindable decl := by
  have isPart : .decl kind decl ∈ tree.parts (.unit id) := by simp [Tree.parts, found, member]
  exact forest.bindable_part isPart noImport

include inside

theorem stays_bindClasses (new : ∀ decl ∈ unit.classes, News tree touched decl) :
    Stays tree touched before Any (unit.classes.forM (bindName tree)) := by
  refine .forM inside.valid fun decl member state leads stack => ?_
  have isClass : .decl .classDecl decl ∈ unit.parts := by simp [ProgramUnit.parts, member]
  exact stays_bindName (inside.leads leads stack) (bindable_unitPart forest found (by decide) isClass)
    (new decl member)

variable (here : ∀ node ∈ besideClasses unit, touched node)

include closed here

theorem stays_declareEnums : Stays tree touched before Any (unit.enums.forM (declareEnum tree {})) := by
  refine .forM inside.valid fun enum member state leads stack => ?_
  have isEnum : .decl .enum enum ∈ unit.parts := by simp [ProgramUnit.parts, member]
  have known : KnownPlace tree {} := by rintro _ ⟨⟩
  exact stays_declareEnum forest closed (inside.leads leads stack) known
    (bindable_unitPart forest found (by decide) isEnum) (here _ (List.mem_filter.mpr ⟨isEnum, rfl⟩))

/-- What a unit declares behind its enums and classes. -/
theorem stays_declareRest : Stays tree touched before Any (do
    unit.functions.forM (declareCallable tree)
    unit.main.forM (declareCallable tree)
    unit.globals.forM (declareVariable tree {})) := by
  have signature {state : Analysis} (inside : Inside tree state) {function : DeclId}
      (isFunction : .decl .function function ∈ unit.parts) :
      Stays tree touched state Any (declareCallable tree function) :=
    stays_declareCallable inside (bindable_unitPart forest found (by decide) isFunction)
      (.inr ⟨_, here _ (List.mem_filter.mpr ⟨isFunction, rfl⟩)⟩)
  refine .bind (.forM inside.valid fun function member state leads stack =>
    signature (inside.leads leads stack) (by simp [ProgramUnit.parts, member])) fun _ _ leads stack
      _ => ?_
  have inside := inside.leads leads stack
  refine .bind (.optionForM inside.valid fun function isMain =>
    signature inside (by simp [ProgramUnit.parts, Option.mem_def.mp isMain])) fun _ _ leads stack _ => ?_
  have inside := inside.leads leads stack
  refine .forM inside.valid fun global member state leads stack => ?_
  have isGlobal : .decl .global global ∈ unit.parts := by simp [ProgramUnit.parts, member]
  have known : KnownPlace tree {} := by rintro _ ⟨⟩
  exact stays_declareVariable forest closed (inside.leads leads stack) known
    (bindable_unitPart forest found (by decide) isGlobal) (here _ (List.mem_filter.mpr ⟨isGlobal, rfl⟩))

theorem stays_unitDeclarations (new : ∀ decl ∈ unit.classes, News tree touched decl) :
    Stays tree touched before Any (unitDeclarations tree unit) :=
  .bind (stays_declareEnums forest closed inside found here) fun _ _ leads stack _ =>
    have inside := inside.leads leads stack
    .bind (stays_bindClasses forest inside found new) fun _ _ leads stack _ =>
      stays_declareRest forest closed (inside.leads leads stack) found here

end Declarations

theorem stays_unitClasses (forest : tree.Forest loose) (inside : Inside tree before)
    (unit : ProgramUnit) : Stays tree Anywhere before Any (unitClasses tree unit) :=
  .bind (stays_classOrder inside.valid unit.classes) fun _ _ leads stack _ =>
    .forM leads.valid fun _ _ _ leads' stack' =>
      stays_resolveClass forest (closed_anywhere tree)
        ((inside.leads leads stack).leads leads' stack') {} trivial

theorem stays_unitBodies (forest : tree.Forest loose) (closed : tree.Closed touched)
    (inside : Inside tree before) (here : ∀ node ∈ besideClasses unit, touched node) :
    Stays tree touched before Any (unitBodies tree unit) := by
  have known : KnownPlace tree {} := nofun
  have body {state : Analysis} (inside : Inside tree state) {function : DeclId}
      (isFunction : .decl .function function ∈ unit.parts) :
      Stays tree touched state Any (callableBody tree {} function) :=
    stays_callableBody forest closed inside known (here _ (List.mem_filter.mpr ⟨isFunction, rfl⟩))
  unfold unitBodies
  refine .bind (.forM inside.valid fun function member state leads stack =>
    body (inside.leads leads stack) (by simp [ProgramUnit.parts, member])) fun _ _ leads stack _ => ?_
  have inside := inside.leads leads stack
  refine .bind (.optionForM inside.valid fun function isMain =>
    body inside (by simp [ProgramUnit.parts, Option.mem_def.mp isMain])) fun _ _ leads stack _ => ?_
  have inside := inside.leads leads stack
  refine .forM inside.valid fun stmt member state leads stack => ?_
  have isStmt : .stmt stmt ∈ unit.parts := by simp [ProgramUnit.parts, member]
  exact stays_stmt forest closed (inside.leads leads stack) known
    (here _ (List.mem_filter.mpr ⟨isStmt, rfl⟩))

theorem stays_unitContents
    (resolves : ∀ unit state, state.names.Valid tree →
      Stays tree Anywhere state IsGlobal (resolveUnit unit)) (forest : tree.Forest loose)
    (inside : Inside tree before) {id : UnitId} (found : tree.units.get? id = some unit) :
    Stays tree Anywhere before Any (unitContents tree resolveUnit id unit) := by
  unfold unitContents
  refine .bind (.forM inside.valid fun decl _ state leads stack =>
    stays_importUnit resolves (inside.leads leads stack) id decl) fun _ _ leads stack _ => ?_
  have inside := inside.leads leads stack
  have closed := closed_anywhere tree
  refine .bind (stays_unitDeclarations forest closed inside found (fun _ _ => trivial)
    fun _ _ => .inr ⟨.classDecl, trivial⟩) fun _ _ leads stack _ => ?_
  have inside := inside.leads leads stack
  exact .bind (stays_unitClasses forest inside unit) fun _ _ leads stack _ =>
    stays_unitBodies forest closed (inside.leads leads stack) fun _ _ => trivial

/-- Resolving a unit leaves the stack of open scopes as it was, however it ends. -/
theorem restores_unitWithin (forest : tree.Forest loose) (valid : before.names.Valid tree)
    (fuel : Nat) (id : UnitId) :
    Restores tree Anywhere before IsGlobal (unitWithin tree fuel id) := by
  induction fuel generalizing id before with
  | zero => exact .pure valid (.inl rfl)
  | succ fuel inductionHypothesis =>
    unfold unitWithin
    refine .read rfl ?_
    split
    · exact .read rfl (.pure valid (isGlobal_units valid id))
    · split
      · exact .pure valid (.inl rfl)
      · next unit found =>
        refine .bind (.modify valid rfl) fun _ first leads _ _ =>
          .bind (restores_ensureGlobal leads.valid id) fun global second leads _ isHome => ?_
        obtain ⟨scope, there, top⟩ := leads.valid.units id global isHome
        refine .bind (.within leads.valid (by rw [there]; rfl) fun entered inside _ => ?_)
          fun _ third leads _ _ => .pure leads.valid (.inr ?_)
        · have resolves (unit : UnitId) (state : Analysis) (valid : state.names.Valid tree) :
              Stays tree Anywhere state IsGlobal (unitWithin tree fuel unit) :=
            .of_restores (inductionHypothesis valid unit)
          exact .bind (stays_unitContents resolves forest inside found) fun _ _ leads _ _ =>
            .of_restores (restores_finishUnit leads.valid id)
        · obtain ⟨scope', there', grown⟩ := leads.grows global scope there
          exact ⟨scope', there', grown.parent.trans top⟩

/-- Resolving a program leaves valid annotations, however it ends. -/
theorem restores_program (forest : tree.Forest loose) (valid : before.names.Valid tree)
    (root : UnitId) (checked : Bool) :
    Restores tree Anywhere before Any (program tree root checked) := by
  unfold program
  refine .bind (.discard (restores_unitWithin forest valid _ root)) fun _ after leads _ _ => ?_
  split
  · refine .read rfl ?_
    split
    · exact .pure leads.valid trivial
    · exact .report leads.valid _
  · exact .pure leads.valid trivial

theorem valid_program (forest : tree.Forest loose) {root : UnitId} {checked : Bool} {typing : Typing}
    {trace : Trace.Recorder} {sink : Sink} {after : Analysis}
    (ran : program tree root checked { typing, trace, sink } = .ok () after) :
    after.names.Valid tree := by
  have restores : Restores tree _ { typing, trace, sink } Any _ :=
    restores_program forest (.empty tree) root checked
  exact ((Stays.of_restores restores).of_ok ran).1.valid

/-! ### Submissions -/

/-- Something happens at the top level of a unit once its global scope is there and the unit
counts as done. -/
theorem atTopLevel_eq (touched : Node → Prop) (valid : before.names.Valid tree) (unit : UnitId)
    (action : AnalysisM Unit) :
    ∃ home opened, atTopLevel tree unit action before = within home action opened ∧
      Evolves tree touched before opened ∧
      opened.names.scopes.stack = before.names.scopes.stack ∧
      opened.names.units[unit]? = some home ∧ opened.sink = before.sink := by
  obtain ⟨home, first, ensures, sink⟩ := ensureGlobal_eq_ok tree unit before
  have opens : Stays tree touched before _ (ensureGlobal tree unit) :=
    .of_restores (restores_ensureGlobal valid unit)
  obtain ⟨leads, stack, isHome⟩ := opens.of_ok ensures
  have enters : atTopLevel tree unit action before =
      (if first.progress[unit]? ≠ some .done then do finishUnit unit; within home action
        else within home action) first := by
    show EStateM.bind (ensureGlobal tree unit) _ before = _
    rw [EStateM.bind, ensures]
    rfl
  rw [enters]
  split
  · have finishes : Stays tree touched first _ (finishUnit unit) :=
      .of_restores (restores_finishUnit leads.valid unit)
    obtain ⟨leads', stack', -⟩ := finishes.of_ok rfl
    exact ⟨home, _, rfl, leads.trans leads', stack'.trans stack, isHome, sink⟩
  · exact ⟨home, first, rfl, leads, stack, isHome, sink⟩

theorem restores_atTopLevel (valid : before.names.Valid tree) (unit : UnitId)
    (walks : ∀ entered, Inside tree entered → Stays tree touched entered Any action) :
    Restores tree touched before Any (atTopLevel tree unit action) := by
  obtain ⟨home, entered, same, leads, stack, isHome, -⟩ := atTopLevel_eq touched valid unit action
  obtain ⟨scope, there, -⟩ := leads.valid.units unit home isHome
  have inner : Restores tree touched entered Any (within home action) :=
    .within leads.valid (by rw [there]; rfl) fun state inside _ => walks state inside
  unfold Restores
  rw [same]
  exact inner.mono (fun _ ⟨leads', stack'⟩ => ⟨leads.trans leads', stack'.trans stack⟩)
    fun _ _ ⟨leads', stack', _⟩ => ⟨leads.trans leads', stack'.trans stack, trivial⟩

/-- A class that is submitted comes last in the order of classes, and is resolved at once. -/
theorem stays_orderClass (forest : tree.Forest loose) (closed : tree.Closed touched)
    (inside : Inside tree before) (here : touched (.decl .classDecl id)) :
    Stays tree touched before Any (do
      modifyNames fun names => { names with order := names.order ++ [id] }
      resolveClass tree {} id) :=
  .bind (.modifyNames (.of_same { inside.valid with } rfl rfl (fun _ => .inl rfl) (fun _ => .inl rfl)
    rfl rfl rfl) rfl) fun _ _ leads stack _ =>
      stays_resolveClass forest closed (inside.leads leads stack) {} here

/-- A declaration that is submitted touches what is below it, unless it is an import. -/
theorem restores_submitLocal (forest : tree.Forest loose) (closed : tree.Closed touched)
    (valid : before.names.Valid tree) (unit : UnitId) (isKind : tree.kindOf? id = some kind)
    (noImport : kind ≠ .importDecl) (here : touched (.decl kind id)) :
    Restores tree touched before Any (submitDecl tree unit id) := by
  have known : KnownPlace tree {} := nofun
  have bindable : tree.Bindable id := ⟨kind, isKind, noImport⟩
  have new : News tree touched id := .inr ⟨kind, here⟩
  unfold submitDecl
  simp only [isKind]
  refine restores_atTopLevel valid unit fun entered inside => ?_
  cases kind with
  | importDecl => exact absurd rfl noImport
  | enum => exact stays_declareEnum forest closed inside known bindable here
  | global => exact stays_declareVariable forest closed inside known bindable here
  | classDecl =>
    exact .bind (stays_bindName inside bindable new) fun _ _ leads stack _ =>
      stays_orderClass forest closed (inside.leads leads stack) here
  | function =>
    exact .bind (stays_declareCallable inside bindable new) fun _ _ leads stack _ =>
      stays_callableBody forest closed (inside.leads leads stack) known here
  | _ => exact .pure inside.valid trivial

theorem restores_submitDecl (forest : tree.Forest loose) (valid : before.names.Valid tree)
    (unit : UnitId) (id : DeclId) :
    Restores tree Anywhere before Any (submitDecl tree unit id) := by
  cases isKind : tree.kindOf? id with
  | none =>
    unfold submitDecl
    simp only [isKind]
    exact .pure valid trivial
  | some kind =>
    by_cases isImport : kind = .importDecl
    · unfold submitDecl
      simp only [isKind, isImport]
      exact restores_atTopLevel valid unit fun entered inside =>
        stays_importUnit (fun unit state valid =>
          .of_restores (restores_unitWithin forest valid _ unit)) inside unit id
    · exact restores_submitLocal forest (closed_anywhere tree) valid unit isKind isImport
        (anywhere _)

theorem restores_submitStmt (forest : tree.Forest loose) (closed : tree.Closed touched)
    (valid : before.names.Valid tree) (unit : UnitId) {id : StmtId} (here : touched (.stmt id)) :
    Restores tree touched before Any (submitStmt tree unit id) := by
  unfold submitStmt
  split
  · exact .pure valid trivial
  · have known : KnownPlace tree {} := nofun
    exact restores_atTopLevel valid unit fun entered inside =>
      stays_stmt forest closed inside known here

end TreeCheck.Resolve
