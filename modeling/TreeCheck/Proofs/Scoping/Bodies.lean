/-
Variables, statements and callables. Binding a key adds it to the innermost frame unless
it is taken there; a variable is bound behind the names in its initial value; blocks,
branches, loops, arms and callables have frames of their own.
-/

import TreeCheck.Proofs.Scoping.Exprs

namespace TreeCheck

open Resolve

open Lexical (Frame Env)

variable {after state : Analysis} {env : Env} {entries : List Entry} {id : DeclId}
  {action : AnalysisM Unit} {place : Place}

/-- A change of the new scope that keeps what it holds and its links does not matter. -/
theorem ScopeTable.Opens.modify {before after : ScopeTable} (opens : Opens before after)
    (id : ScopeId) {change : Scope → Scope} (like : ∀ scope : Scope, scope.Like (change scope)) :
    Opens before (after.modify id change) := by
  obtain ⟨scope, found, parent⟩ := opens.inside
  have keeps : Keeps 0 after (after.modify id change) := keeps_modify id like
  refine ⟨opens.sound.modify id like, opens.keeps.trans keeps, opens.stack, ?_, ?_⟩
  · obtain ⟨scope', found', parent', _⟩ := keeps _ scope found
    exact ⟨scope', found', parent'.trans parent⟩
  · rw [keeps.frames_eq opens.sound (opens.sound.modify id like) found, opens.frames]

namespace Lexical

open AnalysisM

variable {tree : Tree}

/-! ### Binding -/

theorem concernsName_withNote (diagnostic : Diagnostic) (span : Span) (message : String) :
    (diagnostic.withNote span message).concernsName = diagnostic.concernsName := rfl

theorem silent_redeclared (span : Span) (args : List String) (noted : Span) (message : String) :
    Silent tree (report ((Diagnostic.error .redeclared span args).withNote noted message)) :=
  .report (concernsName_withNote ..)

/-- A state whose table has one more binding stands for an environment with one more
declaration. -/
theorem Stands.bound {scope : Scope} {key : Key} (stands : Stands tree env entries state)
    (found : state.names.scopes.get? state.names.scopes.current = some scope)
    (sound : after.names.scopes.Sound) (stack : after.names.scopes.stack = state.names.scopes.stack)
    (keeps : ScopeTable.Keeps state.names.scopes.current state.names.scopes after.names.scopes)
    (frames : after.names.scopes.frames state.names.scopes.current =
      (state.names.scopes.frames state.names.scopes.current).declare key id)
    (uses : after.names.uses = state.names.uses) (sink : after.sink = state.sink) :
    Stands tree (env.declare key id) entries after := by
  have current : after.names.scopes.current = state.names.scopes.current := by
    rw [ScopeTable.current, stack]
    rfl
  refine ⟨sound, ?_, ?_, ?_⟩
  · obtain ⟨scope', found', _⟩ := keeps _ scope found
    exact ⟨scope', current ▸ found'⟩
  · rw [current, frames, stands.frames]
  · exact ⟨uses ▸ stands.logged.uses, sink ▸ stands.logged.reports, sink ▸ stands.logged.isOpen⟩

/-- Binding a key declares it. -/
theorem follows_bind (key : Key) (id : DeclId) :
    Follows tree (bind tree key id) (Walk.change (·.declare key id)) := by
  refine ⟨fun env entries state stands => ?_⟩
  obtain ⟨scope, found⟩ := stands.inside
  rw [Walk.change, List.append_nil]
  have start : bind tree key id state = _ := bind_eq (rfl : scopes state = .ok _ state)
  rw [start]
  rcases stands.sound.bind_cases found key id with
    ⟨bound, binds, sound, stack, keeps, frames⟩ | ⟨existing, taken, same⟩
  · rw [binds]
    exact ⟨_, rfl, stands.bound found sound stack keeps frames rfl rfl, stack, keeps, rfl, rfl, rfl, rfl,
      fun _ _ => rfl⟩
  · rw [taken]
    rw [stands.frames] at same
    have silent : Silent tree (report ((Diagnostic.error .redeclared (spanOf tree id)
        [key.text]).withNote (spanOf tree existing) "first declared here")) :=
      silent_redeclared ..
    obtain ⟨_, after, runs, untouched⟩ := silent.runs state stands.logged.isOpen
    refine ⟨after, runs, ?_, untouched.kept⟩
    show Stands tree (env.declare key id) entries after
    rw [same]
    exact untouched.stands stands

theorem follows_bindName (id : DeclId) :
    Follows tree (bindName tree id) (Walk.change (Env.declareName tree id)) :=
  follows_bind _ id

/-- Binding the signature of a callable declares it under what its types mean here. -/
theorem follows_declareCallable (id : DeclId) :
    Follows tree (declareCallable tree id) (Walk.change (Env.declareSignature tree id)) := by
  unfold declareCallable
  split
  · next absent =>
    exact Follows.skip.congr fun env => by simp [Walk.change, Env.declareSignature, absent, Walk.skip]
  · next callable found =>
    refine ⟨fun env entries state stands => ?_⟩
    have binds : Follows tree (bind tree
        (signatureKey tree env.find? (tree.nameOf id) callable) id) _ := follows_bind ..
    obtain ⟨after, runs, ends, kept⟩ := binds.runs env entries state stands
    refine ⟨after, ?_, ?_, kept⟩
    · rw [← runs, ← stands.meaning?_eq]
      exact bind_eq (rfl : scopes state = .ok _ state)
    · simpa only [Walk.change, Env.declareSignature, found] using ends

/-! ### Variables -/

theorem Env.mem_flatten_of_find? {key : Key} {decl : DeclId} (found : env.find? key = some decl) :
    (key, decl) ∈ env.flatten := by
  obtain ⟨frame, member, held⟩ := List.exists_of_findSome?_eq_some found
  obtain ⟨front, back, rfl, _⟩ := List.lookup_eq_some_iff.mp held
  exact List.mem_flatten.mpr ⟨_, member, by simp⟩

/-- A function of a name is in view. -/
theorem any_function_iff (env : Env) (name : String) :
    (env.flatten.any fun (key, _) => key.isSignature && key.name == name &&
        (env.find? key).bind tree.kindOf? == some .function) = true ↔
      ∃ key decl, key.isSignature ∧ key.name = name ∧ env.find? key = some decl ∧
        tree.kindOf? decl = some .function := by
  simp only [List.any_eq_true, Prod.exists, Bool.and_eq_true, beq_iff_eq,
    Option.bind_eq_some_iff]
  constructor
  · rintro ⟨key, _, _, ⟨signature, same⟩, decl, found, isFunction⟩
    exact ⟨key, decl, signature, same, found, isFunction⟩
  · rintro ⟨key, decl, signature, same, found, isFunction⟩
    exact ⟨key, decl, Env.mem_flatten_of_find? found, ⟨signature, same⟩, decl, found, isFunction⟩

theorem isSome_get?_of_kindOf? {kind : DeclKind} (isKind : tree.kindOf? id = some kind) :
    (tree.decls.get? id).isSome := by
  rw [Tree.kindOf?] at isKind
  cases found : tree.decls.get? id with
  | none => simp [found] at isKind
  | some decl => rfl

/-- Whether a new local name would hide something depends on the environment alone. -/
theorem hidden?_spec (stands : Stands tree env entries state) (name : String) :
    ∃ hides, hidden? tree name state = .ok hides state ∧
      (hides.bind tree.decls.get?).isSome = env.holdsHideable tree name := by
  obtain ⟨scope, found⟩ := stands.inside
  have start : hidden? tree name state = _ := bind_eq (rfl : scopes state = .ok _ state)
  rw [start, stands.meaning?_eq]
  have named (id : DeclId) : ((tree.kindOf? id).map DeclKind.isHideable).getD false =
      (tree.kindOf? id).any DeclKind.isHideable := by
    cases tree.kindOf? id <;> rfl
  simp only [named, Env.holdsHideable]
  generalize meaning : env.find? (.ofName name) = meant
  cases hidden : meant.filter fun id => (tree.kindOf? id).any DeclKind.isHideable with
  | some id =>
    obtain ⟨rfl, isHideable⟩ := Option.filter_eq_some_iff.mp hidden
    refine ⟨some id, rfl, ?_⟩
    rw [Option.bind_some, Option.bind_some, isHideable, Bool.true_or]
    cases isKind : tree.kindOf? id with
    | none => simp [isKind] at isHideable
    | some kind => exact isSome_get?_of_kindOf? isKind
  | none =>
    refine ⟨_, rfl, ?_⟩
    have other : (meant.bind tree.kindOf?).any DeclKind.isHideable = false := by
      cases meant with
      | none => rfl
      | some id => simpa using hidden
    rw [other, Bool.false_or, Bool.eq_iff_iff, any_function_iff]
    have inView (decl : DeclId) :=
        stands.frames ▸ stands.sound.anchored.mem_overloads?_iff found name decl
    constructor
    · intro hides
      obtain ⟨_, bound⟩ := Option.isSome_iff_exists.mp hides
      obtain ⟨id, first, _⟩ := Option.bind_eq_some_iff.mp bound
      obtain ⟨key, signature, same, meaning⟩ := (inView id).mp (List.mem_of_find?_eq_some first)
      exact ⟨key, id, signature, same, meaning, by simpa using List.find?_some first⟩
    · rintro ⟨key, decl, signature, same, meaning, isFunction⟩
      have member := (inView decl).mpr ⟨key, signature, same, meaning⟩
      cases first : ((state.names.scopes.overloads? state.names.scopes.current name).getD []).find?
          fun id => tree.kindOf? id = some .function with
      | none => exact absurd isFunction (by simpa using List.find?_eq_none.mp first decl member)
      | some id =>
        exact isSome_get?_of_kindOf? (by simpa using List.find?_some first)

theorem Env.declareVariable_taken {previous : DeclId} {decl : Decl}
    (taken : (env.headD []).lookup (.ofName (tree.text decl.name)) = some previous) :
    env.declareVariable tree id decl = env := by
  unfold Env.declareVariable
  split
  · rfl
  · cases env with
    | nil => rfl
    | cons frame outer =>
      have held : frame.lookup (.ofName (tree.text decl.name)) = some previous := taken
      rw [Env.declare, held]
      rfl

theorem follows_bindUnlessHiding (id : DeclId) (decl : Decl) (hides : Option DeclId) :
    Follows tree
      (match hides.bind fun other => tree.decls.get? other with
      | some other =>
        report <| (Diagnostic.error .shadows decl.span
          [tree.text decl.name, other.kind.name]).withNote other.span "declared here"
      | none => bind tree (.ofName (tree.text decl.name)) id)
      (if (hides.bind tree.decls.get?).isSome then Walk.skip
      else Walk.change (·.declare (.ofName (tree.text decl.name)) id)) := by
  cases hides.bind tree.decls.get? with
  | some other => exact .silent (.report (concernsName_withNote ..))
  | none => exact follows_bind _ id

theorem follows_bindVariable (id : DeclId) (decl : Decl) :
    Follows tree (bindVariable tree id decl)
      (Walk.change (Env.declareVariable tree id decl)) := by
  refine ⟨fun env entries state stands => ?_⟩
  obtain ⟨scope, found⟩ := stands.inside
  have start : bindVariable tree id decl state = _ :=
    bind_eq (rfl : scopes state = .ok _ state)
  rw [start, stands.sound.findLocal?_eq found, stands.frames]
  cases taken : (env.headD []).lookup (.ofName (tree.text decl.name)) with
  | some previous =>
    obtain ⟨_, after, runs, untouched⟩ :=
      (silent_redeclared ..).runs state stands.logged.isOpen
    refine ⟨after, runs, ?_, untouched.kept⟩
    simpa only [Walk.change, List.append_nil, Env.declareVariable_taken taken] using
      untouched.stands stands
  | none =>
    dsimp only
    by_cases mayHide : decl.kind.mayHide = true
    · obtain ⟨hides, hidden, same⟩ := hidden?_spec stands (tree.text decl.name)
      rw [if_pos mayHide, bind_eq hidden]
      obtain ⟨after, runs, ends, kept⟩ :=
        (follows_bindUnlessHiding id decl hides).runs env entries state stands
      refine ⟨after, runs, ?_, kept⟩
      have walked : (if env.holdsHideable tree (tree.text decl.name) then Walk.skip
          else Walk.change (·.declare (.ofName (tree.text decl.name)) id)) env =
            Walk.change (Env.declareVariable tree id decl) env := by
        simp only [Walk.change, Env.declareVariable, mayHide, Bool.true_and]
        split <;> rfl
      rwa [same, walked] at ends
    · rw [if_neg mayHide]
      obtain ⟨after, runs, ends, kept⟩ :=
        (follows_bindUnlessHiding id decl none).runs env entries state stands
      refine ⟨after, runs, ?_, kept⟩
      simpa [Walk.change, Env.declareVariable, mayHide] using ends

section

variable {loose : List Node} (forest : tree.Forest loose)

include forest

/-- Declaring a variable looks up the names in its initial value and then binds it. -/
theorem follows_declareVariable (place : Place) (id : DeclId) :
    Follows tree (declareVariable tree place id) (declared tree id) := by
  unfold declareVariable declared
  cases found : tree.decls.get? id with
  | none => exact .skip
  | some decl =>
    refine .silently (silent_type _).discard fun _ => ?_
    cases init : decl.init with
    | none =>
      exact (follows_bindVariable id decl).congr fun env => by
        simp [init, Walk.each, Walk.andThen, Walk.skip]
    | some value =>
      have isPart : .expr value ∈ tree.parts (.decl decl.kind id) := by
        simp [Tree.parts, found, Decl.parts, init]
      have declares : Declares { place with declaring := decl.name } (some decl.name) :=
        ⟨rfl, by simpa using (forest.named id decl found (by simp [init])).1⟩
      have initial := follows_expr forest declares (forest.holds_part isPart)
      exact (initial.andThen (follows_bindVariable id decl)).congr fun env => by
        simp [init, Walk.each, Walk.andThen, Walk.skip]

/-! ### Statements -/

omit forest in
/-- Opening a scope for a statement puts an empty frame in front. -/
theorem opening_openFor (kind : ScopeKind) (id : StmtId) (span : Span)
    (stands : Stands tree env entries state) :
    ∃ opened, openFor kind id span state = .ok () opened ∧ Opening state opened ∧
      ∀ id, tree.kindOf? id = some .classDecl →
        opened.names.scopeOfDecl[id]? = state.names.scopeOfDecl[id]? := by
  obtain ⟨scope, found⟩ := stands.inside
  obtain ⟨table, opens, isOpen⟩ := stands.sound.opens found kind 0 span
  have like (scope : Scope) : scope.Like { scope with stmt := id } := ⟨rfl, rfl, rfl, rfl, rfl⟩
  refine ⟨_, rfl, ⟨?_, rfl, rfl, rfl, rfl, rfl, rfl⟩, fun _ _ => rfl⟩
  dsimp only
  rw [opens]
  exact isOpen.modify _ like

omit forest in
theorem follows_inScope {walk : Walk} (follows : Follows tree action walk) (kind : ScopeKind)
    (id : StmtId) (span : Span) :
    Follows tree (do openFor kind id span; action; close) walk.nested := by
  refine follows.inside (fun _ _ _ stands => opening_openFor kind id span stands) ?_
  intro state opened after starts runs
  rw [bind_eq starts, bind_eq runs]
  rfl

omit forest in
theorem follows_inOwnScope {act : StmtId → AnalysisM Unit} {walk : StmtId → Walk}
    {id : StmtId} (follows : Follows tree (act id) (walk id)) :
    Follows tree (inOwnScope tree act id) (inOwnFrame tree walk id) := by
  unfold inOwnScope inOwnFrame
  cases found : tree.stmts.get? id with
  | none => exact .skip
  | some stmt =>
    simp only [Option.map_some]
    cases stmt.form with
    | block stmts => exact follows
    | _ => exact follows_inScope follows ..

theorem follows_stmtWithin (declares : Declares place none) (fuel : Nat) (id : StmtId) :
    Follows tree (Resolve.stmtWithin tree place fuel id) (stmtWithin tree fuel id) := by
  induction fuel generalizing id with
  | zero => exact .skip
  | succ fuel inner =>
    unfold Resolve.stmtWithin stmtWithin
    cases found : tree.stmts.get? id with
    | none => exact .skip
    | some stmt =>
      have own (id : StmtId) : Follows tree (Resolve.inOwnScope tree
          (Resolve.stmtWithin tree place fuel) id) (inOwnFrame tree (stmtWithin tree fuel) id) :=
        follows_inOwnScope (inner id)
      have expr {part : ExprId} (member : .expr part ∈ stmt.form.parts) :
          Follows tree (Resolve.expr tree place part) (Walk.names tree none part) := by
        have isPart : .expr part ∈ tree.parts (.stmt id) := by simpa [Tree.parts, found] using member
        exact follows_expr forest declares (forest.holds_part isPart)
      simp only [Option.map_some]
      cases form : stmt.form with
      | block stmts =>
        exact follows_inScope (.eachSome rfl fun child _ => inner child) .block id stmt.span
      | decl declared => exact follows_declareVariable forest place declared
      | expr value => exact expr (by simp [form, StmtForm.parts])
      | assign target value =>
        exact .andThen (expr (by simp [form, StmtForm.parts]))
          (expr (by simp [form, StmtForm.parts]))
      | branch cond thenBranch elseBranch =>
        exact .andThen (expr (by simp [form, StmtForm.parts])) <|
          .andThen (own thenBranch) (.option fun child _ => own child)
      | whileLoop cond body => exact .andThen (expr (by simp [form, StmtForm.parts])) (own body)
      | forLoop counter first last body =>
        refine .andThen (expr (by simp [form, StmtForm.parts])) <|
          .andThen (expr (by simp [form, StmtForm.parts])) ?_
        have loop := follows_inScope
          ((follows_declareVariable forest place counter).andThen (own body)) .loop id stmt.span
        simpa only [bind_assoc] using loop
      | case subject arms default =>
        refine .andThen (expr (by simp [form, StmtForm.parts])) <|
          .andThen (.each fun arm member => .andThen (.each fun value isValue => ?_) (own arm.body)) <|
          .option fun child _ => own child
        have isPart : .expr value ∈ arm.parts := by simp [CaseArm.parts, isValue]
        refine expr ?_
        rw [form]
        exact List.mem_cons_of_mem _
          (List.mem_append_left _ (List.mem_flatMap.mpr ⟨arm, member, isPart⟩))
      | ret value =>
        exact .option fun value isValue => expr (by simp [form, StmtForm.parts, isValue])

theorem follows_stmt (declares : Declares place none) (id : StmtId) :
    Follows tree (Resolve.stmt tree place id) (stmt tree id) :=
  follows_stmtWithin forest declares _ id

/-! ### Callables -/

/-- The state in which the scope of a declaration was opened. -/
def openedFor (kind : ScopeKind) (id : DeclId) (span : Span) (state : Analysis) : Analysis :=
  let (scope, table) := state.names.scopes.openScope kind id span
  { state with names :=
    { state.names with scopes := table, scopeOfDecl := state.names.scopeOfDecl.insert id scope } }

omit forest in
theorem opening_openedFor (kind : ScopeKind) (id : DeclId) (span : Span)
    (stands : Stands tree env entries state) :
    Opening state (openedFor kind id span state) ∧
      (openedFor kind id span state).names.scopeOfDecl =
        state.names.scopeOfDecl.insert id state.names.scopes.scopes.next := by
  obtain ⟨scope, found⟩ := stands.inside
  obtain ⟨table, opens, isOpen⟩ := stands.sound.opens found kind id span
  unfold openedFor
  rw [opens]
  exact ⟨⟨isOpen, rfl, rfl, rfl, rfl, rfl, rfl⟩, rfl⟩

omit forest in
theorem inDeclScope_eq {kind : ScopeKind} {span : Span}
    (runs : action (openedFor kind id span state) = .ok () after) :
    inDeclScope kind id span action state = .ok () (closed after) := by
  have start : modifyNames (fun names =>
      let (scope, table) := names.scopes.openScope kind id span
      { names with scopes := table, scopeOfDecl := names.scopeOfDecl.insert id scope }) state =
        .ok () (openedFor kind id span state) := rfl
  rw [inDeclScope, bind_eq start, ensuring, runs]
  rfl

omit forest in
theorem follows_inDeclScope {walk : Walk} (follows : Follows tree action walk)
    (notClass : tree.kindOf? id ≠ some .classDecl) (kind : ScopeKind) (span : Span) :
    Follows tree (inDeclScope kind id span action) walk.nested := by
  refine ⟨fun env entries state stands => ?_⟩
  obtain ⟨opening, scopeOfDecl⟩ := opening_openedFor kind id span stands
  obtain ⟨after, runs, ends, kept⟩ := follows.runs _ _ _ (opening.stands stands)
  refine ⟨closed after, inDeclScope_eq runs, opening.ends stands ends kept,
    opening.kept ends kept fun other isClass => ?_⟩
  have different : id ≠ other := fun same => notClass (same ▸ isClass)
  rw [scopeOfDecl, Std.TreeMap.getElem?_insert]
  simp [different]

/-- The parameters and the body of a callable are walked in a frame of their own. -/
theorem follows_callableBody (place : Place) (id : DeclId) :
    Follows tree (Resolve.callableBody tree place id) (callableBody tree id) := by
  unfold Resolve.callableBody callableBody
  cases found : tree.decls.get? id with
  | none =>
    simp only [Tree.callable?, found, Option.bind_none]
    exact .skip
  | some decl =>
    cases isCallable : tree.callable? id with
    | none => exact .skip
    | some callable =>
      dsimp only
      have notClass : tree.kindOf? id ≠ some .classDecl := by
        simp only [Tree.callable?, found, Option.bind_some, Decl.callable?] at isCallable
        simp only [Tree.kindOf?, found, Option.map_some, Decl.kind]
        cases form : decl.form <;> simp [form] at isCallable ⊢
      have declares : Declares { place with callable := some id, declaring := 0 } none :=
        ⟨rfl, by rintro ⟨⟩⟩
      refine follows_inDeclScope ?_ notClass ..
      refine .andThen (.each fun param _ => follows_bindName param) ?_
      refine .silently (silent_type decl.type).discard fun _ => ?_
      refine .andThen (.each fun param _ => follows_declareVariable forest _ param) ?_
      refine .option fun body _ => .eachSome rfl fun child _ => ?_
      exact follows_stmt forest declares child

end

end Lexical

end TreeCheck
