/-
Classes. The frame of a class starts with its template parameters and the fields of its
base, and is kept for the classes that inherit from it. The classes of a unit are put in
an order in which bases come first; what is found out on the way, that a class inherits
from itself, is found out by the walk as well.
-/

import TreeCheck.Proofs.Scoping.Bodies

namespace TreeCheck.Lexical

open AnalysisM Resolve ScopeTable

variable {tree : Tree}
variable {scope : Scope} {names : Resolution} {env : Env} {entries later : List Entry}
  {state after before middle inside : Analysis} {classes : Classes} {id : DeclId} {body : ClassBody}
  {visit : Resolve.ClassVisit} {order : Order}

/-! ### Inherited fields -/

theorem follows_inheritField (span : Span) (key : Key) (field : DeclId) :
    Follows tree (inheritField tree span key field) (Walk.change (·.declare key field)) := by
  refine ⟨fun env entries state stands => ?_⟩
  obtain ⟨scope, found⟩ := stands.inside
  rw [Walk.change, List.append_nil]
  have start : inheritField tree span key field state = _ :=
    bind_eq (rfl : scopes state = .ok _ state)
  rw [start]
  rcases stands.sound.bind_cases found key field with
    ⟨bound, binds, sound, stack, keeps, frames⟩ | ⟨existing, taken, same⟩
  · rw [binds]
    exact ⟨_, rfl, stands.bound found sound stack keeps frames rfl rfl, stack, keeps, rfl, rfl, rfl, rfl,
      fun _ _ => rfl⟩
  · rw [taken]
    rw [stands.frames] at same
    have silent : Silent tree (report (((Diagnostic.error .redeclared span [key.text]).withNote
        (spanOf tree existing) "first declared here").withNote (spanOf tree field)
        "inherited field declared here")) := .report (concernsName_withNote ..)
    obtain ⟨_, after, runs, untouched⟩ := silent.runs state stands.logged.isOpen
    refine ⟨after, runs, ?_, untouched.kept⟩
    show Stands tree (env.declare key field) entries after
    rw [same]
    exact untouched.stands stands

theorem each_change {α : Type} (items : List α) (step : α → Env → Env) (env : Env) :
    Walk.each items (fun item => Walk.change (step item)) env =
      (items.foldl (fun env item => step item env) env, []) := by
  induction items generalizing env with
  | nil => rfl
  | cons item rest inductionHypothesis =>
    show Walk.andThen _ (Walk.each rest _) env = _
    rw [Walk.andThen, List.foldl_cons]
    simp only [Walk.change] at inductionHypothesis ⊢
    rw [inductionHypothesis]
    rfl

/-- The fields among the entries of a frame. -/
def fieldsOf (tree : Tree) (frame : Frame) : Frame :=
  frame.filter fun (_, decl) => tree.kindOf? decl = some .field

/-- Going through the keys of a scope is going through its fields. -/
theorem inheritKeys_eq (sound : scope.Sound) (span : Span) :
    (scope.keys.forM fun key =>
      match scope.find? key with
      | some field =>
        if tree.kindOf? field = some .field then inheritField tree span key field
        else pure ()
      | none => pure ()) =
      (fieldsOf tree scope.entries).forM fun entry =>
        inheritField tree span entry.1 entry.2 := by
  have held : ∀ entry ∈ scope.entries, scope.find? entry.1 = some entry.2 :=
    fun _ member => Scope.find?_of_mem sound member
  rw [sound.keys]
  generalize scope.entries = entries at held
  induction entries with
  | nil => rfl
  | cons entry rest inductionHypothesis =>
    have later := inductionHypothesis fun other member => held other (.tail _ member)
    show (_ >>= fun _ => (rest.map Prod.fst).forM _ : AnalysisM PUnit) = _
    rw [later]
    by_cases isField : tree.kindOf? entry.2 = some .field
    · have fields : fieldsOf tree (entry :: rest) = entry :: fieldsOf tree rest :=
        List.filter_cons_of_pos (by simpa using isField)
      rw [fields]
      simp only [held entry (.head _), isField, if_true]
      rfl
    · have fields : fieldsOf tree (entry :: rest) = fieldsOf tree rest :=
        List.filter_cons_of_neg (by simpa using isField)
      rw [fields]
      simp only [held entry (.head _), isField, if_false]
      rfl

theorem follows_inheritKeys (sound : scope.Sound) (span : Span) :
    Follows tree
      (scope.keys.forM fun key =>
        match scope.find? key with
        | some field =>
          if tree.kindOf? field = some .field then inheritField tree span key field
          else pure ()
        | none => pure ())
      (Walk.change fun env => (fieldsOf tree scope.entries).foldl
        (fun env (key, field) => env.declare key field) env) := by
  rw [inheritKeys_eq sound]
  refine Follows.congr ?_ fun env => (each_change (fieldsOf tree scope.entries)
    (fun (key, field) env => env.declare key field) env).symm
  exact .each fun entry _ => follows_inheritField span entry.1 entry.2

theorem scopeOf_congr {other : Resolution} (same : other.scopeOfDecl = names.scopeOfDecl)
    (id : DeclId) : other.scopeOf id = names.scopeOf id := by
  rw [Resolution.scopeOf, Resolution.scopeOf, same]

/-- The scope of every class holds the fields that the class was found to have. -/
def HasFields (tree : Tree) (classes : Classes) (state : Analysis) : Prop :=
  ∀ id, tree.kindOf? id = some .classDecl →
    fieldsOf tree (state.names.scopes.frameOf (state.names.scopeOf id)) = classes.fields tree id

theorem inheritFields_spec (stands : Stands tree env entries state) (span : Span) (base : DeclId) :
    ∃ after, inheritFields tree span base state = .ok () after ∧
      Stands tree ((fieldsOf tree (state.names.scopes.frameOf (state.names.scopeOf base))).foldl
        (fun env (key, field) => env.declare key field) env) entries after ∧
      Kept tree state after := by
  have start : inheritFields tree span base state = _ :=
    bind_eq (rfl : (get : AnalysisM Analysis) state = .ok _ state)
  rw [start, frameOf]
  cases found : state.names.scopes.get? (state.names.scopeOf base) with
  | none => exact ⟨state, rfl, stands, .refl state⟩
  | some scope =>
    obtain ⟨after, runs, ends, kept⟩ := (follows_inheritKeys (stands.sound.scopes _ scope found)
      span).runs env entries state stands
    rw [Walk.change, List.append_nil] at ends
    exact ⟨after, runs, ends, kept⟩

/-- Resolving the base of a class takes over its fields. -/
theorem resolveBase_spec (stands : Stands tree env entries state)
    (fields : HasFields tree classes state) (cyclic : state.cyclic = classes.cyclic) (id : DeclId)
    (decl : Decl) (base : TypeExprId) :
    ∃ after, resolveBase tree id decl base state = .ok () after ∧
      Stands tree (inherit tree classes id base env) entries after ∧ Kept tree state after := by
  obtain ⟨middle, runs, untouched⟩ := (reads_type env base).runs entries state stands
  have start : resolveBase tree id decl base state = _ := bind_eq runs
  rw [start, inherit]
  have stands' := untouched.stands stands
  cases typeName? tree env base with
  | none => exact ⟨middle, rfl, stands', untouched.kept⟩
  | some found =>
    by_cases isClass : tree.kindOf? found = some .classDecl
    · simp only [isClass, ne_eq, not_true_eq_false, if_false, Option.filter_some, decide_true,
        if_true]
      rw [bind_eq (rfl : (get : AnalysisM Analysis) middle = .ok _ middle), untouched.cyclic, cyclic]
      by_cases isCyclic : id ∈ classes.cyclic
      · rw [if_pos isCyclic, if_pos isCyclic]
        exact ⟨middle, rfl, stands', untouched.kept⟩
      · rw [if_neg isCyclic, if_neg isCyclic]
        have silent : Silent tree (modifyNames fun names =>
            { names with bases := names.bases.insert id found }) :=
          .modifyNames (fun _ => rfl) (fun _ => rfl) (fun _ => rfl) (fun _ => rfl)
            fun _ _ _ _ => rfl
        obtain ⟨_, noted, notes, untouched'⟩ := silent.runs middle untouched.isOpen
        rw [bind_eq notes]
        have both := untouched.trans untouched'
        obtain ⟨after, runs', ends, kept⟩ :=
          inheritFields_spec (untouched'.stands stands') decl.span found
        refine ⟨after, runs', ?_, both.kept.trans kept⟩
        have same := fields found isClass
        rw [← scopeOf_congr both.scopeOfDecl, ← both.scopes] at same
        rwa [same] at ends
    · simp only [isClass, ne_eq, not_false_eq_true, if_true, Option.filter_some, decide_false,
        Bool.false_eq_true, if_false]
      have silent : Silent tree (AnalysisM.error .baseNotClass decl.span
          [tree.nameOf found, tree.text decl.name]) := .error _ (by decide) (by decide) ..
      obtain ⟨_, after, runs', untouched'⟩ := silent.runs middle untouched.isOpen
      exact ⟨after, runs', untouched'.stands stands', (untouched.trans untouched').kept⟩

/-! ### Class bodies -/

/-- The scopes of the classes that were walked hold the frames that were kept. -/
structure Known (tree : Tree) (classes : Classes) (state : Analysis) : Prop where
  cyclic : state.cyclic = classes.cyclic
  walked : ∀ id frame, tree.kindOf? id = some .classDecl →
    classes.frames.lookup id = some frame → ∃ home scope,
      state.names.scopeOfDecl[id]? = some home ∧ state.names.scopes.get? home = some scope ∧
        scope.parent ≠ 0 ∧ scope.entries = frame
  unwalked : ∀ id, tree.kindOf? id = some .classDecl → classes.frames.lookup id = none →
    state.names.scopeOfDecl[id]? = none

theorem scopeOf_eq {home : ScopeId} (found : names.scopeOfDecl[id]? = some home) :
    names.scopeOf id = home := by
  rw [Resolution.scopeOf, Std.TreeMap.getD_eq_getD_getElem?, found]
  rfl

theorem scopeOf_eq_zero (absent : names.scopeOfDecl[id]? = none) : names.scopeOf id = 0 := by
  rw [Resolution.scopeOf, Std.TreeMap.getD_eq_getD_getElem?, absent]
  rfl

/-- What is known of classes stays known while no class scope changes. -/
theorem Known.frameOf_eq (known : Known tree classes state)
    (keeps : ScopeTable.Keeps 0 state.names.scopes after.names.scopes)
    (isClass : tree.kindOf? id = some .classDecl)
    (same : after.names.scopeOfDecl[id]? = state.names.scopeOfDecl[id]?) :
    after.names.scopes.frameOf (after.names.scopeOf id) = (classes.frames.lookup id).getD [] := by
  cases walked : classes.frames.lookup id with
  | none =>
    rw [scopeOf_eq_zero (same.trans (known.unwalked id isClass walked))]
    rfl
  | some frame =>
    obtain ⟨home, scope, isHome, found, _, entries⟩ := known.walked id frame isClass walked
    rw [scopeOf_eq (same.trans isHome), keeps.frameOf_eq found (by have := le_size found; lia)]
    simp [frameOf, found, entries]

/-- Template parameters are no fields. -/
theorem fieldsOf_declareName {param : DeclId} (other : tree.kindOf? param ≠ some .field) (env : Env) :
    fieldsOf tree ((env.declareName tree param).headD []) = fieldsOf tree (env.headD []) := by
  unfold Env.declareName Env.declare
  cases env with
  | nil => rfl
  | cons frame outer =>
    dsimp only
    split
    · rfl
    · simp [fieldsOf, other]

theorem fieldsOf_templateParams {params : List DeclId}
    (others : ∀ param ∈ params, tree.kindOf? param ≠ some .field) (env : Env) :
    fieldsOf tree ((templateParams tree params env).1.headD []) = fieldsOf tree (env.headD []) := by
  rw [templateParams, each_change]
  induction params generalizing env with
  | nil => rfl
  | cons param rest inductionHypothesis =>
    rw [List.foldl_cons, inductionHypothesis (fun other member =>
      others other (.tail _ member)) _]
    exact fieldsOf_declareName (others param (.head _)) env

/-- The base of a class, if it has one, adds fields to what the template parameters leave. -/
theorem classBody_eq (isBody : tree.classBody? id = some body) (env : Env) :
    classBody tree classes id env = members tree body
      (body.base.toList.foldl (fun env base => inherit tree classes id base env)
        (templateParams tree body.typeParams env).1) := by
  have params : (templateParams tree body.typeParams env).2 = [] := by
    rw [templateParams, each_change]
  simp only [classBody, isBody, Walk.andThen, each_change, params, List.nil_append]

/-- What happens at the top level of a unit leaves everything alone but the current scope, what
is opened in it, and what is known of classes. -/
structure Around (before after : Analysis) : Prop where
  stack : after.names.scopes.stack = before.names.scopes.stack
  scopes : ScopeTable.Keeps before.names.scopes.current before.names.scopes after.names.scopes
  units : after.names.units = before.names.units
  unitOrder : after.names.unitOrder = before.names.unitOrder
  progress : after.progress = before.progress

theorem Kept.around (kept : Kept tree before after) : Around before after :=
  ⟨kept.stack, kept.scopes, kept.units, kept.unitOrder, kept.progress⟩

theorem Around.refl (state : Analysis) : Around state state :=
  ⟨rfl, .refl _ _, rfl, rfl, rfl⟩

theorem Around.trans (first : Around before middle) (second : Around middle after) :
    Around before after := by
  have current : middle.names.scopes.current = before.names.scopes.current := by
    rw [current, first.stack]
    rfl
  exact ⟨second.stack.trans first.stack, first.scopes.trans (current ▸ second.scopes),
    second.units.trans first.units, second.unitOrder.trans first.unitOrder,
    second.progress.trans first.progress⟩

theorem Stands.frameOf_current (stands : Stands tree env entries state) :
    state.names.scopes.frameOf state.names.scopes.current = env.headD [] := by
  obtain ⟨scope, found⟩ := stands.inside
  rw [← stands.frames, stands.sound.frames_eq_cons found]
  simp [frameOf, found]

section

variable {loose : List Node} (forest : tree.Forest loose)

include forest

theorem follows_members (place : Place) (body : ClassBody) :
    Follows tree
      (do
        body.fields.forM (Resolve.declareVariable tree place)
        body.methods.forM (Resolve.declareCallable tree)
        body.methods.forM (Resolve.callableBody tree place))
      (members tree body) :=
  .andThen (.each fun field _ => follows_declareVariable forest place field) <|
  .andThen (.each fun method _ => follows_declareCallable method)
    (.each fun method _ => follows_callableBody forest place method)

/-- Right behind its template parameters a class has no fields, and the fields of the other
classes are what they were. -/
theorem hasFields_inside {decl : Decl} (found : tree.decls.get? id = some decl)
    (isBody : decl.form = .classDecl body) (unwalked : classes.frames.lookup id = none)
    (stands : Stands tree env entries state) (known : Known tree classes state)
    (starts : Stands tree (templateParams tree body.typeParams ([] :: env)).1 later inside)
    (kept : Kept tree (openedFor .classBody id decl.span state) inside) :
    HasFields tree classes inside := by
  obtain ⟨opening, scopeOfDecl⟩ := opening_openedFor .classBody id decl.span stands
  intro other isClass
  by_cases same : other = id
  · subst same
    have home : inside.names.scopeOf other = inside.names.scopes.current := by
      refine scopeOf_eq ?_
      rw [kept.classScopes other isClass, scopeOfDecl, kept.current, opening.current]
      simp
    have params : ∀ param ∈ body.typeParams, tree.kindOf? param ≠ some .field := by
      intro param member isField
      have isPart : .decl .templateParam param ∈ tree.parts (.decl .classDecl other) := by
        simp [Tree.parts, found, Decl.parts, isBody, DeclForm.parts, ClassBody.parts, member]
      have holds : tree.kindOf? param = some .templateParam := forest.holds_part isPart
      rw [holds] at isField
      cases isField
    rw [home, starts.frameOf_current, fieldsOf_templateParams params, Classes.fields, unwalked]
    rfl
  · have keeps : ScopeTable.Keeps 0 state.names.scopes inside.names.scopes :=
      (opening.opens.keeps.of_zero.trans (opening.current ▸ kept.scopes)).of_fresh
        (get?_next _)
    have unchanged : inside.names.scopeOfDecl[other]? = state.names.scopeOfDecl[other]? := by
      rw [kept.classScopes other isClass, scopeOfDecl, Std.TreeMap.getElem?_insert]
      simp [Ne.symm same]
    rw [known.frameOf_eq keeps isClass unchanged]
    rfl

omit forest in
theorem bases_spec (stands : Stands tree env entries state) (fields : HasFields tree classes state)
    (cyclic : state.cyclic = classes.cyclic) (id : DeclId) (decl : Decl)
    (base : Option TypeExprId) :
    ∃ after, base.forM (resolveBase tree id decl) state = .ok () after ∧
      Stands tree (base.toList.foldl (fun env base => inherit tree classes id base env) env) entries
        after ∧ Kept tree state after := by
  cases base with
  | none => exact ⟨state, rfl, stands, .refl state⟩
  | some base => exact resolveBase_spec stands fields cyclic id decl base

/-- What resolving a class does in the scope of the class. -/
def insideClass (tree : Tree) (place : Place) (id : DeclId) (decl : Decl) (body : ClassBody) :
    AnalysisM Unit := do
  body.typeParams.forM (bindName tree)
  body.base.forM (resolveBase tree id decl)
  body.fields.forM (declareVariable tree place)
  body.methods.forM (declareCallable tree)
  body.methods.forM (Resolve.callableBody tree place)

omit forest in
theorem resolveClass_eq (place : Place) {decl : Decl} (found : tree.decls.get? id = some decl)
    (isBody : tree.classBody? id = some body) :
    resolveClass tree place id = inDeclScope .classBody id decl.span
      (insideClass tree { place with enclosing := some id, callable := none } id decl body) := by
  unfold resolveClass
  simp only [found, isBody]
  rfl

omit forest in
/-- The template parameters of a class are the first names in its scope. -/
theorem insideClass_params (span : Span) (params : List DeclId)
    (stands : Stands tree env entries state) :
    ∃ after, params.forM (bindName tree) (openedFor .classBody id span state) = .ok () after ∧
      Stands tree (templateParams tree params ([] :: env)).1 entries after ∧
      Kept tree (openedFor .classBody id span state) after := by
  have binds : Follows tree (params.forM (bindName tree)) (templateParams tree params) :=
    .each fun param _ => follows_bindName param
  obtain ⟨opening, -⟩ := opening_openedFor .classBody id span stands
  obtain ⟨after, runs, starts, kept⟩ := binds.runs _ _ _ (opening.stands stands)
  have silent : (templateParams tree params ([] :: env)).2 = [] := by rw [templateParams, each_change]
  rw [silent, List.append_nil] at starts
  exact ⟨after, runs, starts, kept⟩

/-- Inside its scope a class does what the walk through its body does. -/
theorem insideClass_spec (place : Place) {decl : Decl} (found : tree.decls.get? id = some decl)
    (isBody : decl.form = .classDecl body) (unwalked : classes.frames.lookup id = none)
    (stands : Stands tree env entries state) (known : Known tree classes state) :
    ∃ after, insideClass tree place id decl body (openedFor .classBody id decl.span state) =
        .ok () after ∧
      Stands tree (classBody tree classes id ([] :: env)).1
        (entries ++ (classBody tree classes id ([] :: env)).2) after ∧
      Kept tree (openedFor .classBody id decl.span state) after := by
  obtain ⟨opening, _⟩ := opening_openedFor .classBody id decl.span stands
  obtain ⟨first, runs, starts, kept⟩ := insideClass_params decl.span body.typeParams stands
  have fields := hasFields_inside forest found isBody unwalked stands known starts kept
  have cyclic : first.cyclic = classes.cyclic :=
    kept.cyclic.trans (opening.cyclic.trans known.cyclic)
  obtain ⟨second, runs', inherits, kept'⟩ := bases_spec starts fields cyclic id decl body.base
  obtain ⟨after, runs'', ends, kept''⟩ :=
    (follows_members forest place body).runs _ _ _ inherits
  have isClassBody : tree.classBody? id = some body := by
    simp [Tree.classBody?, found, Decl.classBody?, isBody]
  rw [classBody_eq isClassBody]
  refine ⟨after, ?_, ends, (kept.trans kept').trans kept''⟩
  rw [insideClass, bind_eq runs, bind_eq runs']
  exact runs''

/-- A class that was resolved has a body, and its inside came to an end. -/
theorem insideClass_of_ok {place : Place} (isClass : tree.kindOf? id = some .classDecl)
    (unwalked : classes.frames.lookup id = none) (stands : Stands tree env entries state)
    (known : Known tree classes state) (ran : resolveClass tree place id state = .ok () after) :
    ∃ decl body inner, tree.decls.get? id = some decl ∧ decl.form = .classDecl body ∧
      tree.classBody? id = some body ∧
      insideClass tree { place with enclosing := some id, callable := none } id decl body
        (openedFor .classBody id decl.span state) = .ok () inner ∧
      Kept tree (openedFor .classBody id decl.span state) inner ∧ after = closed inner := by
  obtain ⟨decl, found, isKind⟩ := Option.map_eq_some_iff.mp isClass
  obtain ⟨body, isForm⟩ := decl.form_of_classDecl isKind
  have isBody := Tree.classBody?_eq_some.mpr ⟨decl, found, isForm⟩
  obtain ⟨inner, runs, -, kept⟩ := insideClass_spec forest
    { place with enclosing := some id, callable := none } found isForm unwalked stands known
  rw [resolveClass_eq place found isBody] at ran
  cases (inDeclScope_eq runs).symm.trans ran
  exact ⟨decl, body, inner, found, isForm, isBody, runs, kept, rfl⟩

omit forest in
/-- Behind its end the scope of a class holds the frame of the class. -/
theorem classScope_spec {span : Span} {inner : Env} (stands : Stands tree env entries state)
    (ends : Stands tree inner later inside)
    (kept : Kept tree (openedFor .classBody id span state) inside) :
    ∃ scope, (closed inside).names.scopes.get? state.names.scopes.scopes.next = some scope ∧
      scope.parent ≠ 0 ∧ scope.entries = inner.headD [] := by
  obtain ⟨opening, _⟩ := opening_openedFor .classBody id span stands
  obtain ⟨outer, there⟩ := stands.inside
  obtain ⟨opened, found, parent⟩ := opening.opens.inside
  obtain ⟨scope, found', parent', _⟩ := kept.scopes _ opened found
  obtain ⟨scope', found'', parent'', _, same⟩ :=
    (closes ends.sound).2.1 _ scope found'
  have nonzero := le_size found
  refine ⟨scope', found'', ?_, ?_⟩
  · have := le_size there
    rw [parent'', parent', parent]
    lia
  · have frame := ends.frameOf_current
    rw [kept.current, opening.current, frameOf, found'] at frame
    rw [same (by lia)]
    exact frame

/-- Resolving a class walks it in a frame of its own, which its scope keeps. -/
theorem resolveClass_spec (place : Place) (isClass : tree.kindOf? id = some .classDecl)
    (unwalked : classes.frames.lookup id = none) (stands : Stands tree env entries state)
    (known : Known tree classes state) :
    ∃ after, Resolve.resolveClass tree place id state = .ok () after ∧
      Stands tree env (entries ++ (classBody tree classes id ([] :: env)).2) after ∧
      Known tree (classes.add id ((classBody tree classes id ([] :: env)).1.headD [])) after ∧
      Around state after := by
  obtain ⟨decl, found, isKind⟩ := Option.map_eq_some_iff.mp isClass
  obtain ⟨body, isBody⟩ := decl.form_of_classDecl isKind
  have isClassBody : tree.classBody? id = some body := by
    simp [Tree.classBody?, found, Decl.classBody?, isBody]
  obtain ⟨opening, scopeOfDecl⟩ := opening_openedFor .classBody id decl.span stands
  obtain ⟨inside, runs, ends, kept⟩ := insideClass_spec forest
    { place with enclosing := some id, callable := none } found isBody unwalked stands known
  obtain ⟨sound, keeps, stack⟩ := opening.keeps ends kept
  have homeOf (other : DeclId) (isClass : tree.kindOf? other = some .classDecl) :
      (closed inside).names.scopeOfDecl[other]? =
        if id = other then some state.names.scopes.scopes.next
        else state.names.scopeOfDecl[other]? := by
    show inside.names.scopeOfDecl[other]? = _
    rw [kept.classScopes other isClass, scopeOfDecl, Std.TreeMap.getElem?_insert]
    simp
  refine ⟨closed inside, ?_, opening.ends stands ends kept, ⟨?_, ?_, ?_⟩,
    ⟨stack, keeps.of_zero, kept.units.trans opening.units,
      kept.unitOrder.trans opening.unitOrder, kept.progress.trans opening.progress⟩⟩
  · rw [resolveClass_eq place found isClassBody]
    exact inDeclScope_eq runs
  · exact kept.cyclic.trans (opening.cyclic.trans known.cyclic)
  · intro other frame isClass' walked
    by_cases same : other = id
    · subst same
      obtain ⟨scope, there, inner, entries⟩ := classScope_spec stands ends kept
      have isFrame : (classBody tree classes other ([] :: env)).1.headD [] = frame := by
        rwa [Classes.lookup_add, if_pos rfl, Option.some.injEq] at walked
      refine ⟨_, scope, ?_, there, inner, entries.trans isFrame⟩
      rw [homeOf other isClass']
      simp
    · have walked' : classes.frames.lookup other = some frame := by
        rwa [Classes.lookup_add, if_neg same] at walked
      obtain ⟨home, scope, isHome, there, inner, entries⟩ :=
        known.walked other frame isClass' walked'
      obtain ⟨scope', there', parent, _, unchanged⟩ := keeps home scope there
      have := le_size there
      refine ⟨home, scope', ?_, there', parent ▸ inner, (unchanged (by lia)).trans entries⟩
      rw [homeOf other isClass']
      simpa [Ne.symm same] using isHome
  · intro other isClass' unwalked'
    have different : other ≠ id := by
      rintro rfl
      rw [Classes.lookup_add, if_pos rfl] at unwalked'
      cases unwalked'
    have unwalked'' : classes.frames.lookup other = none := by
      rwa [Classes.lookup_add, if_neg different] at unwalked'
    rw [homeOf other isClass']
    simpa [Ne.symm different] using known.unwalked other isClass' unwalked''

end

/-! ### The order of classes -/

theorem reads_baseCandidate? (env : Env) (id : DeclId) :
    Reads tree env (Resolve.baseCandidate? tree id) (baseCandidate? tree env id) := by
  unfold Resolve.baseCandidate? baseCandidate? Tree.typeAt?
  cases (tree.classBody? id).bind ClassBody.base with
  | none => exact .pure none
  | some base =>
    rw [Option.bind_some, Option.bind_some]
    cases tree.types.get? base with
    | none => exact .pure none
    | some written =>
      simp only [Option.map_some]
      cases written.form with
      | named name args => exact .find? _
      | _ => exact .pure none

/-- Nothing was touched but the classes that inherit from themselves. -/
structure Noted (tree : Tree) (before after : Analysis) : Prop where
  untouched : Untouched tree before { after with cyclic := before.cyclic }

theorem Untouched.noted (untouched : Untouched tree before after) : Noted tree before after :=
  ⟨{ untouched with cyclic := rfl }⟩

theorem Noted.trans (first : Noted tree before middle) (second : Noted tree middle after) :
    Noted tree before after :=
  ⟨first.untouched.trans { second.untouched with cyclic := rfl }⟩

theorem Noted.around (noted : Noted tree before after) : Around before after :=
  let kept := noted.untouched.kept
  ⟨kept.stack, kept.scopes, kept.units, kept.unitOrder, kept.progress⟩

theorem Noted.stands (noted : Noted tree before after) (stands : Stands tree env entries before) :
    Stands tree env entries after :=
  let stands' := noted.untouched.stands stands
  ⟨stands'.sound, stands'.inside, stands'.frames, stands'.logged.uses, stands'.logged.reports,
    stands'.logged.isOpen⟩

/-- What is known of classes stays known, apart from which of them inherit from themselves. -/
theorem Noted.known (noted : Noted tree before after) (known : Known tree classes before)
    {cyclic : List DeclId} (found : after.cyclic = cyclic) :
    Known tree { classes with cyclic } after := by
  refine ⟨found, fun id frame isClass walked => ?_, fun id isClass unwalked => ?_⟩
  · have same := known.walked id frame isClass walked
    rwa [← noted.untouched.scopeOfDecl, ← noted.untouched.scopes] at same
  · have same := known.unwalked id isClass unwalked
    rwa [← noted.untouched.scopeOfDecl] at same

/-- The visit of a class has come as far as an order of classes. -/
structure Visits (visit : Resolve.ClassVisit) (order : Order) (state : Analysis) : Prop where
  placed : visit.placed = order.placed
  states : ∀ id, visit.states[id]? = if id ∈ order.placed then some .placed
    else if id ∈ order.met then some .open else none
  cyclic : state.cyclic = order.cyclic

theorem reportCyclic_spec (tree : Tree) (id : DeclId) (isOpen : state.sink.IsOpen) :
    ∃ after, reportCyclic tree id state = .ok () after ∧ Noted tree state after ∧
      after.cyclic = state.cyclic.insert id := by
  have start : reportCyclic tree id state = _ :=
    bind_eq (rfl : (get : AnalysisM Analysis) state = .ok _ state)
  rw [start]
  by_cases known : id ∈ state.cyclic
  · rw [if_pos known, List.insert_of_mem known]
    exact ⟨state, rfl, (Untouched.refl isOpen).noted, rfl⟩
  · rw [if_neg known, List.insert_of_not_mem known]
    have silent : Silent tree (AnalysisM.error .inheritanceCycle (spanOf tree id)
        [tree.nameOf id]) := .error _ (by decide) (by decide) ..
    obtain ⟨_, after, runs, untouched⟩ :=
      silent.runs { state with cyclic := id :: state.cyclic } isOpen
    exact ⟨after, runs, ⟨{ untouched with cyclic := rfl }⟩, untouched.cyclic⟩

theorem Visits.met (visits : Visits visit order state) (unplaced : id ∉ order.placed) :
    Visits { visit with states := visit.states.insert id .open }
      { order with met := id :: order.met } state := by
  refine ⟨visits.placed, fun other => ?_, visits.cyclic⟩
  rw [Std.TreeMap.getElem?_insert, visits.states other]
  by_cases same : id = other
  · subst same
    simp [unplaced]
  · simp [same, Ne.symm same]

theorem Visits.add (visits : Visits visit order state) (id : DeclId) :
    Visits { states := visit.states.insert id .placed, placed := visit.placed ++ [id] }
      { order with placed := order.placed ++ [id] } state := by
  refine ⟨by rw [visits.placed], fun other => ?_, visits.cyclic⟩
  rw [Std.TreeMap.getElem?_insert, visits.states other]
  by_cases same : id = other
  · subst same
    simp
  · simp [same, Ne.symm same]

/-- Visiting a class places it, and its base before it. -/
theorem visitWithin_spec {classes : List DeclId} (fuel : Nat)
    (stands : Stands tree env entries state) (visits : Visits visit order state) (id : DeclId) :
    ∃ visit' after, Resolve.visitWithin tree classes fuel visit id state = .ok visit' after ∧
      Visits visit' (placeWithin tree env classes fuel order id) after ∧ Noted tree state after := by
  induction fuel generalizing state visit order id with
  | zero => exact ⟨visit, state, rfl, visits, (Untouched.refl stands.logged.isOpen).noted⟩
  | succ fuel inductionHypothesis =>
    unfold Resolve.visitWithin placeWithin
    rw [visits.states id]
    by_cases placed : id ∈ order.placed
    · rw [if_pos placed, if_pos placed]
      exact ⟨visit, state, rfl, visits, (Untouched.refl stands.logged.isOpen).noted⟩
    · rw [if_neg placed, if_neg placed]
      by_cases met : id ∈ order.met
      · rw [if_pos met, if_pos met]
        obtain ⟨after, runs, noted, cyclic⟩ := reportCyclic_spec tree id stands.logged.isOpen
        refine ⟨visit, after, bind_eq runs, ⟨visits.placed, visits.states, ?_⟩, noted⟩
        rw [cyclic, visits.cyclic]
      · rw [if_neg met, if_neg met]
        obtain ⟨middle, reads, untouched⟩ := (reads_baseCandidate? env id).runs entries state stands
        have stands' := untouched.stands stands
        have visits' : Visits { visit with states := visit.states.insert id .open }
            { order with met := id :: order.met } middle :=
          let started := visits.met placed
          ⟨started.placed, started.states, untouched.cyclic.trans started.cyclic⟩
        dsimp only
        rw [bind_eq reads]
        cases baseCandidate? tree env id with
        | none => exact ⟨_, middle, rfl, visits'.add id, untouched.noted⟩
        | some base =>
          rw [Option.filter_some]
          by_cases inside : base ∈ classes
          · obtain ⟨visit', after, runs, visits'', noted⟩ := inductionHypothesis stands' visits' base
            simp only [inside, if_true, decide_true]
            rw [bind_eq runs]
            exact ⟨_, after, rfl, visits''.add id, untouched.noted.trans noted⟩
          · simp only [inside, if_false, decide_false, Bool.false_eq_true]
            exact ⟨_, middle, rfl, visits'.add id, untouched.noted⟩

/-- Putting the classes of a unit in order gives the order of the walk. -/
theorem classOrder_spec (stands : Stands tree env entries state) (classes : List DeclId) :
    ∃ after, Resolve.classOrder tree classes state =
        .ok (classOrder tree env classes state.cyclic).placed after ∧
      after.cyclic = (classOrder tree env classes state.cyclic).cyclic ∧
      Noted tree state after := by
  have fold (remaining : List DeclId) {state : Analysis} (stands : Stands tree env entries state)
      {visit : Resolve.ClassVisit} {order : Order} (visits : Visits visit order state) :
      ∃ visit' after, remaining.foldlM (Resolve.visitWithin tree classes (classes.length + 1)) visit
          state = .ok visit' after ∧
        Visits visit' (remaining.foldl (placeWithin tree env classes (classes.length + 1)) order)
          after ∧ Noted tree state after := by
    induction remaining generalizing state visit order with
    | nil => exact ⟨visit, state, rfl, visits, (Untouched.refl stands.logged.isOpen).noted⟩
    | cons id rest inductionHypothesis =>
      obtain ⟨visit', middle, runs, visits', noted⟩ := visitWithin_spec _ stands visits id
      obtain ⟨visit'', after, runs', visits'', noted'⟩ :=
        inductionHypothesis (noted.stands stands) visits'
      refine ⟨visit'', after, ?_, visits'', noted.trans noted'⟩
      rw [List.foldlM_cons, bind_eq runs, runs']
  have fresh : Visits {} { cyclic := state.cyclic } state := ⟨rfl, fun id => by simp, rfl⟩
  obtain ⟨visit, after, runs, visits, noted⟩ := fold classes stands fresh
  refine ⟨{ after with names := { after.names with order := after.names.order ++ visit.placed } },
    ?_, visits.cyclic, ?_⟩
  · have start : Resolve.classOrder tree classes state = _ := bind_eq runs
    rw [start, classOrder, ← visits.placed]
    rfl
  · exact ⟨{ noted.untouched with cyclic := rfl }⟩

end TreeCheck.Lexical
