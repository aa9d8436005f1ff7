/-
The members of classes. The frame of a class holds its template parameters, the fields of
its base, its own fields and its methods, and a method has a key exactly if its class holds
it under that key. The frames of walked classes are kept in the order in which the classes
were walked; a base that was recorded was walked before the class, unless it inherits from
itself, and whatever field it had has its key taken in the class.
-/

import TreeCheck.Proofs.Scoping.Inheritance
import TreeCheck.Proofs.Scoping.Sparing

namespace TreeCheck

variable {tree : Tree} {loose : List Node}
variable {id method base : DeclId} {env : Env} {allowed : DeclId → Prop} {classes : Classes}
  {type : TypeExprId} {after : Analysis}

namespace Tree

theorem mem_parts_of_methodsOf (member : method ∈ tree.methodsOf id) :
    tree.kindOf? id = some .classDecl ∧
      .decl .method method ∈ tree.parts (.decl .classDecl id) := by
  unfold methodsOf at member
  cases isClass : tree.classBody? id with
  | none => simp [isClass] at member
  | some body =>
    rw [isClass, Option.map_some, Option.getD_some] at member
    exact ⟨kindOf?_of_classBody? isClass,
      Tree.mem_parts_of_classBody? isClass (by simp [ClassBody.parts, member]) _⟩

namespace Forest

variable (forest : tree.Forest loose)

include forest

theorem kindOf?_method (member : method ∈ tree.methodsOf id) : tree.kindOf? method = some .method :=
  forest.holds_part (mem_parts_of_methodsOf member).2

/-- No method belongs to two classes. -/
theorem owner_unique {other : DeclId} (member : method ∈ tree.methodsOf id)
    (member' : method ∈ tree.methodsOf other) : other = id := by
  obtain ⟨isClass, isPart⟩ := mem_parts_of_methodsOf member
  obtain ⟨isClass', isPart'⟩ := mem_parts_of_methodsOf member'
  have same : Node.decl .classDecl other = .decl .classDecl id :=
    forest.whole_unique isClass' isClass isPart' isPart
  exact (Node.decl.inj same).2

theorem nodup_methods {body : ClassBody} (isClass : tree.classBody? id = some body) :
    body.methods.Nodup := by
  have inside : (body.methods.map (Node.decl .method)).Sublist (tree.parts (.decl .classDecl id)) := by
    obtain ⟨decl, found, isForm⟩ := classBody?_eq_some.mp isClass
    simp only [parts, found, Option.map_some, Option.getD_some, Decl.parts, isForm, DeclForm.parts,
      ClassBody.parts]
    exact (List.sublist_append_right _ _).trans (List.sublist_append_right _ _)
  exact ((forest.nodup_parts _).sublist inside).of_map

end Forest

end Tree

namespace Lexical

open AnalysisM

/-! ### What walks put into a frame -/

theorem lookup_declare (frame : Frame) (outer : Env) (key other : Key) (id : DeclId) :
    ((Env.declare (frame :: outer) key id).headD []).lookup other =
      (frame.lookup other).or (if other = key then some id else none) := by
  unfold Env.declare
  by_cases same : other = key
  · subst same
    dsimp only
    cases held : frame.lookup other with
    | none => simp [List.lookup_append, held]
    | some found => simp [held]
  · have different : (other == key) = false := by simpa using same
    dsimp only
    split
    · simp
    · simp [List.lookup_append, List.lookup_cons, different]

theorem declare_ne_nil (inside : env ≠ []) (key : Key) (id : DeclId) : env.declare key id ≠ [] := by
  cases env with
  | nil => exact absurd rfl inside
  | cons frame outer =>
    unfold Env.declare
    dsimp only
    split <;> exact List.cons_ne_nil _ _

/-- A walk leaves what the innermost frame holds alone, and gives keys that are free there to
nothing but what is allowed. -/
structure Puts (allowed : DeclId → Prop) (walk : Walk) : Prop where
  lookup : ∀ env key, ((walk env).1.headD []).lookup key = (env.headD []).lookup key ∨
    (env.headD []).lookup key = none ∧
      ∃ decl, allowed decl ∧ ((walk env).1.headD []).lookup key = some decl
  inside : ∀ env, env ≠ [] → (walk env).1 ≠ []

namespace Puts

variable {allowed : DeclId → Prop} {walk next : Walk} {env : Env} {key : Key} {decl : DeclId}

theorem keeps (puts : Puts allowed walk) (held : (env.headD []).lookup key = some decl) :
    ((walk env).1.headD []).lookup key = some decl := by
  rcases puts.lookup env key with same | ⟨free, -⟩
  · exact same.trans held
  · nomatch free.symm.trans held

theorem old_or_allowed (puts : Puts allowed walk)
    (held : ((walk env).1.headD []).lookup key = some decl) :
    (env.headD []).lookup key = some decl ∨ allowed decl := by
  rcases puts.lookup env key with same | ⟨-, found, isAllowed, held'⟩
  · exact .inl (same.symm.trans held)
  · exact .inr (Option.some.inj (held.symm.trans held') ▸ isAllowed)

theorem skip : Puts allowed Walk.skip := ⟨fun _ _ => .inl rfl, fun _ inside => inside⟩

theorem andThen (first : Puts allowed walk) (second : Puts allowed next) :
    Puts allowed (walk.andThen next) where
  lookup env key := by
    rcases second.lookup (walk env).1 key with same | ⟨free, decl, isAllowed, held⟩
    · rcases first.lookup env key with same' | ⟨free, decl, isAllowed, held⟩
      · exact .inl (same.trans same')
      · exact .inr ⟨free, decl, isAllowed, same.trans held⟩
    · rcases first.lookup env key with same' | ⟨-, _, _, held'⟩
      · exact .inr ⟨same'.symm.trans free, decl, isAllowed, held⟩
      · nomatch free.symm.trans held'
  inside env inside := second.inside _ (first.inside env inside)

theorem each {α : Type} {items : List α} {walks : α → Walk}
    (puts : ∀ item ∈ items, Puts allowed (walks item)) : Puts allowed (Walk.each items walks) := by
  induction items with
  | nil => exact skip
  | cons item rest inductionHypothesis =>
    exact (puts item (.head _)).andThen
      (inductionHypothesis fun other member => puts other (.tail _ member))

/-- A walk that ends where it started puts nothing anywhere. -/
theorem still (same : ∀ env, (walk env).1 = env) : Puts allowed walk :=
  ⟨fun env _ => .inl (by rw [same]), fun env inside => by rwa [same]⟩

theorem change {step : Env → Env}
    (declares : ∀ env, step env = env ∨ ∃ key, step env = env.declare key id) (fits : allowed id) :
    Puts allowed (Walk.change step) := by
  constructor
  · intro env other
    show ((step env).headD []).lookup other = _ ∨ _ ∧ ∃ decl, _ ∧ ((step env).headD []).lookup other = _
    rcases declares env with same | ⟨key, same⟩
    · exact .inl (by rw [same])
    · rw [same]
      cases env with
      | nil => exact .inl rfl
      | cons frame outer =>
        rw [lookup_declare]
        cases held : frame.lookup other with
        | some found => exact .inl (by simp [held])
        | none =>
          by_cases here : other = key
          · exact .inr ⟨held, id, fits, by simp [here]⟩
          · exact .inl (by simp [held, here])
  · intro env inside
    show step env ≠ []
    rcases declares env with same | ⟨key, same⟩
    · rwa [same]
    · rw [same]
      exact declare_ne_nil inside key id

theorem mono {wider : DeclId → Prop} (puts : Puts allowed walk)
    (wide : ∀ decl, allowed decl → wider decl) : Puts wider walk :=
  ⟨fun env key => (puts.lookup env key).imp_right fun ⟨free, decl, isAllowed, held⟩ =>
    ⟨free, decl, wide decl isAllowed, held⟩, puts.inside⟩

end Puts

theorem puts_name (id : DeclId) : Puts (· = id) (Walk.change (Env.declareName tree id)) :=
  .change (fun _ => .inr ⟨_, rfl⟩) rfl

theorem puts_signature (id : DeclId) : Puts (· = id) (Walk.change (Env.declareSignature tree id)) := by
  refine .change (fun env => ?_) rfl
  unfold Env.declareSignature
  split
  · exact .inl rfl
  · exact .inr ⟨_, rfl⟩

theorem puts_declared (id : DeclId) : Puts (· = id) (declared tree id) := by
  unfold declared
  split
  · exact .skip
  · refine .andThen (.each fun _ _ => .still fun _ => rfl) (.change (fun env => ?_) rfl)
    unfold Env.declareVariable
    split
    · exact .inl rfl
    · exact .inr ⟨_, rfl⟩

theorem puts_callableBody (id : DeclId) : Puts allowed (callableBody tree id) := by
  unfold callableBody
  split
  · exact .skip
  · exact .still fun _ => rfl

/-! ### The frame of a class -/

/-- The fields of a frame, declared one after the other. -/
theorem puts_fields (classes : Classes) (base : DeclId) :
    Puts (tree.kindOf? · = some .field) (Walk.change fun env =>
      (classes.fields tree base).foldl (fun env (key, field) => env.declare key field) env) := by
  have each (fields : Frame) (areFields : ∀ entry ∈ fields, tree.kindOf? entry.2 = some .field) :
      Puts (tree.kindOf? · = some .field)
        (Walk.each fields fun entry => Walk.change (Env.declare · entry.1 entry.2)) :=
    .each fun entry member => .change (fun _ => .inr ⟨_, rfl⟩) (areFields entry member)
  have walks := each (classes.fields tree base) fun entry member => by
    simpa using (List.mem_filter.mp member).2
  constructor
  · intro env key
    have same := walks.lookup env key
    rwa [each_change] at same
  · intro env inside
    have same := walks.inside env inside
    rwa [each_change] at same

theorem puts_inherit (classes : Classes) (id : DeclId) (base : TypeExprId) :
    Puts (tree.kindOf? · = some .field) (Walk.change (inherit tree classes id base)) := by
  constructor
  · intro env key
    show ((inherit tree classes id base env).headD []).lookup key = _ ∨ _ ∧
      ∃ decl, _ ∧ ((inherit tree classes id base env).headD []).lookup key = _
    unfold inherit
    split
    · exact .inl rfl
    · split
      · exact .inl rfl
      · exact (puts_fields classes _).lookup env key
  · intro env inside
    show inherit tree classes id base env ≠ []
    unfold inherit
    split
    · exact inside
    · split
      · exact inside
      · exact (puts_fields classes _).inside env inside

/-- Inheriting from a class is declaring its fields. -/
theorem inherit_eq (refers : typeName? tree env type = some base)
    (isClass : tree.kindOf? base = some .classDecl) (acyclic : id ∉ classes.cyclic) :
    inherit tree classes id type env =
      (classes.fields tree base).foldl (fun env (key, field) => env.declare key field) env := by
  rw [inherit, refers, Option.filter_some_pos (by simpa using isClass)]
  exact if_neg acyclic

theorem puts_params (params : List DeclId) : Puts (· ∈ params) (templateParams tree params) :=
  .each fun param member => (puts_name param).mono fun _ same => same ▸ member

theorem puts_members (body : ClassBody) :
    Puts (fun decl => decl ∈ body.fields ∨ decl ∈ body.methods) (members tree body) :=
  .andThen (.each fun field member => (puts_declared field).mono fun _ same => .inl (same ▸ member)) <|
  .andThen (.each fun method member => (puts_signature method).mono fun _ same => .inr (same ▸ member))
    (.each fun method _ => puts_callableBody method)

/-- Declaring entries takes their keys. -/
theorem isSome_lookup_foldl_declare (inside : env ≠ []) (entries : Frame) {key : Key}
    {decl : DeclId} (member : (key, decl) ∈ entries) :
    (((entries.foldl (fun env (key, field) => env.declare key field) env).headD []).lookup
      key).isSome := by
  have kept (entries : Frame) {env : Env} (held : ((env.headD []).lookup key).isSome) :
      (((entries.foldl (fun env (key, field) => env.declare key field) env).headD []).lookup
        key).isSome := by
    induction entries generalizing env with
    | nil => exact held
    | cons entry rest inductionHypothesis =>
      refine inductionHypothesis ?_
      cases env with
      | nil => exact held
      | cons frame outer =>
        rw [lookup_declare, Option.isSome_or]
        exact Bool.or_eq_true _ _ ▸ .inl held
  induction entries generalizing env with
  | nil => nomatch member
  | cons entry rest inductionHypothesis =>
    rw [List.foldl_cons]
    rcases List.mem_cons.mp member with rfl | later
    · refine kept rest ?_
      cases env with
      | nil => exact absurd rfl inside
      | cons frame outer =>
        rw [lookup_declare, if_pos rfl, Option.isSome_or]
        exact Bool.or_eq_true _ _ ▸ .inr rfl
    · exact inductionHypothesis (declare_ne_nil inside entry.1 entry.2) later

/-- Whatever field a base has, its key is taken in the class, and not by a method. -/
def Takes (tree : Tree) (frame inherited : Frame) : Prop :=
  ∀ key field, inherited.lookup key = some field → tree.kindOf? field = some .field →
    ∃ decl, frame.lookup key = some decl ∧ tree.kindOf? decl ≠ some .method

/-- What a class binds: its template parameters, fields, its own and inherited ones, and its
methods. -/
def Binds (tree : Tree) (owner : DeclId) (decl : DeclId) : Prop :=
  decl ∈ tree.typeParamsOf owner ∨ tree.kindOf? decl = some .field ∨ decl ∈ tree.methodsOf owner

section

variable {id : DeclId} {body : ClassBody}

variable (forest : tree.Forest loose) (isBody : tree.classBody? id = some body)

include forest isBody

theorem kindOf?_param {param : DeclId} (member : param ∈ body.typeParams) :
    tree.kindOf? param = some .templateParam := by
  have isPart : .decl .templateParam param ∈ tree.parts (.decl .classDecl id) :=
    Tree.mem_parts_of_classBody? isBody (by simp [ClassBody.parts, member]) _
  exact forest.holds_part isPart

theorem kindOf?_field {field : DeclId} (member : field ∈ body.fields) :
    tree.kindOf? field = some .field := by
  have isPart : .decl .field field ∈ tree.parts (.decl .classDecl id) :=
    Tree.mem_parts_of_classBody? isBody (by simp [ClassBody.parts, member]) _
  exact forest.holds_part isPart

/-- In front of its members a class binds template parameters and inherited fields. -/
theorem puts_header (classes : Classes) :
    Puts (fun decl => tree.kindOf? decl = some .templateParam ∨ tree.kindOf? decl = some .field)
      ((templateParams tree body.typeParams).andThen
        (Walk.each body.base.toList fun base => Walk.change (inherit tree classes id base))) := by
  refine .andThen ((puts_params body.typeParams).mono fun param member => ?_)
    (.each fun base _ => (puts_inherit classes id base).mono fun _ => .inr)
  exact .inl (kindOf?_param forest isBody member)

theorem puts_classBody (classes : Classes) :
    Puts (Binds tree id) (classBody tree classes id) := by
  unfold classBody
  simp only [isBody]
  refine .andThen ((puts_params body.typeParams).mono fun param member => ?_) <|
    .andThen (.each fun base _ => (puts_inherit classes id base).mono fun _ isField =>
      .inr (.inl isField)) <|
      (puts_members body).mono fun decl member => ?_
  · exact .inl (by rwa [Tree.typeParamsOf_eq isBody])
  · refine .inr (member.imp (kindOf?_field forest isBody) fun isMethod => ?_)
    rwa [Tree.methodsOf_eq isBody]

end

/-! ### Keys -/

/-- The methods of a class at hand have the keys under which they are in the innermost frame. -/
def Keyed (methods : List DeclId) (env : Env) (state : Analysis) : Prop :=
  ∀ method ∈ methods, ∀ key, state.names.keys[method]? = some key ↔
    (env.headD []).lookup key = some method

section

variable {methods : List DeclId} {env : Env} {entries : List Entry} {state after : Analysis}

/-- What puts no method into the frame and gives no key to one leaves methods with their keys. -/
theorem Keyed.spared (keyed : Keyed methods env state) {walk : Walk} (puts : Puts allowed walk)
    (others : ∀ method ∈ methods, ¬ allowed method)
    (keys : ∀ method ∈ methods, after.names.keys[method]? = state.names.keys[method]?) :
    Keyed methods (walk env).1 after := by
  intro method member key
  rw [keys method member, keyed method member key]
  exact ⟨puts.keeps, fun held => (puts.old_or_allowed held).resolve_right (others method member)⟩

/-- Binding a key that is free gives it to the declaration. -/
theorem bind_keys (stands : Stands tree env entries state) {key : Key}
    (ran : Resolve.bind tree key id state = .ok () after) :
    (env.headD []).lookup key = none ∧ after.names.keys = state.names.keys.insert id key ∨
      ((env.headD []).lookup key).isSome ∧ after.names.keys = state.names.keys := by
  obtain ⟨scope, found⟩ := stands.inside
  have frame : env.headD [] = scope.entries := by
    rw [← stands.frameOf_current, ScopeTable.frameOf, found]
    rfl
  have start : Resolve.bind tree key id state = _ := bind_eq (rfl : scopes state = .ok _ state)
  rw [start] at ran
  rw [frame]
  cases taken : scope.find? key with
  | none =>
    have binds : ∃ table, state.names.scopes.bind key id = .ok table := by
      simp [ScopeTable.bind, ScopeTable.bindIn, found, taken]
    obtain ⟨table, binds⟩ := binds
    rw [binds] at ran
    cases ran
    exact .inl ⟨taken, rfl⟩
  | some existing =>
    have fails : state.names.scopes.bind key id = .error (.alreadyBound key existing) := by
      simp [ScopeTable.bind, ScopeTable.bindIn, found, taken]
    rw [fails] at ran
    obtain rfl := report_eq_ok ran
    refine .inr ⟨?_, rfl⟩
    rw [show scope.entries.lookup key = some existing from taken]
    rfl

/-- Declaring a method that has no key yet. -/
theorem Keyed.declareCallable (keyed : Keyed methods env state)
    (stands : Stands tree env entries state) (member : method ∈ methods)
    (free : state.names.keys[method]? = none)
    (ran : Resolve.declareCallable tree method state = .ok () after) :
    Keyed methods (env.declareSignature tree method) after ∧
      ∀ other, other ≠ method → after.names.keys[other]? = state.names.keys[other]? := by
  unfold Resolve.declareCallable at ran
  unfold Env.declareSignature
  cases isCallable : tree.callable? method with
  | none =>
    rw [isCallable] at ran
    cases ran
    exact ⟨keyed, fun _ _ => rfl⟩
  | some callable =>
    rw [isCallable] at ran
    have ran : Resolve.bind tree (Resolve.signatureKey tree env.find? (tree.nameOf method) callable)
        method state = .ok () after := by
      rw [← stands.meaning?_eq]
      exact (bind_eq (rfl : scopes state = .ok _ state)).symm.trans ran
    dsimp only
    generalize Resolve.signatureKey tree env.find? (tree.nameOf method) callable = key at ran ⊢
    obtain ⟨frame, outer, rfl⟩ : ∃ frame outer, env = frame :: outer := by
      obtain ⟨scope, found⟩ := stands.inside
      exact ⟨_, _, stands.frames.symm.trans (stands.sound.frames_eq_cons found)⟩
    have keyed (method : DeclId) (member : method ∈ methods) (key : Key) :
        state.names.keys[method]? = some key ↔ frame.lookup key = some method :=
      keyed method member key
    rcases bind_keys stands ran with ⟨isFree, keys⟩ | ⟨taken, keys⟩
    · have isFree : frame.lookup key = none := isFree
      have absent (other : Key) : frame.lookup other ≠ some method := fun held => by
        rw [(keyed method member other).mpr held] at free
        nomatch free
      refine ⟨fun other isMethod key' => ?_, fun other different => ?_⟩
      · rw [keys, lookup_declare, Std.TreeMap.getElem?_insert]
        by_cases same : method = other
        · subst same
          by_cases here : key' = key
          · simp [here, isFree]
          · simp [here, Ne.symm here, absent key']
        · rw [if_neg (by simpa using same), keyed other isMethod key']
          by_cases here : key' = key
          · simp [here, isFree, same]
          · simp [here]
      · rw [keys, Std.TreeMap.getElem?_insert, if_neg (by simpa using Ne.symm different)]
    · refine ⟨fun other isMethod key' => ?_, fun other _ => by rw [keys]⟩
      rw [keys, lookup_declare, keyed other isMethod key']
      by_cases here : key' = key
      · obtain ⟨holder, held⟩ := Option.isSome_iff_exists.mp taken
        have held : frame.lookup key = some holder := held
        simp [here, held]
      · simp [here]

theorem Keyed.declareCallables {remaining : List DeclId} (inside : remaining ⊆ methods)
    (nodup : remaining.Nodup) (keyed : Keyed methods env state)
    (stands : Stands tree env entries state)
    (free : ∀ method ∈ remaining, state.names.keys[method]? = none)
    (ran : remaining.forM (Resolve.declareCallable tree) state = .ok () after) :
    Keyed methods
      (Walk.each remaining (fun method => Walk.change (Env.declareSignature tree method)) env).1
        after := by
  induction remaining generalizing env entries state with
  | nil =>
    cases ran
    exact keyed
  | cons method rest inductionHypothesis =>
    obtain ⟨apart, nodup'⟩ := List.nodup_cons.mp nodup
    obtain ⟨_, middle, declares, goesOn⟩ := bind_eq_ok ran
    obtain ⟨middle', declares', stands', -⟩ :=
      (follows_declareCallable method).runs env entries state stands
    cases declares'.symm.trans declares
    obtain ⟨keyed', others⟩ := keyed.declareCallable stands (inside (.head _))
      (free method (.head _)) declares
    refine inductionHypothesis (fun other member => inside (.tail _ member)) nodup'
      keyed' stands' (fun other member => ?_) goesOn
    rw [others other fun same => apart (same ▸ member)]
    exact free other (.tail _ member)

end

/-! ### Walking a class -/

/-- What is known of walked classes: what they bind, which keys that gives to methods, and that a
base was walked before its class, unless it inherits from itself. -/
structure Account (tree : Tree) (classes : Classes) (names : Resolution) : Prop where
  binds : ∀ owner frame, classes.frames.lookup owner = some frame →
    ∀ key decl, frame.lookup key = some decl → Binds tree owner decl
  keyed : ∀ method, tree.kindOf? method = some .method → ∀ key, names.keys[method]? = some key ↔
    ∃ owner frame, classes.frames.lookup owner = some frame ∧ method ∈ tree.methodsOf owner ∧
      frame.lookup key = some method
  based : ∀ owner base : DeclId, names.bases[owner]? = some base → ∃ later frame earlier,
    classes.frames = later ++ (owner, frame) :: earlier ∧ (base ∈ classes.cyclic ∨
      ∃ inherited, earlier.lookup base = some inherited ∧ Takes tree frame inherited)

namespace Account

variable {classes : Classes} {before after : Resolution}

theorem of_same (account : Account tree classes before) {cyclic : List DeclId}
    (more : classes.cyclic ⊆ cyclic)
    (keys : ∀ id, tree.kindOf? id = some .method → after.keys[id]? = before.keys[id]?)
    (bases : ∀ id : DeclId, after.bases[id]? = before.bases[id]?) :
    Account tree { classes with cyclic } after where
  binds := account.binds
  keyed method isMethod key := by
    rw [keys method isMethod]
    exact account.keyed method isMethod key
  based owner base isBase := by
    rw [bases] at isBase
    obtain ⟨later, frame, earlier, split, isEarlier⟩ := account.based owner base isBase
    exact ⟨later, frame, earlier, split, isEarlier.imp_left (@more base)⟩

/-- The methods of a class that was not walked have no keys. -/
theorem free (account : Account tree classes before) (forest : tree.Forest loose)
    (unwalked : classes.frames.lookup id = none) (member : method ∈ tree.methodsOf id) :
    before.keys[method]? = none := by
  cases isKey : before.keys[method]? with
  | none => rfl
  | some key =>
    obtain ⟨owner, frame, walked, member', -⟩ :=
      (account.keyed method (forest.kindOf?_method member) key).mp isKey
    obtain rfl := forest.owner_unique member member'
    nomatch unwalked.symm.trans walked

end Account

section

variable {classes : Classes} {id : DeclId} {decl : Decl} {body : ClassBody} {env : Env}
  {entries : List Entry} {state after : Analysis}

/-- Inside its scope a class gives its methods the keys that it holds them under. -/
theorem insideClass_keyed (forest : tree.Forest loose) (place : Place)
    (found : tree.decls.get? id = some decl) (isForm : decl.form = .classDecl body)
    (isBody : tree.classBody? id = some body) (unwalked : classes.frames.lookup id = none)
    (stands : Stands tree env entries state) (known : Known tree classes state)
    (free : ∀ method ∈ body.methods, state.names.keys[method]? = none)
    (ran : insideClass tree place id decl body (openedFor .classBody id decl.span state) =
      .ok () after) :
    Keyed body.methods (classBody tree classes id ([] :: env)).1 after := by
  have isMethod (method : DeclId) (member : method ∈ body.methods) :
      tree.kindOf? method = some .method := forest.kindOf?_method (by rwa [Tree.methodsOf_eq isBody])
  obtain ⟨opening, -⟩ := opening_openedFor .classBody id decl.span stands
  obtain ⟨_, first, binds, ran⟩ := bind_eq_ok ran
  obtain ⟨_, second, inherits, ran⟩ := bind_eq_ok ran
  obtain ⟨_, third, fields, ran⟩ := bind_eq_ok ran
  obtain ⟨_, fourth, declares, bodies⟩ := bind_eq_ok ran
  -- Where the environment stands on the way.
  obtain ⟨first', binds', starts, kept⟩ := insideClass_params decl.span body.typeParams stands
  obtain ⟨-, rfl⟩ := EStateM.Result.ok.inj (binds'.symm.trans binds)
  have held := hasFields_inside forest found isForm unwalked stands known starts kept
  obtain ⟨second', inherits', inherited, -⟩ := bases_spec starts held
    (kept.cyclic.trans (opening.cyclic.trans known.cyclic)) id decl body.base
  obtain ⟨-, rfl⟩ := EStateM.Result.ok.inj (inherits'.symm.trans inherits)
  have declared : Follows tree (body.fields.forM (Resolve.declareVariable tree place))
      (Walk.each body.fields (declared tree)) :=
    .each fun field _ => follows_declareVariable forest place field
  obtain ⟨third', fields', between, -⟩ := declared.runs _ _ _ inherited
  obtain ⟨-, rfl⟩ := EStateM.Result.ok.inj (fields'.symm.trans fields)
  -- Nothing but declaring the methods gives keys to methods.
  have spares {before after : Analysis} {action : AnalysisM Unit} (isOpen : before.sink.IsOpen)
      (sparing : Resolve.Sparing tree (fun _ => False) action)
      (ran : action before = .ok () after) (method : DeclId) (member : method ∈ body.methods) :
      after.names.keys[method]? = before.names.keys[method]? :=
    (sparing.spares before () after isOpen ran).keys method (isMethod method member) not_false
  have noParam : Resolve.Sparing tree (fun _ => False)
      (body.typeParams.forM (Resolve.bindName tree)) :=
    .forM fun param member => Resolve.sparing_bindName fun isMethod => by
      rw [kindOf?_param forest isBody member] at isMethod
      cases isMethod
  have noBase : Resolve.Sparing tree (fun _ => False)
      (body.base.forM (Resolve.resolveBase tree id decl)) :=
    .optionForM fun base _ => Resolve.sparing_resolveBase id decl base
  have noField : Resolve.Sparing tree (fun _ => False)
      (body.fields.forM (Resolve.declareVariable tree place)) :=
    .forM fun field member => Resolve.sparing_declareVariable place fun isMethod => by
      rw [kindOf?_field forest isBody member] at isMethod
      cases isMethod
  have noBody : Resolve.Sparing tree (fun _ => False)
      (body.methods.forM (Resolve.callableBody tree place)) :=
    .forM fun method _ => Resolve.sparing_callableBody forest place method
  have isOpen := (opening.stands stands).logged.isOpen
  have keys (method : DeclId) (member : method ∈ body.methods) :
      third'.names.keys[method]? = state.names.keys[method]? :=
    calc third'.names.keys[method]?
      _ = second'.names.keys[method]? := spares inherited.logged.isOpen noField fields method member
      _ = first'.names.keys[method]? := spares starts.logged.isOpen noBase inherits method member
      _ = state.names.keys[method]? := spares isOpen noParam binds method member
  -- In front of the methods there is no method in the frame.
  have header : Puts (fun decl => tree.kindOf? decl = some .templateParam ∨
      tree.kindOf? decl = some .field) (((templateParams tree body.typeParams).andThen
        (Walk.each body.base.toList fun base => Walk.change (inherit tree classes id base))).andThen
        (Walk.each body.fields (Lexical.declared tree))) :=
    (puts_header forest isBody classes).andThen (.each fun field member =>
      (puts_declared field).mono fun _ same => .inr (same ▸ kindOf?_field forest isBody member))
  have none : Keyed body.methods ([] :: env) state := by
    intro method member key
    rw [free method member]
    simp
  have early := none.spared header (fun method member other => by
    rw [isMethod method member] at other
    rcases other with other | other <;> cases other) keys
  have sameEnv : (((templateParams tree body.typeParams).andThen
        (Walk.each body.base.toList fun base => Walk.change (inherit tree classes id base))).andThen
        (Walk.each body.fields (Lexical.declared tree)) ([] :: env)).1 =
      (Walk.each body.fields (Lexical.declared tree)
        (body.base.toList.foldl (fun env base => inherit tree classes id base env)
          (templateParams tree body.typeParams ([] :: env)).1)).1 := by
    simp only [Walk.andThen, each_change]
  rw [sameEnv] at early
  have late := early.declareCallables (.refl _) (forest.nodup_methods isBody) between
    (fun method member => (keys method member).trans (free method member)) declares
  have fourthOpen : fourth.sink.IsOpen := by
    have sparing : Resolve.Sparing tree (fun _ => True)
        (body.methods.forM (Resolve.declareCallable tree)) :=
      .forM fun _ _ => Resolve.sparing_declareCallable fun _ => trivial
    exact (sparing.spares _ _ _ between.logged.isOpen declares).isOpen
  have still : Puts (fun _ => False) (Walk.each body.methods (callableBody tree)) :=
    .each fun method _ => puts_callableBody method
  rw [classBody_eq isBody]
  exact late.spared still (fun _ _ => not_false) (spares fourthOpen noBody bodies)

/-- A class that was given a base has taken over the fields of it. -/
theorem takes_of_inherit (forest : tree.Forest loose) (isBody : tree.classBody? id = some body)
    (isType : body.base = some type)
    (refers : typeName? tree (templateParams tree body.typeParams ([] :: env)).1 type = some base)
    (isClass : tree.kindOf? base = some .classDecl) (acyclic : id ∉ classes.cyclic)
    {inherited : Frame} (walked : classes.frames.lookup base = some inherited) :
    Takes tree ((classBody tree classes id ([] :: env)).1.headD []) inherited := by
  intro key field held isField
  rw [classBody_eq isBody, isType]
  show ∃ decl, ((members tree body (inherit tree classes id type
    (templateParams tree body.typeParams ([] :: env)).1)).1.headD []).lookup key = some decl ∧ _
  have inside : (templateParams tree body.typeParams ([] :: env)).1 ≠ [] :=
    (puts_params body.typeParams).inside _ (List.cons_ne_nil _ _)
  have member : (key, field) ∈ classes.fields tree base := by
    obtain ⟨front, back, same, -⟩ := List.lookup_eq_some_iff.mp held
    simp [Classes.fields, walked, same, isField]
  obtain ⟨decl, taken⟩ := Option.isSome_iff_exists.mp (isSome_lookup_foldl_declare inside _ member)
  rw [← inherit_eq refers isClass acyclic] at taken
  refine ⟨decl, (puts_members body).keeps taken, fun isMethod => ?_⟩
  have held : ((((templateParams tree body.typeParams).andThen (Walk.each body.base.toList fun base =>
      Walk.change (inherit tree classes id base))) ([] :: env)).1.headD []).lookup key = some decl := by
    simpa [Walk.andThen, isType, Walk.each, Walk.change, Walk.skip] using taken
  have header := (puts_header forest isBody classes).old_or_allowed held
  rw [isMethod] at header
  rcases header with old | other | other
  · cases old
  · cases other
  · cases other

/-- Walking a class keeps up what is known of walked classes. -/
theorem Account.resolveClass (forest : tree.Forest loose) :
    KeptByClasses tree env fun classes state => Account tree classes state.names := by
  intro classes id entries state after isClass unwalked stands known inside ready ran account
  obtain ⟨decl, body, inner, found, isForm, isBody, runs, kept, rfl⟩ :=
    insideClass_of_ok forest isClass unwalked stands known ran
  have methods := Tree.methodsOf_eq isBody
  have free (method : DeclId) (member : method ∈ body.methods) :
      state.names.keys[method]? = none :=
    account.free forest unwalked (methods ▸ member)
  have keyed := insideClass_keyed forest _ found isForm isBody unwalked stands known free runs
  have lookup (other : DeclId) := Classes.lookup_add classes id other
    ((classBody tree classes id ([] :: env)).1.headD [])
  constructor
  case binds =>
    intro owner frame walked key bound held
    by_cases same : owner = id
    · subst same
      rw [lookup, if_pos rfl] at walked
      cases walked
      exact ((puts_classBody forest isBody classes).old_or_allowed held).resolve_left nofun
    · rw [lookup, if_neg same] at walked
      exact account.binds owner frame walked key bound held
  case keyed =>
    intro method isMethod key
    by_cases own : method ∈ body.methods
    · have isKey : (closed inner).names.keys[method]? = some key ↔
          ((classBody tree classes id ([] :: env)).1.headD []).lookup key = some method :=
        keyed method own key
      rw [isKey]
      constructor
      · exact fun held => ⟨id, _, by rw [lookup, if_pos rfl], methods ▸ own, held⟩
      · rintro ⟨owner, frame, walked, member, held⟩
        obtain rfl := forest.owner_unique (methods ▸ own : method ∈ tree.methodsOf id) member
        rw [lookup, if_pos rfl] at walked
        exact Option.some.inj walked ▸ held
    · have sparing : Resolve.Sparing tree (· ∈ body.methods) (Resolve.resolveClass tree {} id) :=
        Resolve.sparing_resolveClass forest {} fun body' isBody' method member => by
          cases isBody.symm.trans isBody'
          exact member
      rw [(sparing.spares _ _ _ stands.logged.isOpen ran).keys method isMethod own,
        account.keyed method isMethod key]
      have apart (owner : DeclId) (member : method ∈ tree.methodsOf owner) : owner ≠ id := by
        rintro rfl
        exact own (methods ▸ member)
      constructor <;> rintro ⟨owner, frame, walked, member, held⟩
      · exact ⟨owner, frame, by rwa [lookup, if_neg (apart owner member)], member, held⟩
      · rw [lookup, if_neg (apart owner member)] at walked
        exact ⟨owner, frame, walked, member, held⟩
  case based =>
    intro owner base isBase
    by_cases same : owner = id
    · subst same
      have baseless : state.names.bases[owner]? = none := by
        by_contra some
        obtain ⟨base', isBase'⟩ := Option.ne_none_iff_exists'.mp some
        obtain ⟨later, frame, earlier, split, -⟩ := account.based owner base' isBase'
        rw [split, List.lookup_eq_none_iff] at unwalked
        simpa using unwalked (owner, frame) (by simp)
      have knownPlace : Resolve.KnownPlace tree
          { ({} : Place) with enclosing := some owner, callable := none } := by
        intro other same
        obtain rfl := Option.mem_some.mp same
        rw [found]
        rfl
      rcases insideClass_bases forest _ isBody stands inside runs knownPlace isBase with
        old | ⟨isClass', acyclic, type, isType, refers, -⟩
      · nomatch baseless.symm.trans old
      · rw [known.cyclic] at acyclic
        refine ⟨[], _, classes.frames, rfl, ?_⟩
        have candidate := baseCandidate?_of_typeName? forest isBody isType refers isClass'
        refine (ready base candidate isClass').imp_right fun walked => ?_
        obtain ⟨inherited, walked⟩ := Option.isSome_iff_exists.mp walked
        exact ⟨inherited, walked,
          takes_of_inherit forest isBody isType refers isClass' acyclic walked⟩
    · have tops : tree.Tops [.decl .classDecl id] := by
        intro top member
        obtain rfl := List.mem_singleton.mp member
        exact ⟨isClass, .inl ⟨_, _, rfl⟩⟩
      have stays := Resolve.stays_resolveClass forest (tree.closed_below [.decl .classDecl id]) inside
        {} (tree.below_of_mem (.head _))
      have same' := ((stays.of_ok ran).1.bases owner).resolve_right fun below =>
        same (Node.decl.inj (List.mem_singleton.mp (forest.class_below tops below))).2
      rw [same'] at isBase
      obtain ⟨later, frame, earlier, split, isEarlier⟩ := account.based owner base isBase
      exact ⟨(id, _) :: later, frame, earlier, congrArg _ split, isEarlier⟩

end

/-! ### Programs -/

/-- What every step keeps up about classes and their members. -/
structure Stage.Accounted (tree : Tree) (stage : Stage) : Prop extends stage.Ordered tree where
  account : Account tree stage.world.classes stage.state.names

theorem Idles.keepsAccount {before : Analysis} (idles : Idles tree before after)
    (account : Account tree classes before.names) : Account tree classes after.names :=
  account.of_same (List.Subset.refl _) (fun _ _ => by rw [idles.keys]) idles.bases_eq

/-- Behind its imports, a unit accounts for its classes. -/
theorem contents_account (forest : tree.Forest loose) {stage : Stage} (sound : stage.Sound tree)
    (accounted : stage.Accounted tree) {id : UnitId} {unit : ProgramUnit}
    (found : tree.units.get? id = some unit) (waits : stage.world.waiting.head? = some id)
    (ran : (do
      Resolve.unitDeclarations tree unit
      Resolve.unitClasses tree unit
      Resolve.unitBodies tree unit) stage.state = .ok () after) :
    Account tree (stage.world.contents tree id unit).classes after.names := by
  have tops := tops_besideClasses forest found
  have noClass := class_notMem_besideClasses unit
  obtain ⟨declared, resolved, contents⟩ := contents_cases forest sound found waits ran
  have beside {before after : Analysis}
      (leads : Annotates tree (tree.Below (Resolve.besideClasses unit)) before after) (owner : DeclId) :
      after.names.bases[owner]? = before.names.bases[owner]? :=
    (leads.bases owner).resolve_right fun below => noClass owner (forest.class_below tops below)
  have early : Resolve.Spares tree (fun _ => False) stage.state declared :=
    (Resolve.sparing_unitDeclarations forest found).spares _ _ _ sound.mirrors.logged.isOpen
      contents.declares
  have account := accounted.account.of_same (.refl _)
    (fun method isMethod => early.keys method isMethod not_false) (beside contents.early)
  obtain ⟨resolved', resolves', stands', -, -⟩ := unitClasses_spec forest found
    (stage.world.walk (declarations tree unit) (stage.world.globalEnv tree id)).2
    (unwalked_of_waits forest sound found waits) contents.stands contents.known
  obtain ⟨-, rfl⟩ := EStateM.Result.ok.inj (resolves'.symm.trans contents.resolves)
  have late : Resolve.Spares tree (fun _ => False) resolved' after :=
    (Resolve.sparing_unitBodies forest unit).spares _ _ _ stands'.logged.isOpen contents.finishes
  have kept : KeptByClasses tree (declarations tree unit (stage.world.globalEnv tree id)).1
      fun classes state => Account tree classes state.names := Account.resolveClass forest
  have between := unitClasses_keep forest found kept
    (stage.world.walk (declarations tree unit) (stage.world.globalEnv tree id)).2
    (unwalked_of_waits forest sound found waits) contents.stands contents.known contents.inside
    (inView_of_settled forest found accounted.settled) (fun middle orders _ cyclic => ?_)
    contents.resolves
  · exact between.of_same (.refl _)
      (fun method isMethod => late.keys method isMethod not_false) (beside contents.late)
  · obtain ⟨-, _, finds⟩ := Resolve.classOrder_finds contents.stands.logged.isOpen orders
    have keys : middle.names.keys = declared.names.keys := finds.keys
    have stays : Stays tree (tree.Below []) declared Any (Resolve.classOrder tree unit.classes) :=
      Resolve.stays_classOrder contents.inside.valid unit.classes
    refine account.of_same ?_ (fun _ _ => by rw [keys]) fun owner =>
      ((stays.of_ok orders).1.bases owner).resolve_right fun ⟨_, member, _⟩ => nomatch member
    rw [cyclic]
    exact (cyclic_classOrder tree _ unit.classes stage.world.classes.cyclic).1

theorem Step.accounted (forest : tree.Forest loose) {root : UnitId} {before after : Stage}
    (step : Step tree root before after) (accounted : before.Accounted tree) :
    after.Accounted tree := by
  refine { step.ordered forest accounted.toOrdered with account := ?_ }
  obtain ⟨change, sound, sound'⟩ := step
  cases change with
  | note idles _ => exact idles.keepsAccount accounted.account
  | meet _ _ _ idles _ => exact idles.keepsAccount accounted.account
  | skip _ idles _ => exact idles.keepsAccount accounted.account
  | turnBack _ _ idles _ => exact idles.keepsAccount accounted.account
  | attach _ _ idles _ => exact idles.keepsAccount accounted.account
  | finish found ran idles _ =>
    have waits := congrArg List.head? sound.waiting
    exact idles.keepsAccount (contents_account forest sound accounted found waits ran)

theorem accounted_empty (tree : Tree) (typing : Typing) (trace : Trace.Recorder) :
    Stage.Accounted tree ⟨[], {}, { typing, trace }⟩ where
  settled := World.settled_empty tree
  based := fun owner base isBase => by simp at isBase
  account :=
    { binds := fun _ _ walked => nomatch walked
      keyed := fun _ _ _ => by simp
      based := fun owner base isBase => by simp at isBase }

end Lexical

end TreeCheck
