/-
Fields, flattened and inherited. A class takes over the fields that its base holds at the moment
when the class is walked, and later look-ups of a field ask the scope of the class alone. Where
no error was reported, this finds what a search along the chain of bases would find: every field
that the class or one of the classes above it declares, under its name, and no other field.

`Fills` is what makes the difference between a walk that declares what is free and one that
found everything free: whatever is bound without an error is found in the innermost frame.
`Flat` says of a walked class which fields its frame holds, and is kept up from class to class;
`Resolution.Flattened` says it in terms of the tables that later passes read.
-/

import TreeCheck.Proofs.Scoping.Keying
import TreeCheck.Proofs.Scoping.Membership

namespace TreeCheck

open Resolve

variable {tree : Tree} {loose : List Node}
variable {id owner field base : DeclId} {body : ClassBody} {env : Env} {key : Key}
  {met : List Entry} {state before after : Analysis} {frame : Frame}

/-- The fields that a class declares. -/
def Tree.fieldsOf (tree : Tree) (id : DeclId) : List DeclId :=
  ((tree.classBody? id).map ClassBody.fields).getD []

theorem Tree.fieldsOf_eq (isBody : tree.classBody? id = some body) :
    tree.fieldsOf id = body.fields := by
  rw [fieldsOf, isBody]
  rfl

namespace Lexical

open AnalysisM

/-! ### What is bound without an error -/

/-- An action follows a walk, and if it ends without an error, the innermost frame holds certain
entries. -/
structure Fills (tree : Tree) (action : AnalysisM Unit) (walk : Walk) (entries : Frame) : Prop
    extends Follows tree action walk where
  puts : Puts (fun _ => True) walk
  spotless : ∀ {before after : Analysis}, action before = .ok () after → after.sink.Spotless →
    before.sink.Spotless
  fills : ∀ {env : Env} {met : List Entry} {before after : Analysis}, Stands tree env met before →
    action before = .ok () after → after.sink.Spotless →
      ∀ entry ∈ entries, ((walk env).1.headD []).lookup entry.1 = some entry.2

namespace Fills

variable {action next : AnalysisM Unit} {walk further : Walk} {entries more : Frame}

theorem of_acts (follows : Follows tree action walk) (puts : Puts (fun _ => True) walk)
    (acts : Acts (ResolutionChange tree) action)
    (fills : ∀ {env : Env} {met : List Entry} {before after : Analysis},
      Stands tree env met before → action before = .ok () after → after.sink.Spotless →
        ∀ entry ∈ entries, ((walk env).1.headD []).lookup entry.1 = some entry.2) :
    Fills tree action walk entries :=
  ⟨follows, puts, fun ran => acts.spotless (fun _ change => change.sinkFree) ran, fills⟩

/-- What nothing is asked of. -/
theorem nothing (follows : Follows tree action walk) (puts : Puts (fun _ => True) walk)
    (acts : Acts (ResolutionChange tree) action) : Fills tree action walk [] :=
  .of_acts follows puts acts fun _ _ _ _ member => nomatch member

theorem congr {other : Walk} (fills : Fills tree action walk entries)
    (same : ∀ env, other env = walk env) : Fills tree action other entries := by
  obtain rfl : other = walk := funext same
  exact fills

theorem andThen (first : Fills tree action walk entries) (second : Fills tree next further more) :
    Fills tree (action >>= fun _ => next) (walk.andThen further) (entries ++ more) where
  toFollows := .andThen first.toFollows second.toFollows
  puts := .andThen first.puts second.puts
  spotless ran clean := by
    obtain ⟨_, middle, early, late⟩ := bind_eq_ok ran
    exact first.spotless early (second.spotless late clean)
  fills stands ran clean entry member := by
    obtain ⟨_, middle, early, late⟩ := bind_eq_ok ran
    obtain ⟨middle', early', stands', -⟩ := first.runs _ _ _ stands
    cases early'.symm.trans early
    rcases List.mem_append.mp member with here | there
    · exact second.puts.keeps (first.fills stands early (second.spotless late clean) entry here)
    · exact second.fills stands' late clean entry there

theorem silently {α : Type} {first : AnalysisM α} {next : α → AnalysisM Unit}
    (silent : Silent tree first) (acts : Acts (ResolutionChange tree) first)
    (puts : Puts (fun _ => True) walk) (fills : ∀ value, Fills tree (next value) walk entries) :
    Fills tree (first >>= next) walk entries where
  toFollows := .silently silent fun value => (fills value).toFollows
  puts := puts
  spotless ran clean := by
    obtain ⟨value, middle, early, late⟩ := bind_eq_ok ran
    exact acts.spotless (fun _ change => change.sinkFree) early ((fills value).spotless late clean)
  fills stands ran clean entry member := by
    obtain ⟨value, middle, early, late⟩ := bind_eq_ok ran
    obtain ⟨_, middle', early', untouched⟩ := silent.runs _ stands.logged.isOpen
    cases early'.symm.trans early
    exact (fills _).fills (untouched.stands stands) late clean entry member

theorem each {α : Type} {actions : α → AnalysisM Unit} {walks : α → Walk} {own : α → Frame}
    {items : List α} (fills : ∀ item ∈ items, Fills tree (actions item) (walks item) (own item)) :
    Fills tree (items.forM actions) (Walk.each items walks) (items.flatMap own) := by
  induction items with
  | nil => exact .nothing .skip .skip (.pure _)
  | cons item rest inductionHypothesis =>
    exact .andThen (fills item (.head _))
      (inductionHypothesis fun other member => fills other (.tail _ member))

end Fills

/-- What is declared in a frame in which its key is free is found there. -/
theorem lookup_declare_of_free (inside : env ≠ []) (id : DeclId)
    (free : (env.headD []).lookup key = none) :
    ((env.declare key id).headD []).lookup key = some id := by
  cases env with
  | nil => exact absurd rfl inside
  | cons frame outer =>
    have free : frame.lookup key = none := free
    rw [lookup_declare, free, if_pos rfl]
    rfl

theorem Stands.ne_nil (stands : Stands tree env met state) : env ≠ [] := by
  obtain ⟨scope, found⟩ := stands.inside
  rw [← stands.frames, stands.sound.frames_eq_cons found]
  exact List.cons_ne_nil _ _

/-- A key that is bound is free in the innermost frame. -/
theorem Stands.free (stands : Stands tree env met state) {table : ScopeTable}
    (ok : state.names.scopes.bind key id = .ok table) : (env.headD []).lookup key = none := by
  obtain ⟨scope, found, free, -⟩ := ScopeTable.bindIn_eq_ok ok
  rw [← stands.frameOf_current, ScopeTable.frameOf, found]
  exact free

theorem fills_bind (key : Key) (id : DeclId) :
    Fills tree (bind tree key id) (Walk.change (·.declare key id)) [(key, id)] := by
  refine .of_acts (follows_bind key id) (.change (fun _ => .inr ⟨key, rfl⟩) trivial)
    (acts_bind tree key id) fun stands ran clean entry member => ?_
  obtain rfl := List.mem_singleton.mp member
  rcases bind_cases ran with ⟨bound, ok, -⟩ | ⟨diagnostic, severe, reported⟩
  · exact lookup_declare_of_free stands.ne_nil id (stands.free ok)
  · exact absurd clean (not_spotless_of_error severe reported)

theorem fills_inheritField (span : Span) (key : Key) (field : DeclId) :
    Fills tree (inheritField tree span key field) (Walk.change (·.declare key field))
      [(key, field)] := by
  refine .of_acts (follows_inheritField span key field) (.change (fun _ => .inr ⟨key, rfl⟩) trivial)
    (acts_inheritField tree span key field)
    fun {env met before after} stands ran clean entry member => ?_
  obtain rfl := List.mem_singleton.mp member
  obtain ⟨scope, found⟩ := stands.inside
  rw [inheritField, bind_eq (rfl : scopes before = .ok _ before)] at ran
  cases bound : before.names.scopes.bind key field with
  | ok table => exact lookup_declare_of_free stands.ne_nil field (stands.free bound)
  | error failure =>
    rw [bound] at ran
    cases failure with
    | alreadyBound _ existing => exact absurd clean (not_spotless_of_error rfl ran)
    | noScope _ =>
      rw [ScopeTable.bind, ScopeTable.bindIn, found] at bound
      dsimp only at bound
      split at bound <;> cases bound

theorem fills_bindVariable (id : DeclId) (decl : Decl) :
    Fills tree (bindVariable tree id decl) (Walk.change (Env.declareVariable tree id decl))
      [(.ofName (tree.text decl.name), id)] := by
  have declares (env : Env) : env.declareVariable tree id decl = env ∨
      ∃ key, env.declareVariable tree id decl = env.declare key id := by
    unfold Env.declareVariable
    split
    · exact .inl rfl
    · exact .inr ⟨_, rfl⟩
  have puts : Puts (fun _ => True) (Walk.change (Env.declareVariable tree id decl)) :=
    .change declares trivial
  refine .of_acts (follows_bindVariable id decl) puts (acts_bindVariable tree id decl)
    fun {env met before after} stands ran clean => ?_
  obtain ⟨scope, found⟩ := stands.inside
  -- Where the name hides nothing, it is bound like any other.
  have binds (ran : bind tree (.ofName (tree.text decl.name)) id before = .ok () after)
      (open' : (decl.kind.mayHide && env.holdsHideable tree (tree.text decl.name)) = false) :
      ∀ entry ∈ [(Key.ofName (tree.text decl.name), id)],
        ((env.declareVariable tree id decl).headD []).lookup entry.1 = some entry.2 := by
    have binds' : env.declareVariable tree id decl =
        env.declare (.ofName (tree.text decl.name)) id := by
      rw [Env.declareVariable, open']
      rfl
    rw [binds']
    exact (fills_bind _ id).fills stands ran clean
  have start : bindVariable tree id decl before = _ :=
    bind_eq (rfl : scopes before = .ok _ before)
  rw [start, stands.sound.findLocal?_eq found, stands.frames] at ran
  cases taken : (env.headD []).lookup (.ofName (tree.text decl.name)) with
  | some previous =>
    rw [taken] at ran
    exact absurd clean (not_spotless_of_error rfl ran)
  | none =>
    rw [taken] at ran
    dsimp only at ran
    by_cases mayHide : decl.kind.mayHide = true
    · obtain ⟨hides, hidden, same⟩ := hidden?_spec stands (tree.text decl.name)
      rw [if_pos mayHide, bind_eq hidden] at ran
      cases other : hides.bind tree.decls.get? with
      | some hidden =>
        rw [other] at ran
        exact absurd clean (not_spotless_of_error rfl ran)
      | none =>
        rw [other] at ran same
        exact binds ran (by rw [← same, mayHide]; rfl)
    · rw [if_neg mayHide] at ran
      exact binds ran (by rw [Bool.eq_false_iff.mpr mayHide]; rfl)

section

variable (forest : tree.Forest loose)

include forest

theorem fills_declareVariable (place : Place) (known : (tree.decls.get? id).isSome) :
    Fills tree (declareVariable tree place id) (declared tree id)
      [(.ofName (tree.nameOf id), id)] := by
  obtain ⟨decl, found⟩ := Option.isSome_iff_exists.mp known
  have isName : tree.nameOf id = tree.text decl.name := by rw [Tree.nameOf, found]
  rw [isName]
  have puts : Puts (fun _ => True) (declared tree id) := (puts_declared id).mono fun _ _ => trivial
  unfold declareVariable declared at *
  simp only [found] at puts ⊢
  refine .silently (silent_type _).discard (acts_type tree _).discard puts fun _ => ?_
  cases init : decl.init with
  | none =>
    exact (fills_bindVariable id decl).congr fun env => by
      simp [Walk.each, Walk.andThen, Walk.skip]
  | some value =>
    have isPart : .expr value ∈ tree.parts (.decl decl.kind id) := by
      simp [Tree.parts, found, Decl.parts, init]
    have declares : Declares { place with declaring := decl.name } (some decl.name) :=
      ⟨rfl, by simpa using (forest.named id decl found (by simp [init])).1⟩
    have initial := Fills.nothing (follows_expr forest declares (forest.holds_part isPart))
      (.still fun _ => rfl) (acts_expr tree _ value)
    exact (initial.andThen (fills_bindVariable id decl)).congr fun env => by
      simp [Walk.each, Walk.andThen, Walk.skip]

/-- What a class declares without an error is found in its frame. -/
theorem fills_members (place : Place) (isBody : tree.classBody? id = some body) :
    Fills tree
      (do
        body.fields.forM (Resolve.declareVariable tree place)
        body.methods.forM (Resolve.declareCallable tree)
        body.methods.forM (Resolve.callableBody tree place))
      (members tree body) (body.fields.map fun field => (.ofName (tree.nameOf field), field)) := by
  have fields : Fills tree (body.fields.forM (Resolve.declareVariable tree place))
      (Walk.each body.fields (declared tree))
      (body.fields.flatMap fun field => [(.ofName (tree.nameOf field), field)]) :=
    .each fun field member => fills_declareVariable forest place
      (isSome_get?_of_kindOf? (kindOf?_field forest isBody member))
  have methods : Fills tree (body.methods.forM (Resolve.declareCallable tree))
      (Walk.each body.methods fun method => Walk.change (Env.declareSignature tree method)) [] :=
    .nothing (.each fun method _ => follows_declareCallable method)
      (.each fun method _ => (puts_signature method).mono fun _ _ => trivial)
      (.forM fun method _ => Resolve.acts_declareCallable tree method)
  have bodies : Fills tree (body.methods.forM (Resolve.callableBody tree place))
      (Walk.each body.methods (callableBody tree)) [] :=
    .nothing (.each fun method _ => follows_callableBody forest place method)
      (.each fun method _ => puts_callableBody method)
      (.forM fun method _ => Resolve.acts_callableBody tree place method)
  have all := fields.andThen (methods.andThen bodies)
  rwa [List.append_nil, List.append_nil, ← List.map_eq_flatMap] at all

end

/-! ### Taking over fields -/

theorem mem_of_lookup_foldl_declare {entries : Frame} {decl : DeclId}
    (held : ((entries.foldl (fun env (key, field) => env.declare key field) env).headD []).lookup key =
      some decl) : (env.headD []).lookup key = some decl ∨ (key, decl) ∈ entries := by
  induction entries generalizing env with
  | nil => exact .inl held
  | cons entry rest inductionHypothesis =>
    rcases inductionHypothesis held with early | later
    · cases env with
      | nil => nomatch early
      | cons frame outer =>
        rw [lookup_declare, Option.or_eq_some_iff] at early
        rcases early with old | ⟨-, new⟩
        · exact .inl old
        · split at new
          · next same =>
            cases new
            exact .inr (same ▸ .head _)
          · nomatch new
    · exact .inr (.tail _ later)

/-- The fields of the base are found in the frame if they are taken over without an error. -/
theorem lookup_inheritFields {span : Span} (stands : Stands tree env met before)
    (ran : inheritFields tree span base before = .ok () after)
    (clean : after.sink.Spotless) :
    ∀ entry ∈ fieldsOf tree (before.names.scopes.frameOf (before.names.scopeOf base)),
      (((fieldsOf tree (before.names.scopes.frameOf (before.names.scopeOf base))).foldl
        (fun env (key, field) => env.declare key field) env).headD []).lookup entry.1 =
          some entry.2 := by
  have start : inheritFields tree span base before = _ :=
    bind_eq (rfl : (get : AnalysisM Analysis) before = .ok _ before)
  rw [start] at ran
  rw [ScopeTable.frameOf]
  cases found : before.names.scopes.get? (before.names.scopeOf base) with
  | none => exact fun _ member => absurd member List.not_mem_nil
  | some scope =>
    rw [found] at ran
    dsimp only at ran
    have ran : ((fieldsOf tree scope.entries).forM fun entry =>
        inheritField tree span entry.1 entry.2) before = .ok () after :=
      (congrFun (inheritKeys_eq (stands.sound.scopes _ scope found) span) before).symm.trans ran
    have takes : Fills tree ((fieldsOf tree scope.entries).forM fun entry =>
        inheritField tree span entry.1 entry.2)
        (Walk.each (fieldsOf tree scope.entries) fun entry =>
          Walk.change (Env.declare · entry.1 entry.2))
        ((fieldsOf tree scope.entries).flatMap fun entry => [entry]) :=
      .each fun entry _ => fills_inheritField span entry.1 entry.2
    have held := takes.fills stands ran clean
    rw [each_change, List.flatMap_singleton'] at held
    exact held

/-- The fields of a class among the frames of classes. -/
def fieldsIn (tree : Tree) (frames : List (DeclId × Frame)) (id : DeclId) : Frame :=
  ({ frames } : Classes).fields tree id

/-- The frame of a class holds the fields that the class declares, under their names, and those
of its base, and no others. -/
structure Flat (tree : Tree) (bases : Std.TreeMap DeclId DeclId) (earlier : List (DeclId × Frame))
    (owner : DeclId) (frame : Frame) : Prop where
  own : ∀ field ∈ tree.fieldsOf owner, frame.lookup (.ofName (tree.nameOf field)) = some field
  takes : ∀ base, bases[owner]? = some base → ∀ entry ∈ fieldsIn tree earlier base,
    frame.lookup entry.1 = some entry.2
  only : ∀ key field, frame.lookup key = some field → tree.kindOf? field = some .field →
    field ∈ tree.fieldsOf owner ∨
      ∃ base, bases[owner]? = some base ∧ (key, field) ∈ fieldsIn tree earlier base

section

variable {classes : Classes} {id : DeclId} {decl : Decl} {body : ClassBody} {env : Env}
  {met : List Entry} {state after : Analysis}

/-- A field in the frame of a class is its own, or one of the base that it names. -/
theorem lookup_classBody_field (forest : tree.Forest loose)
    (isBody : tree.classBody? id = some body) (isField : tree.kindOf? field = some .field)
    (held : ((classBody tree classes id ([] :: env)).1.headD []).lookup key = some field) :
    field ∈ body.fields ∨ ∃ type base, body.base = some type ∧
      typeName? tree (templateParams tree body.typeParams ([] :: env)).1 type = some base ∧
      tree.kindOf? base = some .classDecl ∧ id ∉ classes.cyclic ∧
      (key, field) ∈ classes.fields tree base := by
  have notParam (held : ((templateParams tree body.typeParams ([] :: env)).1.headD []).lookup key =
      some field) : False := by
    have isParam := ((puts_params body.typeParams).old_or_allowed held).resolve_left nofun
    rw [kindOf?_param forest isBody isParam] at isField
    nomatch isField
  rw [classBody_eq isBody] at held
  rcases (puts_members body).old_or_allowed held with early | own | isMethod
  · right
    cases isType : body.base with
    | none =>
      rw [isType] at early
      exact (notParam early).elim
    | some type =>
      rw [isType] at early
      have early : ((inherit tree classes id type
        (templateParams tree body.typeParams ([] :: env)).1).headD []).lookup key = some field := early
      unfold inherit at early
      split at early
      · exact (notParam early).elim
      · next base isBase =>
        obtain ⟨refers, isClass⟩ := Option.filter_eq_some_iff.mp isBase
        split at early
        · exact (notParam early).elim
        · next acyclic =>
          exact ⟨type, base, rfl, refers, by simpa using isClass, acyclic,
            (mem_of_lookup_foldl_declare early).resolve_left notParam⟩
  · exact .inl own
  · rw [forest.kindOf?_method (Tree.methodsOf_eq isBody ▸ isMethod)] at isField
    nomatch isField

/-- A class that is walked without an error holds its fields and those of the base it is given. -/
theorem ClassStages.flat {place : Place} {first second : Analysis}
    (stages : ClassStages tree place id decl body env met state first second after)
    (forest : tree.Forest loose) (found : tree.decls.get? id = some decl)
    (isForm : decl.form = .classDecl body) (isBody : tree.classBody? id = some body)
    (unwalked : classes.frames.lookup id = none) (stands : Stands tree env met state)
    (known : Known tree classes state) (baseless : state.names.bases[id]? = none)
    (clean : after.sink.Spotless) :
    Flat tree after.names.bases classes.frames id
      ((classBody tree classes id ([] :: env)).1.headD []) := by
  have held := hasFields_inside forest found isForm unwalked stands known stages.stands stages.kept
  obtain ⟨second', inherits, inherited, -⟩ := bases_spec stages.stands held
    (stages.cyclic.trans known.cyclic) id decl body.base
  cases inherits.symm.trans stages.inherits
  have fills := fills_members forest place isBody
  have clean' := fills.spotless stages.declares clean
  constructor
  case own =>
    intro field member
    rw [Tree.fieldsOf_eq isBody] at member
    rw [classBody_eq isBody]
    exact fills.fills inherited stages.declares clean (_, field) (List.mem_map_of_mem member)
  case takes =>
    intro base isBase entry member
    rcases stages.cases isBody with
      ⟨type, base', isType, refers, isClass, acyclic, recorded, -, noted, untouched, takes⟩ | ⟨same, -⟩
    · obtain rfl := Option.some.inj (recorded.symm.trans isBase)
      have fields := held base' isClass
      rw [← scopeOf_congr untouched.scopeOfDecl, ← untouched.scopes] at fields
      have taken := lookup_inheritFields (untouched.stands stages.stands) takes clean' entry
      rw [fields] at taken
      rw [classBody_eq isBody, isType]
      refine (puts_members body).keeps ?_
      rw [Option.toList_some, List.foldl_cons, List.foldl_nil,
        inherit_eq refers isClass (known.cyclic ▸ acyclic)]
      exact taken member
    · nomatch (same.trans baseless).symm.trans isBase
  case only =>
    intro key field held isField
    rw [Tree.fieldsOf_eq isBody]
    refine (lookup_classBody_field forest isBody isField held).imp_right ?_
    rintro ⟨type, base, isType, refers, isClass, acyclic, member⟩
    rcases stages.cases isBody with
      ⟨type', base', isType', refers', -, -, recorded, -⟩ | ⟨-, others⟩
    · cases isType.symm.trans isType'
      cases refers.symm.trans refers'
      exact ⟨base, recorded, member⟩
    · exact absurd (known.cyclic ▸ others type base isType refers isClass) acyclic

end

theorem Flat.of_base {before after : Std.TreeMap DeclId DeclId} {earlier : List (DeclId × Frame)}
    (flat : Flat tree before earlier owner frame) (same : after[owner]? = before[owner]?) :
    Flat tree after earlier owner frame :=
  ⟨flat.own, same ▸ flat.takes, same ▸ flat.only⟩

/-- What is kept up about the frames of classes: only walked classes have bases, and while there
is no error, every frame is flat. -/
structure Flattens (tree : Tree) (classes : Classes) (state : Analysis) : Prop where
  walked : ∀ owner base : DeclId, state.names.bases[owner]? = some base →
    owner ∈ classes.frames.map Prod.fst
  flat : state.sink.Spotless → ∀ later owner frame earlier,
    classes.frames = later ++ (owner, frame) :: earlier →
      Flat tree state.names.bases earlier owner frame

theorem Flattens.of_same {classes : Classes} (flattens : Flattens tree classes before)
    (cyclic : List DeclId) (bases : ∀ id : DeclId, after.names.bases[id]? = before.names.bases[id]?)
    (spotless : after.sink.Spotless → before.sink.Spotless) :
    Flattens tree { classes with cyclic } after :=
  ⟨fun owner base isBase => flattens.walked owner base (bases owner ▸ isBase),
    fun clean later owner frame earlier split =>
      (flattens.flat (spotless clean) later owner frame earlier split).of_base (bases owner)⟩

/-- Walking a class keeps frames flat. -/
theorem Flattens.resolveClass (forest : tree.Forest loose) :
    KeptByClasses tree env (Flattens tree) := by
  intro classes id entries state after isClass unwalked stands known inside ready ran flattens
  obtain ⟨decl, body, inner, found, isForm, isBody, runs, kept, rfl⟩ :=
    insideClass_of_ok forest isClass unwalked stands known ran
  have knownPlace : Resolve.KnownPlace tree
      { ({} : Place) with enclosing := some id, callable := none } := by
    intro other same
    obtain rfl := Option.mem_some.mp same
    rw [found]
    rfl
  obtain ⟨first, second, stages⟩ := insideClass_stages forest _ isBody stands inside runs knownPlace
  have apart : id ∉ classes.frames.map Prod.fst := lookup_eq_none_iff_notMem.mp unwalked
  have baseless : state.names.bases[id]? = none :=
    Option.eq_none_iff_forall_not_mem.mpr fun base isBase =>
      apart (flattens.walked id base isBase)
  have tops : tree.Tops [.decl .classDecl id] := by
    intro top member
    obtain rfl := List.mem_singleton.mp member
    exact ⟨isClass, .inl ⟨_, _, rfl⟩⟩
  have stays := Resolve.stays_resolveClass forest (tree.closed_below [.decl .classDecl id]) inside
    {} (tree.below_of_mem (.head _))
  have others (owner : DeclId) (different : owner ≠ id) :
      (closed inner).names.bases[owner]? = state.names.bases[owner]? :=
    ((stays.of_ok ran).1.bases owner).resolve_right fun below =>
      different (Node.decl.inj (List.mem_singleton.mp (forest.class_below tops below))).2
  constructor
  case walked =>
    intro owner base isBase
    by_cases same : owner = id
    · exact same ▸ .head _
    · exact .tail _ (flattens.walked owner base (others owner same ▸ isBase))
  case flat =>
    intro clean later owner frame earlier split
    cases later with
    | nil =>
      obtain ⟨⟨rfl, rfl⟩, rfl⟩ := (List.cons.inj split).imp_left Prod.mk.inj
      exact stages.flat forest found isForm isBody unwalked stands known baseless clean
    | cons other later =>
      have split' : classes.frames = later ++ (owner, frame) :: earlier := (List.cons.inj split).2
      have clean := (Resolve.acts_resolveClass tree {} id).spotless
        (fun _ change => change.sinkFree) ran clean
      refine (flattens.flat clean later owner frame earlier split').of_base (others owner ?_)
      rintro rfl
      exact apart (split' ▸ by simp)

/-! ### Programs -/

/-- What every step keeps up about classes and the fields in their frames. -/
structure Stage.Flattened (tree : Tree) (stage : Stage) : Prop extends stage.Listed tree where
  flattens : Flattens tree stage.world.classes stage.state

/-- Behind its imports, a unit walks its classes without an error only if their frames are
flat. -/
theorem contents_flattens (forest : tree.Forest loose) {stage : Stage} (sound : stage.Sound tree)
    (flattened : stage.Flattened tree) {id : UnitId} {unit : ProgramUnit}
    (found : tree.units.get? id = some unit) (waits : stage.world.waiting.head? = some id)
    (ran : (do
      Resolve.unitDeclarations tree unit
      Resolve.unitClasses tree unit
      Resolve.unitBodies tree unit) stage.state = .ok () after) :
    Flattens tree (stage.world.contents tree id unit).classes after := by
  have tops := tops_besideClasses forest found
  have noClass := class_notMem_besideClasses unit
  obtain ⟨declared, resolved, contents⟩ := contents_cases forest sound found waits ran
  have beside {before after : Analysis}
      (leads : Annotates tree (tree.Below (Resolve.besideClasses unit)) before after) (owner : DeclId) :
      after.names.bases[owner]? = before.names.bases[owner]? :=
    (leads.bases owner).resolve_right fun below => noClass owner (forest.class_below tops below)
  have early := flattened.flattens.of_same stage.world.classes.cyclic (beside contents.early)
    ((Resolve.acts_unitDeclarations tree unit).spotless (fun _ change => change.sinkFree)
      contents.declares)
  have kept : KeptByClasses tree (declarations tree unit (stage.world.globalEnv tree id)).1
      (Flattens tree) := Flattens.resolveClass forest
  have between := unitClasses_keep forest found kept
    (stage.world.walk (declarations tree unit) (stage.world.globalEnv tree id)).2
    (unwalked_of_waits forest sound found waits) contents.stands contents.known contents.inside
    (inView_of_settled forest found flattened.settled) (fun middle orders _ _ => ?_)
    contents.resolves
  · exact between.of_same _ (beside contents.late)
      ((Resolve.acts_unitBodies tree unit).spotless (fun _ change => change.sinkFree)
        contents.finishes)
  · have stays : Stays tree (tree.Below []) declared Any (Resolve.classOrder tree unit.classes) :=
      Resolve.stays_classOrder contents.inside.valid unit.classes
    exact early.of_same _
      (fun owner => ((stays.of_ok orders).1.bases owner).resolve_right
        fun ⟨_, member, _⟩ => nomatch member)
      ((Resolve.refers_classOrder tree unit.classes).spotless
        (fun _ change => change.toResolutionChange.sinkFree) orders)

theorem Step.flattened (forest : tree.Forest loose) {root : UnitId} {before after : Stage}
    (step : Step tree root before after) (flattened : before.Flattened tree) :
    after.Flattened tree := by
  refine { step.listed forest flattened.toListed with flattens := ?_ }
  obtain ⟨change, sound, sound'⟩ := step
  have idle {classes : Classes} {state after : Analysis} (flattens : Flattens tree classes state)
      (idles : Idles tree state after) (spotless : after.sink.Spotless → state.sink.Spotless) :
      Flattens tree classes after := flattens.of_same classes.cyclic idles.bases_eq spotless
  cases change with
  | note idles sink => exact idle flattened.flattens idles (sink ▸ id)
  | meet _ _ _ idles sink => exact idle flattened.flattens idles (sink ▸ id)
  | skip _ idles sink =>
    refine idle flattened.flattens idles fun clean => ?_
    rcases sink with same | reported
    · exact same ▸ clean
    · exact (Sink.Spotless.of_report (reported ▸ clean)).1
  | turnBack _ _ idles sink =>
    exact idle flattened.flattens idles fun clean => (Sink.Spotless.of_report (sink ▸ clean)).1
  | attach _ _ idles sink => exact idle flattened.flattens idles (sink ▸ id)
  | finish found ran idles sink =>
    have waits := congrArg List.head? sound.waiting
    exact idle (contents_flattens forest sound flattened found waits ran) idles (sink ▸ id)

theorem flattened_empty (tree : Tree) (typing : Typing) (trace : Trace.Recorder) :
    Stage.Flattened tree ⟨[], {}, { typing, trace }⟩ where
  toListed := listed_empty tree typing trace
  flattens :=
    { walked := fun owner base isBase => by simp at isBase
      flat := fun _ later _ _ _ split => by cases later <;> nomatch split }

end Lexical

/-! ### Look-up of fields -/

/-- A class has the fields that it declares, under their names, those of its base, and no
others. -/
structure Resolution.Flattened (tree : Tree) (names : Resolution) : Prop where
  own : ∀ owner ∈ names.order, ∀ field ∈ tree.fieldsOf owner,
    names.findIn? owner (.ofName (tree.nameOf field)) = some field
  takes : ∀ owner base : DeclId, names.bases[owner]? = some base → base ∈ names.order ∧
    ∀ key field, names.findIn? base key = some field → tree.kindOf? field = some .field →
      names.findIn? owner key = some field
  only : ∀ owner ∈ names.order, ∀ key field, names.findIn? owner key = some field →
    tree.kindOf? field = some .field → field ∈ tree.fieldsOf owner ∨
      ∃ base, names.bases[owner]? = some base ∧ names.findIn? base key = some field

namespace Lexical

section

variable {stage : Stage}

/-- What is looked up in a class is what its frame holds. -/
theorem Stage.Listed.findIn?_eq (listed : stage.Listed tree) (forest : tree.Forest loose)
    (sound : stage.Sound tree) (member : (owner, frame) ∈ stage.world.classes.frames) :
    owner ∈ stage.state.names.order ∧
      (∀ key, stage.state.names.findIn? owner key = frame.lookup key) ∧
      ∀ entry ∈ frame, frame.lookup entry.1 = some entry.2 := by
  have known : Known tree stage.world.classes stage.state := sound.mirrors.known
  have walked : owner ∈ stage.world.classes.frames.map Prod.fst := List.mem_map_of_mem member
  have isClass := (listed.processed sound walked).kindOf? forest
  refine ⟨by rwa [listed.walked, List.mem_reverse], fun key => ?_, fun entry inside => ?_⟩
  · rw [known.findIn?_eq isClass, listed.lookup member]
    rfl
  · obtain ⟨home, scope, -, there, -, rfl⟩ := known.walked owner frame isClass (listed.lookup member)
    exact Scope.find?_of_mem (sound.mirrors.sound.scopes home scope there) inside

theorem mem_fieldsIn {frames : List (DeclId × Frame)} {entry : Key × DeclId} :
    entry ∈ fieldsIn tree frames base ↔ ∃ inherited, frames.lookup base = some inherited ∧
      entry ∈ inherited ∧ tree.kindOf? entry.2 = some .field := by
  rw [fieldsIn, Classes.fields, List.mem_filter]
  cases frames.lookup base <;> simp

theorem Stage.Flattened.names (flattened : stage.Flattened tree) (forest : tree.Forest loose)
    (sound : stage.Sound tree) (clean : stage.state.sink.Spotless) :
    stage.state.names.Flattened tree := by
  have listed := flattened.toListed
  have noCircle : stage.world.classes.cyclic = [] :=
    listed.cyclic_eq_nil fun _ reported => clean.items _ reported rfl
  -- The frame of every class in the order is flat.
  have isFlat {owner : DeclId} (ordered : owner ∈ stage.state.names.order) :
      ∃ later frame earlier, stage.world.classes.frames = later ++ (owner, frame) :: earlier ∧
        Flat tree stage.state.names.bases earlier owner frame := by
    rw [listed.walked, List.mem_reverse] at ordered
    obtain ⟨⟨owner, frame⟩, member, rfl⟩ := List.mem_map.mp ordered
    obtain ⟨later, earlier, split⟩ := List.append_of_mem member
    exact ⟨later, frame, earlier, split, flattened.flattens.flat clean _ _ _ _ split⟩
  have mem_earlier {later earlier : List (DeclId × Frame)} {entry : DeclId × Frame}
      (split : stage.world.classes.frames = later ++ entry :: earlier) {base : DeclId}
      {inherited : Frame} (found : earlier.lookup base = some inherited) :
      (base, inherited) ∈ stage.world.classes.frames := by
    obtain ⟨front, back, same, -⟩ := List.lookup_eq_some_iff.mp found
    simp [split, same]
  constructor
  case own =>
    intro owner ordered field member
    obtain ⟨later, frame, earlier, split, flat⟩ := isFlat ordered
    obtain ⟨-, held, -⟩ := listed.findIn?_eq forest sound (split ▸ by simp : (owner, frame) ∈ _)
    rw [held]
    exact flat.own field member
  case takes =>
    intro owner base isBase
    obtain ⟨later, frame, earlier, split, cyclic | ⟨inherited, found, -⟩⟩ :=
      flattened.account.based owner base isBase
    · rw [noCircle] at cyclic
      nomatch cyclic
    · obtain ⟨-, held, -⟩ := listed.findIn?_eq forest sound (split ▸ by simp : (owner, frame) ∈ _)
      obtain ⟨ordered, held', -⟩ := listed.findIn?_eq forest sound (mem_earlier split found)
      refine ⟨ordered, fun key field inBase isField => ?_⟩
      have flat := flattened.flattens.flat clean _ _ _ _ split
      rw [held'] at inBase
      rw [held]
      obtain ⟨front, back, same, -⟩ := List.lookup_eq_some_iff.mp inBase
      exact flat.takes base isBase (key, field)
        (mem_fieldsIn.mpr ⟨inherited, found, same ▸ by simp, isField⟩)
  case only =>
    intro owner ordered key field inOwner isField
    obtain ⟨later, frame, earlier, split, flat⟩ := isFlat ordered
    obtain ⟨-, held, -⟩ := listed.findIn?_eq forest sound (split ▸ by simp : (owner, frame) ∈ _)
    rw [held] at inOwner
    refine (flat.only key field inOwner isField).imp_right ?_
    rintro ⟨base, isBase, member⟩
    obtain ⟨inherited, found, inside, -⟩ := mem_fieldsIn.mp member
    obtain ⟨-, held', exact'⟩ := listed.findIn?_eq forest sound (mem_earlier split found)
    exact ⟨base, isBase, by rw [held', exact' _ inside]⟩

end

end Lexical

/-- The fields that a class declares are fields. -/
theorem Tree.Forest.kindOf?_fieldsOf (forest : tree.Forest loose)
    (member : field ∈ tree.fieldsOf owner) : tree.kindOf? field = some .field := by
  unfold Tree.fieldsOf at member
  cases isBody : tree.classBody? owner with
  | none => simp [isBody] at member
  | some body =>
    rw [isBody] at member
    exact Lexical.kindOf?_field forest isBody member

namespace Resolution

variable {names : Resolution} {owner field : DeclId} {chain : List DeclId}

/-- Whatever is declared on the way up is found in the class. -/
theorem Flattened.findIn?_of_mem (flattened : names.Flattened tree) (forest : tree.Forest loose)
    (ordered : owner ∈ names.order) (lineage : Lineage names.bases owner chain) {level : DeclId}
    (above : level ∈ owner :: chain) (declares : field ∈ tree.fieldsOf level) :
    names.findIn? owner (.ofName (tree.nameOf field)) = some field := by
  have isField := forest.kindOf?_fieldsOf declares
  induction lineage with
  | root _ =>
    obtain rfl := List.mem_singleton.mp above
    exact flattened.own level ordered field declares
  | @step owner base _ isBase _ inductionHypothesis =>
    rcases List.mem_cons.mp above with rfl | above
    · exact flattened.own level ordered field declares
    · obtain ⟨ordered', takes⟩ := flattened.takes owner base isBase
      exact takes _ field (inductionHypothesis ordered' above) isField

/-- Whatever field is found in a class is declared on the way up. -/
theorem Flattened.exists_level (flattened : names.Flattened tree) (ordered : owner ∈ names.order)
    (lineage : Lineage names.bases owner chain) (held : names.findIn? owner key = some field)
    (isField : tree.kindOf? field = some .field) :
    ∃ level ∈ owner :: chain, field ∈ tree.fieldsOf level := by
  induction lineage with
  | @root owner none =>
    rcases flattened.only owner ordered key field held isField with own | ⟨base, isBase, -⟩
    · exact ⟨owner, .head _, own⟩
    · nomatch none.symm.trans isBase
  | @step owner base _ isBase _ inductionHypothesis =>
    rcases flattened.only owner ordered key field held isField with own | ⟨base', isBase', held'⟩
    · exact ⟨owner, .head _, own⟩
    · cases isBase.symm.trans isBase'
      obtain ⟨level, above, declares⟩ :=
        inductionHypothesis (flattened.takes owner base isBase).1 held'
      exact ⟨level, .tail _ above, declares⟩

/-- What is found in a class under a name and is no callable has that name. -/
theorem Recorded.nameOf_eq (recorded : names.Recorded tree) {name : String}
    (held : names.member? owner name = some field) {kind : DeclKind}
    (isKind : tree.kindOf? field = some kind) (variable' : kind.isCallable = false) :
    tree.nameOf field = name := by
  obtain ⟨scope, there, found⟩ := Option.bind_eq_some_iff.mp held
  have isKey := recorded.keys _ scope there (_, field) (Scope.mem_entries_of_find? found)
  exact (congrArg Key.text (recorded.named field kind _ isKind variable' isKey)).symm

end Resolution

/-- What resolving a program reports, and that without an error the fields of its classes are
flattened. -/
theorem Resolve.flattened_program (forest : tree.Forest loose) (root : UnitId) (checked : Bool)
    (typing : Typing) (trace : Trace.Recorder) :
    ∃ reports : List Diagnostic,
      (∀ sink : Sink, sink.Quiet → ∃ final,
        program tree root checked { typing, trace, sink } = .ok () final) ∧
      ∀ (sink : Sink) (final : Analysis),
        program tree root checked { typing, trace, sink } = .ok () final →
          final.sink = sink.reportAll reports ∧
          ((∀ report ∈ reports, ¬report.isError) → final.names.Flattened tree) := by
  have empty := Lexical.flattened_empty tree typing trace
  by_cases present : (tree.units.get? root).isSome
  · obtain ⟨after, sound, flattened, ends, uniform⟩ :=
      Lexical.program_keeps forest present checked empty (Lexical.Step.flattened forest)
    refine ⟨after.sink.bag.items, ends, fun sink final ran => ?_⟩
    obtain ⟨names, delivered⟩ := uniform sink final ran
    obtain ⟨stages, limit⟩ := sound.mirrors.logged.isOpen
    exact ⟨delivered, fun clean => names ▸ flattened.names forest sound ⟨stages, limit, clean⟩⟩
  · obtain ⟨after, -, ends, uniform⟩ := Lexical.program_ends forest root checked typing trace
    refine ⟨after.sink.bag.items, ends, fun sink final ran => ?_⟩
    obtain ⟨names, delivered⟩ := uniform sink final ran
    obtain ⟨other, ran'⟩ := ends {} Sink.quiet_open
    obtain rfl := Lexical.program_absent (Option.not_isSome_iff_eq_none.mp present) ran'
    refine ⟨delivered, fun _ => ?_⟩
    rw [names, ← (uniform {} _ ran').1]
    exact empty.names forest (Lexical.sound_empty tree typing trace)
      ⟨rfl, Int.le_refl 0, fun _ member => nomatch member⟩

/-- A class or one of its ancestors declares a field of a name. -/
def Resolution.Offers (tree : Tree) (names : Resolution) (owner : DeclId) (name : String)
    (field : DeclId) : Prop :=
  tree.nameOf field = name ∧
    ∃ level ∈ owner :: names.ancestors owner, field ∈ tree.fieldsOf level

/-- Where resolving a program reports no error, look-up of a field in the scope of a class is a
search along the chain of its bases: the fields that are found under a name are those of that
name that the class or one of its ancestors declares, and there are no two of them. -/
theorem fields_are_inherited {loader : Loader} (reached : loader.Reached) (root : UnitId)
    (checked : Bool) (typing : Typing) (trace : Trace.Recorder) :
    ∃ reports : List Diagnostic,
      (∀ sink : Sink, sink.Quiet → ∃ final,
        program loader.tree root checked { typing, trace, sink } = .ok () final) ∧
      ∀ (sink : Sink) (final : Analysis),
        program loader.tree root checked { typing, trace, sink } = .ok () final →
          final.sink = sink.reportAll reports ∧
          ((∀ report ∈ reports, ¬report.isError) → ∀ owner ∈ final.names.order, ∀ name,
            (∀ field, final.names.member? owner name = some field ∧
                loader.tree.kindOf? field = some .field ↔
              final.names.Offers loader.tree owner name field) ∧
            ∀ field other, final.names.Offers loader.tree owner name field →
              final.names.Offers loader.tree owner name other → other = field) := by
  have forest := reached.forest
  obtain ⟨reports, ends, flattens⟩ := flattened_program forest root checked typing trace
  refine ⟨reports, ends, fun sink final ran => ?_⟩
  obtain ⟨delivered, flattens⟩ := flattens sink final ran
  refine ⟨delivered, fun clean owner ordered name => ?_⟩
  have flattened := flattens clean
  obtain ⟨chain, lineage⟩ := (rooted_program forest ran).lineage owner
  simp only [Resolution.Offers, lineage.ancestors_eq]
  have found {field : DeclId} (isName : loader.tree.nameOf field = name)
      (declared : ∃ level ∈ owner :: chain, field ∈ loader.tree.fieldsOf level) :
      final.names.member? owner name = some field := by
    obtain ⟨level, above, declares⟩ := declared
    exact isName ▸ flattened.findIn?_of_mem forest ordered lineage above declares
  refine ⟨fun field => ⟨fun ⟨held, isField⟩ => ⟨?_, ?_⟩, fun ⟨isName, declared⟩ => ⟨?_, ?_⟩⟩, ?_⟩
  · exact (recorded_program forest ran).nameOf_eq held isField rfl
  · exact flattened.exists_level ordered lineage held isField
  · exact found isName declared
  · obtain ⟨level, -, declares⟩ := declared
    exact forest.kindOf?_fieldsOf declares
  · intro field other ⟨isName, declared⟩ ⟨isName', declared'⟩
    exact Option.some.inj ((found isName' declared').symm.trans (found isName declared))

/-- A class that inherits from one that inherits from one of another unit. -/
def layered : Loader :=
  let derived (name base field : String) : Option Doc.Class :=
    some { name, base := some { kind := "named", name := base },
           fields := [some { name := field }] }
  let document : Doc.Document :=
    { version := 1
      units := [some { path := "a", imports := [some { path := "b" }],
                       classes := [derived "C" "B" "z", derived "B" "A" "y"] },
        some { path := "b", classes := [some { name := "A", fields := [some { name := "x" }] }] }] }
  Loader.behind (Loader.load document {})

/-- The program when it was resolved. -/
def layeredResolved : Analysis := Acts.behind (program layered.tree 1 true {})

theorem layered_runs :
    Acts.ended (program layered.tree 1 true {}) ∧
      layeredResolved.sink.bag.items = [] ∧ layeredResolved.names.order = [2, 7, 5] ∧
      layeredResolved.names.member? 5 "x" = some 1 ∧ layered.tree.kindOf? 1 = some .field := by
  simp only [layeredResolved, layered, Loader.load_eq_loadWithin]
  decide +kernel

/-- The field of the class at the top is found in the one at the bottom, and no other is there
under its name. -/
theorem fields_are_inherited_layered :
    layeredResolved.names.Offers layered.tree 5 "x" 1 ∧
      ∀ other, layeredResolved.names.Offers layered.tree 5 "x" other → other = 1 := by
  obtain ⟨ends, silent, order, held, isField⟩ := layered_runs
  have reached : layered.Reached := .load _ (.fresh {})
  obtain ⟨reports, -, finds⟩ := fields_are_inherited reached 1 true {} {}
  obtain ⟨delivered, inherits⟩ := finds {} layeredResolved (Acts.eq_ok_behind ends)
  have none : reports = [] := by
    rw [delivered, Sink.items_reportAll_open] at silent
    exact silent
  obtain ⟨found, unique⟩ := inherits (none ▸ fun _ member => nomatch member) 5 (order ▸ by simp) "x"
  have offers := (found 1).mp ⟨held, isField⟩
  exact ⟨offers, fun other => unique 1 other offers⟩

end TreeCheck
