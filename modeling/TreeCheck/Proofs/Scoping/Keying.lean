/-
Whatever a scope holds is recorded under the key it is held under. A declaration may be held
by several scopes, since classes take over the fields of their bases, but it has one key: the name
of what is no callable is its key wherever it is bound, and a callable is bound once, because
no unit is resolved twice and no class is met twice in one.

`Resolution.Recorded` is the invariant. `Entering` says of an action which callables it may
bind and that it keeps the invariant up where these are not bound before; the step that
resolves the contents of a unit binds the callables of the unit alone.
-/

import TreeCheck.Proofs.Scoping.ClassOrder

namespace TreeCheck

open Resolve ScopeTable

variable {tree : Tree} {loose : List Node}
variable {root : UnitId} {after before : Analysis} {id decl function : DeclId} {key : Key}
  {value : Unit} {unit : ProgramUnit}

/-- What is bound under a signature. -/
def Tree.IsCallable (tree : Tree) (id : DeclId) : Prop :=
  ∃ kind, tree.kindOf? id = some kind ∧ kind.isCallable

/-- What a scope holds is recorded under the key it is held under, and a declaration other than a
callable has its name for a key. -/
structure Resolution.Recorded (tree : Tree) (names : Resolution) : Prop where
  keys : ∀ id scope, names.scopes.get? id = some scope → ∀ entry ∈ scope.entries,
    names.keys[entry.2]? = some entry.1
  named : ∀ decl kind key, tree.kindOf? decl = some kind → kind.isCallable = false →
    names.keys[decl]? = some key → key = .ofName (tree.nameOf decl)

namespace Resolution

/-- What some callables, and declarations of other kinds, may have been bound for: everything that
is bound stays recorded if those callables were not bound. -/
def Enters (tree : Tree) (callables : DeclId → Prop) (before after : Resolution) : Prop :=
  before.Recorded tree → (∀ id, callables id → ¬ before.scopes.Binds id) →
    after.Recorded tree ∧
      before.scopes.Gains (fun id => tree.IsCallable id → callables id) after.scopes

variable {callables more : DeclId → Prop} {before middle after : Resolution}

theorem Enters.of_still (gains : before.scopes.Gains (fun _ => False) after.scopes)
    (keys : after.keys = before.keys) : Enters tree callables before after := by
  refine fun recorded _ => ⟨⟨fun id scope found entry member => ?_, fun decl kind key => ?_⟩,
    gains.mono fun _ => False.elim⟩
  · obtain ⟨old, there, member⟩ := (gains id scope found entry member).resolve_right not_false
    rw [keys]
    exact recorded.keys id old there entry member
  · rw [keys]
    exact recorded.named decl kind key

theorem Enters.refl (names : Resolution) : Enters tree callables names names :=
  .of_still (.refl _) rfl

theorem Enters.trans (first : Enters tree callables before middle)
    (second : Enters tree more middle after) (apart : ∀ id, more id → ¬ callables id)
    (areCallables : ∀ id, more id → tree.IsCallable id) :
    Enters tree (fun id => callables id ∨ more id) before after := by
  intro recorded fresh
  obtain ⟨recorded', gains⟩ := first recorded fun id among => fresh id (.inl among)
  have fresh' (id : DeclId) (among : more id) : ¬ middle.scopes.Binds id := fun binds =>
    (gains.binds binds).elim (fresh id (.inr among)) fun new =>
      apart id among (new (areCallables id among))
  obtain ⟨recorded'', gains'⟩ := second recorded' fresh'
  exact ⟨recorded'', (gains.mono fun _ new isCallable => .inl (new isCallable)).trans
    (gains'.mono fun _ new isCallable => .inr (new isCallable))⟩

theorem Enters.mono (enters : Enters tree callables before after)
    (wide : ∀ id, callables id → more id) : Enters tree more before after := by
  intro recorded fresh
  obtain ⟨recorded', gains⟩ := enters recorded fun id among => fresh id (wide id among)
  exact ⟨recorded', gains.mono fun id new isCallable => wide id (new isCallable)⟩

end Resolution

namespace Resolve

open AnalysisM

/-- An action that binds some callables at most. -/
structure Entering (tree : Tree) (callables : DeclId → Prop) {α : Type} (action : AnalysisM α) :
    Prop where
  enters : ∀ {before after : Analysis} {value : α}, action before = .ok value after →
    before.names.Enters tree callables after.names

/-- An action that binds no callable. -/
abbrev Plain (tree : Tree) {α : Type} (action : AnalysisM α) : Prop :=
  Entering tree (fun _ => False) action

namespace Entering

variable {callables more : DeclId → Prop} {α β : Type}
variable {action : AnalysisM α} {next : α → AnalysisM β} {actions : α → AnalysisM PUnit}
  {items : List α}

theorem pure (value : α) : Entering tree callables (pure value : AnalysisM α) := by
  refine ⟨fun ran => ?_⟩
  cases ran
  exact .refl _

theorem mono (entering : Entering tree callables action) (wide : ∀ id, callables id → more id) :
    Entering tree more action :=
  ⟨fun ran => (entering.enters ran).mono wide⟩

/-- What comes later binds other callables. -/
theorem andThen (first : Entering tree callables action)
    (second : ∀ value, Entering tree more (next value)) (apart : ∀ id, more id → ¬ callables id)
    (areCallables : ∀ id, more id → tree.IsCallable id) :
    Entering tree (fun id => callables id ∨ more id) (action >>= next) := by
  refine ⟨fun ran => ?_⟩
  obtain ⟨found, middle, ran, goesOn⟩ := bind_eq_ok ran
  exact (first.enters ran).trans ((second found).enters goesOn) apart areCallables

/-- What comes later binds no callable. -/
theorem bind (first : Entering tree callables action) (second : ∀ value, Plain tree (next value)) :
    Entering tree callables (action >>= next) :=
  (first.andThen second (fun _ => False.elim) fun _ => False.elim).mono fun _ =>
    (Or.resolve_right · not_false)

/-- What comes before binds no callable. -/
theorem behind (first : Plain tree action) (second : ∀ value, Entering tree callables (next value))
    (areCallables : ∀ id, callables id → tree.IsCallable id) :
    Entering tree callables (action >>= next) :=
  (first.andThen second (fun _ _ => id) areCallables).mono fun _ => (Or.resolve_left · not_false)

theorem read {next : Analysis → AnalysisM α} (entering : ∀ state, Entering tree callables (next state)) :
    Entering tree callables (get >>= next) :=
  ⟨fun {before _ _} ran => (entering before).enters ran⟩

theorem forM (plain : ∀ item ∈ items, Plain tree (actions item)) :
    Plain tree (items.forM actions) := by
  induction items with
  | nil => exact .pure _
  | cons item rest inductionHypothesis =>
    exact .bind (plain item (.head _)) fun _ =>
      inductionHypothesis fun other member => plain other (.tail _ member)

theorem optionForM {item : Option α}
    (entering : ∀ value ∈ item, Entering tree callables (actions value)) :
    Entering tree callables (item.forM actions) := by
  cases item with
  | none => exact .pure _
  | some value => exact entering value rfl

/-- Each of some actions binds callables of its own. -/
theorem each {own : α → DeclId → Prop}
    (entering : ∀ item ∈ items, Entering tree (own item) (actions item))
    (apart : items.Pairwise fun first second => ∀ id, own second id → ¬ own first id)
    (areCallables : ∀ item ∈ items, ∀ id, own item id → tree.IsCallable id) :
    Entering tree (fun id => ∃ item ∈ items, own item id) (items.forM actions) := by
  induction items with
  | nil => exact (pure _).mono fun _ => False.elim
  | cons item rest inductionHypothesis =>
    obtain ⟨others, apart⟩ := List.pairwise_cons.mp apart
    have later := inductionHypothesis
      (fun other member => entering other (.tail _ member)) apart
      fun other member => areCallables other (.tail _ member)
    refine ((entering item (.head _)).andThen (fun _ => later)
      (fun id ⟨other, member, among⟩ => others other member id among)
      fun id ⟨other, member, among⟩ => areCallables other (.tail _ member) id among).mono
      fun id among => ?_
    rcases among with here | ⟨other, member, there⟩
    · exact ⟨item, .head _, here⟩
    · exact ⟨other, .tail _ member, there⟩

/-- What only changes what names refer to binds nothing. -/
theorem of_refers (refers : Acts (ReferringChange tree) action) : Entering tree callables action := by
  suffices still : ∀ {before after : Analysis} {value : α}, action before = .ok value after →
      before.names.scopes.Gains (fun _ => False) after.names.scopes ∧
        after.names.keys = before.names.keys from
    ⟨fun ran => .of_still (still ran).1 (still ran).2⟩
  intro before after value ran
  refine ActsOver.leads (fun before after : Analysis =>
      before.names.scopes.Gains (fun _ => False) after.names.scopes ∧
        after.names.keys = before.names.keys) (fun _ => ⟨.refl _, rfl⟩)
    (fun first second => ⟨first.1.trans second.1, second.2.trans first.2⟩)
    (fun change changes state => ?_) (fun state diagnostic => ⟨.refl _, rfl⟩) (fun inner => inner)
    (fun givesUp _ _ _ ran => absurd ran givesUp.not_ok) refers ran
  have same := changes.names state
  exact ⟨same.scopes ▸ .refl _, same.keys⟩

theorem report (diagnostic : Diagnostic) : Entering tree callables (AnalysisM.report diagnostic) :=
  of_refers (.report diagnostic)

/-- Scopes are opened or closed, and nothing else that counts is changed. -/
theorem modifyNames {change : Resolution → Resolution}
    (gains : ∀ names : Resolution, names.scopes.Gains (fun _ => False) (change names).scopes)
    (keys : ∀ names : Resolution, (change names).keys = names.keys) :
    Entering tree callables (AnalysisM.modifyNames change) := by
  refine ⟨fun {before after value} ran => ?_⟩
  cases ran
  exact .of_still (gains before.names) (keys before.names)

/-- A scope is opened for an action and closed behind it. -/
theorem inDeclScope {kind : ScopeKind} {span : Span} {action : AnalysisM Unit}
    (entering : Entering tree callables action)
    (areCallables : ∀ id, callables id → tree.IsCallable id) :
    Entering tree callables (inDeclScope kind id span action) := by
  refine .behind (.modifyNames (fun _ => gains_openScope rfl) fun _ => rfl)
    (fun _ => ⟨fun {before after value} ran => ?_⟩) areCallables
  obtain ⟨middle, runs, rfl⟩ := ensuring_eq_ok ran
  have closes : middle.names.Enters tree (fun _ => False)
      { middle.names with scopes := middle.names.scopes.close } :=
    .of_still (gains_close _) rfl
  exact ((entering.enters runs).trans closes (fun _ => False.elim) fun _ => False.elim).mono
    fun _ => (Or.resolve_right · not_false)

end Entering

/-! ### Binding -/

section

variable {id : DeclId} {kind : DeclKind}

/-- A binding that is recorded: wherever the declaration was bound before, it was under the same
key. -/
theorem recorded_bind {names : Resolution} {bound : ScopeTable} {homes : Std.TreeMap DeclId ScopeId}
    (recorded : names.Recorded tree) (ok : names.scopes.bind key id = .ok bound)
    (same : ∀ other, names.keys[id]? = some other → names.scopes.Binds id → other = key)
    (fits : ∀ kind, tree.kindOf? id = some kind → kind.isCallable = false →
      key = .ofName (tree.nameOf id)) :
    Resolution.Recorded tree { names with
      scopes := bound, declScope := homes, keys := names.keys.insert id key } where
  keys home scope found entry member := by
    rw [Std.TreeMap.getElem?_insert]
    rcases entry_of_bind ok found member with ⟨old, there, held⟩ | rfl
    · have isKey := recorded.keys home old there entry held
      by_cases here : id = entry.2
      · subst here
        rw [if_pos (by simp), same _ isKey ⟨home, old, there, entry, held, rfl⟩]
      · rw [if_neg (by simpa using here), isKey]
    · rw [if_pos (by simp)]
  named decl kind other isKind noCallable isKey := by
    rw [Std.TreeMap.getElem?_insert] at isKey
    split at isKey
    · next here =>
      obtain rfl : id = decl := by simpa using here
      exact Option.some.inj isKey ▸ fits kind isKind noCallable
    · exact recorded.named decl kind other isKind noCallable isKey

/-- What comes of a binding: it is recorded, or an error is reported. -/
theorem bind_cases (ran : bind tree key id before = .ok value after) :
    (∃ bound, before.names.scopes.bind key id = .ok bound ∧
      after.names = { before.names with
        scopes := bound
        declScope := before.names.declScope.insert id before.names.scopes.current
        keys := before.names.keys.insert id key }) ∨
      ∃ diagnostic, diagnostic.isError ∧ report diagnostic before = .ok value after := by
  rw [bind, bind_eq (rfl : scopes before = .ok _ before)] at ran
  cases bound : before.names.scopes.bind key id with
  | ok table =>
    rw [bound] at ran
    cases ran
    exact .inl ⟨table, rfl, rfl⟩
  | error failure =>
    rw [bound] at ran
    dsimp only at ran
    split at ran <;> exact .inr ⟨_, rfl, ran⟩

/-- Binding a name. -/
theorem plain_bindName (isKind : tree.kindOf? id = some kind) (noCallable : kind.isCallable = false) :
    Plain tree (bindName tree id) := by
  refine ⟨fun {before after value} ran recorded fresh => ?_⟩
  rcases bind_cases ran with ⟨bound, ok, same⟩ | ⟨diagnostic, -, reported⟩
  · rw [same]
    refine ⟨recorded_bind recorded ok (fun other isKey _ => ?_) fun _ _ _ => rfl,
      gains_bind ok ?_⟩
    · exact recorded.named id kind other isKind noCallable isKey
    · rintro ⟨kind', isKind', isCallable⟩
      cases isKind'.symm.trans isKind
      rw [noCallable] at isCallable
      nomatch isCallable
  · rw [report_eq_ok reported]
    exact ⟨recorded, .refl _⟩

theorem isCallable_of_callable? {callable : Callable} (isForm : tree.callable? id = some callable) :
    tree.IsCallable id := by
  obtain ⟨decl, found, isForm⟩ := Option.bind_eq_some_iff.mp isForm
  refine ⟨decl.kind, by rw [Tree.kindOf?, found, Option.map_some], ?_⟩
  unfold Decl.callable? at isForm
  unfold Decl.kind
  split at isForm
  · next form => rw [form]; rfl
  · next form => rw [form]; rfl
  · cases isForm

/-- Binding a callable. -/
theorem entering_declareCallable (id : DeclId) :
    Entering tree (· = id) (declareCallable tree id) := by
  unfold declareCallable
  cases isForm : tree.callable? id with
  | none => exact .pure _
  | some callable =>
    refine .behind (.of_refers .scopes)
      (fun table => ⟨fun {before after value} ran recorded fresh => ?_⟩)
      fun _ same => same ▸ isCallable_of_callable? isForm
    rcases bind_cases ran with ⟨bound, ok, same⟩ | ⟨diagnostic, -, reported⟩
    · rw [same]
      refine ⟨recorded_bind recorded ok (fun _ _ binds => absurd binds (fresh id rfl)) ?_,
        gains_bind ok fun _ => rfl⟩
      intro kind isKind noCallable
      obtain ⟨kind', isKind', isCallable⟩ := isCallable_of_callable? isForm
      cases isKind'.symm.trans isKind
      rw [noCallable] at isCallable
      nomatch isCallable
    · rw [report_eq_ok reported]
      exact ⟨recorded, .refl _⟩

theorem plain_bindVariable (isKind : tree.kindOf? id = some kind)
    (noCallable : kind.isCallable = false) {decl : Decl} (found : tree.decls.get? id = some decl) :
    Plain tree (bindVariable tree id decl) := by
  have isName : tree.nameOf id = tree.text decl.name := by rw [Tree.nameOf, found]
  have hidden (name : String) : Acts (ReferringChange tree) (hidden? tree name) := by
    refine .bind .scopes fun table => ?_
    dsimp only
    split <;> exact .pure _
  have binds : Plain tree (bind tree (.ofName (tree.text decl.name)) id) :=
    isName ▸ plain_bindName isKind noCallable
  refine .bind (.of_refers .scopes) fun table => ?_
  dsimp only
  split
  · exact .report _
  · split
    · refine .bind (.of_refers (hidden _)) fun hides => ?_
      split
      · exact .report _
      · exact binds
    · exact binds

theorem plain_declareVariable (place : Place) (isKind : tree.kindOf? id = some kind)
    (noCallable : kind.isCallable = false) : Plain tree (declareVariable tree place id) := by
  unfold declareVariable
  split
  · exact .pure _
  · next decl found =>
    refine .bind (.of_refers (refers_type tree _).discard) fun _ => ?_
    dsimp only
    split
    · exact .bind (.of_refers (refers_expr tree ..)) fun _ => plain_bindVariable isKind noCallable found
    · exact plain_bindVariable isKind noCallable found

end

/-! ### Statements -/

theorem plain_openFor (kind : ScopeKind) (id : StmtId) (span : Span) :
    Plain tree (openFor kind id span) :=
  .modifyNames (fun _ => (gains_openScope rfl).trans (gains_modify _ _ fun _ => rfl))
    fun _ => rfl

theorem plain_close : Plain tree close :=
  (.modifyNames (fun _ => gains_close _) fun _ => rfl : Plain tree
    (modifyNames fun names => { names with scopes := names.scopes.close }))

section

variable (forest : tree.Forest loose)

include forest

theorem kindOf?_part {whole : Node} {kind : DeclKind} (isPart : .decl kind id ∈ tree.parts whole) :
    tree.kindOf? id = some kind :=
  forest.holds_part isPart

theorem plain_stmtWithin (place : Place) (fuel : Nat) (id : StmtId) :
    Plain tree (stmtWithin tree place fuel id) :=
  Composes.stmtWithin ⟨.pure _, fun first second => .bind first fun _ => second⟩
    (fun _ => .of_refers (refers_expr tree ..)) (fun _ _ _ => plain_openFor ..) plain_close
    (fun _ _ isPart => plain_declareVariable place (kindOf?_part forest isPart) rfl) fuel id

/-! ### Declarations that open scopes -/

theorem plain_declareEnum (place : Place) (isEnum : tree.kindOf? id = some .enum) :
    Plain tree (declareEnum tree place id) := by
  refine .bind (plain_bindName isEnum rfl) fun _ => ?_
  split
  · next consts hasConsts =>
    exact .forM fun const member => plain_declareVariable place
      (kindOf?_part forest (tree.const_mem_parts hasConsts member)) rfl
  · exact .pure _

theorem plain_callableBody (place : Place) (id : DeclId) : Plain tree (callableBody tree place id) := by
  unfold callableBody
  split
  · next decl callable found isForm =>
    have isPart {node : Node} (member : node ∈ callable.parts) :
        node ∈ tree.parts (.decl .method id) := Tree.mem_parts_of_callable? isForm member _
    refine .inDeclScope (.bind (.forM fun param member => ?_) fun _ =>
      .bind (.of_refers (refers_type tree _).discard) fun _ =>
        .bind (.forM fun param member => ?_) fun _ =>
        .optionForM fun body _ => .forM fun child _ => ?_) fun _ => False.elim
    · exact plain_bindName (kindOf?_part forest
        (isPart (by simp [Callable.parts, member]) : .decl .templateParam param ∈ _)) rfl
    · exact plain_declareVariable _ (kindOf?_part forest
        (isPart (by simp [Callable.parts, member]) : .decl .param param ∈ _)) rfl
    · split
      · exact plain_stmtWithin forest ..
      · exact .pure _
  · exact .pure _

/-! ### Classes -/

omit forest in
/-- A field that a base holds is bound under the key that is recorded for it. -/
theorem inheritField_enters {span : Span} {field : DeclId}
    (isField : tree.kindOf? field = some .field) (isKey : before.names.keys[field]? = some key)
    (ran : inheritField tree span key field before = .ok value after) :
    before.names.Enters tree (fun _ => False) after.names ∧ after.names.keys = before.names.keys := by
  rw [inheritField, bind_eq (rfl : scopes before = .ok _ before)] at ran
  cases bound : before.names.scopes.bind key field with
  | ok table =>
    rw [bound] at ran
    cases ran
    refine ⟨fun recorded _ => ⟨⟨fun home scope found entry member => ?_, recorded.named⟩,
      gains_bind bound ?_⟩, rfl⟩
    · rcases entry_of_bind bound found member with ⟨old, there, held⟩ | rfl
      · exact recorded.keys home old there entry held
      · exact isKey
    · rintro ⟨kind, isKind, isCallable⟩
      cases isKind.symm.trans isField
      nomatch isCallable
  | error failure =>
    rw [bound] at ran
    cases failure with
    | alreadyBound _ _ =>
      obtain rfl := report_eq_ok ran
      exact ⟨.refl _, rfl⟩
    | noScope _ =>
      cases ran
      exact ⟨.refl _, rfl⟩

omit forest in
theorem plain_inheritFields (span : Span) (base : DeclId) : Plain tree
    (inheritFields tree span base) := by
  -- Taking over one field leaves the keys alone under which the base holds the others.
  have each (scope : Scope) (take : Key → AnalysisM PUnit)
      (nothing : ∀ key, scope.find? key = none → take key = pure ())
      (takes : ∀ key field, scope.find? key = some field → take key =
        if tree.kindOf? field = some .field then inheritField tree span key field else pure ())
      (keys : List Key) {before after : Analysis} {value : PUnit}
      (known : ∀ key field, scope.find? key = some field → before.names.keys[field]? = some key)
      (ran : keys.forM take before = .ok value after) :
      before.names.Enters tree (fun _ => False) after.names := by
    induction keys generalizing before with
    | nil =>
      cases ran
      exact .refl _
    | cons key rest inductionHypothesis =>
      obtain ⟨_, middle, taken, goesOn⟩ := bind_eq_ok ran
      have first : before.names.Enters tree (fun _ => False) middle.names ∧
          middle.names.keys = before.names.keys := by
        cases held : scope.find? key with
        | none =>
          rw [nothing key held] at taken
          cases taken
          exact ⟨.refl _, rfl⟩
        | some field =>
          rw [takes key field held] at taken
          split at taken
          · next isField => exact inheritField_enters isField (known key field held) taken
          · cases taken
            exact ⟨.refl _, rfl⟩
      have later := inductionHypothesis (first.2 ▸ known) goesOn
      exact (first.1.trans later (fun _ => False.elim) fun _ => False.elim).mono fun _ => or_self_iff.mp
  refine ⟨fun {before after value} ran recorded => ?_⟩
  have start : inheritFields tree span base before = _ :=
    bind_eq (rfl : (get : AnalysisM Analysis) before = .ok _ before)
  rw [start] at ran
  cases found : before.names.scopes.get? (before.names.scopeOf base) with
  | none =>
    rw [found] at ran
    cases ran
    exact Resolution.Enters.refl _ recorded
  | some scope =>
    rw [found] at ran
    exact each scope _ (fun key absent => by simp only [absent])
      (fun key field held => by simp only [held]) scope.keys (fun key field held =>
      recorded.keys _ scope found (key, field) (Scope.mem_entries_of_find? held)) ran recorded

omit forest in
theorem plain_resolveBase (id : DeclId) (decl : Decl) (base : TypeExprId) :
    Plain tree (resolveBase tree id decl base) := by
  refine .bind (.of_refers (refers_type tree _)) fun found => ?_
  split
  · exact .pure _
  · split
    · exact .report _
    · refine .read fun state => ?_
      split
      · exact .pure _
      · exact .bind (.modifyNames (fun _ => .refl _) fun _ => rfl) fun _ => plain_inheritFields ..

/-- A class binds its own methods. -/
theorem entering_resolveClass (place : Place) (id : DeclId) :
    Entering tree (· ∈ tree.methodsOf id) (resolveClass tree place id) := by
  unfold resolveClass
  split
  · next decl body found isBody =>
    have areCallables (method : DeclId) (member : method ∈ body.methods) : tree.IsCallable method :=
      ⟨.method, forest.kindOf?_method (Tree.methodsOf_eq isBody ▸ member), rfl⟩
    have methods : Entering tree (· ∈ body.methods) (body.methods.forM (declareCallable tree)) := by
      refine (Entering.each (fun method _ => entering_declareCallable method) ?_ ?_).mono ?_
      · exact (forest.nodup_methods isBody).imp fun apart _ same same' => apart (same'.symm.trans same)
      · exact fun method member _ same => same ▸ areCallables method member
      · exact fun _ ⟨method, member, same⟩ => same ▸ member
    rw [Tree.methodsOf_eq isBody]
    refine .inDeclScope (.behind (.forM fun param member => ?_) (fun _ =>
      .behind (.optionForM fun base _ => plain_resolveBase id _ base) (fun _ =>
        .behind (.forM fun field member => ?_) (fun _ => .bind methods fun _ =>
          .forM fun method _ => plain_callableBody forest _ method) areCallables) areCallables)
        areCallables) areCallables
    · exact plain_bindName (Lexical.kindOf?_param forest isBody member) rfl
    · exact plain_declareVariable _ (Lexical.kindOf?_field forest isBody member) rfl
  · exact .pure _

/-! ### Units -/

/-- The callables of a unit: its functions, its entry point and the methods of its classes. -/
def callablesOf (tree : Tree) (unit : ProgramUnit) : List DeclId :=
  unit.functions ++ unit.main.toList ++ unit.classes.flatMap tree.methodsOf

section

variable {id : UnitId} {unit : ProgramUnit} (found : tree.units.get? id = some unit)

include found

theorem kindOf?_unitPart (kind : DeclKind) (member : .decl kind decl ∈ unit.parts) :
    tree.kindOf? decl = some kind :=
  Lexical.holds_unitPart forest found member

omit forest found in
theorem function_mem_parts (member : function ∈ unit.functions ++ unit.main.toList) :
    .decl .function function ∈ unit.parts := by
  rcases List.mem_append.mp member with isFunction | isMain
  · simp [ProgramUnit.parts, isFunction]
  · simp [ProgramUnit.parts, Option.mem_toList.mp isMain]

theorem kindOf?_function (member : function ∈ unit.functions ++ unit.main.toList) :
    tree.kindOf? function = some .function :=
  kindOf?_unitPart forest found .function (function_mem_parts member)

theorem isCallable_of_mem_callablesOf (member : decl ∈ callablesOf tree unit) :
    tree.IsCallable decl := by
  rcases List.mem_append.mp member with isFunction | isMethod
  · exact ⟨.function, kindOf?_function forest found isFunction, rfl⟩
  · obtain ⟨owner, -, isMethod⟩ := List.mem_flatMap.mp isMethod
    exact ⟨.method, forest.kindOf?_method isMethod, rfl⟩

theorem nodup_functions : (unit.functions ++ unit.main.toList).Nodup := by
  have inside : ((unit.functions ++ unit.main.toList).map (Node.decl .function)).Sublist
      (tree.parts (.unit id)) := by
    have parts : tree.parts (.unit id) = unit.parts := by
      rw [Tree.parts, found, Option.map_some, Option.getD_some]
    rw [parts, ProgramUnit.parts, List.map_append, ← Option.toList_map]
    exact ((List.sublist_append_right _ _).append (.refl _)).trans (List.sublist_append_left _ _)
  exact ((forest.nodup_parts _).sublist inside).of_map

/-- What is declared before its place binds the functions of a unit. -/
theorem entering_unitDeclarations :
    Entering tree (· ∈ unit.functions ++ unit.main.toList) (unitDeclarations tree unit) := by
  have areCallables (function : DeclId) (member : function ∈ unit.functions ++ unit.main.toList) :
      tree.IsCallable function := ⟨.function, kindOf?_function forest found member, rfl⟩
  obtain ⟨once, -, apart⟩ := List.nodup_append.mp (nodup_functions forest found)
  have functions : Entering tree (· ∈ unit.functions) (unit.functions.forM (declareCallable tree)) := by
    refine (Entering.each (fun function _ => entering_declareCallable function) ?_ ?_).mono ?_
    · exact once.imp fun apart _ same same' => apart (same'.symm.trans same)
    · exact fun function member _ same => same ▸ areCallables function (List.mem_append_left _ member)
    · exact fun _ ⟨function, member, same⟩ => same ▸ member
  have main : Entering tree (· ∈ unit.main.toList) (unit.main.forM (declareCallable tree)) :=
    .optionForM fun function isMain => (entering_declareCallable function).mono fun _ same =>
      same ▸ Option.mem_toList.mpr isMain
  have globals : Plain tree (unit.globals.forM (declareVariable tree {})) :=
    .forM fun global member => plain_declareVariable _
      (kindOf?_unitPart forest found .global (by simp [ProgramUnit.parts, member])) rfl
  have callables : Entering tree (· ∈ unit.functions ++ unit.main.toList) (do
      unit.functions.forM (declareCallable tree)
      unit.main.forM (declareCallable tree)
      unit.globals.forM (declareVariable tree {})) :=
    (functions.andThen (fun _ => main.bind fun _ => globals)
      (fun function isMain isFunction => apart function isFunction function isMain rfl)
      fun function member => areCallables function (List.mem_append_right _ member)).mono
      fun _ => List.mem_append.mpr
  have classes : Plain tree (unit.classes.forM (bindName tree)) :=
    .forM fun owner member => plain_bindName
      (kindOf?_unitPart forest found .classDecl (by simp [ProgramUnit.parts, member])) rfl
  refine .behind (.forM fun enum member => plain_declareEnum forest _ ?_) (fun _ =>
    .behind classes (fun _ => callables) areCallables) areCallables
  exact kindOf?_unitPart forest found .enum (by simp [ProgramUnit.parts, member])

omit found in
theorem plain_unitBodies (unit : ProgramUnit) : Plain tree (unitBodies tree unit) :=
  .bind (.forM fun _ _ => plain_callableBody forest ..) fun _ =>
    .bind (.optionForM fun _ _ => plain_callableBody forest ..) fun _ =>
      .forM fun _ _ => plain_stmtWithin forest ..

omit found in
/-- The classes of a unit bind their methods, if none is met twice. -/
theorem unitClasses_enters
    (once : ∀ placed middle, classOrder tree unit.classes before = .ok placed middle →
      placed.Perm unit.classes ∧ unit.classes.Nodup)
    (ran : unitClasses tree unit before = .ok () after) :
    before.names.Enters tree (· ∈ unit.classes.flatMap tree.methodsOf) after.names := by
  obtain ⟨placed, middle, orders, resolves⟩ := bind_eq_ok ran
  obtain ⟨perm, nodup⟩ := once placed middle orders
  have early : before.names.Enters tree (fun _ => False) middle.names :=
    (Entering.of_refers (refers_classOrder tree _)).enters orders
  have areCallables (method : DeclId) (member : method ∈ unit.classes.flatMap tree.methodsOf) :
      tree.IsCallable method := by
    obtain ⟨owner, -, isMethod⟩ := List.mem_flatMap.mp member
    exact ⟨.method, forest.kindOf?_method isMethod, rfl⟩
  have classes : Entering tree (· ∈ unit.classes.flatMap tree.methodsOf)
      (placed.forM (resolveClass tree {})) := by
    refine (Entering.each (fun owner _ => entering_resolveClass forest {} owner) ?_ ?_).mono ?_
    · exact (perm.nodup_iff.mpr nodup).imp fun apart _ member member' =>
        apart (forest.owner_unique member member')
    · exact fun _ _ _ isMethod => ⟨.method, forest.kindOf?_method isMethod, rfl⟩
    · exact fun _ ⟨owner, member, isMethod⟩ =>
        List.mem_flatMap.mpr ⟨owner, perm.mem_iff.mp member, isMethod⟩
  exact (early.trans (classes.enters resolves) (fun _ _ => not_false) areCallables).mono
    fun _ => (Or.resolve_left · not_false)

end

end

end Resolve

namespace Lexical

/-- Behind its imports, a unit binds its callables. -/
theorem contents_enters (forest : tree.Forest loose) {stage : Stage} (sound : stage.Sound tree)
    {id : UnitId} (found : tree.units.get? id = some unit)
    (waits : stage.world.waiting.head? = some id)
    (ran : (do
      unitDeclarations tree unit
      unitClasses tree unit
      unitBodies tree unit) stage.state = .ok () after) :
    stage.state.names.Enters tree (· ∈ callablesOf tree unit) after.names := by
  obtain ⟨declared, resolved, contents⟩ := contents_cases forest sound found waits ran
  have nodup := forest.nodup_classes found
  have classes := unitClasses_enters forest (fun placed middle orders => by
    obtain ⟨middle', orders', -⟩ := classOrder_spec contents.stands unit.classes
    cases orders'.symm.trans orders
    exact ⟨classOrder_perm tree _ nodup _, nodup⟩) contents.resolves
  have apart (method : DeclId) (isMethod : method ∈ unit.classes.flatMap tree.methodsOf) :
      method ∉ unit.functions ++ unit.main.toList := by
    intro isFunction
    obtain ⟨owner, -, isMethod⟩ := List.mem_flatMap.mp isMethod
    have kind := (forest.kindOf?_method isMethod).symm.trans
      (kindOf?_function forest found isFunction)
    nomatch kind
  have early := (entering_unitDeclarations forest found).enters contents.declares
  have late := (plain_unitBodies forest unit).enters contents.finishes
  have first := early.trans classes apart fun method member =>
    isCallable_of_mem_callablesOf forest found (List.mem_append_right _ member)
  exact (first.trans late (fun _ => False.elim) fun _ => False.elim).mono fun _ among =>
    List.mem_append.mpr (among.resolve_right not_false)

/-- Everything that is bound is recorded, and the callables that are bound are those of finished
units. -/
structure Recording (tree : Tree) (finished : List UnitId) (names : Resolution) : Prop where
  recorded : names.Recorded tree
  finished : ∀ decl, tree.IsCallable decl → names.scopes.Binds decl →
    ∃ id ∈ finished, ∃ unit, tree.units.get? id = some unit ∧ decl ∈ callablesOf tree unit

theorem recording_empty (tree : Tree) : Recording tree [] {} where
  recorded :=
    { keys := fun _ _ found => absurd found absent_empty
      named := fun decl _ _ _ _ isKey => by
        rw [Std.TreeMap.getElem?_emptyc] at isKey
        nomatch isKey }
  finished := fun _ _ ⟨_, _, found, _⟩ => absurd found absent_empty

theorem Idles.recording {finished : List UnitId} (idles : Idles tree before after)
    (recording : Recording tree finished before.names) : Recording tree finished after.names := by
  have still : before.names.Enters tree (fun _ => False) after.names :=
    .of_still idles.entries idles.keys
  exact ⟨(still recording.recorded fun _ => False.elim).1, fun decl isCallable binds =>
    recording.finished decl isCallable ((idles.entries.binds binds).resolve_right not_false)⟩

/-- No callable belongs to two units. -/
theorem unit_of_callable (forest : tree.Forest loose) {id other : UnitId} {unit' : ProgramUnit}
    (found : tree.units.get? id = some unit) (found' : tree.units.get? other = some unit')
    (member : decl ∈ callablesOf tree unit)
    (member' : decl ∈ callablesOf tree unit') : id = other := by
  have reaches {id : UnitId} {unit : ProgramUnit} (found : tree.units.get? id = some unit)
      (member : decl ∈ callablesOf tree unit) :
      ∃ kind, tree.kindOf? decl = some kind ∧ tree.Reaches (.unit id) (.decl kind decl) := by
    have isPart {node : Node} (member : node ∈ unit.parts) : node ∈ tree.parts (.unit id) := by
      rwa [Tree.parts, found, Option.map_some, Option.getD_some]
    rcases List.mem_append.mp member with isFunction | isMethod
    · exact ⟨.function, kindOf?_function forest found isFunction,
        .single (isPart (function_mem_parts isFunction))⟩
    · obtain ⟨owner, isClass, isMethod⟩ := List.mem_flatMap.mp isMethod
      refine ⟨.method, forest.kindOf?_method isMethod, .tail (.single (isPart ?_))
        (Tree.mem_parts_of_methodsOf isMethod).2⟩
      simp [ProgramUnit.parts, isClass]
  obtain ⟨kind, isKind, reached⟩ := reaches found member
  obtain ⟨kind', isKind', reached'⟩ := reaches found' member'
  cases isKind.symm.trans isKind'
  exact forest.unit_unique (by simp [Tree.Holds, found]) (by simp [Tree.Holds, found']) reached reached'

theorem Step.recording (forest : tree.Forest loose) {before after : Stage}
    (step : Step tree root before after)
    (recording : Recording tree (before.world.finished.map Prod.fst) before.state.names) :
    Recording tree (after.world.finished.map Prod.fst) after.state.names := by
  obtain ⟨change, sound, sound'⟩ := step
  cases change with
  | note idles _ => exact idles.recording recording
  | meet _ _ _ idles _ => exact idles.recording recording
  | skip _ idles _ => exact idles.recording recording
  | turnBack _ _ idles _ => exact idles.recording recording
  | attach _ _ idles _ => exact idles.recording recording
  | @finish id unit pending world state inside after found ran idles _ =>
    have waits := congrArg List.head? sound.waiting
    have unfinished : id ∉ world.finished.map Prod.fst :=
      sound.valid.unfinished (List.mem_of_mem_head? waits)
    have fresh (decl : DeclId) (own : decl ∈ callablesOf tree unit) :
        ¬ state.names.scopes.Binds decl := by
      intro binds
      obtain ⟨other, done, unit', found', among⟩ := recording.finished decl
        (isCallable_of_mem_callablesOf forest found own) binds
      exact unfinished (unit_of_callable forest found found' own among ▸ done)
    obtain ⟨recorded, gains⟩ := contents_enters forest sound found waits ran recording.recorded fresh
    have isDone : ((world.contents tree id unit).finished.map Prod.fst) =
        world.finished.map Prod.fst ++ [id] := by rw [World.finished_contents, List.map_append]; rfl
    refine idles.recording ⟨recorded, fun decl isCallable binds => ?_⟩
    show ∃ other ∈ (world.contents tree id unit).finished.map Prod.fst, _
    rw [isDone]
    rcases gains.binds binds with old | new
    · obtain ⟨other, done, among⟩ := recording.finished decl isCallable old
      exact ⟨other, List.mem_append_left _ done, among⟩
    · exact ⟨id, List.mem_append_right _ (.head _), unit, found, new isCallable⟩

end Lexical

/-- Whatever the sink was, everything that a resolved program binds is recorded. -/
theorem Resolve.recorded_program (forest : tree.Forest loose) {checked : Bool} {typing : Typing}
    {trace : Trace.Recorder} {sink : Sink}
    (ran : program tree root checked { typing, trace, sink } = .ok () after) :
    after.names.Recorded tree := by
  have empty := Lexical.recording_empty tree
  by_cases present : (tree.units.get? root).isSome
  · obtain ⟨_, -, recording, -, uniform⟩ :=
      Lexical.program_keeps forest present checked empty (Lexical.Step.recording forest)
    rw [(uniform sink after ran).1]
    exact recording.recorded
  · obtain ⟨_, -, ends, uniform⟩ := Lexical.program_ends forest root checked typing trace
    obtain ⟨final, ran'⟩ := ends {} Sink.quiet_open
    obtain rfl := Lexical.program_absent (Option.not_isSome_iff_eq_none.mp present) ran'
    rw [(uniform sink after ran).1, ← (uniform {} _ ran').1]
    exact empty.recorded

end TreeCheck
