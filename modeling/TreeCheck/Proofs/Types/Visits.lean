/-
What type checking records about an expression stays as it was recorded. A check of a node
records something about the expressions below it and about no others, and no node is checked
twice; so whatever holds of an expression when it has been checked holds in the end, if it
depends on nothing but the expressions below, the names, and what is known of types.

`Walks` says of an action that it checks some parts of a node, one after the other, and in
which scopes. Its rules follow the checks as they are written down; what is recorded and what
lasts are two consequences, each by one induction over the rules.
-/

import TreeCheck.Proofs.Reporting.Delivery
import TreeCheck.Proofs.Reporting.Typing
import TreeCheck.Proofs.Tree.Visit

namespace TreeCheck

variable {id : ExprId} {before after : Analysis} {node : Node} {kept : ExprId → Prop}

/-- A node is not below its parts. -/
theorem Tree.Forest.not_reaches_whole {tree : Tree} {loose : List Node} (forest : tree.Forest loose)
    {whole part : Node} (holds : tree.Holds whole) (isPart : part ∈ tree.parts whole) :
    ¬tree.Reaches part whole := by
  intro above
  have lower := forest.height_lt holds isPart
  have higher := forest.height_le (forest.holds_part isPart) above
  omega

/-! ### What is kept -/

/-- Names, but for which scopes are open. -/
def Resolution.atRest (names : Resolution) : Resolution :=
  { names with scopes := { names.scopes with stack := [] } }

/-- On the way from a state to another nothing was recorded about some expressions, the names
stayed as they are, types were only added, and so were errors. -/
structure Analysis.Keeps (kept : ExprId → Prop) (before after : Analysis) : Prop where
  names : after.names.atRest = before.names.atRest
  types : before.typing.types.Grows after.typing.types
  records : ∀ id, kept id → after.typing.record id = before.typing.record id
  spotless : after.sink.Spotless → before.sink.Spotless

namespace Analysis.Keeps

variable {kept : ExprId → Prop} {before middle after : Analysis}

theorem refl (state : Analysis) : state.Keeps kept state :=
  ⟨rfl, .refl _, fun _ _ => rfl, fun spotless => spotless⟩

theorem trans (first : before.Keeps kept middle) (second : middle.Keeps kept after) :
    before.Keeps kept after where
  names := second.names.trans first.names
  types := first.types.trans second.types
  records id isKept := (second.records id isKept).trans (first.records id isKept)
  spotless clean := first.spotless (second.spotless clean)

section

variable (keeps : before.Keeps kept after)

include keeps

theorem mono {fewer : ExprId → Prop} (less : ∀ id, fewer id → kept id) : before.Keeps fewer after :=
  ⟨keeps.names, keeps.types, fun id isKept => keeps.records id (less id isKept), keeps.spotless⟩

theorem uses : after.names.uses = before.names.uses := by
  have same := congrArg Resolution.uses keeps.names
  exact same

theorem exprTypes (isKept : kept id) :
    after.typing.exprTypes[id]? = before.typing.exprTypes[id]? :=
  congrArg Prod.fst (keeps.records id isKept)

theorem targets (isKept : kept id) :
    after.typing.targets[id]? = before.typing.targets[id]? :=
  congrArg Prod.snd (keeps.records id isKept)

end

theorem mapM {α β : Type} {actions : α → AnalysisM β} {items : List α}
    (each : ∀ item ∈ items, ∀ {before after value}, actions item before = .ok value after →
      before.Keeps kept after) {values : List β} (ran : items.mapM actions before = .ok values after) :
    before.Keeps kept after := by
  induction items generalizing before values with
  | nil =>
    cases ran
    exact .refl _
  | cons item rest inductionHypothesis =>
    rw [List.mapM_cons] at ran
    obtain ⟨_, _, first, ran⟩ := AnalysisM.bind_eq_ok ran
    obtain ⟨_, _, later, ends⟩ := AnalysisM.bind_eq_ok ran
    cases ends
    exact (each item (.head _) first).trans
      (inductionHypothesis (fun other member => each other (.tail _ member)) later)

end Analysis.Keeps

namespace TypeCheck

open AnalysisM

variable {area : ExprId → Prop} {α β : Type}
variable {action : AnalysisM α} {value : α} {next : α → AnalysisM β} {actions : α → AnalysisM PUnit}
  {items : List α}

/-- What type checking does keeps everything outside the area it may record in. -/
theorem keeps_of_acts (acts : Acts (TypingChange area) action)
    (ran : action before = .ok value after) : before.Keeps (¬area ·) after := by
  refine ActsOver.leads (Analysis.Keeps (¬area ·)) .refl .trans (fun change changes state => ?_)
    (fun state diagnostic => ?_) (fun inner => ?_)
      (fun givesUp _ _ _ ran => absurd ran givesUp.not_ok) acts ran
  · have sink : (change (state.withSink state.sink)).sink = state.sink := by
      rw [changes.sinkFree]
      rfl
    exact ⟨by rw [changes.names], changes.types state, changes.outside state, fun clean => sink ▸ clean⟩
  · exact ⟨rfl, .refl _, fun _ _ => rfl, fun clean => (Sink.Spotless.of_report clean).1⟩
  · exact ⟨inner.names, inner.types, inner.records, inner.spotless⟩

theorem keeps_of_checks {tree : Tree} (checks : Checks tree area action)
    (ran : action before = .ok value after) : before.Keeps (¬area ·) after :=
  keeps_of_acts (checks.acts tree) ran

/-- An action that may record nothing leaves the types of expressions alone. -/
theorem exprTypes_of_checks {tree : Tree} (checks : Checks tree nowhere action)
    (ran : action before = .ok value after) (id : ExprId) :
    after.typing.exprTypes[id]? = before.typing.exprTypes[id]? :=
  (keeps_of_checks checks ran).exprTypes fun never => never

/-! ### Visits -/

/-- Nothing was recorded about an expression. -/
def Blank (state : Analysis) (id : ExprId) : Prop := state.typing.record id = (none, none)

/-- Nothing was recorded about any expression below a node. -/
def Fresh (tree : Tree) (node : Node) (state : Analysis) : Prop :=
  ∀ id, tree.Reaches node (.expr id) → Blank state id

/-- A fact holds of every expression below a node that something was recorded about. -/
def Settled (tree : Tree) (sound : Analysis → ExprId → Prop) (node : Node) (state : Analysis) : Prop :=
  ∀ id, tree.Reaches node (.expr id) → ¬Blank state id → sound state id

/-- A fact about an expression that stands as long as nothing below it is checked again. -/
def Lasting (tree : Tree) (sound : Analysis → ExprId → Prop) : Prop :=
  ∀ {before after : Analysis} {id : ExprId},
    before.Keeps (fun other => tree.Reaches (.expr id) (.expr other)) after →
    sound before id → sound after id

/-- Whenever the check of an expression ends that nothing was recorded about, a fact holds of
it. -/
def Settling (tree : Tree) (sound : Analysis → ExprId → Prop) : Prop :=
  ∀ {place : Place} {fuel id : Nat} {expected value : TypeId} {before after : Analysis},
    id < fuel → tree.Holds (.expr id) → ({} : TypeTable).Grows before.typing.types →
    Fresh tree (.expr id) before → exprWithin tree place fuel id expected before = .ok value after →
    sound after id

/-- An expression is a node itself. -/
def Own (whole : Node) (id : ExprId) : Prop := whole = .expr id

theorem own (id : ExprId) : Own (.expr id) id := rfl

/-- An expression is neither a node nor below some parts of it. -/
def Elsewhere (tree : Tree) (whole : Node) (parts : List Node) (id : ExprId) : Prop :=
  ¬Own whole id ∧ ∀ part ∈ parts, ¬tree.Reaches part (.expr id)

/-- No expression is below two of some nodes, and none that is below one of them is the whole that
they are checked for. -/
structure Apart (tree : Tree) (whole : Node) (nodes : List Node) : Prop where
  proper : ∀ node ∈ nodes, ∀ id, tree.Reaches node (.expr id) → ¬Own whole id
  once : nodes.Pairwise fun node other =>
    ∀ id, tree.Reaches node (.expr id) → ¬tree.Reaches other (.expr id)

variable {tree : Tree} {loose : List Node} {sound : Analysis → ExprId → Prop} {whole : Node}
  {parts : List Node}

namespace Apart

variable {more : List Node}

section

variable (apart : Apart tree whole (parts ++ more))

include apart

theorem left : Apart tree whole parts :=
  ⟨fun node member => apart.proper node (List.mem_append_left _ member),
    (List.pairwise_append.mp apart.once).1⟩

theorem right : Apart tree whole more :=
  ⟨fun node member => apart.proper node (List.mem_append_right _ member),
    (List.pairwise_append.mp apart.once).2.1⟩

/-- What is below one of the first nodes is elsewhere than the others. -/
theorem elsewhere_right (member : node ∈ parts)
    (below : tree.Reaches node (.expr id)) : Elsewhere tree whole more id :=
  ⟨apart.proper node (List.mem_append_left _ member) id below, fun other member' =>
    (List.pairwise_append.mp apart.once).2.2 node member other member' id below⟩

theorem elsewhere_left (member : node ∈ more)
    (below : tree.Reaches node (.expr id)) : Elsewhere tree whole parts id :=
  ⟨apart.proper node (List.mem_append_right _ member) id below, fun other member' below' =>
    (List.pairwise_append.mp apart.once).2.2 other member' node member id below' below⟩

end

theorem of_parts (forest : tree.Forest loose) (holds : tree.Holds whole) (once : parts.Nodup)
    (areParts : ∀ part ∈ parts, part ∈ tree.parts whole) : Apart tree whole parts where
  proper part member _ below isOwn :=
    forest.not_reaches_whole holds (areParts part member) (isOwn ▸ below)
  once := once.imp_of_mem fun {part other} member member' different _ below below' =>
    different (forest.parts_apart holds (areParts part member) (areParts other member') below below')

end Apart

theorem Fresh.keeps (fresh : Fresh tree node before) (keeps : before.Keeps kept after)
    (isKept : ∀ id, tree.Reaches node (.expr id) → kept id) : Fresh tree node after :=
  fun id below => (keeps.records id (isKept id below)).trans (fresh id below)

theorem Settled.keeps (settled : Settled tree sound node before) (lasting : Lasting tree sound)
    (keeps : before.Keeps kept after) (isKept : ∀ id, tree.Reaches node (.expr id) → kept id) :
    Settled tree sound node after := by
  intro id below recorded
  refine lasting (keeps.mono fun other below' => isKept other (below.trans below'))
    (settled id below fun blank => recorded ?_)
  exact (keeps.records id (isKept id below)).trans blank

theorem Elsewhere.mono {more : List Node} (elsewhere : Elsewhere tree whole more id)
    (subset : parts ⊆ more) : Elsewhere tree whole parts id :=
  ⟨elsewhere.1, fun part member => elsewhere.2 part (subset member)⟩

/-! ### Walks -/

/-- The scope in which a branch, loop or arm is checked. -/
def scopeOfBranch (tree : Tree) (names : Resolution) (scope : ScopeId) (id : StmtId) : ScopeId :=
  match (tree.stmts.get? id).map Stmt.form with
  | some (.block _) => scope
  | _ => names.scopeOfStmt[id]?.getD scope

/-- The scope in which a part of a node is checked, when the node is checked in some scope. -/
def scopeOfPart (tree : Tree) (names : Resolution) (scope : ScopeId) : Node → Node → ScopeId
  | .unit id, _ => names.units[id]?.getD scope
  | .decl .classDecl id, _ => names.scopeOfDecl[id]?.getD scope
  | .decl .function id, _ => names.scopeOfDecl[id]?.getD scope
  | .decl .method id, _ => names.scopeOfDecl[id]?.getD scope
  | .stmt id, part =>
    match (tree.stmts.get? id).map Stmt.form, part with
    | some (.block _), _ => names.scopeOfStmt[id]?.getD scope
    | some (.forLoop ..), .expr _ => scope
    | some (.forLoop ..), .stmt body =>
      scopeOfBranch tree names (names.scopeOfStmt[id]?.getD scope) body
    | some (.forLoop ..), _ => names.scopeOfStmt[id]?.getD scope
    | _, .stmt body => scopeOfBranch tree names scope body
    | _, _ => scope
  | _, _ => scope

/-- Whether a part is checked with its whole. Written types, imports, template parameters and enums
have no expressions below them, and classes that are in no order are not checked. -/
def isChecked (names : Resolution) : Node → Bool
  | .type _ => false
  | .decl .importDecl _ => false
  | .decl .enum _ => false
  | .decl .templateParam _ => false
  | .decl .classDecl id => id ∈ names.order
  | _ => true

@[simp]
theorem filter_isChecked_types (names : Resolution) (types : List (Option TypeExprId)) :
    (types.filterMap (·.map Node.type)).filter (isChecked names) = [] := by
  rw [List.filter_eq_nil_iff]
  intro node member
  obtain ⟨type, -, isType⟩ := List.mem_filterMap.mp member
  obtain ⟨id, -, rfl⟩ := Option.map_eq_some_iff.mp isType
  exact Bool.false_ne_true

@[simp]
theorem filter_isChecked_type (names : Resolution) (type : Option TypeExprId) :
    (type.map Node.type).toList.filter (isChecked names) = [] := by
  cases type <;> rfl

/-- The parts of a node that are checked with it. -/
def checkedParts (tree : Tree) (names : Resolution) (node : Node) : List Node :=
  (tree.parts node).filter (isChecked names)

/-- A node is the block that a function or method has as its body. -/
def IsBody (tree : Tree) (node : Node) : Prop :=
  ∃ id callable body stmts, tree.callable? id = some callable ∧ callable.body = some body ∧
    (tree.stmts.get? body).map Stmt.form = some (.block stmts) ∧ node = .stmt body

/-- A part is checked in the scope it has in its whole. The body of a callable has no scope of its
own. -/
def ScopedPart (tree : Tree) (names : Resolution) (scope : ScopeId) (whole : Node)
    (part : Node × ScopeId) : Prop :=
  (IsBody tree whole → part.2 = scope) ∧
    (¬IsBody tree whole → part.2 = scopeOfPart tree names scope whole part.1)

/-- Bodies are statements. -/
theorem not_isBody (other : ∀ id, node ≠ .stmt id) : ¬IsBody tree node :=
  fun ⟨_, _, body, _, _, _, _, same⟩ => other body same

/-- In a scope, an action checks some parts of a node in the scopes that are given, each once, and
nothing else. The names are those that resolution left. -/
inductive Walks (tree : Tree) (names : Resolution) :
    ScopeId → Node → List (Node × ScopeId) → {α : Type} → AnalysisM α → Prop where
  | aside {scope : ScopeId} {whole : Node} {α : Type} {action : AnalysisM α} :
      Aims tree (Own whole) action → Walks tree names scope whole [] action
  /-- A variable is given its type. -/
  | declare {scope : ScopeId} {whole : Node} {kind : DeclKind} {id : DeclId} {type : TypeId} :
      kind.isVariable → tree.Holds (.decl kind id) → Walks tree names scope whole [] (recordDecl id type)
  | bind {scope : ScopeId} {whole : Node} {parts more : List (Node × ScopeId)} {α β : Type}
      {action : AnalysisM α} {next : α → AnalysisM β} :
      Walks tree names scope whole parts action →
      (∀ value, Walks tree names scope whole more (next value)) →
      Walks tree names scope whole (parts ++ more) (action >>= next)
  | read {scope : ScopeId} {whole : Node} {parts : List (Node × ScopeId)} {α : Type}
      {next : Analysis → AnalysisM α} :
      (∀ state, state.names.atRest = names → Walks tree names scope whole parts (next state)) →
      Walks tree names scope whole parts (get >>= next)
  | ensuring {scope : ScopeId} {whole : Node} {parts : List (Node × ScopeId)} {α : Type}
      {cleanup : Analysis → Analysis} {action : AnalysisM α} :
      (∀ state, (cleanup state).names = state.names) →
      (∀ state, (cleanup state).typing = state.typing) →
      (∀ state, (cleanup state).sink = state.sink) →
      Walks tree names scope whole parts action →
      Walks tree names scope whole parts (AnalysisM.ensuring cleanup action)
  | within {scope : ScopeId} {whole : Node} {parts : List (Node × ScopeId)} {α : Type}
      {action : AnalysisM α} (inner : ScopeId) :
      Walks tree names inner whole parts action →
      Walks tree names scope whole parts (AnalysisM.within inner action)
  /-- A node that is no expression is checked part by part. -/
  | node {scope : ScopeId} {whole node : Node} {parts : List (Node × ScopeId)} {α : Type}
      {action : AnalysisM α} :
      tree.Holds node → (∀ id, node ≠ .expr id) → Walks tree names scope node parts action →
      (parts.map Prod.fst).Perm (checkedParts tree names node) →
      (∀ part ∈ parts, ScopedPart tree names scope node part) →
      Walks tree names scope whole [(node, scope)] action
  /-- The type of an expression is recorded when its parts have been checked. -/
  | expr {scope : ScopeId} {whole : Node} {parts : List (Node × ScopeId)} {place : Place}
      {fuel id : Nat} {expected : TypeId} {find : AnalysisM TypeId} :
      id < fuel → tree.Holds (.expr id) →
      exprWithin tree place fuel id expected =
        (find >>= fun type => recordExpr id type >>= fun _ => pure type) →
      Walks tree names scope (.expr id) parts find →
      (parts.map Prod.fst).Perm (checkedParts tree names (.expr id)) →
      (∀ part ∈ parts, ScopedPart tree names scope (.expr id) part) →
      Walks tree names scope whole [(.expr id, scope)] (exprWithin tree place fuel id expected)

namespace Walks

variable {names : Resolution} {scope : ScopeId} {parts more : List (Node × ScopeId)}
variable {each : α → List (Node × ScopeId)}

/-- An action and then one that checks no more parts. -/
theorem andNothing (walks : Walks tree names scope whole parts action)
    (nothing : ∀ value, Walks tree names scope whole [] (next value)) :
    Walks tree names scope whole parts (action >>= next) := by
  rw [← List.append_nil parts]
  exact .bind walks nothing

/-- An action and then one that checks nothing. -/
theorem andAside (walks : Walks tree names scope whole parts action)
    (aims : ∀ value, Aims tree (Own whole) (next value)) :
    Walks tree names scope whole parts (action >>= next) :=
  walks.andNothing fun value => .aside (aims value)

/-- An action that checks nothing, and then one that checks parts. -/
theorem behind (aims : Aims tree (Own whole) action)
    (walks : ∀ value, Walks tree names scope whole parts (next value)) :
    Walks tree names scope whole parts (action >>= next) :=
  .bind (.aside aims) walks

theorem discard (walks : Walks tree names scope whole parts action) :
    Walks tree names scope whole parts (discard action) := by
  rw [show Functor.discard action = _ from map_eq_bind action fun _ => PUnit.unit]
  exact walks.andAside fun _ => .pure _

theorem forM (walks : ∀ item ∈ items, Walks tree names scope whole (each item) (actions item)) :
    Walks tree names scope whole (items.flatMap each) (items.forM actions) := by
  induction items with
  | nil => exact .aside (.pure _)
  | cons item rest inductionHypothesis =>
    exact .bind (walks item (.head _)) fun _ =>
      inductionHypothesis fun other member => walks other (.tail _ member)

theorem optionForM {item : Option α}
    (walks : ∀ value ∈ item, Walks tree names scope whole (each value) (actions value)) :
    Walks tree names scope whole (item.toList.flatMap each) (item.forM actions) := by
  cases item with
  | none => exact .aside (.pure _)
  | some value =>
    rw [Option.toList_some, List.flatMap_singleton]
    exact walks value rfl

theorem forMSome {actions : Option α → AnalysisM PUnit} {items : List (Option α)}
    (skips : actions none = pure ())
    (walks : ∀ item, some item ∈ items →
      Walks tree names scope whole (each item) (actions (some item))) :
    Walks tree names scope whole (items.flatMap fun item => item.toList.flatMap each)
      (items.forM actions) := by
  refine forM fun item member => ?_
  cases item with
  | none => exact skips ▸ .aside (.pure _)
  | some value =>
    rw [Option.toList_some, List.flatMap_singleton]
    exact walks value member

theorem foldlM {step : β → α → AnalysisM β}
    (walks : ∀ item ∈ items, ∀ value, Walks tree names scope whole (each item) (step value item))
    (start : β) : Walks tree names scope whole (items.flatMap each) (items.foldlM step start) := by
  induction items generalizing start with
  | nil => exact .aside (.pure _)
  | cons item rest inductionHypothesis =>
    exact .bind (walks item (.head _) start) fun value =>
      inductionHypothesis (fun other member => walks other (.tail _ member)) value

theorem mapM {actions : α → AnalysisM β}
    (walks : ∀ item ∈ items, Walks tree names scope whole (each item) (actions item)) :
    Walks tree names scope whole (items.flatMap each) (items.mapM actions) := by
  induction items with
  | nil => exact .aside (.pure _)
  | cons item rest inductionHypothesis =>
    rw [List.mapM_cons]
    exact .bind (walks item (.head _)) fun _ => .andAside
      (inductionHypothesis fun other member => walks other (.tail _ member))
      fun _ => .pure _

theorem inScope (slot : Option ScopeId)
    (walks : Walks tree names (slot.getD scope) whole parts action) :
    Walks tree names scope whole parts (TypeCheck.inScope slot action) := by
  cases slot with
  | none => exact walks
  | some inner => exact .within inner walks

/-- An action in a scope that is looked up in the names. -/
theorem inSlot (slot : Resolution → Option ScopeId)
    (rests : ∀ names, slot names.atRest = slot names)
    (walks : Walks tree names ((slot names).getD scope) whole parts action) :
    Walks tree names scope whole parts
      (get >>= fun state => TypeCheck.inScope (slot state.names) action) := by
  refine .read fun state isNames => inScope _ ?_
  rwa [← rests, isNames]

theorem spanned (grain : Trace.Grain) (name : String) (parent : Nat) (extra : Trace.Extra)
    {action : Nat → AnalysisM α} (walks : ∀ span, Walks tree names scope whole parts (action span)) :
    Walks tree names scope whole parts (AnalysisM.spanned grain name parent extra action) := by
  refine .behind ?_ fun _ => .ensuring (fun _ => rfl) (fun _ => rfl) (fun _ => rfl) (walks _)
  exact .select (fun _ _ => rfl)
    (.of_same (fun _ _ => rfl) (fun _ => rfl) (fun _ => rfl) fun _ => rfl)

/-- A node that is no expression is checked, if all its parts are that are checked with it. -/
theorem ofParts (holds : tree.Holds node) (other : ∀ id, node ≠ .expr id)
    (notBody : ¬IsBody tree node) (walks : Walks tree names scope node parts action)
    (same : parts.Perm ((checkedParts tree names node).map fun part =>
      (part, scopeOfPart tree names scope node part))) :
    Walks tree names scope whole [(node, scope)] action := by
  refine .node holds other walks ?_ fun part member =>
    ⟨fun isBody => absurd isBody notBody, fun _ => ?_⟩
  · simpa [Function.comp_def] using same.map Prod.fst
  · obtain ⟨_, -, rfl⟩ := List.mem_map.mp (same.mem_iff.mp member)
    rfl

/-! ### What a walk keeps -/

/-- Among the parts that are checked there is no node twice, and no node that is not a part. -/
theorem once_of_perm (forest : tree.Forest loose)
    (same : (parts.map Prod.fst).Perm (checkedParts tree names node)) : (parts.map Prod.fst).Nodup :=
  same.nodup_iff.mpr ((forest.nodup_parts node).filter _)

theorem mem_parts_of_perm
    (same : (parts.map Prod.fst).Perm (checkedParts tree names node)) :
    ∀ part ∈ parts.map Prod.fst, part ∈ tree.parts node :=
  fun _ member => List.mem_of_mem_filter (same.mem_iff.mp member)

/-- What is below a node is below the parts that are checked with it, or nothing is recorded of
it. -/
theorem elsewhere_of_not_reaches
    (areParts : ∀ part ∈ parts.map Prod.fst, part ∈ tree.parts node)
    (apart : ¬tree.Reaches node (.expr id)) : Elsewhere tree node (parts.map Prod.fst) id :=
  ⟨fun same => apart (same ▸ .refl), fun part member below =>
    apart (.head (areParts part member) below)⟩

/-- Recording the type of an expression keeps everything about the others. -/
theorem keeps_recordExpr {type : TypeId} {value : Unit}
    (ran : recordExpr id type before = .ok value after) :
    before.Keeps (fun other => ¬Own (.expr id) other) after :=
  keeps_of_acts ((acts_recordExpr (own id) type).mono fun _ change => change.toTypingChange) ran

/-- The check of an expression ends with recording what was found. -/
theorem recordExpr_of_ok {find : AnalysisM TypeId} {value : TypeId}
    (ran : (find >>= fun type => recordExpr id type >>= fun _ => pure type) before = .ok value after) :
    ∃ middle, find before = .ok value middle ∧ recordExpr id value middle = .ok () after := by
  obtain ⟨found, middle, finds, ran⟩ := bind_eq_ok ran
  obtain ⟨_, _, records, ends⟩ := bind_eq_ok ran
  cases ends
  exact ⟨middle, finds, records⟩

/-- A walk records nothing about expressions elsewhere. -/
theorem keeps {action : AnalysisM α} (walks : Walks tree names scope whole parts action)
    {before after : Analysis} {value : α} (isNames : before.names.atRest = names)
    (ran : action before = .ok value after) :
    before.Keeps (Elsewhere tree whole (parts.map Prod.fst)) after := by
  induction walks generalizing before after with
  | aside aims => exact (keeps_of_checks aims.checks ran).mono fun _ elsewhere => elsewhere.1
  | declare _ _ =>
    cases ran
    exact ⟨rfl, .refl _, fun _ _ => rfl, fun clean => clean⟩
  | bind _ _ first second =>
    obtain ⟨found, middle, ran, goesOn⟩ := bind_eq_ok ran
    have keeps := first isNames ran
    rw [List.map_append]
    exact (keeps.mono fun _ elsewhere => elsewhere.mono (List.subset_append_left _ _)).trans
      ((second found (keeps.names.trans isNames) goesOn).mono fun _ elsewhere =>
        elsewhere.mono (List.subset_append_right _ _))
  | read _ inductionHypothesis => exact inductionHypothesis before isNames isNames ran
  | ensuring names typing sink _ inductionHypothesis =>
    obtain ⟨middle, runs, rfl⟩ := ensuring_eq_ok ran
    have keeps := inductionHypothesis isNames runs
    refine keeps.trans ⟨by rw [names], ?_, fun _ _ => by rw [typing], fun clean => sink middle ▸ clean⟩
    rw [typing]
    exact .refl _
  | within inner _ inductionHypothesis =>
    rw [within_eq] at ran
    obtain ⟨middle, runs, rfl⟩ := ensuring_eq_ok ran
    have keeps := @inductionHypothesis (before.entering inner) _ _ isNames runs
    exact ⟨keeps.names, keeps.types, keeps.records, keeps.spotless⟩
  | node holds other _ same _ inductionHypothesis =>
    exact (inductionHypothesis isNames ran).mono fun id elsewhere =>
      elsewhere_of_not_reaches (mem_parts_of_perm same) (elsewhere.2 _ (.head _))
  | expr enough holds isCheck _ same _ inductionHypothesis =>
    rw [isCheck] at ran
    obtain ⟨middle, ran, records⟩ := recordExpr_of_ok ran
    refine ((inductionHypothesis isNames ran).mono fun id elsewhere => ?_).trans
      ((keeps_recordExpr records).mono fun id elsewhere isOwn => ?_)
    · exact elsewhere_of_not_reaches (mem_parts_of_perm same) (elsewhere.2 _ (.head _))
    · exact elsewhere.2 _ (.head _) (Node.expr.inj isOwn ▸ .refl)

/-! ### What a walk settles -/

/-- Where all parts that are checked are settled, so is whatever is below the node; of the other
parts nothing was recorded. -/
theorem settled_below (forest : tree.Forest loose) (holds : tree.Holds node)
    (areParts : ∀ part ∈ parts.map Prod.fst, part ∈ tree.parts node)
    (fresh : Fresh tree node before)
    (keeps : before.Keeps (Elsewhere tree node (parts.map Prod.fst)) after)
    (settled : ∀ part ∈ parts.map Prod.fst, Settled tree sound part after)
    (below : tree.Reaches node (.expr id)) (proper : node ≠ .expr id) (recorded : ¬Blank after id) :
    sound after id := by
  rcases Relation.ReflTransGen.cases_head below with same | ⟨part, isPart, below'⟩
  · exact absurd same proper
  · by_cases checked : part ∈ parts.map Prod.fst
    · exact settled part checked id below' recorded
    · refine absurd ((keeps.records id ⟨proper, fun other member below'' => checked ?_⟩).trans
        (fresh id below)) recorded
      exact forest.parts_apart holds isPart (areParts other member) below' below'' ▸ member

/-- After a walk a fact that lasts holds of whatever was recorded below the parts it checked, if it
holds of every expression when its check ends. -/
theorem settles (forest : tree.Forest loose) (settling : Settling tree sound)
    (lasting : Lasting tree sound)
    {action : AnalysisM α} (walks : Walks tree names scope whole parts action)
    (apart : Apart tree whole (parts.map Prod.fst)) {before after : Analysis} {value : α}
    (isNames : before.names.atRest = names) (grown : ({} : TypeTable).Grows before.typing.types)
    (fresh : ∀ part ∈ parts.map Prod.fst, Fresh tree part before)
    (ran : action before = .ok value after) :
    ∀ part ∈ parts.map Prod.fst, Settled tree sound part after := by
  induction walks generalizing before after with
  | aside _ => exact fun _ never => nomatch never
  | declare _ _ => exact fun _ never => nomatch never
  | bind firstWalk secondWalk first second =>
    rw [List.map_append] at apart fresh ⊢
    obtain ⟨found, middle, ran, goesOn⟩ := bind_eq_ok ran
    have keeps := firstWalk.keeps isNames ran
    have isNames' := keeps.names.trans isNames
    intro part member
    rcases List.mem_append.mp member with early | late
    · exact (first apart.left isNames grown
        (fun part member => fresh part (List.mem_append_left _ member)) ran part early).keeps lasting
        ((secondWalk found).keeps isNames' goesOn) fun id below => apart.elsewhere_right early below
    · exact second found apart.right isNames' (grown.trans keeps.types)
        (fun part member => (fresh part (List.mem_append_right _ member)).keeps keeps
          fun id below => apart.elsewhere_left member below) goesOn part late
  | read _ inductionHypothesis =>
    exact inductionHypothesis before isNames apart isNames grown fresh ran
  | @ensuring _ _ _ _ cleanup _ names typing sink _ inductionHypothesis =>
    obtain ⟨middle, runs, rfl⟩ := ensuring_eq_ok ran
    have cleans : middle.Keeps (fun _ => True) (cleanup middle) := by
      refine ⟨by rw [names], ?_, fun _ _ => by rw [typing], fun clean => sink middle ▸ clean⟩
      rw [typing]
      exact .refl _
    exact fun part member => (inductionHypothesis apart isNames grown fresh runs part member).keeps
      lasting cleans fun _ _ => trivial
  | within inner _ inductionHypothesis =>
    rw [within_eq] at ran
    obtain ⟨middle, runs, rfl⟩ := ensuring_eq_ok ran
    have left : middle.Keeps (fun _ => True) (middle.backTo before.names.scopes.depth) :=
      ⟨rfl, .refl _, fun _ _ => rfl, fun clean => clean⟩
    exact fun part member =>
      (@inductionHypothesis apart (before.entering inner) _ _ isNames grown fresh runs part
      member).keeps lasting left fun _ _ => trivial
  | node holds other walk same _ inductionHypothesis =>
    intro _ member id below recorded
    obtain rfl := List.mem_singleton.mp member
    have freshNode := fresh _ member
    have inner : ∀ part ∈ _, Fresh tree part before := fun part isPart id below =>
      freshNode id (.head (mem_parts_of_perm same part isPart) below)
    exact settled_below forest holds (mem_parts_of_perm same) freshNode (walk.keeps isNames ran)
      (inductionHypothesis (.of_parts forest holds (once_of_perm forest same) (mem_parts_of_perm same))
        isNames grown inner ran) below (other id) recorded
  | @expr _ _ _ place fuel own expected find enough holds isCheck walk same _ inductionHypothesis =>
    intro _ member id below recorded
    obtain rfl := List.mem_singleton.mp member
    have freshNode := fresh _ member
    by_cases isOwn : Node.expr own = .expr id
    · obtain rfl := Node.expr.inj isOwn
      exact settling enough holds grown freshNode ran
    have inner : ∀ part ∈ _, Fresh tree part before := fun part isPart id below =>
      freshNode id (.head (mem_parts_of_perm same part isPart) below)
    rw [isCheck] at ran
    obtain ⟨middle, ran, records⟩ := recordExpr_of_ok ran
    have settled := inductionHypothesis
      (.of_parts forest holds (once_of_perm forest same) (mem_parts_of_perm same)) isNames grown
        inner ran
    have keepsRecord := keeps_recordExpr records
    have kept (part : Node) (isPart : part ∈ _) (id : ExprId) (below : tree.Reaches part (.expr id)) :
        ¬Own (.expr own) id := fun isOwn =>
      forest.not_reaches_whole holds (mem_parts_of_perm same part isPart) (isOwn ▸ below)
    refine settled_below forest holds (mem_parts_of_perm same) freshNode
      (((walk.keeps isNames ran).mono fun _ elsewhere => elsewhere).trans
        (keepsRecord.mono fun _ elsewhere => elsewhere.1))
      (fun part isPart => (settled part isPart).keeps lasting keepsRecord (kept part isPart))
      below isOwn recorded

end Walks

end TypeCheck

end TreeCheck
