/-
What type checking writes, in the order in which it does. The log of a run names every
expression that the run recorded a type of, and the scope that was current then. A walk
writes about every expression below the parts that it checks, once, and about no other; so a
program that was checked has a type for exactly the expressions below its units, and none of
them was written twice.

The log is taken from the run itself: everything that is not in it are steps that leave the
types of expressions alone.
-/

import TreeCheck.Proofs.Rules.Exactness
import TreeCheck.Proofs.Scoping.ClassOrder
import TreeCheck.Proofs.Types.Recording

namespace TreeCheck

variable {before after : Analysis} {loose : List Node} {kind : DeclKind}

/-! ### Logs -/

/-- A change that gives no expression a type and takes none back. -/
def LeavesTypes (change : Analysis → Analysis) : Prop :=
  ∀ (state : Analysis) (id : ExprId),
    (change state).typing.exprTypes[id]? = state.typing.exprTypes[id]?

/-- An action of such changes leaves the types of expressions alone. -/
theorem exprTypes_of_leaves {α : Type} {action : AnalysisM α} (acts : Acts LeavesTypes action)
    {value : α} (ran : action before = .ok value after) (id : ExprId) :
    after.typing.exprTypes[id]? = before.typing.exprTypes[id]? :=
  ActsOver.leads (fun before after => after.typing.exprTypes[id]? = before.typing.exprTypes[id]?)
    (fun _ => rfl) (fun first second => second.trans first) (fun _ leaves state => leaves state id)
    (fun _ _ => rfl) (fun inner => inner) (fun givesUp _ _ _ ran => absurd ran givesUp.not_ok) acts ran

/-- An action comes to its end and writes what is in a log: the expressions whose types it records,
one after the other, each with the scope that is current. -/
inductive Writes : {α : Type} → AnalysisM α → Analysis → List (ExprId × ScopeId) → α → Analysis →
    Prop where
  | quiet {α : Type} {action : AnalysisM α} {before after : Analysis} {value : α} :
      Acts LeavesTypes action → action before = .ok value after → Writes action before [] value after
  | record {id : ExprId} {type : TypeId} {before after : Analysis} :
      TypeCheck.recordExpr id type before = .ok () after →
      Writes (TypeCheck.recordExpr id type) before [(id, before.names.scopes.current)] () after
  | bind {α β : Type} {action : AnalysisM α} {next : α → AnalysisM β} {before middle after : Analysis}
      {first second : List (ExprId × ScopeId)} {found : α} {value : β} :
      Writes action before first found middle → Writes (next found) middle second value after →
      Writes (action >>= next) before (first ++ second) value after
  | read {α : Type} {next : Analysis → AnalysisM α} {before after : Analysis}
      {log : List (ExprId × ScopeId)} {value : α} :
      Writes (next before) before log value after → Writes (get >>= next) before log value after
  | ensuring {α : Type} {cleanup : Analysis → Analysis} {action : AnalysisM α} {before after : Analysis}
      {log : List (ExprId × ScopeId)} {value : α} :
      LeavesTypes cleanup → Writes action before log value after →
      Writes (AnalysisM.ensuring cleanup action) before log value (cleanup after)
  | within {α : Type} {scope : ScopeId} {action : AnalysisM α} {before after : Analysis}
      {log : List (ExprId × ScopeId)} {value : α} :
      Writes action (before.entering scope) log value after →
      Writes (AnalysisM.within scope action) before log value (after.backTo before.names.scopes.depth)

namespace Writes

variable {α : Type} {action : AnalysisM α} {before after : Analysis} {log : List (ExprId × ScopeId)}
  {value : α}

/-- Behind a run the expressions with a type are those that had one before and those in its log. -/
theorem mem_exprTypes (writes : Writes action before log value after) (id : ExprId) :
    id ∈ after.typing.exprTypes ↔ id ∈ before.typing.exprTypes ∨ id ∈ log.map Prod.fst := by
  have keeps {before after : Analysis}
      (same : after.typing.exprTypes[id]? = before.typing.exprTypes[id]?) :
      id ∈ after.typing.exprTypes ↔ id ∈ before.typing.exprTypes := by
    rw [Std.TreeMap.mem_iff_isSome_getElem?, same, ← Std.TreeMap.mem_iff_isSome_getElem?]
  induction writes with
  | quiet acts ran => simpa using keeps (exprTypes_of_leaves acts ran id)
  | @record other type before after ran =>
    cases ran
    simp only [Std.TreeMap.mem_insert, Std.compare_eq_iff_eq, List.map_cons, List.map_nil,
      List.mem_singleton]
    rw [or_comm, eq_comm]
  | bind _ _ first second =>
    refine second.trans ((or_congr_left first).trans ?_)
    rw [List.map_append, List.mem_append, or_assoc]
  | read _ inductionHypothesis => exact inductionHypothesis
  | ensuring leaves _ inductionHypothesis => exact (keeps (leaves _ id)).trans inductionHypothesis
  | within _ inductionHypothesis => exact inductionHypothesis

end Writes

namespace TypeCheck

variable {tree : Tree} {loose : List Node} {names : Resolution}

/-! ### Nodes without expressions -/

/-- Below a written type there are written types only. -/
theorem not_reaches_of_type {type : TypeExprId} {id : ExprId} :
    ¬tree.Reaches (.type type) (.expr id) := by
  have below {node : Node} (reaches : tree.Reaches (.type type) node) : ∃ other, node = .type other := by
    induction reaches with
    | refl => exact ⟨type, rfl⟩
    | tail _ isPart inductionHypothesis =>
      obtain ⟨other, rfl⟩ := inductionHypothesis
      cases isType : tree.types.get? other with
      | none => simp [Tree.parts, isType] at isPart
      | some written =>
        simp only [Tree.parts, isType, Option.map_some, Option.getD_some] at isPart
        exact Tree.mem_typeParts isPart
  intro reaches
  obtain ⟨_, impossible⟩ := below reaches
  cases impossible

/-- There is no expression below a declaration without an initial value, if there is none below its
other parts. -/
theorem not_reaches_of_decl {id : DeclId} {decl : Decl} (isDecl : tree.decls.get? id = some decl)
    (noInit : decl.init = none) {expr : ExprId}
    (others : ∀ part ∈ decl.form.parts, ¬tree.Reaches part (.expr expr)) :
    ¬tree.Reaches (.decl kind id) (.expr expr) := by
  intro reaches
  rcases Relation.ReflTransGen.cases_head reaches with same | ⟨part, isPart, below⟩
  · nomatch same
  · have parts : tree.parts (.decl kind id) = (decl.type.map .type).toList ++ decl.form.parts := by
      simp [Tree.parts, isDecl, Decl.parts, noInit]
    rw [parts] at isPart
    rcases List.mem_append.mp isPart with isType | isOther
    · obtain ⟨type, -, rfl⟩ := Option.map_eq_some_iff.mp (Option.mem_toList.mp isType)
      exact not_reaches_of_type below
    · exact others part isOther below

/-- There is no expression below a variable without an initial value, a template parameter or an
import. -/
theorem not_reaches_of_leaf {id : DeclId} {decl : Decl} (isDecl : tree.decls.get? id = some decl)
    (leaf : decl.kind.isVariable ∨ decl.kind = .templateParam ∨ decl.kind = .importDecl)
    (noInit : decl.init = none) {expr : ExprId} : ¬tree.Reaches (.decl kind id) (.expr expr) := by
  refine not_reaches_of_decl isDecl noInit ?_
  rw [Decl.form_parts_of_leaf leaf]
  exact nofun

/-- There is no expression below a part that is not checked with its whole, unless it is a class that
is in no order. -/
theorem not_reaches_of_unchecked (forest : tree.Forest loose) (bare : tree.Bare) {node : Node}
    (holds : tree.Holds node) (unchecked : isChecked names node = false)
    (listed : ∀ id, node = .decl .classDecl id → id ∈ names.order) {expr : ExprId} :
    ¬tree.Reaches node (.expr expr) := by
  have leaf {kind : DeclKind} {id : DeclId} (holds : tree.Holds (.decl kind id))
      (isLeaf : kind = .templateParam ∨ kind = .importDecl) :
      ¬tree.Reaches (.decl kind id) (.expr expr) := by
    obtain ⟨decl, isDecl, rfl⟩ := Option.map_eq_some_iff.mp (show tree.kindOf? id = _ from holds)
    refine not_reaches_of_leaf isDecl (.inr isLeaf) (forest.init_eq_none isDecl ?_)
    rcases isLeaf with isKind | isKind <;> rw [isKind] <;> rfl
  cases node with
  | type id => exact not_reaches_of_type
  | decl kind id =>
    cases kind with
    | importDecl => exact leaf holds (.inr rfl)
    | templateParam => exact leaf holds (.inl rfl)
    | classDecl => simp [isChecked, listed id rfl] at unchecked
    | enum =>
      obtain ⟨decl, isDecl, isEnum⟩ := Option.map_eq_some_iff.mp (show tree.kindOf? id = _ from holds)
      obtain ⟨consts, form⟩ := Decl.form_of_enum isEnum
      refine not_reaches_of_decl isDecl (forest.init_eq_none isDecl (by rw [isEnum]; rfl)) ?_
      rw [form]
      intro part member
      obtain ⟨const, isConst, rfl⟩ := List.mem_map.mp member
      have isPart : .decl .enumConst const ∈ tree.parts (.decl .enum id) :=
        tree.const_mem_parts (by simp [isDecl, Decl.consts?, form]) isConst
      obtain ⟨other, isOther, isKind⟩ := Option.map_eq_some_iff.mp
        (show tree.kindOf? const = _ from forest.holds_part isPart)
      exact not_reaches_of_leaf isOther (.inl (by rw [isKind]; rfl)) (bare.consts isOther isKind)
    | _ => cases unchecked
  | _ => cases unchecked

/-! ### The log of a walk -/

theorem Aims.leavesTypes {area : ExprId → Prop} {α : Type} {action : AnalysisM α}
    (aims : Aims tree area action) : Acts LeavesTypes action := by
  have leaves {change : Analysis → Analysis} (change : TypingChange nowhere change) :
      LeavesTypes _ := fun state id => congrArg Prod.fst (change.outside state id fun never => never)
  refine ActsOver.expand aims (fun _ change => leaves change.toTypingChange) fun aiming => ?_
  cases aiming with
  | conversion conversion =>
    have checks : Checks tree nowhere _ := .block conversion
    exact (checks.acts tree).mono fun _ => leaves
  | target inside decl => exact .modify fun _ _ => rfl

/-- A part is in a node that is checked in some scope, and is checked in the scope it has there. -/
def Nested (tree : Tree) (names : Resolution) (whole part : Node × ScopeId) : Prop :=
  part.1 ∈ tree.parts whole.1 ∧ ScopedPart tree names whole.2 whole.1 part

/-- A log is about the expressions below some nodes: about each of them once, and in the scope
that it has when the nodes have the given scopes. How the scope of a part follows from that of its
whole is a parameter. -/
structure Logs (tree : Tree) (nested : Node × ScopeId → Node × ScopeId → Prop)
    (parts : List (Node × ScopeId)) (log : List (ExprId × ScopeId)) : Prop where
  once : (log.map Prod.fst).Nodup
  covers : ∀ id, id ∈ log.map Prod.fst ↔ ∃ part ∈ parts.map Prod.fst, tree.Reaches part (.expr id)
  scopes : ∀ entry ∈ log, ∃ part ∈ parts,
    Relation.ReflTransGen nested part (.expr entry.1, entry.2)

/-- The parts of a node that are checked with it are the only ones with expressions below them. -/
theorem mem_below (forest : tree.Forest loose) (bare : tree.Bare) {node : Node}
    (holds : tree.Holds node) {nodes : List Node} (same : nodes.Perm (checkedParts tree names node))
    (listed : ∀ id, tree.Reaches node (.decl .classDecl id) → id ∈ names.order) (id : ExprId) :
    tree.Reaches node (.expr id) ↔
      node = .expr id ∨ ∃ part ∈ nodes, tree.Reaches part (.expr id) := by
  constructor
  · intro below
    rcases Relation.ReflTransGen.cases_head below with isNode | ⟨part, isPart, below⟩
    · exact .inl isNode
    · refine .inr ⟨part, same.mem_iff.mpr (List.mem_filter.mpr ⟨isPart, ?_⟩), below⟩
      by_contra unchecked
      refine not_reaches_of_unchecked forest bare (forest.holds_part isPart)
        (Bool.eq_false_iff.mpr unchecked) ?_ below
      rintro other rfl
      exact listed other (.single isPart)
  · rintro (rfl | ⟨part, member, below⟩)
    · exact .refl
    · exact .head (List.mem_of_mem_filter (same.mem_iff.mp member)) below

namespace Logs

variable {nested : Node × ScopeId → Node × ScopeId → Prop} {parts more : List (Node × ScopeId)}
  {log : List (ExprId × ScopeId)}

theorem nil : Logs tree nested [] [] := ⟨.nil, by simp, nofun⟩

theorem append {whole : Node} {late : List (ExprId × ScopeId)} (logs : Logs tree nested parts log)
    (logsLate : Logs tree nested more late)
    (apart : Apart tree whole (parts.map Prod.fst ++ more.map Prod.fst)) :
    Logs tree nested (parts ++ more) (log ++ late) where
  once := by
    rw [List.map_append]
    refine List.nodup_append.mpr ⟨logs.once, logsLate.once, ?_⟩
    rintro id early _ isLate rfl
    obtain ⟨part, member, below⟩ := (logs.covers id).mp early
    obtain ⟨other, member', below'⟩ := (logsLate.covers id).mp isLate
    exact (apart.elsewhere_right member below).2 other member' below'
  covers id := by
    simp only [List.map_append, List.mem_append, logs.covers, logsLate.covers, or_and_right, exists_or]
  scopes entry member := by
    rcases List.mem_append.mp member with early | isLate
    · obtain ⟨part, isPart, nested⟩ := logs.scopes entry early
      exact ⟨part, List.mem_append_left _ isPart, nested⟩
    · obtain ⟨part, isPart, nested⟩ := logsLate.scopes entry isLate
      exact ⟨part, List.mem_append_right _ isPart, nested⟩

variable (logs : Logs tree nested parts log) {node : Node} {scope : ScopeId}
  (inside : ∀ part ∈ parts, nested (node, scope) part)
  (below : ∀ id, tree.Reaches node (.expr id) ↔
    node = .expr id ∨ ∃ part ∈ parts.map Prod.fst, tree.Reaches part (.expr id))

include inside logs

/-- What is nested in a part of a node is nested in the node. -/
theorem scopes_whole :
    ∀ entry ∈ log, Relation.ReflTransGen nested (node, scope) (.expr entry.1, entry.2) := by
  intro entry member
  obtain ⟨part, isPart, deeper⟩ := logs.scopes entry member
  exact .head (inside part isPart) deeper

include below

/-- The log about the parts of a node that is no expression is one about the node. -/
theorem ofNode (other : ∀ id, node ≠ .expr id) : Logs tree nested [(node, scope)] log where
  once := logs.once
  covers id := by
    rw [logs.covers]
    simp [below, other]
  scopes entry member := ⟨_, .head _, logs.scopes_whole inside entry member⟩

/-- The log about an expression is the one about its parts, and the expression itself. -/
theorem ofExpr {id : ExprId} (isExpr : node = .expr id)
    (proper : ∀ part ∈ parts.map Prod.fst, ¬tree.Reaches part (.expr id)) :
    Logs tree nested [(node, scope)] (log ++ [(id, scope)]) where
  once := by
    rw [List.map_append]
    refine List.nodup_append.mpr ⟨logs.once, List.nodup_singleton _, ?_⟩
    rintro _ early _ isLate rfl
    obtain rfl := List.mem_singleton.mp isLate
    obtain ⟨part, member, reaches⟩ := (logs.covers _).mp early
    exact proper part member reaches
  covers other := by
    have below := below other
    rw [isExpr] at below
    simp only [List.map_append, List.mem_append, logs.covers]
    simp [isExpr, below, or_comm, eq_comm]
  scopes entry member := by
    refine ⟨_, .head _, ?_⟩
    rcases List.mem_append.mp member with early | isLate
    · exact logs.scopes_whole inside entry early
    · obtain rfl := List.mem_singleton.mp isLate
      rw [isExpr]

end Logs

namespace Walks

variable {α : Type} {action : AnalysisM α} {scope : ScopeId} {whole : Node}
  {parts : List (Node × ScopeId)} {before after : Analysis} {value : α}

/-- A walk leaves the names as they are. -/
theorem names_eq (walks : Walks tree names scope whole parts action)
    (isNames : before.names.atRest = names) (ran : action before = .ok value after) :
    after.names = before.names := by
  induction walks generalizing before after with
  | aside aims =>
    have same := (aims.checks.acts tree).names_eq (fun _ change => change.names) before
    rwa [ran] at same
  | declare _ _ =>
    cases ran
    rfl
  | bind _ _ first second =>
    obtain ⟨found, middle, ran, goesOn⟩ := AnalysisM.bind_eq_ok ran
    have same := first isNames ran
    exact (second found (same ▸ isNames) goesOn).trans same
  | read _ inductionHypothesis => exact inductionHypothesis before isNames isNames ran
  | ensuring names _ _ _ inductionHypothesis =>
    obtain ⟨middle, runs, rfl⟩ := AnalysisM.ensuring_eq_ok ran
    exact (names middle).trans (inductionHypothesis isNames runs)
  | within inner _ inductionHypothesis =>
    rw [AnalysisM.within_eq] at ran
    obtain ⟨middle, runs, rfl⟩ := AnalysisM.ensuring_eq_ok ran
    have same := @inductionHypothesis (before.entering inner) _ _ isNames runs
    simp [Analysis.backTo, same, Analysis.entering, ScopeTable.truncate, ScopeTable.enter,
      ScopeTable.depth]
  | node _ _ _ _ _ inductionHypothesis => exact inductionHypothesis isNames ran
  | expr _ _ isCheck _ _ _ inductionHypothesis =>
    rw [isCheck] at ran
    obtain ⟨middle, finds, records⟩ := recordExpr_of_ok ran
    cases records
    exact (inductionHypothesis isNames finds : middle.names = before.names)

/-- The parts that are checked with a node are nested in it. -/
theorem nested_parts {node : Node} (same : (parts.map Prod.fst).Perm (checkedParts tree names node))
    (nested : ∀ part ∈ parts, ScopedPart tree names scope node part) :
    ∀ part ∈ parts, Nested tree names (node, scope) part :=
  fun part member => ⟨mem_parts_of_perm same _ (List.mem_map_of_mem member), nested part member⟩

/-- A walk that comes to its end writes about each expression below the parts that it checks, and
about no other, if the classes that it comes by are in the order of resolution. -/
theorem writes (forest : tree.Forest loose) (bare : tree.Bare)
    (walks : Walks tree names scope whole parts action)
    (apart : Apart tree whole (parts.map Prod.fst))
    (listed : ∀ part ∈ parts.map Prod.fst, ∀ id, tree.Reaches part (.decl .classDecl id) →
      id ∈ names.order)
    (isNames : before.names.atRest = names) (isScope : before.names.scopes.current = scope)
    (ran : action before = .ok value after) :
    ∃ log, Writes action before log value after ∧ Logs tree (Nested tree names) parts log := by
  induction walks generalizing before after with
  | aside aims =>
    exact ⟨[], .quiet aims.leavesTypes ran, .nil⟩
  | declare _ _ => exact ⟨[], .quiet (.modify fun _ _ => rfl) ran, .nil⟩
  | bind firstWalk _ first second =>
    rw [List.map_append] at apart listed
    obtain ⟨found, middle, ran, goesOn⟩ := AnalysisM.bind_eq_ok ran
    have same := firstWalk.names_eq isNames ran
    obtain ⟨early, writesEarly, logsEarly⟩ := first apart.left
      (fun part member => listed part (List.mem_append_left _ member)) isNames isScope ran
    obtain ⟨late, writesLate, logsLate⟩ := second found apart.right
      (fun part member => listed part (List.mem_append_right _ member))
      (same ▸ isNames) (same ▸ isScope) goesOn
    exact ⟨early ++ late, .bind writesEarly writesLate, logsEarly.append logsLate apart⟩
  | read _ inductionHypothesis =>
    obtain ⟨log, writes, logs⟩ := inductionHypothesis before isNames apart listed isNames isScope ran
    exact ⟨log, .read writes, logs⟩
  | ensuring _ typing _ _ inductionHypothesis =>
    obtain ⟨middle, runs, rfl⟩ := AnalysisM.ensuring_eq_ok ran
    obtain ⟨log, writes, logs⟩ := inductionHypothesis apart listed isNames isScope runs
    exact ⟨log, .ensuring (fun state id => by rw [typing]) writes, logs⟩
  | within inner _ inductionHypothesis =>
    rw [AnalysisM.within_eq] at ran
    obtain ⟨middle, runs, rfl⟩ := AnalysisM.ensuring_eq_ok ran
    obtain ⟨log, writes, logs⟩ :=
      @inductionHypothesis (before.entering inner) _ _ apart listed isNames rfl runs
    exact ⟨log, .within writes, logs⟩
  | node holds other _ same nested inductionHypothesis =>
    have listed := listed _ (.head _)
    obtain ⟨log, writes, logs⟩ := inductionHypothesis
      (.of_parts forest holds (once_of_perm forest same) (mem_parts_of_perm same))
      (fun part member id below => listed id (.head (mem_parts_of_perm same part member) below))
      isNames isScope ran
    exact ⟨log, writes, logs.ofNode (nested_parts same nested) (mem_below forest bare holds same listed)
      other⟩
  | @expr _ _ _ _ _ id _ find _ holds isCheck walk same nested inductionHypothesis =>
    have listed := listed _ (.head _)
    rw [isCheck] at ran ⊢
    obtain ⟨middle, finds, records⟩ := recordExpr_of_ok ran
    obtain ⟨log, writes, logs⟩ := inductionHypothesis
      (.of_parts forest holds (once_of_perm forest same) (mem_parts_of_perm same))
      (fun part member id below => listed id (.head (mem_parts_of_perm same part member) below))
      isNames isScope finds
    have isScope : middle.names.scopes.current = _ := walk.names_eq isNames finds ▸ isScope
    have ends : Writes (recordExpr id value >>= fun _ => pure value) middle
        ([(id, middle.names.scopes.current)] ++ []) value after :=
      .bind (.record records) (.quiet (.pure _) rfl)
    rw [isScope, List.append_nil] at ends
    exact ⟨_, .bind writes ends, logs.ofExpr (nested_parts same nested)
      (mem_below forest bare holds same listed) rfl fun part member =>
        forest.not_reaches_whole holds (mem_parts_of_perm same part member)⟩

end Walks

/-! ### Programs -/

/-- The check of a program writes about the expressions below the units that were resolved. -/
theorem writes_program (forest : tree.Forest loose) (bare : tree.Bare) {parent : Nat}
    (ran : program tree parent before = .ok () after) (once : before.names.unitOrder.Nodup)
    (hold : ∀ unit ∈ before.names.unitOrder, tree.Holds (.unit unit))
    (listed : ∀ unit ∈ before.names.unitOrder, ∀ id,
      tree.Reaches (.unit unit) (.decl .classDecl id) → id ∈ before.names.order) :
    ∃ log, Writes (program tree parent) before log () after ∧
      Logs tree (Nested tree before.names.atRest)
        (before.names.unitOrder.map fun unit => (.unit unit, before.names.scopes.current)) log := by
  have nodes : (before.names.unitOrder.map fun unit =>
      (Node.unit unit, before.names.scopes.current)).map Prod.fst =
        before.names.unitOrder.map .unit := by
    simp
  have walks : Walks tree before.names.atRest before.names.scopes.current (.unit 0)
      (before.names.unitOrder.map fun unit => (.unit unit, before.names.scopes.current))
      (program tree parent) := walks_program forest hold
  refine walks.writes forest bare (nodes ▸ apart_units forest once hold)
    (fun part member id below => ?_) rfl rfl ran
  obtain ⟨unit, done, rfl⟩ := List.mem_map.mp (nodes ▸ member)
  exact listed unit done id below

end TypeCheck

/-- Every class below a unit that was resolved is in the order of classes. -/
theorem Resolve.order_program {tree : Tree} (forest : tree.Forest loose) {root : UnitId}
    {checked : Bool} {sink : Sink} {trace : Trace.Recorder}
    (ran : Resolve.program tree root checked { sink, trace } = .ok () after) {unit : UnitId}
    (done : unit ∈ after.names.unitOrder) {id : DeclId}
    (below : tree.Reaches (.unit unit) (.decl .classDecl id)) : id ∈ after.names.order := by
  obtain ⟨-, hold⟩ := Resolve.units_program forest ran
  have isClass : id ∈ Lexical.classesOf tree unit := by
    rcases Relation.ReflTransGen.cases_head below with same | ⟨part, isPart, below⟩
    · cases same
    · obtain rfl := forest.eq_of_reaches_class (forest.holds_part isPart)
        (fun other isUnit => tree.unit_notMem_parts _ other (isUnit ▸ isPart)) below
      obtain ⟨body, isUnit⟩ := Option.isSome_iff_exists.mp (hold unit done)
      simpa [Tree.parts, isUnit, ProgramUnit.parts, Lexical.classesOf] using isPart
  cases present : tree.units.get? root with
  | some body =>
    obtain ⟨model, sound, listed, -, uniform⟩ := Lexical.program_keeps forest
      (Option.isSome_iff_exists.mpr ⟨body, present⟩) checked (Lexical.listed_empty tree {} trace)
      (Lexical.Step.listed forest)
    rw [(uniform sink after ran).1] at done ⊢
    exact (listed.classOrder sound).classes.mem_iff.mpr (List.mem_flatMap_of_mem done isClass)
  | none =>
    obtain ⟨model, -, ends, uniform⟩ := Lexical.program_ends forest root checked {} trace
    obtain ⟨final, ranQuietly⟩ := ends {} Sink.quiet_open
    have nothing := Lexical.program_absent present ranQuietly
    rw [(uniform sink after ran).1, ← (uniform {} final ranQuietly).1, nothing] at done
    cases done

/-- Resolution closes the scopes that it opens. -/
theorem Resolve.stack_program {tree : Tree} (forest : tree.Forest loose) {root : UnitId}
    {checked : Bool} {sink : Sink} {trace : Trace.Recorder}
    (ran : Resolve.program tree root checked { sink, trace } = .ok () after) :
    after.names.scopes.stack = [] := by
  have restores : Restores tree _ { sink, trace } Any _ :=
    Resolve.restores_program forest (.empty tree) root checked
  unfold Restores at restores
  rw [ran] at restores
  exact restores.2.1

/-- No written type leaves out an argument. -/
def Tree.WritesArgs (tree : Tree) : Prop :=
  ∀ id written name args, tree.types.get? id = some written → written.form = .named name args →
    none ∉ args

theorem Tree.WritesArgs.complete {tree : Tree} (forest : tree.Forest loose)
    (writesArgs : tree.WritesArgs) (id : TypeExprId) (written : TypeExpr) (name : NameId)
    (args : List (Option TypeExprId)) (isType : tree.types.get? id = some written)
    (form : written.form = .named name args) : ∀ arg ∈ args, tree.typeAt? arg ≠ none := by
  intro arg member
  cases arg with
  | none => exact absurd member (writesArgs id written name args isType form)
  | some arg =>
    have isPart : .type arg ∈ tree.parts (.type id) := by
      simp only [Tree.parts, isType, Option.map_some, Option.getD_some, form, TypeExprForm.parts]
      exact List.mem_filterMap.mpr ⟨some arg, member, rfl⟩
    obtain ⟨inner, isInner⟩ := Option.isSome_iff_exists.mp (forest.holds_part isPart)
    simp [Tree.typeAt?, isInner]

/-- When a program was resolved no scope is open, and checking it leaves the names as they were, the
open scopes included, however it ends. Unless a report raises or a written type leaves out an
argument it comes to its end. Then it has written the types of the expressions below the units that
were resolved, of each of them once, and of no others: these are the expressions that have a type. -/
theorem TypeCheck.expressions_written_once {loader : Loader} (loaded : loader.Reached) (root : UnitId)
    (checked : Bool) (trace : Trace.Recorder) :
    (∀ sink : Sink, sink.Quiet → ∃ resolved,
      Resolve.program loader.tree root checked { sink, trace } = .ok () resolved) ∧
    ∀ (sink : Sink) (resolved : Analysis),
      Resolve.program loader.tree root checked { sink, trace } = .ok () resolved →
      resolved.names.scopes.stack = [] ∧
      ∀ (sink' : Sink) (trace' : Trace.Recorder) (span : Nat),
        (Acts.behind (program loader.tree span { resolved with sink := sink', trace := trace' })).names =
          resolved.names ∧
        (sink'.Quiet → loader.tree.WritesArgs → ∃ final,
          program loader.tree span { resolved with sink := sink', trace := trace' } = .ok () final) ∧
        ∀ final, program loader.tree span { resolved with sink := sink', trace := trace' } =
          .ok () final →
          ∃ log, Writes (program loader.tree span) { resolved with sink := sink', trace :=
            trace' } log ()
              final ∧
            (log.map Prod.fst).Nodup ∧
            (∀ id, id ∈ log.map Prod.fst ↔
              ∃ unit ∈ final.names.unitOrder, loader.tree.Reaches (.unit unit) (.expr id)) ∧
            ∀ id, id ∈ final.typing.exprTypes ↔
              ∃ unit ∈ final.names.unitOrder, loader.tree.Reaches (.unit unit) (.expr id) := by
  have forest := loaded.forest
  obtain ⟨-, -, ends, -⟩ := Lexical.program_ends forest root checked {} trace
  refine ⟨ends, fun sink resolved resolves => ⟨?_, fun sink' trace' span => ⟨?_, ?_, ?_⟩⟩⟩
  · exact Resolve.stack_program forest resolves
  · exact (acts_program loader.tree span).names_eq (fun _ change => change.names) _
  · intro quiet writesArgs
    have steady : Steady (TypingChange everywhere) (program loader.tree span) :=
      (checks_program loader.tree span).steady loader.tree (writesArgs.complete forest)
    have quiet : ({ resolved with sink := sink', trace := trace' } : Analysis).sink.Quiet := quiet
    obtain ⟨_, final, ran, -⟩ := steady.ends (fun _ change => change.sinkFree) quiet
    exact ⟨final, ran⟩
  · intro final ran
    obtain ⟨once, hold⟩ := Resolve.units_program forest resolves
    have names : final.names = resolved.names := (names_program ran).trans rfl
    obtain ⟨log, writes, logs⟩ := writes_program forest loaded.bare ran once hold
      fun unit done id below => Resolve.order_program forest resolves done below
    have covers (id : ExprId) : id ∈ log.map Prod.fst ↔
        ∃ unit ∈ final.names.unitOrder, loader.tree.Reaches (.unit unit) (.expr id) := by
      rw [logs.covers, names]
      simp
    have typing : resolved.typing = {} := Resolve.typing_program resolves
    refine ⟨log, writes, logs.once, covers, fun id => ?_⟩
    rw [writes.mem_exprTypes, covers]
    simp [typing]

/-- A global variable with a call that fits no function as its initial value, and a function with a
loop whose condition is no truth value. -/
def wrongCall : Loader :=
  let literal (lit value : String) : Option Doc.Expr := some { kind := "lit", lit, value }
  let document : Doc.Document :=
    { version := 1
      units := [some
        { path := "main"
          globals := [some
            { name := "g"
              init := some { kind := "call", name := "f", args := [literal "bool" "true"] } }]
          functions := [some
            { name := "f"
              body := [some
                { kind := "while", cond := literal "int" "1"
                  body := some { kind := "return", value := literal "int" "2" } }] }] }] }
  Loader.behind (Loader.load document {})

/-- The program when it was resolved. -/
def wrongCallResolved : Analysis := Acts.behind (Resolve.program wrongCall.tree 1 true {})

/-- The program when it was checked. -/
def wrongCallChecked : Analysis :=
  Acts.behind (TypeCheck.program wrongCall.tree 0 wrongCallResolved)

/-- Both runs come to their end, and all four expressions have a type then. -/
theorem wrongCall_runs :
    Acts.ended (Resolve.program wrongCall.tree 1 true {}) ∧
      Acts.ended (TypeCheck.program wrongCall.tree 0 wrongCallResolved) ∧
      wrongCallChecked.sink.bag.items.map (·.code) =
        [.noMatchingOverload, .conditionNotBool, .voidReturnValue] ∧
      wrongCallChecked.typing.exprTypes.keys = [1, 2, 3, 4] := by
  simp only [wrongCallChecked, wrongCallResolved, wrongCall, Loader.load_eq_loadWithin]
  decide +kernel

/-- All four expressions are written, those with errors too. -/
theorem TypeCheck.expressions_written_once_wrongCall :
    wrongCallChecked.sink.bag.items.map (·.code) =
        [.noMatchingOverload, .conditionNotBool, .voidReturnValue] ∧
      ∃ log, Writes (program wrongCall.tree 0) wrongCallResolved log () wrongCallChecked ∧
        (log.map Prod.fst).Perm [1, 2, 3, 4] := by
  obtain ⟨resolves, checks, items, keys⟩ := wrongCall_runs
  have loaded : wrongCall.Reached := .load _ (.fresh {})
  obtain ⟨-, checking⟩ :=
    (expressions_written_once loaded 1 true {}).2 {} _ (Acts.eq_ok_behind resolves)
  obtain ⟨-, -, written⟩ := checking wrongCallResolved.sink wrongCallResolved.trace 0
  obtain ⟨log, writes, once, isLog, isTyped⟩ := written wrongCallChecked (Acts.eq_ok_behind checks)
  refine ⟨items, log, writes, (List.perm_ext_iff_of_nodup once (by decide)).mpr fun id => ?_⟩
  rw [isLog, ← isTyped, ← keys, Std.TreeMap.mem_keys]

end TreeCheck
