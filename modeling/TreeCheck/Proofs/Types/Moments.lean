/-
The moment at which a part of a program is checked. The check of a program goes down to every
statement of every callable, so somewhere in the run there is the check of that statement, with
the callable as its place. What it found is still so in the end: the checks of other parts record
nothing about the expressions below it, what is in the table of types stays as it is, and
callables keep the types of their results.

The rules below take a check apart from the outside to the inside. Each says that where a check
happened on the way to some state, so did the part of it that is looked for.
-/

import TreeCheck.Proofs.Scoping.Keying
import TreeCheck.Proofs.Types.Folding
import TreeCheck.Proofs.Types.Results
import TreeCheck.Proofs.Types.Writing

namespace TreeCheck

open Resolve

/-- What is no result in a table of types stays so. -/
theorem TypeTable.Keeps.kindOf_of_void {before after : TypeTable} (keeps : before.Keeps after)
    {id : TypeId}
    (isVoid : before.kindOf id = .void) : after.kindOf id = .void := by
  cases isForm : before.form? id with
  | none => simp [TypeTable.kindOf, isForm] at isVoid
  | some form =>
    rw [kindOf_of_form? isForm] at isVoid
    rw [kindOf_of_form? (keeps.grows.form?_of_some isForm), isVoid]

namespace TypeCheck

open AnalysisM

variable {tree : Tree} {loose : List Node} {names : Resolution} {kept : ExprId → Prop}
  {before middle after final : Analysis} {α β : Type} {action : AnalysisM α}
  {next : α → AnalysisM β} {found : α} {value : β} {place : Place} {floor : Nat}

/-! ### States between checks -/

/-- A state between checks: the names are those that resolution left, types are what the
declarations say, and what is recorded is in the table, which has some number of types at least. -/
structure Ready (tree : Tree) (names : Resolution) (floor : Nat) (state : Analysis) : Prop where
  names : state.names.atRest = names
  declares : Declares tree state.typing.types state
  grounded : Grounded state.typing
  room : floor ≤ state.typing.types.size

/-- From a state on to a later one what is known is kept, and everything about some expressions. -/
structure Onward (tree : Tree) (kept : ExprId → Prop) (before after : Analysis) : Prop
    extends before.Keeps kept after where
  table : before.typing.types.Keeps after.typing.types
  results : KeepsResults tree before after

namespace Onward

theorem refl (state : Analysis) : Onward tree kept state state :=
  ⟨.refl _, .refl _, fun _ _ known => known⟩

theorem trans (first : Onward tree kept before middle) (second : Onward tree kept middle after) :
    Onward tree kept before after :=
  ⟨first.toKeeps.trans second.toKeeps, first.table.trans second.table,
    fun isDecl isCallable known =>
      second.results isDecl isCallable (first.results isDecl isCallable known)⟩

theorem mono {fewer : ExprId → Prop} (onward : Onward tree kept before after)
    (less : ∀ id, fewer id → kept id) : Onward tree fewer before after :=
  ⟨onward.toKeeps.mono less, onward.table, onward.results⟩

end Onward

/-- Nothing changes but which scopes are open, the sink and the trace. -/
structure Calm (before after : Analysis) : Prop where
  names : after.names.atRest = before.names.atRest
  typing : after.typing = before.typing
  sink : after.sink = before.sink

theorem Ready.lower (ready : Ready tree names floor before) : Ready tree names 0 before :=
  { ready with room := Nat.zero_le _ }

theorem Ready.calm (ready : Ready tree names floor before) (calm : Calm before after) :
    Ready tree names floor after := by
  obtain ⟨isNames, declares, grounded, room⟩ := ready
  have bases := congrArg Resolution.bases calm.names
  have typeRefs := congrArg Resolution.typeRefs calm.names
  have declares' := (Redeclares.of_same bases typeRefs calm.typing declares).1
  exact ⟨calm.names.trans isNames, declares'.rebase, calm.typing ▸ grounded, calm.typing ▸ room⟩

theorem Onward.calm (calm : Calm before after) : Onward tree kept before after := by
  obtain ⟨isNames, typing, sink⟩ := calm
  refine ⟨⟨isNames, typing ▸ .refl _, fun _ _ => by rw [typing], fun clean => sink ▸ clean⟩,
    typing ▸ .refl _, fun _ _ known => typing ▸ known⟩

/-! ### Actions that leave some expressions alone -/

/-- Between checks, an action leads on to a state between checks, and records nothing about some
expressions. -/
structure Passes (tree : Tree) (names : Resolution) (floor : Nat) (kept : ExprId → Prop)
    (action : AnalysisM α) : Prop where
  leads : ∀ {before value after}, Ready tree names floor before → action before = .ok value after →
    Ready tree names floor after ∧ Onward tree kept before after

/-- What may be asked for of the table, whatever it is. -/
abbrev Supplied (floor : Nat) (action : AnalysisM α) : Prop :=
  ∀ state : Analysis, Grounded state.typing → floor ≤ state.typing.types.size →
    ∃ post, Asks (fun _ _ => True) state post action

/-- The expressions below a node. -/
abbrev Beneath (tree : Tree) (node : Node) (id : ExprId) : Prop := tree.Reaches node (.expr id)

/-- None of some expressions is below a node. -/
abbrev Spares (tree : Tree) (kept : ExprId → Prop) (node : Node) : Prop :=
  ∀ id, kept id → ¬tree.Reaches node (.expr id)

theorem spares_none (tree : Tree) (node : Node) : Spares tree (fun _ => False) node :=
  fun _ never => never.elim

namespace Passes

/-- A check of some nodes records nothing about expressions elsewhere. -/
theorem of_walk (forest : tree.Forest loose) {parts : List (Node × ScopeId)}
    (walks : Walks tree names 0 (.unit 0) parts action) (supplied : Supplied floor action)
    (apart : ∀ part ∈ parts.map Prod.fst, ∀ id, kept id → ¬tree.Reaches part (.expr id)) :
    Passes tree names floor kept action := by
  refine ⟨fun {before value after} ⟨isNames, declares, grounded, room⟩ ran => ?_⟩
  have keeps := walks.keeps isNames ran
  obtain ⟨declares', results⟩ := walks.redeclares forest isNames ran declares
  obtain ⟨_, asks⟩ := supplied before grounded room
  rw [Asks, ran] at asks
  refine ⟨⟨keeps.names.trans isNames, declares'.rebase, asks.1.grounded,
      room.trans declares'.introduces.since.grows.size_le⟩,
    keeps.mono fun id isKept => ⟨nofun, fun part member => apart part member id isKept⟩,
    declares'.introduces.since, results⟩

theorem pure (value : α) : Passes tree names floor kept (Pure.pure value) := by
  refine ⟨fun ready ran => ?_⟩
  cases ran
  exact ⟨ready, .refl _⟩

theorem bind (first : Passes tree names floor kept action)
    (second : ∀ value, Passes tree names floor kept (next value)) :
    Passes tree names floor kept (action >>= next) := by
  refine ⟨fun ready ran => ?_⟩
  obtain ⟨found, middle, ran, goesOn⟩ := bind_eq_ok ran
  obtain ⟨ready', onward⟩ := first.leads ready ran
  obtain ⟨ready'', onward'⟩ := (second found).leads ready' goesOn
  exact ⟨ready'', onward.trans onward'⟩

theorem forM {actions : α → AnalysisM PUnit} {items : List α}
    (each : ∀ item ∈ items, Passes tree names floor kept (actions item)) :
    Passes tree names floor kept (items.forM actions) := by
  induction items with
  | nil => exact pure _
  | cons item rest inductionHypothesis =>
    exact bind (each item (.head _)) fun _ =>
      inductionHypothesis fun other member => each other (.tail _ member)

theorem foldlM {step : β → α → AnalysisM β} {items : List α} {start : β}
    (each : ∀ item ∈ items, ∀ value, Passes tree names floor kept (step value item)) :
    Passes tree names floor kept (items.foldlM step start) := by
  induction items generalizing start with
  | nil => exact pure _
  | cons item rest inductionHypothesis =>
    rw [List.foldlM_cons]
    exact bind (each item (.head _) start) fun _ =>
      inductionHypothesis fun other member => each other (.tail _ member)

theorem optionForM {actions : α → AnalysisM PUnit} {item : Option α}
    (each : ∀ value ∈ item, Passes tree names floor kept (actions value)) :
    Passes tree names floor kept (item.forM actions) := by
  cases item with
  | none => exact pure _
  | some value => exact each value rfl

/-- Turning something into a type records nothing about expressions. -/
theorem of_aims (forest : tree.Forest loose) (aims : Aims tree (Own (.unit 0)) action)
    (supplied : Supplied floor action) : Passes tree names floor kept action :=
  of_walk forest (.aside aims) supplied nofun

/-- The check of a node records nothing about expressions elsewhere. -/
theorem of_check (forest : tree.Forest loose) {node : Node} {scope : ScopeId}
    (walks : Walks tree names 0 (.unit 0) [(node, scope)] action) (supplied : Supplied floor action)
    (spares : Spares tree kept node) : Passes tree names floor kept action :=
  of_walk forest walks supplied fun _ member => List.mem_singleton.mp member ▸ spares

end Passes

/-! ### Moments -/

/-- On the way to a final state a check came to its end, and from there on some expressions were
left alone. -/
def Happens (tree : Tree) (names : Resolution) (floor : Nat) (kept : ExprId → Prop) (check : AnalysisM α)
    (value : α) (final : Analysis) : Prop :=
  ∃ before after, Ready tree names floor before ∧ check before = .ok value after ∧
    Ready tree names 0 after ∧ Onward tree kept after final

namespace Happens

theorem mono (fewer : ExprId → Prop) (happens : Happens tree names floor kept action found final)
    (less : ∀ id, fewer id → kept id) : Happens tree names floor fewer action found final := by
  obtain ⟨before, after, ready, ran, ready', onward⟩ := happens
  exact ⟨before, after, ready, ran, ready', onward.mono less⟩

/-- Both parts of a check happened. -/
theorem bind (happens : Happens tree names floor kept (action >>= next) value final)
    (passes : Passes tree names floor (fun _ => False) action)
    (others : ∀ found, Passes tree names floor kept (next found)) :
    ∃ found, Happens tree names floor kept action found final ∧
      Happens tree names floor kept (next found) value final := by
  obtain ⟨before, after, ready, ran, ready', onward⟩ := happens
  obtain ⟨found, middle, ran, goesOn⟩ := bind_eq_ok ran
  obtain ⟨isReady, -⟩ := passes.leads ready ran
  refine ⟨found, ⟨before, middle, ready, ran, isReady.lower, ?_⟩, middle, after, isReady, goesOn,
    ready', onward⟩
  exact ((others found).leads isReady goesOn).2.trans onward

/-- The second part of a check happened. -/
theorem second (happens : Happens tree names floor kept (action >>= next) value final)
    (passes : Passes tree names floor (fun _ => False) action) :
    ∃ found, Happens tree names floor kept (next found) value final ∧
      ∃ before after, action before = .ok found after := by
  obtain ⟨before, after, ready, ran, ready', onward⟩ := happens
  obtain ⟨found, middle, ran, goesOn⟩ := bind_eq_ok ran
  exact ⟨found, ⟨middle, after, (passes.leads ready ran).1, goesOn, ready', onward⟩, before, middle, ran⟩

/-- The second part of a check happened, and the type that the first part found was in the table. -/
theorem secondThere {action : AnalysisM TypeId} {next : TypeId → AnalysisM β}
    (happens : Happens tree names floor kept (action >>= next) value final)
    (passes : Passes tree names floor (fun _ => False) action)
    (supplies : ∀ state : Analysis, Grounded state.typing →
      Asks (fun _ _ => True) state TypeTable.There action) :
    ∃ found floor, found < floor ∧ Happens tree names floor kept (next found) value final := by
  obtain ⟨before, after, ready, ran, ready', onward⟩ := happens
  obtain ⟨found, middle, ran, goesOn⟩ := bind_eq_ok ran
  have asks := supplies before ready.grounded
  rw [Asks, ran] at asks
  exact ⟨found, found + 1, Nat.lt_succ_self _, middle, after,
    { (passes.leads ready ran).1 with room := asks.2 }, goesOn, ready', onward⟩

theorem read {next : Analysis → AnalysisM α}
    (happens : Happens tree names floor kept (get >>= next) found final) :
    ∃ state, state.names.atRest = names ∧ Happens tree names floor kept (next state) found final := by
  obtain ⟨before, after, ready, ran, ready', onward⟩ := happens
  exact ⟨before, ready.names, before, after, ready, ran, ready', onward⟩

theorem ensuring {cleanup : Analysis → Analysis} (calm : ∀ state, Calm state (cleanup state))
    (happens : Happens tree names floor kept (AnalysisM.ensuring cleanup action) found final) :
    Happens tree names floor kept action found final := by
  obtain ⟨before, after, ready, ran, ready', onward⟩ := happens
  obtain ⟨middle, runs, rfl⟩ := ensuring_eq_ok ran
  have calmBack : Calm (cleanup middle) middle :=
    ⟨(calm middle).names.symm, (calm middle).typing.symm, (calm middle).sink.symm⟩
  exact ⟨before, middle, ready, runs, ready'.calm calmBack, (Onward.calm (calm middle)).trans onward⟩

theorem within {scope : ScopeId}
    (happens : Happens tree names floor kept (AnalysisM.within scope action) found final) :
    Happens tree names floor kept action found final := by
  obtain ⟨before, after, ready, ran, ready', onward⟩ := happens
  rw [within_eq] at ran
  have enters : Calm before (before.entering scope) := ⟨rfl, rfl, rfl⟩
  refine ensuring ?_ ⟨_, after, ready.calm enters, ran, ready', onward⟩
  exact fun _ => ⟨rfl, rfl, rfl⟩

theorem inScope {slot : Option ScopeId}
    (happens : Happens tree names floor kept (TypeCheck.inScope slot action) found final) :
    Happens tree names floor kept action found final := by
  cases slot with
  | none => exact happens
  | some scope => exact happens.within

theorem spanned {grain : Trace.Grain} {name : String} {parent : Nat} {extra : Trace.Extra}
    {action : Nat → AnalysisM α}
    (happens : Happens tree names floor kept
      (AnalysisM.spanned grain name parent extra action) found final) :
    ∃ span, Happens tree names floor kept (action span) found final := by
  obtain ⟨before, after, ready, ran, ready', onward⟩ := happens
  obtain ⟨span, middle, starts, ran⟩ := bind_eq_ok ran
  have calm : Calm before middle := by
    cases starts
    exact ⟨rfl, rfl, rfl⟩
  refine ⟨_, ensuring ?_ ⟨middle, after, ready.calm calm, ran, ready', onward⟩⟩
  exact fun _ => ⟨rfl, rfl, rfl⟩

/-- One of some checks that are done one after the other happened, the last of them if it is done
more than once. -/
theorem forM {actions : α → AnalysisM PUnit} {items : List α} {item : α}
    (happens : Happens tree names floor kept (items.forM actions) ⟨⟩ final) (member : item ∈ items)
    (passes : ∀ other ∈ items, Passes tree names floor (fun _ => False) (actions other))
    (others : ∀ other ∈ items, other ≠ item → Passes tree names floor kept (actions other)) :
    Happens tree names floor kept (actions item) ⟨⟩ final := by
  induction items with
  | nil => nomatch member
  | cons first rest inductionHypothesis =>
    have first' := passes first (.head _)
    by_cases later : item ∈ rest
    · obtain ⟨_, happens, -⟩ := second happens first'
      exact inductionHypothesis happens later (fun other member => passes other (.tail _ member))
        fun other member => others other (.tail _ member)
    · obtain rfl : item = first := (List.mem_cons.mp member).resolve_right later
      obtain ⟨_, happens, -⟩ := bind happens first' fun _ => .forM fun other member =>
        others other (.tail _ member) fun same => later (same ▸ member)
      exact happens

theorem foldlM {step : β → α → AnalysisM β} {items : List α} {item : α} {start : β}
    (happens : Happens tree names floor kept (items.foldlM step start) value final)
      (member : item ∈ items)
    (passes : ∀ other ∈ items, ∀ value, Passes tree names floor (fun _ => False) (step value other))
    (others : ∀ other ∈ items, other ≠ item → ∀ value, Passes tree names floor kept (step value other)) :
    ∃ start value, Happens tree names floor kept (step start item) value final := by
  induction items generalizing start with
  | nil => nomatch member
  | cons first rest inductionHypothesis =>
    rw [List.foldlM_cons] at happens
    have first' := passes first (.head _) start
    by_cases later : item ∈ rest
    · obtain ⟨_, happens, -⟩ := second happens first'
      exact inductionHypothesis happens later (fun other member => passes other (.tail _ member))
        fun other member => others other (.tail _ member)
    · obtain rfl : item = first := (List.mem_cons.mp member).resolve_right later
      obtain ⟨value, happens, -⟩ := bind happens first' fun _ => .foldlM fun other member =>
        others other (.tail _ member) fun same => later (same ▸ member)
      exact ⟨start, value, happens⟩

theorem optionForM {actions : α → AnalysisM PUnit} {item : Option α} {value : α}
    (happens : Happens tree names floor kept (item.forM actions) ⟨⟩ final) (isItem : item = some value) :
    Happens tree names floor kept (actions value) ⟨⟩ final := by
  subst isItem
  exact happens

end Happens

/-! ### Checks that leave some expressions alone -/

section Checks

variable (forest : tree.Forest loose)

include forest

/-- What is below a part of a node is below no other part of it. -/
theorem spares_part {whole part other : Node} (holds : tree.Holds whole)
    (isPart : part ∈ tree.parts whole)
    (isOther : other ∈ tree.parts whole) (different : other ≠ part) :
    Spares tree (Beneath tree part) other :=
  fun _ below below' => different (forest.parts_apart holds isOther isPart below' below)

theorem passes_expr {id : ExprId} {expected : TypeId} (there : expected = 0 ∨ expected < floor)
    (holds : tree.Holds (.expr id)) (spares : Spares tree kept (.expr id)) :
    Passes tree names floor kept (expr tree place id expected) := by
  refine .of_check forest (walks_expr forest place holds expected)
    (fun _ grounded room => ⟨_, yields_expr permits_any tree place id expected _ grounded ?_⟩) spares
  rcases there with rfl | there
  · exact grounded.zero
  · exact Nat.lt_of_lt_of_le there room

theorem passes_checkCondition {cond : ExprId} (holds : tree.Holds (.expr cond))
    (spares : Spares tree kept (.expr cond)) :
    Passes tree names floor kept (checkCondition tree place cond) :=
  .of_check forest (walks_checkCondition forest place holds)
    (fun _ grounded _ => ⟨_, asks_checkCondition permits_any tree grounded place cond⟩) spares

theorem passes_checkInt {id : ExprId} (holds : tree.Holds (.expr id))
    (spares : Spares tree kept (.expr id)) (code : Code) :
    Passes tree names floor kept (checkInt tree (expr tree place) code id) :=
  .of_check forest (walks_checkInt (walks_expr forest place holds _) code)
    (fun _ grounded _ =>
      ⟨_, asks_checkInt tree (yields_expr permits_any tree place) grounded code id⟩) spares

theorem passes_checkCaseValue {subject : TypeId} (there : subject < floor) {value : ExprId}
    (holds : tree.Holds (.expr value)) (spares : Spares tree kept (.expr value)) :
    Passes tree names floor kept (checkCaseValue tree place subject value) :=
  .of_check forest (walks_checkCaseValue forest place subject holds)
    (fun _ grounded room => ⟨_, asks_checkCaseValue permits_any tree grounded place
      (Nat.lt_of_lt_of_le there room) value⟩) spares

theorem passes_checkCounter {counter : DeclId} (holds : tree.Holds (.decl .localVar counter))
    (spares : Spares tree kept (.decl .localVar counter)) :
    Passes tree names floor kept (checkCounter tree place counter) :=
  .of_check forest (walks_checkCounter forest place holds)
    (fun _ grounded _ => ⟨_, asks_checkCounter permits_any tree grounded place counter⟩) spares

theorem passes_stmtWithin {fuel id : Nat} (enough : id < fuel) (holds : tree.Holds (.stmt id))
    (notBody : ¬IsBody tree (.stmt id)) (spares : Spares tree kept (.stmt id)) :
    Passes tree names floor kept (stmtWithin tree place fuel id) :=
  .of_check forest (walks_stmtWithin forest enough holds notBody)
    (fun _ grounded _ => ⟨_, proceeds_stmtWithin permits_any tree place fuel id _ grounded⟩) spares

theorem passes_inOwnScope {fuel id : Nat} (enough : id < fuel) (holds : tree.Holds (.stmt id))
    (notBody : ¬IsBody tree (.stmt id)) (spares : Spares tree kept (.stmt id)) :
    Passes tree names floor kept (inOwnScope tree (stmtWithin tree place fuel) id) :=
  .of_check forest
    (walks_inOwnScope holds fun _ => walks_stmtWithin forest enough holds notBody)
    (fun _ grounded _ =>
      ⟨_, (proceeds_stmtWithin permits_any tree place fuel).inOwnScope tree id _ grounded⟩) spares

end Checks

/-! ### Statements -/

/-- What is checked in its own scope is checked. -/
theorem Happens.inOwnScope {check : StmtId → AnalysisM Unit} {id : StmtId}
    (happens : Happens tree names floor kept (inOwnScope tree check id) () final)
    (holds : tree.Holds (.stmt id)) : Happens tree names floor kept (check id) () final := by
  obtain ⟨stmt, isStmt⟩ := Option.isSome_iff_exists.mp holds
  unfold TypeCheck.inOwnScope at happens
  rw [isStmt] at happens
  cases form : stmt.form with
  | block stmts => simpa only [form] using happens
  | _ =>
    simp only [form] at happens
    obtain ⟨_, -, happens⟩ := happens.read
    exact happens.inScope

/-- Where an arm of a case statement has a part, the parts of the other arms are others. -/
theorem arms_apart {arms : List CaseArm} (nodup : (arms.flatMap CaseArm.parts).Nodup)
    {arm other : CaseArm}
    (isArm : arm ∈ arms) (isOther : other ∈ arms) (different : other ≠ arm) {part : Node}
    (isPart : part ∈ arm.parts) : part ∉ other.parts := by
  have : Std.Symm (Function.onFun List.Disjoint CaseArm.parts) :=
    ⟨fun _ _ disjoint => List.Disjoint.symm disjoint⟩
  have apart := (List.nodup_flatMap.mp nodup).2.forall isArm isOther different.symm
  exact fun isPart' => apart isPart isPart'

section Statements

variable (forest : tree.Forest loose) {fuel id part other : Nat} {stmt : Stmt}
  (isStmt : tree.stmts.get? id = some stmt)

include forest isStmt

theorem holds_part {node : Node} (isPart : node ∈ stmt.form.parts) : tree.Holds node :=
  forest.holds_part (tree.parts_stmt isStmt ▸ isPart)

theorem spares_other {node : Node} (isPart : .stmt part ∈ stmt.form.parts)
    (isNode : node ∈ stmt.form.parts)
    (different : node ≠ .stmt part) : Spares tree (Beneath tree (.stmt part)) node := by
  have parts := tree.parts_stmt isStmt
  exact spares_part forest (by simp [Tree.Holds, isStmt]) (parts ▸ isPart) (parts ▸ isNode) different

theorem below_fuel (enough : id < fuel + 1) (isOther : .stmt other ∈ stmt.form.parts) : other < fuel :=
  Nat.lt_of_lt_of_le (forest.stmtsBelow id stmt isStmt other isOther) (Nat.lt_succ_iff.mp enough)

theorem noBody_of_part (isOther : .stmt other ∈ stmt.form.parts) : ¬IsBody tree (.stmt other) :=
  not_isBody_of_part forest (by simp [Tree.Holds, isStmt]) (by rintro _ _ ⟨⟩)
    (tree.parts_stmt isStmt ▸ isOther)

/-- The statements in a statement are checked without harm to what they spare. -/
theorem passes_own (enough : id < fuel + 1) (isOther : .stmt other ∈ stmt.form.parts)
    (spares : Spares tree kept (.stmt other)) :
    Passes tree names floor kept (TypeCheck.inOwnScope tree (stmtWithin tree place fuel) other) :=
  passes_inOwnScope forest (below_fuel forest isStmt enough isOther) (holds_part forest isStmt isOther)
    (noBody_of_part forest isStmt isOther) spares

/-- Where a branch is checked behind its condition, so are the statements in it. -/
theorem Happens.inner_branch {cond : ExprId} {thenBranch : StmtId} {elseBranch : Option StmtId}
    (form : stmt.form = .branch cond thenBranch elseBranch) (enough : id < fuel + 1)
    (isPart : .stmt part ∈ stmt.form.parts)
    (happens : Happens tree names floor (Beneath tree (.stmt part)) (do
      TypeCheck.inOwnScope tree (stmtWithin tree place fuel) thenBranch
      elseBranch.forM (TypeCheck.inOwnScope tree (stmtWithin tree place fuel))) () final) :
    Happens tree names floor (Beneath tree (.stmt part))
      (TypeCheck.inOwnScope tree (stmtWithin tree place fuel) part) () final := by
  have isThen : .stmt thenBranch ∈ stmt.form.parts := by simp [form, StmtForm.parts]
  have once := tree.parts_stmt isStmt ▸ forest.nodup_parts (.stmt id)
  by_cases same : thenBranch = part
  · subst same
    have others : Passes tree names floor (Beneath tree (.stmt thenBranch))
        (elseBranch.forM (TypeCheck.inOwnScope tree (stmtWithin tree place fuel))) := by
      refine .optionForM fun other isElse => ?_
      have isOther : .stmt other ∈ stmt.form.parts := by
        simp [form, StmtForm.parts, Option.mem_def.mp isElse]
      refine passes_own forest isStmt enough isOther (spares_other forest isStmt isPart isOther ?_)
      rintro ⟨⟩
      simp [form, StmtForm.parts, Option.mem_def.mp isElse] at once
    obtain ⟨_, happens, -⟩ :=
      happens.bind (passes_own forest isStmt enough isThen (spares_none tree _)) fun _ => others
    exact happens
  · obtain ⟨_, happens, -⟩ :=
      happens.second (passes_own forest isStmt enough isThen (spares_none tree _))
    have isElse : elseBranch = some part := by
      simpa [form, StmtForm.parts, Ne.symm same] using isPart
    exact happens.optionForM isElse

/-- Where the arms of a case statement are checked, so are the statements in it. -/
theorem Happens.inner_case {subject : ExprId} {arms : List CaseArm} {default : Option StmtId}
    (form : stmt.form = .case subject arms default) (enough : id < fuel + 1)
    (isPart : .stmt part ∈ stmt.form.parts) {subjectType : TypeId} (there : subjectType < floor)
    (happens : Happens tree names floor (Beneath tree (.stmt part)) (do
      arms.forM fun arm => do
        arm.values.forM (checkCaseValue tree place subjectType)
        TypeCheck.inOwnScope tree (stmtWithin tree place fuel) arm.body
      default.forM (TypeCheck.inOwnScope tree (stmtWithin tree place fuel))) () final) :
    Happens tree names floor (Beneath tree (.stmt part))
      (TypeCheck.inOwnScope tree (stmtWithin tree place fuel) part) () final := by
  have ofArm {arm : CaseArm} (isArm : arm ∈ arms) {node : Node} (isNode : node ∈ arm.parts) :
      node ∈ stmt.form.parts := by
    rw [form]
    exact .tail _ (List.mem_append_left _ (List.mem_flatMap.mpr ⟨arm, isArm, isNode⟩))
  have isBody (arm : CaseArm) : .stmt arm.body ∈ arm.parts := by simp [CaseArm.parts]
  have values {kept : ExprId → Prop} {arm : CaseArm} (isArm : arm ∈ arms)
      (spares : ∀ node ∈ arm.parts, Spares tree kept node) : Passes tree names floor kept
        (arm.values.forM (checkCaseValue tree place subjectType)) := by
    refine .forM fun value isValue => ?_
    have isNode : .expr value ∈ arm.parts := by simp [CaseArm.parts, isValue]
    exact passes_checkCaseValue forest there (holds_part forest isStmt (ofArm isArm isNode))
      (spares _ isNode)
  have passes {kept : ExprId → Prop} {arm : CaseArm} (isArm : arm ∈ arms)
      (spares : ∀ node ∈ arm.parts, Spares tree kept node) : Passes tree names floor kept (do
        arm.values.forM (checkCaseValue tree place subjectType)
        TypeCheck.inOwnScope tree (stmtWithin tree place fuel) arm.body) :=
    .bind (values isArm spares) fun _ =>
      passes_own forest isStmt enough (ofArm isArm (isBody arm)) (spares _ (isBody arm))
  have never {arm : CaseArm} (node : Node) (_ : node ∈ arm.parts) := spares_none tree node
  have once := tree.parts_stmt isStmt ▸ forest.nodup_parts (.stmt id)
  rw [form] at once
  have apart := List.nodup_append.mp (List.nodup_cons.mp once).2
  by_cases inArm : ∃ arm ∈ arms, arm.body = part
  · obtain ⟨arm, isArm, rfl⟩ := inArm
    have others : Passes tree names floor (Beneath tree (.stmt arm.body))
        (default.forM (TypeCheck.inOwnScope tree (stmtWithin tree place fuel))) := by
      refine .optionForM fun other isDefault => ?_
      have isOther : .stmt other ∈ stmt.form.parts := by
        simp [form, StmtForm.parts, Option.mem_def.mp isDefault]
      refine passes_own forest isStmt enough isOther (spares_other forest isStmt isPart isOther ?_)
      rintro ⟨⟩
      exact apart.2.2 _ (List.mem_flatMap.mpr ⟨arm, isArm, isBody arm⟩) _
        (by simp [Option.mem_def.mp isDefault]) rfl
    obtain ⟨_, happens, -⟩ :=
      happens.bind (.forM fun arm isArm => passes isArm never) fun _ => others
    have happens := happens.forM isArm (fun _ isArm => passes isArm never)
      fun other isOther different => passes isOther fun node isNode =>
        spares_other forest isStmt isPart (ofArm isOther isNode) fun same =>
          arms_apart apart.1 isArm isOther different (isBody arm) (same ▸ isNode)
    obtain ⟨_, happens, -⟩ := happens.second (values isArm never)
    exact happens
  · obtain ⟨_, happens, -⟩ := happens.second (.forM fun arm isArm => passes isArm never)
    have isDefault : default = some part := by
      rw [form] at isPart
      rcases List.mem_append.mp ((List.mem_cons.mp isPart).resolve_left (by simp)) with isArm | isDefault
      · obtain ⟨arm, isArm, isPart⟩ := List.mem_flatMap.mp isArm
        rcases List.mem_append.mp isPart with isValue | isBody
        · obtain ⟨_, -, ⟨⟩⟩ := List.mem_map.mp isValue
        · exact absurd ⟨arm, isArm, (Node.stmt.inj (List.mem_singleton.mp isBody)).symm⟩ inArm
      · simpa using isDefault
    exact happens.optionForM isDefault

/-- Where a statement is checked, so are the statements in it. -/
theorem Happens.inner (isPart : .stmt part ∈ stmt.form.parts)
    (happens : Happens tree names floor (Beneath tree (.stmt id))
      (stmtWithin tree place (fuel + 1) id) ()
      final) (enough : id < fuel + 1) :
    ∃ floor, part < fuel ∧
      Happens tree names floor (Beneath tree (.stmt part)) (stmtWithin tree place fuel part)
        () final := by
  have holdsPart {node : Node} (isNode : node ∈ stmt.form.parts) : tree.Holds node :=
    holds_part forest isStmt isNode
  have lower : part < fuel := below_fuel forest isStmt enough isPart
  have found {floor : Nat} (happens : Happens tree names floor (Beneath tree (.stmt part))
      (TypeCheck.inOwnScope tree (stmtWithin tree place fuel) part) () final) :
      ∃ floor, part < fuel ∧
        Happens tree names floor (Beneath tree (.stmt part)) (stmtWithin tree place fuel part)
          () final :=
    ⟨floor, lower, happens.inOwnScope (holdsPart isPart)⟩
  have happens := happens.mono (Beneath tree (.stmt part)) fun _ below =>
    .head (tree.parts_stmt isStmt ▸ isPart) below
  unfold stmtWithin at happens
  simp only [isStmt] at happens
  cases form : stmt.form with
  | block stmts =>
    simp only [form] at happens
    obtain ⟨_, -, happens⟩ := happens.read
    have member : some part ∈ stmts := by simpa [form, StmtForm.parts] using isPart
    have isOther {child : StmtId} (isChild : some child ∈ stmts) : .stmt child ∈ stmt.form.parts :=
      form ▸ List.mem_filterMap.mpr ⟨some child, isChild, rfl⟩
    have passes {kept : ExprId → Prop} {child : StmtId} (isChild : some child ∈ stmts)
        (spares : Spares tree kept (.stmt child)) :
        Passes tree names floor kept (stmtWithin tree place fuel child) :=
      passes_stmtWithin forest (below_fuel forest isStmt enough (isOther isChild))
        (holdsPart (isOther isChild)) (noBody_of_part forest isStmt (isOther isChild)) spares
    refine ⟨floor, lower, happens.inScope.forM member (fun child isChild => ?_)
      fun child isChild different => ?_⟩
    · cases child with
      | none => exact .pure _
      | some child => exact passes isChild (spares_none tree _)
    · cases child with
      | none => exact .pure _
      | some child =>
        exact passes isChild (spares_other forest isStmt isPart (isOther isChild) fun same =>
          different (by rw [Node.stmt.inj same]))
  | branch cond thenBranch elseBranch =>
    simp only [form] at happens
    obtain ⟨_, happens, -⟩ := happens.second (passes_checkCondition forest
      (holdsPart (by simp [form, StmtForm.parts])) (spares_none tree _))
    exact found (happens.inner_branch forest isStmt form enough isPart)
  | whileLoop cond body =>
    simp only [form] at happens
    obtain ⟨_, happens, -⟩ := happens.second (passes_checkCondition forest
      (holdsPart (by simp [form, StmtForm.parts])) (spares_none tree _))
    obtain rfl : part = body := by simpa [form, StmtForm.parts] using isPart
    exact found happens
  | forLoop counter first last body =>
    simp only [form] at happens
    obtain ⟨_, happens, -⟩ := happens.second (passes_checkInt forest
      (holdsPart (by simp [form, StmtForm.parts])) (spares_none tree _) _)
    obtain ⟨_, happens, -⟩ := happens.second (passes_checkInt forest
      (holdsPart (by simp [form, StmtForm.parts])) (spares_none tree _) _)
    obtain ⟨_, -, happens⟩ := happens.read
    obtain ⟨_, happens, -⟩ := happens.inScope.second (passes_checkCounter forest
      (holdsPart (by simp [form, StmtForm.parts])) (spares_none tree _))
    obtain rfl : part = body := by simpa [form, StmtForm.parts] using isPart
    exact found happens
  | case subject arms default =>
    simp only [form] at happens
    obtain ⟨subjectType, floor, there, happens⟩ := happens.secondThere
      (passes_expr forest (.inl rfl) (holdsPart (by simp [form, StmtForm.parts])) (spares_none tree _))
      fun _ grounded => (yields_expr permits_any tree place).unexpected grounded subject
    exact found (happens.inner_case forest isStmt form enough isPart there)
  | _ => simp [form, StmtForm.parts] at isPart

end Statements

/-! ### Bodies -/

section Bodies

variable (forest : tree.Forest loose) {body child other : StmtId} {id : DeclId} {decl : Decl}
  {callable : Callable}

include forest

/-- The statements of a body are there, none of them is a body, and they stand below the body. -/
theorem body_stmt (holds : tree.Holds (.stmt body)) (member : some child ∈ bodyStmts tree body) :
    tree.Holds (.stmt child) ∧ ¬IsBody tree (.stmt child) ∧ tree.Reaches (.stmt body) (.stmt child) := by
  obtain ⟨stmt, isStmt⟩ := Option.isSome_iff_exists.mp holds
  unfold bodyStmts at member
  rw [isStmt, Option.map_some] at member
  split at member
  · next stmts form =>
    have form : stmt.form = .block stmts := Option.some.inj form
    have isPart : .stmt child ∈ tree.parts (.stmt body) := by
      rw [Tree.parts, isStmt, Option.map_some, Option.getD_some, form]
      exact List.mem_filterMap.mpr ⟨some child, member, rfl⟩
    exact ⟨forest.holds_part isPart, not_isBody_of_part forest holds (by rintro _ _ ⟨⟩) isPart,
      .single isPart⟩
  · next noBlock =>
    obtain rfl : child = body := Option.some.inj (List.mem_singleton.mp member)
    refine ⟨holds, ?_, .refl⟩
    rintro ⟨_, _, _, stmts, -, -, isBlock, ⟨⟩⟩
    rw [isStmt] at isBlock
    exact noBlock stmts isBlock

/-- What is below a statement of a body is below no other one of it. -/
theorem spares_bodyStmt (holds : tree.Holds (.stmt body)) (member : some child ∈ bodyStmts tree body)
    (member' : some other ∈ bodyStmts tree body) (different : other ≠ child) :
    Spares tree (Beneath tree (.stmt child)) (.stmt other) := by
  obtain ⟨stmt, isStmt⟩ := Option.isSome_iff_exists.mp holds
  unfold bodyStmts at member member'
  rw [isStmt, Option.map_some] at member member'
  split at member
  · next stmts form =>
    have form : stmt.form = .block stmts := Option.some.inj form
    have isPart {child : StmtId} (member : some child ∈ stmts) : .stmt child ∈ tree.parts
        (.stmt body) := by
      rw [Tree.parts, isStmt, Option.map_some, Option.getD_some, form]
      exact List.mem_filterMap.mpr ⟨some child, member, rfl⟩
    rw [form] at member'
    exact spares_part forest holds (isPart member) (isPart member') fun same =>
      different (Node.stmt.inj same)
  · next noBlock =>
    obtain rfl : child = body := Option.some.inj (List.mem_singleton.mp member)
    split at member'
    · next stmts form => exact absurd form (noBlock stmts)
    · exact absurd (Option.some.inj (List.mem_singleton.mp member')) different

theorem passes_stmt {id : StmtId} (holds : tree.Holds (.stmt id)) (notBody : ¬IsBody tree (.stmt id))
    (spares : Spares tree kept (.stmt id)) : Passes tree names floor kept (stmt tree place id) :=
  .of_check forest (walks_stmt forest place holds notBody)
    (fun _ grounded _ => ⟨_, proceeds_stmt permits_any tree place id _ grounded⟩) spares

/-- Whatever a body has returned so far, checking another statement of it records nothing about
expressions elsewhere. -/
theorem passes_bodyStmt {child : Option StmtId}
    (holds : ∀ id ∈ child, tree.Holds (.stmt id) ∧ ¬IsBody tree (.stmt id))
    (spares : ∀ id ∈ child, Spares tree kept (.stmt id)) (returned : Bool) :
    Passes tree names floor kept (do
      match child with
      | none => return returned
      | some child =>
        TypeCheck.stmt tree place child
        return returned || returns tree child) := by
  cases child with
  | none => exact .pure _
  | some child =>
    exact .bind (passes_stmt forest (holds child rfl).1 (holds child rfl).2 (spares child rfl))
      fun _ => .pure _

/-- Where a body is checked, so is each of its statements. -/
theorem Happens.bodyStmt {returned : Bool} (holds : tree.Holds (.stmt body))
    (happens : Happens tree names floor (Beneath tree (.stmt child))
      (checkBody tree place (bodyStmts tree body)) returned final)
    (member : some child ∈ bodyStmts tree body) :
    Happens tree names floor (Beneath tree (.stmt child)) (stmt tree place child) () final := by
  have isThere {part : Option StmtId} (isPart : part ∈ bodyStmts tree body) :
      ∀ id ∈ part, tree.Holds (.stmt id) ∧ ¬IsBody tree (.stmt id) := by
    rintro id rfl
    obtain ⟨holds, notBody, -⟩ := body_stmt forest holds isPart
    exact ⟨holds, notBody⟩
  obtain ⟨_, _, happens⟩ := happens.foldlM member
    (fun part isPart => passes_bodyStmt forest (isThere isPart) fun _ _ => spares_none tree _)
    fun part isPart different => passes_bodyStmt forest (isThere isPart) (by
      rintro id rfl
      exact spares_bodyStmt forest holds member isPart fun same => different (congrArg some same))
  obtain ⟨_, happens, -⟩ := happens.bind
    (passes_stmt forest (isThere member child rfl).1 (isThere member child rfl).2 (spares_none tree _))
    fun _ => .pure _
  exact happens

omit forest in
/-- A body returns if one of its statements does for certain. -/
theorem returned_of_checkBody {stmts : List (Option StmtId)} {returned : Bool}
    (ran : checkBody tree place stmts before = .ok returned after) :
    returned = stmts.any fun child => child.any (returns tree) := by
  have goesOn (stmts : List (Option StmtId)) (start : Bool) {before : Analysis}
      (ran : (stmts.foldlM (fun returned child => do
        match child with
        | none => return returned
        | some child =>
          TypeCheck.stmt tree place child
          return returned || returns tree child) start : AnalysisM Bool) before = .ok returned after) :
      returned = (start || stmts.any fun child => child.any (returns tree)) := by
    induction stmts generalizing start before with
    | nil =>
      cases ran
      simp
    | cons child rest inductionHypothesis =>
      rw [List.foldlM_cons] at ran
      obtain ⟨found, middle, ran, goesOn⟩ := bind_eq_ok ran
      rw [inductionHypothesis found goesOn]
      cases child with
      | none =>
        cases ran
        simp
      | some child =>
        obtain ⟨_, _, -, ends⟩ := bind_eq_ok ran
        cases ends
        simp [Bool.or_assoc]
  simpa using goesOn stmts false ran

/-! ### Callables -/

theorem passes_checkVariable {kind : DeclKind} (isVariable : kind.isVariable) {id : DeclId}
    (holds : tree.Holds (.decl kind id)) (spares : Spares tree kept (.decl kind id)) :
    Passes tree names floor kept (checkVariable tree place id) :=
  .of_check forest (walks_checkVariable forest place isVariable holds)
    (fun _ grounded _ => ⟨_, proceeds_checkVariable permits_any tree place id _ grounded⟩) spares

theorem passes_nominal (id : DeclId) : Passes tree names floor kept (discard (nominal tree id)) :=
  .of_aims forest (checks_nominal tree id).aims.discard fun _ grounded _ =>
    ⟨_, (asks_nominal permits_any tree grounded id).discard⟩

theorem passes_declType (id : DeclId) : Passes tree names floor kept (declType tree id) :=
  .of_aims forest (checks_declType tree id).aims fun _ grounded _ =>
    ⟨_, asks_declType permits_any tree grounded id⟩

/-- What is left to do for a callable when its body has been checked. -/
theorem passes_closing (id : DeclId) (decl : Decl) (result : TypeId) (returned : Bool) :
    Passes tree names floor kept (do
      modifyTyping fun typing => { typing with returns := typing.returns.insert id returned }
      if !returned ∧ result ≠ 0 ∧ (← kindOf result) ≠ .void then
        let name := tree.text decl.name
        report <| (Diagnostic.error .missingReturn decl.span [name, ← label result]).withHint
          .addReturn [name]) := by
  refine .of_aims forest (.bind (acts_modifyTyping (fun _ => rfl) (fun _ => rfl) (fun _ => rfl)
    (fun _ _ known => known) (fun _ => rfl) fun _ _ _ => rfl) fun _ =>
      .bind (acts_kindOf _) fun kind => ?_)
    fun _ grounded _ => ⟨TypeM.Anything, .bind (.modifyTyping ⟨grounded.sound, grounded.exprTypes,
      grounded.declTypes, grounded.nominal, grounded.written⟩ rfl) fun _ _ onward _ => .kindOf ?_⟩
  · split
    · exact .bind (acts_label _) fun _ => .report _
    · exact .pure _
  · split
    · exact .label (.report onward.grounded _)
    · exact .pure onward.grounded trivial

/-- Where a callable with a body is checked, so are the statements of the body, with the callable
as their place. The type of its result is recorded, and unless it is that of no result one of the
statements returns for certain, or there is an error. -/
theorem Happens.ofCallable (isDecl : tree.decls.get? id = some decl)
    (isCallable : tree.callable? id = some callable) (hasBody : callable.body = some body)
    (happens : Happens tree names floor (Beneath tree (.decl decl.kind id))
      (checkCallable tree place id) ()
      final) :
    (∀ child, some child ∈ bodyStmts tree body →
      Happens tree names floor (Beneath tree (.stmt child))
        (stmt tree { place with callable := some id } child) () final) ∧
    ∃ result, final.typing.declTypes[id]? = some result ∧
      (final.sink.Spotless → result ≠ 0 → final.typing.types.kindOf result ≠ .void →
        ∃ child, some child ∈ bodyStmts tree body ∧ returns tree child) := by
  have isKind : decl.kind.isCallable := by
    obtain ⟨kind, isKind, isCallable⟩ := isCallable_of_callable? isCallable
    rw [Tree.kindOf?, isDecl] at isKind
    exact Option.some.inj isKind ▸ isCallable
  have isPart {part : Node} (member : part ∈ callable.parts) : part ∈ tree.parts (.decl decl.kind id) :=
    Tree.mem_parts_of_callable? isCallable member decl.kind
  have bodyPart : .stmt body ∈ tree.parts (.decl decl.kind id) :=
    isPart (by simp [Callable.parts, hasBody])
  have holds : tree.Holds (.stmt body) := forest.holds_part bodyPart
  have checksBody (kept : ExprId → Prop)
      (spares : ∀ child, some child ∈ bodyStmts tree body → Spares tree kept (.stmt child)) :
      Passes tree names floor kept
        (checkBody tree { place with callable := some id } (bodyStmts tree body)) := by
    refine .foldlM fun part isPart => passes_bodyStmt forest ?_ ?_ <;> rintro child rfl
    · obtain ⟨holds, notBody, -⟩ := body_stmt forest holds isPart
      exact ⟨holds, notBody⟩
    · exact spares child isPart
  unfold checkCallable at happens
  simp only [isDecl, isCallable, hasBody] at happens
  obtain ⟨_, -, happens⟩ := happens.read
  obtain ⟨_, happens, -⟩ := happens.inScope.second (.forM fun param _ => passes_nominal forest param)
  obtain ⟨_, happens, -⟩ := happens.second (.forM fun param member => passes_checkVariable forest rfl
    (forest.holds_part (isPart (by simp [Callable.parts, member])))
      (spares_none tree (.decl .param param)))
  refine ⟨fun child member => ?_, ?_⟩
  · have below : tree.Reaches (.decl decl.kind id) (.stmt child) :=
      .head bodyPart (body_stmt forest holds member).2.2
    have happens := happens.mono (Beneath tree (.stmt child)) fun _ => below.trans
    obtain ⟨_, happens, -⟩ := happens.second (passes_declType forest id)
    obtain ⟨_, happens, -⟩ := happens.bind (checksBody _ fun _ _ => spares_none tree _)
      fun returned => passes_closing forest id decl _ returned
    exact happens.bodyStmt forest holds member
  · have happens := happens.mono (fun _ => False) fun _ never => never.elim
    obtain ⟨result, ⟨_, _, ready, declared, -, onward⟩, happens⟩ := happens.bind
      (passes_declType forest id) fun result => .bind (checksBody _ fun _ _ => spares_none tree _)
        fun returned => passes_closing forest id decl result returned
    refine ⟨result, onward.results isDecl isKind
      (recorded_of_declType forest ready.declares isDecl isKind declared), fun clean known notVoid => ?_⟩
    obtain ⟨returned, happens, _, _, checked⟩ :=
      happens.second (checksBody _ fun _ _ => spares_none tree _)
    obtain ⟨_, _, ready, ran, -, onward⟩ := happens
    have onward' := ((passes_closing forest id decl result returned).leads ready ran).2.trans onward
    obtain ⟨_, _, notes, ran⟩ := bind_eq_ok ran
    obtain ⟨kind, _, isKindOf, ran⟩ := bind_eq_ok ran
    cases notes
    cases isKindOf
    by_contra silent
    have open' : returned = false := by
      rw [returned_of_checkBody checked, List.any_eq_false]
      rintro (_ | child) member returned
      · cases returned
      · exact silent ⟨child, member, returned⟩
    rw [open', if_pos ⟨rfl, known, fun isVoid => notVoid (onward'.table.kindOf_of_void isVoid)⟩] at ran
    exact not_spotless_of_error rfl ran (onward.spotless clean)

end Bodies

/-! ### From a program down to its callables -/

section Programs

variable {parent : Nat} {id function owned : DeclId} {kind : DeclKind} {body : ClassBody}

section Passing

variable (forest : tree.Forest loose)

include forest

theorem passes_checkEnum (id : DeclId) : Passes tree names floor kept (checkEnum tree id) :=
  .of_aims forest (checks_checkEnum tree id).aims fun _ grounded _ =>
    ⟨_, proceeds_checkEnum permits_any tree id _ grounded⟩

theorem passes_checkCallable (kind : DeclKind) (isCallable : kind.isCallable)
    (holds : tree.Holds (.decl kind id))
    (spares : Spares tree kept (.decl kind id)) :
    Passes tree names floor kept (checkCallable tree place id) :=
  .of_check forest (walks_checkCallable forest place isCallable holds)
    (fun _ grounded _ => ⟨_, proceeds_checkCallable permits_any tree place id _ grounded⟩) spares

theorem passes_checkClass (holds : tree.Holds (.decl .classDecl id))
    (spares : Spares tree kept (.decl .classDecl id)) :
    Passes tree names floor kept (checkClass tree place id) :=
  .of_check forest (walks_checkClass forest place holds)
    (fun _ grounded _ => ⟨_, proceeds_checkClass permits_any tree place id _ grounded⟩) spares

theorem passes_unit {id : UnitId} (holds : tree.Holds (.unit id))
    (spares : Spares tree kept (.unit id)) :
    Passes tree names floor kept (unit tree parent id) :=
  .of_check forest (walks_unit forest holds)
    (fun _ grounded _ => ⟨_, proceeds_unit permits_any tree parent id _ grounded⟩) spares

end Passing

namespace Happens

variable (forest : tree.Forest loose)

include forest

/-- Where a class is checked, so are its methods. -/
theorem checksMethod (isClass : tree.classBody? id = some body) (member : owned ∈ body.methods)
    (happens : Happens tree names floor (Beneath tree (.decl .classDecl id))
      (checkClass tree place id) ()
      final) :
    ∃ place, Happens tree names floor (Beneath tree (.decl .method owned))
      (checkCallable tree place owned) () final := by
  have holds : tree.Holds (.decl .classDecl id) := Tree.kindOf?_of_classBody? isClass
  have isPart {part : Node} (member : part ∈ body.parts) : part ∈ tree.parts (.decl .classDecl id) :=
    Tree.mem_parts_of_classBody? isClass member .classDecl
  have methodPart {other : DeclId} (member : other ∈ body.methods) :
      .decl .method other ∈ tree.parts (.decl .classDecl id) :=
    isPart (by simp [ClassBody.parts, member])
  have happens := happens.mono (Beneath tree (.decl .method owned)) fun _ below =>
    .head (methodPart member) below
  unfold checkClass at happens
  simp only [isClass] at happens
  obtain ⟨_, happens, -⟩ := happens.second (passes_nominal forest id)
  obtain ⟨_, happens⟩ := happens.spanned
  obtain ⟨_, -, happens⟩ := happens.read
  obtain ⟨_, happens, -⟩ :=
    happens.inScope.second (.forM fun field member => passes_checkVariable forest rfl
    (forest.holds_part (isPart (by simp [ClassBody.parts, member])))
      (spares_none tree (.decl .field field)))
  obtain ⟨_, happens, -⟩ :=
    happens.second (.forM fun other _ => .bind (passes_declType forest other) fun _ =>
    .pure _)
  refine ⟨_, happens.forM member (fun other member => passes_checkCallable forest .method rfl
    (forest.holds_part (methodPart member)) (spares_none tree _)) fun other isOther different =>
      passes_checkCallable forest .method rfl (forest.holds_part (methodPart isOther)) ?_⟩
  refine spares_part forest holds (methodPart member) (methodPart isOther) ?_
  rintro ⟨⟩
  exact different rfl

/-- Where a unit is checked, so are its callables. -/
theorem checksCallable {id : UnitId} {module : ProgramUnit} (isUnit : tree.units.get? id = some module)
    (ordered : ∀ other ∈ module.classes, other ∈ names.order)
    (member : function ∈ callablesOf tree module)
    (happens : Happens tree names floor (Beneath tree (.unit id)) (unit tree parent id) () final) :
    ∃ kind place, tree.kindOf? function = some kind ∧
      Happens tree names floor (Beneath tree (.decl kind function))
        (checkCallable tree place function) ()
        final := by
  have holds : tree.Holds (.unit id) := by simp [Tree.Holds, isUnit]
  have isPart {part : Node} (member : part ∈ module.parts) : part ∈ tree.parts (.unit id) := by
    rwa [Tree.parts, isUnit, Option.map_some, Option.getD_some]
  have functionPart {other : DeclId} (member : other ∈ module.functions ++ module.main.toList) :
      .decl .function other ∈ tree.parts (.unit id) := isPart (function_mem_parts member)
  have classPart {other : DeclId} (member : other ∈ module.classes) :
      .decl .classDecl other ∈ tree.parts (.unit id) := isPart (by simp [ProgramUnit.parts, member])
  have stmtPart {child : StmtId} (member : child ∈ module.stmts) : .stmt child ∈ tree.parts (.unit id) :=
    isPart (by simp [ProgramUnit.parts, member])
  have passesFunction {kept : ExprId → Prop} (place : Place) {other : DeclId}
      (member : other ∈ module.functions ++ module.main.toList)
      (spares : Spares tree kept (.decl .function other)) :
      Passes tree names floor kept (checkCallable tree place other) :=
    passes_checkCallable forest .function rfl (forest.holds_part (functionPart member)) spares
  have passesStmts {kept : ExprId → Prop} (place : Place)
      (spares : ∀ child ∈ module.stmts, Spares tree kept (.stmt child)) :
      Passes tree names floor kept (module.stmts.forM (stmt tree place)) :=
    .forM fun child member => passes_stmt forest (forest.holds_part (stmtPart member))
      (not_isBody_of_part forest holds (by rintro _ _ ⟨⟩) (stmtPart member)) (spares child member)
  unfold unit at happens
  simp only [isUnit] at happens
  obtain ⟨span, happens⟩ := happens.spanned
  obtain ⟨_, -, happens⟩ := happens.read
  obtain ⟨_, happens, -⟩ := happens.inScope.second (.forM fun enum _ => passes_checkEnum forest enum)
  obtain ⟨_, happens, -⟩ := happens.second (.forM fun global member => passes_checkVariable forest rfl
    (forest.holds_part (isPart (by simp [ProgramUnit.parts, member])))
      (spares_none tree (.decl .global global)))
  obtain ⟨state, isNames, happens⟩ := happens.read
  have order : state.names.order = names.order := isNames ▸ rfl
  have isClass {other : DeclId} (member : other ∈ unitClasses state.names.order module.classes) :
      other ∈ module.classes := (mem_unitClasses.mp member).2
  have passesClasses : Passes tree names floor (fun _ => False)
      ((unitClasses state.names.order module.classes).forM (checkClass tree { span })) :=
    .forM fun other member => passes_checkClass forest (forest.holds_part (classPart (isClass member)))
      (spares_none tree _)
  have passesFunctions : Passes tree names floor (fun _ => False)
      (module.functions.forM (checkCallable tree { span })) :=
    .forM fun other member => passesFunction _ (List.mem_append_left _ member) (spares_none tree _)
  have ofMain {other : DeclId} (isMain : other ∈ module.main) :
      other ∈ module.functions ++ module.main.toList :=
    List.mem_append_right _ (Option.mem_toList.mpr isMain)
  have passesMain : Passes tree names floor (fun _ => False)
      (module.main.forM (checkCallable tree { span })) :=
    .optionForM fun other isMain => passesFunction _ (ofMain isMain) (spares_none tree _)
  rcases List.mem_append.mp member with isFunction | isMethod
  · refine ⟨.function, { span }, kindOf?_function forest isUnit isFunction, ?_⟩
    have happens := happens.mono (Beneath tree (.decl .function function)) fun _ below =>
      .head (functionPart isFunction) below
    have spares {other : Node} (isOther : other ∈ tree.parts (.unit id))
        (different : other ≠ .decl .function function) :
        Spares tree (Beneath tree (.decl .function function)) other :=
      spares_part forest holds (functionPart isFunction) isOther different
    have spareFunction {other : DeclId} (member : other ∈ module.functions ++ module.main.toList)
        (different : other ≠ function) :
        Spares tree (Beneath tree (.decl .function function)) (.decl .function other) :=
      spares (functionPart member) fun same => different (by cases same; rfl)
    have rest := passesStmts { span } fun child member =>
      spares (stmtPart member) (by rintro ⟨⟩)
    obtain ⟨_, happens, -⟩ := happens.second passesClasses
    rcases List.mem_append.mp isFunction with among | isMain
    · have notMain : ∀ other ∈ module.main, other ≠ function := by
        rintro other isMain rfl
        exact (List.nodup_append.mp (nodup_functions forest isUnit)).2.2 _ among _
          (Option.mem_toList.mpr isMain) rfl
      obtain ⟨_, happens, -⟩ :=
        happens.bind passesFunctions fun _ => .bind (.optionForM fun other isMain =>
        passesFunction { span } (ofMain isMain) (spareFunction (ofMain isMain) (notMain other isMain)))
          fun _ => rest
      exact happens.forM among (fun other member => passesFunction { span }
        (List.mem_append_left _ member) (spares_none tree _)) fun other member different =>
          passesFunction { span } (List.mem_append_left _ member)
            (spareFunction (List.mem_append_left _ member) different)
    · obtain ⟨_, happens, -⟩ := happens.second passesFunctions
      obtain ⟨_, happens, -⟩ := happens.bind passesMain fun _ => rest
      exact happens.optionForM (Option.mem_toList.mp isMain)
  · obtain ⟨owner, isOwner, isMethod⟩ := List.mem_flatMap.mp isMethod
    have isOwned : ∃ body, tree.classBody? owner = some body ∧ function ∈ body.methods := by
      cases isBody : tree.classBody? owner with
      | none => simp [Tree.methodsOf, isBody] at isMethod
      | some body => exact ⟨body, rfl, Tree.methodsOf_eq isBody ▸ isMethod⟩
    obtain ⟨body, isBody, among⟩ := isOwned
    refine ⟨.method, ?_⟩
    have happens := happens.mono (Beneath tree (.decl .classDecl owner)) fun _ below =>
      .head (classPart isOwner) below
    have spares {other : Node} (isOther : other ∈ tree.parts (.unit id))
        (different : other ≠ .decl .classDecl owner) :
        Spares tree (Beneath tree (.decl .classDecl owner)) other :=
      spares_part forest holds (classPart isOwner) isOther different
    obtain ⟨_, happens, -⟩ := happens.bind passesClasses fun _ => .bind (.forM fun other member =>
      passesFunction { span } (List.mem_append_left _ member)
        (spares (functionPart (List.mem_append_left _ member)) (by rintro ⟨⟩)))
          fun _ => .bind (.optionForM fun other isMain => passesFunction { span } (ofMain isMain)
            (spares (functionPart (ofMain isMain)) (by rintro ⟨⟩)))
              fun _ => passesStmts { span } fun child member => spares (stmtPart member) (by rintro ⟨⟩)
    have happens := happens.forM (mem_unitClasses.mpr ⟨order ▸ ordered owner isOwner, isOwner⟩)
      (fun other member => passes_checkClass forest (forest.holds_part (classPart (isClass member)))
        (spares_none tree _)) fun other member different =>
          passes_checkClass forest (forest.holds_part (classPart (isClass member)))
            (spares (classPart (isClass member)) fun same => different (by cases same; rfl))
    obtain ⟨place, happens⟩ := happens.checksMethod forest isBody among
    exact ⟨place, forest.kindOf?_method isMethod, happens⟩

end Happens

/-- Name resolution leaves a state to start checks from. -/
theorem ready_resolved (forest : tree.Forest loose) {root : UnitId} {checked : Bool} {sink sink' : Sink}
    {trace trace' : Trace.Recorder} {resolved : Analysis}
    (resolves : Resolve.program tree root checked { sink, trace } = .ok () resolved) :
    Ready tree resolved.names.atRest 0 { resolved with sink := sink', trace := trace' } := by
  have typing : resolved.typing = {} := Resolve.typing_program resolves
  obtain ⟨rooted, hierarchy, nominal, written, since, fresh⟩ :=
    Resolve.introduces_program forest resolves
  refine ⟨rfl, ⟨⟨rooted, hierarchy, nominal, written, since, fresh⟩, fun _ _ known => ?_⟩, ?_,
    Nat.zero_le _⟩
  · simp [typing] at known
  · exact typing ▸ grounded_empty

section Program

variable (forest : tree.Forest loose) {root : UnitId} {checked : Bool} {sink sink' : Sink}
  {trace trace' : Trace.Recorder} {resolved : Analysis}
  (resolves : Resolve.program tree root checked { sink, trace } = .ok () resolved)
  (checks : program tree parent { resolved with sink := sink', trace := trace' } = .ok () final)

include forest resolves checks

theorem ready_checked : Ready tree resolved.names.atRest 0 final := by
  obtain ⟨-, hold⟩ := Resolve.units_program forest resolves
  have walks : Passes tree resolved.names.atRest 0 (fun _ => False)
      (resolved.names.unitOrder.forM (unit tree parent)) :=
    .forM fun other isOther => passes_unit forest (hold other isOther) (spares_none tree _)
  exact (walks.leads (ready_resolved forest resolves) checks).1

/-- When a program is checked, so is every callable of every unit that was resolved. -/
theorem checks_callable {id : UnitId} {module : ProgramUnit} (done : id ∈ resolved.names.unitOrder)
    (isUnit : tree.units.get? id = some module) (member : function ∈ Resolve.callablesOf tree module) :
    ∃ kind place, tree.kindOf? function = some kind ∧
      Happens tree resolved.names.atRest 0 (Beneath tree (.decl kind function))
        (checkCallable tree place function) () final := by
  obtain ⟨-, hold⟩ := Resolve.units_program forest resolves
  have passes {kept : ExprId → Prop} {other : UnitId} (isOther : other ∈ resolved.names.unitOrder)
      (spares : Spares tree kept (.unit other)) :
      Passes tree resolved.names.atRest 0 kept (unit tree parent other) :=
    passes_unit forest (hold other isOther) spares
  have happens : Happens tree resolved.names.atRest 0 (Beneath tree (.unit id))
      (resolved.names.unitOrder.forM (unit tree parent)) () final :=
    ⟨_, _, ready_resolved forest resolves, checks, ready_checked forest resolves checks, .refl _⟩
  have happens := happens.forM done (fun other isOther => passes isOther (spares_none tree _))
    fun other isOther different => passes isOther fun _ below below' =>
      different (forest.unit_unique (hold other isOther) (hold id done) below' below)
  refine happens.checksCallable forest isUnit (fun other isClass => ?_) member
  refine Resolve.order_program forest resolves done (.single ?_)
  rw [Tree.parts, isUnit, Option.map_some, Option.getD_some]
  simp [ProgramUnit.parts, isClass]

end Program

end Programs

end TypeCheck

end TreeCheck
