/-
When the resolution of names follows a walk. The state of an analysis stands for an
environment when the current scope of its table sees the frames of the environment, and
for a list of outcomes when its recorded uses and its reports are those of the list. An
action follows a walk when it always ends, goes from the environment and outcomes the
walk starts with to those it ends with, and changes no scope but the current one.

The rules below put actions together the way walks are put together.
-/

import TreeCheck.Proofs.Scoping.Changes
import TreeCheck.Proofs.Reporting.Actions
import TreeCheck.Resolve.Units

namespace TreeCheck

variable {entries : List Entry} {state : Analysis}

/-! ### Reports -/

/-- Nothing stands in the way of a report, and there is no limit. -/
def Sink.IsOpen (sink : Sink) : Prop := sink.stages = [] ∧ sink.bag.limit ≤ 0

theorem Sink.IsOpen.report {sink : Sink} (isOpen : sink.IsOpen) (diagnostic : Diagnostic) :
    ∃ after, sink.report diagnostic = (after, none) ∧ after.IsOpen ∧
      after.bag.items = sink.bag.items ++ [diagnostic] := by
  obtain ⟨stages, bag⟩ := sink
  obtain ⟨rfl, unlimited⟩ := isOpen
  have room : bag.hasRoom := Bool.or_eq_true _ _ ▸ .inl (decide_eq_true unlimited)
  refine ⟨⟨[], bag.add diagnostic⟩, rfl, ⟨rfl, ?_⟩, ?_⟩
  · rw [Bag.add, if_pos room]
    exact unlimited
  · rw [Bag.add, if_pos room]

/-- A report that a name means nothing or stands in its own initial value. -/
def Diagnostic.concernsName (diagnostic : Diagnostic) : Bool :=
  diagnostic.code = .unresolved ∨ diagnostic.code = .selfReference

/-- A diagnostic without its hint. -/
def Diagnostic.plain (diagnostic : Diagnostic) : Diagnostic := { diagnostic with hint := none }

namespace Lexical

/-- What is reported about a name. -/
def Entry.complaint? (tree : Tree) (entry : Entry) : Option Diagnostic :=
  let about := [tree.text (tree.nameAt entry.expr)]
  match entry.outcome tree with
  | .refersTo _ => none
  | .unknown => some (.error .unresolved (tree.exprSpan entry.expr) about)
  | .ownInitial => some (.error .selfReference (tree.exprSpan entry.expr) about)

/-- The declaration that an outcome gives. -/
def Outcome.decl? : Outcome → Option DeclId
  | .refersTo decl => some decl
  | _ => none

/-- The declaration that the last outcome of an expression gives. -/
def recorded (tree : Tree) (entries : List Entry) (id : ExprId) : Option DeclId :=
  entries.foldl (fun found entry =>
    if entry.expr = id then (entry.outcome tree).decl?.or found else found) none

theorem recorded_append_singleton (tree : Tree) (entries : List Entry) (entry : Entry)
    (id : ExprId) :
    recorded tree (entries ++ [entry]) id =
      if entry.expr = id then (entry.outcome tree).decl?.or (recorded tree entries id)
      else recorded tree entries id := by
  rw [recorded, List.foldl_append]
  rfl

/-- The uses and reports of an analysis are those of a list of outcomes. -/
structure Logged (tree : Tree) (entries : List Entry) (state : Analysis) : Prop where
  uses : ∀ id name, tree.IsName id name → state.names.uses[id]? = recorded tree entries id
  reports : (state.sink.bag.items.filter Diagnostic.concernsName).map Diagnostic.plain =
    entries.filterMap (Entry.complaint? tree)
  isOpen : state.sink.IsOpen

/-- The state of an analysis stands for an environment and a list of outcomes. -/
structure Stands (tree : Tree) (env : Env) (entries : List Entry) (state : Analysis) : Prop where
  sound : state.names.scopes.Sound
  inside : ∃ scope, state.names.scopes.get? state.names.scopes.current = some scope
  frames : state.names.scopes.frames state.names.scopes.current = env
  logged : Logged tree entries state

theorem Stands.meaning?_eq {tree : Tree} {env : Env} (stands : Stands tree env entries state) :
    state.names.scopes.meaning? = env.find? := by
  obtain ⟨scope, found⟩ := stands.inside
  rw [stands.sound.anchored.meaning?_eq found, stands.frames]

/-! ### What a walk leaves alone -/

/-- Everything but the current scope, and what is opened in it, stays as it was. -/
structure Kept (tree : Tree) (before after : Analysis) : Prop where
  stack : after.names.scopes.stack = before.names.scopes.stack
  scopes : ScopeTable.Keeps before.names.scopes.current before.names.scopes after.names.scopes
  units : after.names.units = before.names.units
  unitOrder : after.names.unitOrder = before.names.unitOrder
  progress : after.progress = before.progress
  cyclic : after.cyclic = before.cyclic
  classScopes : ∀ id, tree.kindOf? id = some .classDecl →
    after.names.scopeOfDecl[id]? = before.names.scopeOfDecl[id]?

variable {tree : Tree} {before middle after : Analysis}

theorem Kept.current (kept : Kept tree before after) :
    after.names.scopes.current = before.names.scopes.current := by
  rw [ScopeTable.current, kept.stack]
  rfl

theorem Kept.refl (state : Analysis) : Kept tree state state where
  stack := rfl
  scopes := .refl _ _
  units := rfl
  unitOrder := rfl
  progress := rfl
  cyclic := rfl
  classScopes := fun _ _ => rfl

theorem Kept.trans (first : Kept tree before middle) (second : Kept tree middle after) :
    Kept tree before after where
  stack := second.stack.trans first.stack
  scopes := first.scopes.trans (first.current ▸ second.scopes)
  units := second.units.trans first.units
  unitOrder := second.unitOrder.trans first.unitOrder
  progress := second.progress.trans first.progress
  cyclic := second.cyclic.trans first.cyclic
  classScopes := fun id isClass => (second.classScopes id isClass).trans (first.classScopes id isClass)

/-- Nothing that a walk depends on is touched, and nothing is said about names. -/
structure Untouched (tree : Tree) (before after : Analysis) : Prop where
  scopes : after.names.scopes = before.names.scopes
  units : after.names.units = before.names.units
  unitOrder : after.names.unitOrder = before.names.unitOrder
  progress : after.progress = before.progress
  cyclic : after.cyclic = before.cyclic
  scopeOfDecl : after.names.scopeOfDecl = before.names.scopeOfDecl
  uses : ∀ id name, tree.IsName id name → after.names.uses[id]? = before.names.uses[id]?
  reports : after.sink.bag.items.filter Diagnostic.concernsName =
    before.sink.bag.items.filter Diagnostic.concernsName
  isOpen : after.sink.IsOpen

theorem Untouched.refl (isOpen : state.sink.IsOpen) :
    Untouched tree state state where
  scopes := rfl
  units := rfl
  unitOrder := rfl
  progress := rfl
  cyclic := rfl
  scopeOfDecl := rfl
  uses := fun _ _ _ => rfl
  reports := rfl
  isOpen := isOpen

theorem Untouched.trans (first : Untouched tree before middle)
    (second : Untouched tree middle after) : Untouched tree before after where
  scopes := second.scopes.trans first.scopes
  units := second.units.trans first.units
  unitOrder := second.unitOrder.trans first.unitOrder
  progress := second.progress.trans first.progress
  cyclic := second.cyclic.trans first.cyclic
  scopeOfDecl := second.scopeOfDecl.trans first.scopeOfDecl
  uses := fun id name isName => (second.uses id name isName).trans (first.uses id name isName)
  reports := second.reports.trans first.reports
  isOpen := second.isOpen

theorem Untouched.kept (untouched : Untouched tree before after) : Kept tree before after where
  stack := by rw [untouched.scopes]
  scopes := by rw [untouched.scopes]; exact .refl _ _
  units := untouched.units
  unitOrder := untouched.unitOrder
  progress := untouched.progress
  cyclic := untouched.cyclic
  classScopes := fun _ _ => by rw [untouched.scopeOfDecl]

theorem Untouched.logged (untouched : Untouched tree before after)
    (logged : Logged tree entries before) : Logged tree entries after where
  uses := fun id name isName => (untouched.uses id name isName).trans (logged.uses id name isName)
  reports := by rw [untouched.reports, logged.reports]
  isOpen := untouched.isOpen

theorem Untouched.stands (untouched : Untouched tree before after) {env : Env}
    (stands : Stands tree env entries before) :
    Stands tree env entries after where
  sound := untouched.scopes ▸ stands.sound
  inside := untouched.scopes ▸ stands.inside
  frames := untouched.scopes ▸ stands.frames
  logged := untouched.logged stands.logged

/-! ### Silent actions -/

/-- An action that always ends and touches nothing. -/
structure Silent (tree : Tree) {α : Type} (action : AnalysisM α) : Prop where
  runs : ∀ state, state.sink.IsOpen → ∃ value after, action state = .ok value after ∧
    Untouched tree state after

namespace Silent

variable {α β : Type}
variable {action : AnalysisM α}

theorem pure (value : α) : Silent tree (pure value : AnalysisM α) :=
  ⟨fun state isOpen => ⟨value, state, rfl, .refl isOpen⟩⟩

theorem bind {next : α → AnalysisM β} (first : Silent tree action)
    (second : ∀ value, Silent tree (next value)) : Silent tree (action >>= next) := by
  refine ⟨fun state isOpen => ?_⟩
  obtain ⟨value, middle, runs, untouched⟩ := first.runs state isOpen
  obtain ⟨result, after, runs', untouched'⟩ := (second value).runs middle untouched.isOpen
  exact ⟨result, after, (AnalysisM.bind_eq runs).trans runs', untouched.trans untouched'⟩

theorem get : Silent tree (get : AnalysisM Analysis) :=
  ⟨fun state isOpen => ⟨state, state, rfl, .refl isOpen⟩⟩

theorem scopes : Silent tree AnalysisM.scopes := .bind .get fun _ => .pure _

theorem find? (key : Key) : Silent tree (AnalysisM.find? key) := .bind .scopes fun _ => .pure _

theorem visibleNames : Silent tree AnalysisM.visibleNames := .bind .scopes fun _ => .pure _

theorem discard (silent : Silent tree action) : Silent tree (discard action) := by
  refine ⟨fun state isOpen => ?_⟩
  obtain ⟨value, after, runs, untouched⟩ := silent.runs state isOpen
  refine ⟨(), after, ?_, untouched⟩
  show EStateM.map _ action state = _
  rw [EStateM.map, runs]

theorem forM {actions : α → AnalysisM Unit} {items : List α}
    (silent : ∀ item, Silent tree (actions item)) : Silent tree (items.forM actions) := by
  induction items with
  | nil => exact .pure _
  | cons item rest inductionHypothesis => exact .bind (silent item) fun _ => inductionHypothesis

/-- A report that is not about a name. -/
theorem report {diagnostic : Diagnostic} (other : diagnostic.concernsName = false) :
    Silent tree (AnalysisM.report diagnostic) := by
  refine ⟨fun state isOpen => ?_⟩
  obtain ⟨sink, reported, isOpen', items⟩ := isOpen.report diagnostic
  refine ⟨(), { state with sink }, ?_, ?_⟩
  · simp [AnalysisM.report, reported]
  · exact { Untouched.refl isOpen with
      reports := by simp [items, List.filter_append, other], isOpen := isOpen' }

theorem error (code : Code) (unlike : code ≠ .unresolved) (unlike' : code ≠ .selfReference)
    (span : Span) (args : List String) : Silent tree (AnalysisM.error code span args) :=
  .report (by simp [Diagnostic.concernsName, Diagnostic.error, unlike, unlike'])

/-- A change of what no name is looked up in. -/
theorem modifyNames {change : Resolution → Resolution}
    (scopes : ∀ names, (change names).scopes = names.scopes)
    (units : ∀ names, (change names).units = names.units)
    (unitOrder : ∀ names, (change names).unitOrder = names.unitOrder)
    (scopeOfDecl : ∀ names, (change names).scopeOfDecl = names.scopeOfDecl)
    (uses : ∀ names id name, tree.IsName id name → (change names).uses[id]? = names.uses[id]?) :
    Silent tree (AnalysisM.modifyNames change) := by
  refine ⟨fun state isOpen => ⟨(), { state with names := change state.names }, rfl, ?_⟩⟩
  constructor
  case scopes => exact scopes _
  case units => exact units _
  case unitOrder => exact unitOrder _
  case scopeOfDecl => exact scopeOfDecl _
  case uses => exact uses _
  all_goals first | rfl | exact isOpen

end Silent

/-- An action that always ends, touches nothing, and gives a value where an environment
stands. -/
structure Reads (tree : Tree) (env : Env) {α : Type} (action : AnalysisM α) (value : α) : Prop where
  runs : ∀ entries state, Stands tree env entries state → ∃ after, action state = .ok value after ∧
    Untouched tree state after

namespace Reads

variable {α β : Type} {env : Env}
variable {action : AnalysisM α} {next : α → AnalysisM β}

theorem pure (value : α) : Reads tree env (pure value : AnalysisM α) value :=
  ⟨fun _ state stands => ⟨state, rfl, .refl stands.logged.isOpen⟩⟩

theorem bind {value : α} {result : β} (first : Reads tree env action value)
    (second : Reads tree env (next value) result) : Reads tree env (action >>= next) result := by
  refine ⟨fun entries state stands => ?_⟩
  obtain ⟨middle, runs, untouched⟩ := first.runs entries state stands
  obtain ⟨after, runs', untouched'⟩ := second.runs entries middle (untouched.stands stands)
  exact ⟨after, (AnalysisM.bind_eq runs).trans runs', untouched.trans untouched'⟩

theorem silently {result : β} (silent : Silent tree action)
    (second : ∀ value, Reads tree env (next value) result) :
    Reads tree env (action >>= next) result := by
  refine ⟨fun entries state stands => ?_⟩
  obtain ⟨value, middle, runs, untouched⟩ := silent.runs state stands.logged.isOpen
  obtain ⟨after, runs', untouched'⟩ :=
    (second value).runs entries middle (untouched.stands stands)
  exact ⟨after, (AnalysisM.bind_eq runs).trans runs', untouched.trans untouched'⟩

theorem find? (key : Key) : Reads tree env (AnalysisM.find? key) (env.find? key) := by
  refine ⟨fun entries state stands => ⟨state, ?_, .refl stands.logged.isOpen⟩⟩
  show EStateM.Result.ok (state.names.scopes.meaning? key) state = _
  rw [stands.meaning?_eq]

end Reads

/-! ### Scopes of their own -/

/-- A scope was opened inside the current one, and nothing else that a walk depends on was
touched. -/
structure Opening (before opened : Analysis) : Prop where
  opens : ScopeTable.Opens before.names.scopes opened.names.scopes
  units : opened.names.units = before.names.units
  unitOrder : opened.names.unitOrder = before.names.unitOrder
  progress : opened.progress = before.progress
  cyclic : opened.cyclic = before.cyclic
  uses : opened.names.uses = before.names.uses
  sink : opened.sink = before.sink

/-- The current scope is closed. -/
def closed (state : Analysis) : Analysis :=
  { state with names := { state.names with scopes := state.names.scopes.close } }

namespace Opening

variable {opened : Analysis} {env inner : Env} {entries later : List Entry}

theorem current (opening : Opening before opened) :
    opened.names.scopes.current = before.names.scopes.scopes.next := by
  rw [ScopeTable.current, opening.opens.stack]
  rfl

/-- Inside the new scope there is one more frame, which is empty. -/
theorem stands (opening : Opening before opened) (stands : Stands tree env entries before) :
    Stands tree ([] :: env) entries opened where
  sound := opening.opens.sound
  inside := by
    obtain ⟨scope, found, _⟩ := opening.opens.inside
    exact ⟨scope, by rw [opening.current, found]⟩
  frames := by rw [opening.current, opening.opens.frames, stands.frames]
  logged :=
    { uses := by rw [opening.uses]; exact stands.logged.uses
      reports := by rw [opening.sink]; exact stands.logged.reports
      isOpen := by rw [opening.sink]; exact stands.logged.isOpen }

theorem keeps (opening : Opening before opened) (ends : Stands tree inner later after)
    (kept : Kept tree opened after) :
    (closed after).names.scopes.Sound ∧
      ScopeTable.Keeps 0 before.names.scopes (closed after).names.scopes ∧
      (closed after).names.scopes.stack = before.names.scopes.stack :=
  opening.opens.closed (opening.current ▸ kept.scopes) kept.stack ends.sound

/-- After the scope is closed the environment is what it was. -/
theorem ends (opening : Opening before opened) (starts : Stands tree env entries before)
    (ends : Stands tree inner later after) (kept : Kept tree opened after) :
    Stands tree env later (closed after) := by
  obtain ⟨sound, keeps, stack⟩ := opening.keeps ends kept
  obtain ⟨scope, found⟩ := starts.inside
  have current : (closed after).names.scopes.current = before.names.scopes.current := by
    rw [ScopeTable.current, stack]
    rfl
  refine ⟨sound, ?_, ?_, ⟨ends.logged.uses, ends.logged.reports, ends.logged.isOpen⟩⟩
  · obtain ⟨scope', found', _⟩ := keeps _ scope found
    exact ⟨scope', by rw [current, found']⟩
  · rw [current, keeps.frames_eq starts.sound sound found, starts.frames]

theorem kept (opening : Opening before opened) (ends : Stands tree inner later after)
    (kept : Kept tree opened after)
    (classScopes : ∀ id, tree.kindOf? id = some .classDecl →
      opened.names.scopeOfDecl[id]? = before.names.scopeOfDecl[id]?) :
    Kept tree before (closed after) where
  stack := (opening.keeps ends kept).2.2
  scopes := (opening.keeps ends kept).2.1.of_zero
  units := kept.units.trans opening.units
  unitOrder := kept.unitOrder.trans opening.unitOrder
  progress := kept.progress.trans opening.progress
  cyclic := kept.cyclic.trans opening.cyclic
  classScopes := fun id isClass => (kept.classScopes id isClass).trans (classScopes id isClass)

end Opening

/-! ### Following a walk -/

/-- An action follows a walk. -/
structure Follows (tree : Tree) (action : AnalysisM Unit) (walk : Walk) : Prop where
  runs : ∀ env entries state, Stands tree env entries state → ∃ after,
    action state = .ok () after ∧ Stands tree (walk env).1 (entries ++ (walk env).2) after ∧
      Kept tree state after

namespace Follows

variable {α : Type} {action : AnalysisM Unit} {walk : Walk}
variable {actions : α → AnalysisM Unit} {walks : α → Walk}

theorem skip : Follows tree (pure ()) Walk.skip := by
  refine ⟨fun env entries state stands => ⟨state, rfl, ?_, .refl state⟩⟩
  simpa [Walk.skip] using stands

/-- Silent actions do not count. -/
theorem silently {first : AnalysisM α} {next : α → AnalysisM Unit} (silent : Silent tree first)
    (follows : ∀ value, Follows tree (next value) walk) : Follows tree (first >>= next) walk := by
  refine ⟨fun env entries state stands => ?_⟩
  obtain ⟨value, middle, runs, untouched⟩ := silent.runs state stands.logged.isOpen
  obtain ⟨final, runs', stands', kept⟩ :=
    (follows value).runs env entries middle (untouched.stands stands)
  exact ⟨final, (AnalysisM.bind_eq runs).trans runs', stands', untouched.kept.trans kept⟩

theorem silent (silent : Silent tree action) : Follows tree action Walk.skip := by
  refine ⟨fun env entries state stands => ?_⟩
  obtain ⟨value, after, runs, untouched⟩ := silent.runs state stands.logged.isOpen
  exact ⟨after, runs, by simpa [Walk.skip] using untouched.stands stands, untouched.kept⟩

theorem andThen {second : AnalysisM Unit} {next : Walk} (follows : Follows tree action walk)
    (further : Follows tree second next) :
    Follows tree (action >>= fun _ => second) (walk.andThen next) := by
  refine ⟨fun env entries state stands => ?_⟩
  obtain ⟨middle, runs, stands', kept⟩ := follows.runs env entries state stands
  obtain ⟨final, runs', stands'', kept'⟩ := further.runs _ _ middle stands'
  refine ⟨final, (AnalysisM.bind_eq runs).trans runs', ?_, kept.trans kept'⟩
  simpa only [Walk.andThen, List.append_assoc] using stands''

theorem each {items : List α} (follows : ∀ item ∈ items, Follows tree (actions item) (walks item)) :
    Follows tree (items.forM actions) (Walk.each items walks) := by
  induction items with
  | nil => exact .skip
  | cons item rest inductionHypothesis =>
    exact .andThen (follows item (.head _))
      (inductionHypothesis fun other member => follows other (.tail _ member))

/-- What is left out of a list is skipped. -/
theorem eachSome {actions : Option α → AnalysisM Unit} {items : List (Option α)}
    (skips : actions none = pure ())
    (follows : ∀ item, some item ∈ items → Follows tree (actions (some item)) (walks item)) :
    Follows tree (items.forM actions) (Walk.each items.reduceOption walks) := by
  induction items with
  | nil => exact .skip
  | cons item rest inductionHypothesis =>
    have later := inductionHypothesis fun other member =>
      follows other (.tail _ member)
    cases item with
    | none =>
      have nothing : Silent tree (actions none) := skips ▸ .pure ()
      exact .silently nothing fun _ => later
    | some item => exact .andThen (follows item (.head _)) later

theorem option {item : Option α}
    (follows : ∀ value, item = some value → Follows tree (actions value) (walks value)) :
    Follows tree (item.forM actions) (Walk.each item.toList walks) := by
  cases item with
  | none => exact .skip
  | some value =>
    refine ⟨fun env entries state stands => ?_⟩
    obtain ⟨after, runs, stands', kept⟩ := (follows value rfl).runs env entries state stands
    refine ⟨after, runs, ?_, kept⟩
    simpa [Walk.each, Walk.andThen, Walk.skip] using stands'

/-- An action in a scope of its own follows a walk in a frame of its own. -/
theorem inside {start whole : AnalysisM Unit} (follows : Follows tree action walk)
    (opens : ∀ env entries state, Stands tree env entries state → ∃ opened,
      start state = .ok () opened ∧ Opening state opened ∧
        ∀ id, tree.kindOf? id = some .classDecl →
          opened.names.scopeOfDecl[id]? = state.names.scopeOfDecl[id]?)
    (isWhole : ∀ state opened after, start state = .ok () opened → action opened = .ok () after →
      whole state = .ok () (closed after)) : Follows tree whole walk.nested := by
  refine ⟨fun env entries state stands => ?_⟩
  obtain ⟨opened, starts, opening, classScopes⟩ := opens env entries state stands
  obtain ⟨after, runs, ends, kept⟩ := follows.runs _ _ _ (opening.stands stands)
  exact ⟨closed after, isWhole state opened after starts runs, opening.ends stands ends kept,
    opening.kept ends kept classScopes⟩

end Follows

end Lexical

end TreeCheck
