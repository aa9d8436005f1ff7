/-
What happens inside of a unit is spared some things. Resolving types, expressions,
statements, callables and the members of a class neither orders classes nor finds cycles,
and it gives no key to a method but the methods of the class at hand. Whatever is known of
the order of classes, of cycles and of the members of classes therefore changes only where
imports are resolved, where classes are put in order, and where a class binds its methods.

Only the resolution of imports makes units wait for each other, and only there is it said
that imports lead back; that is so however an action ends.
-/

import TreeCheck.Proofs.Reporting.Resolution
import TreeCheck.Proofs.Scoping.Simulation
import TreeCheck.Proofs.Scoping.Staying

namespace TreeCheck

variable {missing : Code} {id : DeclId} {diagnostic : Diagnostic} {kind : DeclKind}
  {classes : List DeclId}

/-- Imports or bases lead back to where they started. -/
def Code.isCycle : Code → Bool
  | .importCycle | .inheritanceCycle => true
  | _ => false

theorem Resolve.code_suggesting (name : String) (candidates : List String)
    (diagnostic : Diagnostic) :
    (Resolve.suggesting name candidates diagnostic).code = diagnostic.code := by
  unfold Resolve.suggesting
  split <;> rfl

/-- Two actions one after the other end as the second does, unless the first does not come to its
end. -/
theorem AnalysisM.bind_cases {α β : Type} (action : AnalysisM α) (next : α → AnalysisM β)
    (before : Analysis) :
    (∃ value middle, action before = .ok value middle ∧
      (action >>= next) before = next value middle) ∨
    ∃ abort after, action before = .error abort after ∧
      (action >>= next) before = .error abort after := by
  show (∃ value middle, _ ∧ EStateM.bind action next before = _) ∨
    ∃ abort after, _ ∧ EStateM.bind action next before = _
  unfold EStateM.bind
  cases action before with
  | ok value middle => exact .inl ⟨value, middle, rfl, rfl⟩
  | error abort after => exact .inr ⟨abort, after, rfl, rfl⟩

namespace Resolve

open AnalysisM

/-- An action that resolves no import: however it ends, no unit has made progress, and where it
raises something, that is not said of an import that leads back. -/
structure Local {α : Type} (action : AnalysisM α) : Prop where
  progress : ∀ before, (Acts.behind (action before)).progress = before.progress
  raised : ∀ before diagnostic after,
    action before = .error (.raised diagnostic) after → diagnostic.code ≠ .importCycle

namespace Local

variable {α β : Type}
variable {action : AnalysisM α}

theorem pure (value : α) : Local (pure value : AnalysisM α) :=
  ⟨fun _ => rfl, fun _ _ _ ran => nomatch ran⟩

theorem bind {next : α → AnalysisM β} (first : Local action)
    (second : ∀ value, Local (next value)) :
    Local (action >>= next) := by
  refine ⟨fun before => ?_, fun before diagnostic after ran => ?_⟩
  · have early := first.progress before
    rcases bind_cases action next before with ⟨value, middle, ran, same⟩ | ⟨abort, after, ran, same⟩
    · rw [ran] at early
      rw [same]
      exact ((second value).progress middle).trans early
    · rw [ran] at early
      rw [same]
      exact early
  · rcases bind_cases action next before with ⟨value, middle, -, same⟩ | ⟨abort, _, ends, same⟩
    · exact (second value).raised middle diagnostic after (same ▸ ran)
    · cases same.symm.trans ran
      exact first.raised before diagnostic _ ends

theorem read {next : Analysis → AnalysisM α} (inside : ∀ state, Local (next state)) :
    Local (get >>= next) :=
  ⟨fun before => (inside before).progress before, fun before => (inside before).raised before⟩

theorem modify {change : Analysis → Analysis}
    (same : ∀ state, (change state).progress = state.progress) :
    Local (modify change : AnalysisM PUnit) :=
  ⟨same, fun _ _ _ ran => nomatch ran⟩

theorem modifyNames (change : Resolution → Resolution) : Local (AnalysisM.modifyNames change) :=
  .modify fun _ => rfl

theorem report (other : diagnostic.code ≠ .importCycle) : Local (AnalysisM.report diagnostic) := by
  refine ⟨fun before => ?_, fun before found after ran => ?_⟩
  · rw [report_eq]
    cases (before.sink.report diagnostic).2 <;> rfl
  · rw [report_eq] at ran
    cases raised : (before.sink.report diagnostic).2 with
    | none => rw [raised] at ran; nomatch ran
    | some inner =>
      rw [raised] at ran
      obtain ⟨same, -⟩ := EStateM.Result.error.inj ran
      cases same
      rcases (Sink.raised_of_reportThrough raised).2 with rfl | rfl
      · exact other
      · unfold Diagnostic.promote
        split <;> exact other

theorem ensuring {cleanup : Analysis → Analysis}
    (same : ∀ state, (cleanup state).progress = state.progress) (inside : Local action) :
    Local (AnalysisM.ensuring cleanup action) := by
  refine ⟨fun before => ?_, fun before diagnostic after ran => ?_⟩
  · rw [Acts.behind_ensuring, same]
    exact inside.progress before
  · unfold AnalysisM.ensuring at ran
    split at ran
    · nomatch ran
    · next abort middle ends =>
      cases ran
      exact inside.raised before diagnostic middle ends

theorem forM {actions : α → AnalysisM PUnit} {items : List α}
    (inside : ∀ item ∈ items, Local (actions item)) : Local (items.forM actions) := by
  induction items with
  | nil => exact .pure _
  | cons item rest inductionHypothesis =>
    exact .bind (inside item (.head _)) fun _ =>
      inductionHypothesis fun other member => inside other (.tail _ member)

theorem foldlM {step : β → α → AnalysisM β} (inside : ∀ value item, Local (step value item))
    (items : List α) (start : β) : Local (items.foldlM step start) := by
  induction items generalizing start with
  | nil => exact .pure _
  | cons item rest inductionHypothesis => exact .bind (inside start item) inductionHypothesis

end Local

/-- The order of classes, the classes that inherit from themselves and the reports of cycles are
what they were, and so is the key of every method but some. -/
structure Spares (tree : Tree) (methods : DeclId → Prop) (before after : Analysis) : Prop where
  order : after.names.order = before.names.order
  cyclic : after.cyclic = before.cyclic
  keys : ∀ id, tree.kindOf? id = some .method → ¬ methods id →
    after.names.keys[id]? = before.names.keys[id]?
  cycles : ∀ code : Code, code.isCycle →
    after.sink.bag.items.filter (·.code = code) = before.sink.bag.items.filter (·.code = code)
  isOpen : after.sink.IsOpen

variable {tree : Tree} {methods : DeclId → Prop} {before middle after : Analysis}

theorem Spares.of_same (names : after.names.order = before.names.order)
    (keys : after.names.keys = before.names.keys) (cyclic : after.cyclic = before.cyclic)
    (sink : after.sink = before.sink) (isOpen : before.sink.IsOpen) :
    Spares tree methods before after :=
  ⟨names, cyclic, fun _ _ _ => by rw [keys], fun _ _ => by rw [sink], sink ▸ isOpen⟩

theorem Spares.trans (first : Spares tree methods before middle)
    (second : Spares tree methods middle after) : Spares tree methods before after where
  order := second.order.trans first.order
  cyclic := second.cyclic.trans first.cyclic
  keys := fun id isMethod other => (second.keys id isMethod other).trans (first.keys id isMethod other)
  cycles := fun code isCycle => (second.cycles code isCycle).trans (first.cycles code isCycle)
  isOpen := second.isOpen

/-- An action that resolves no import and spares all of this when it comes to its end. -/
structure Sparing (tree : Tree) (methods : DeclId → Prop) {α : Type} (action : AnalysisM α) :
    Prop extends Local action where
  spares : ∀ before value after, before.sink.IsOpen → action before = .ok value after →
    Spares tree methods before after

namespace Sparing

variable {α β : Type}
variable {action : AnalysisM α} {actions : α → AnalysisM PUnit}

theorem pure (value : α) : Sparing tree methods (pure value : AnalysisM α) := by
  refine ⟨.pure value, fun before value' after isOpen ran => ?_⟩
  cases ran
  exact .of_same rfl rfl rfl rfl isOpen

theorem bind {next : α → AnalysisM β} (first : Sparing tree methods action)
    (second : ∀ value, Sparing tree methods (next value)) :
    Sparing tree methods (action >>= next) := by
  refine ⟨.bind first.toLocal fun value => (second value).toLocal,
    fun before value after isOpen ran => ?_⟩
  obtain ⟨found, middle, runs, goesOn⟩ := bind_eq_ok ran
  have early := first.spares before found middle isOpen runs
  exact early.trans ((second found).spares middle value after early.isOpen goesOn)

theorem read {next : Analysis → AnalysisM α} (spares : ∀ state, Sparing tree methods (next state)) :
    Sparing tree methods (get >>= next) :=
  ⟨.read fun state => (spares state).toLocal, fun before value after isOpen ran =>
    (spares before).spares before value after isOpen ran⟩

theorem scopes : Sparing tree methods AnalysisM.scopes := .read fun _ => .pure _

theorem find? (key : Key) : Sparing tree methods (AnalysisM.find? key) :=
  .bind .scopes fun _ => .pure _

theorem visibleNames : Sparing tree methods AnalysisM.visibleNames :=
  .bind .scopes fun _ => .pure _

theorem discard (spares : Sparing tree methods action) : Sparing tree methods (discard action) := by
  rw [show Functor.discard action = _ from map_eq_bind action fun _ => PUnit.unit]
  exact .bind spares fun _ => .pure _

theorem forM {items : List α} (spares : ∀ item ∈ items, Sparing tree methods (actions item)) :
    Sparing tree methods (items.forM actions) := by
  induction items with
  | nil => exact .pure _
  | cons item rest inductionHypothesis =>
    exact .bind (spares item (.head _)) fun _ =>
      inductionHypothesis fun other member => spares other (.tail _ member)

theorem optionForM {item : Option α}
    (spares : ∀ value ∈ item, Sparing tree methods (actions value)) :
    Sparing tree methods (item.forM actions) := by
  cases item with
  | none => exact .pure _
  | some value => exact spares value rfl

/-- A change of what is not spared. -/
theorem modifyNames {change : Resolution → Resolution}
    (order : ∀ names, (change names).order = names.order)
    (keys : ∀ names id, tree.kindOf? id = some .method → ¬ methods id →
      (change names).keys[id]? = names.keys[id]?) :
    Sparing tree methods (AnalysisM.modifyNames change) := by
  refine ⟨.modifyNames change, fun before value after isOpen ran => ?_⟩
  cases ran
  exact ⟨order _, rfl, keys _, fun _ _ => rfl, isOpen⟩

theorem modifyScopes (change : ScopeTable → ScopeTable) :
    Sparing tree methods (AnalysisM.modifyScopes change) :=
  (modifyNames (fun _ => rfl) fun _ _ _ _ => rfl : Sparing tree methods
    (AnalysisM.modifyNames fun names => { names with scopes := change names.scopes }))

/-- A report of anything but a cycle. -/
theorem report (other : diagnostic.code.isCycle = false) :
    Sparing tree methods (AnalysisM.report diagnostic) := by
  refine ⟨.report fun same => ?_, fun before value after isOpen ran => ?_⟩
  · rw [same] at other
    nomatch other
  obtain ⟨sink, reported, isOpen', items⟩ := isOpen.report diagnostic
  obtain rfl := report_eq_ok ran
  rw [reported]
  refine ⟨rfl, rfl, fun _ _ _ => rfl, fun code isCycle => ?_, isOpen'⟩
  have different : diagnostic.code ≠ code := by
    rintro rfl
    rw [other] at isCycle
    nomatch isCycle
  show sink.bag.items.filter _ = _
  simp [items, List.filter_append, different]

theorem error {code : Code} (other : code.isCycle = false) (span : Span) (args : List String) :
    Sparing tree methods (AnalysisM.error code span args) := report other

theorem unresolved {code : Code} (other : code.isCycle = false) (span : Span) (name : String)
    (owner candidates : List String) :
    Sparing tree methods (Resolve.unresolved code span name owner candidates) :=
  report ((code_suggesting ..).symm ▸ other)

/-- Cleaning up behind an action. -/
theorem ensuring {change : ScopeTable → ScopeTable} (spares : Sparing tree methods action) :
    Sparing tree methods (AnalysisM.ensuring (fun state =>
      { state with names := { state.names with scopes := change state.names.scopes } }) action) := by
  refine ⟨.ensuring (fun _ => rfl) spares.toLocal, fun before value after isOpen ran => ?_⟩
  unfold AnalysisM.ensuring at ran
  split at ran
  · next found final ends =>
    obtain ⟨-, rfl⟩ := EStateM.Result.ok.inj ran
    have early := spares.spares before found final isOpen ends
    exact early.trans (.of_same rfl rfl rfl rfl early.isOpen)
  · nomatch ran

end Sparing

/-! ### Types -/

theorem sparing_typeNames : Sparing tree methods (typeNames tree) :=
  .bind .scopes fun _ => .bind .visibleNames fun _ => .pure _

theorem sparing_referTo (id : TypeExprId) (span : Span) (other : missing.isCycle = false)
    (name : String) : Sparing tree methods (referTo tree id span missing name) := by
  have complains : Sparing tree methods (referTo.complain tree span missing name) :=
    .bind sparing_typeNames fun _ =>
      .bind (.report ((code_suggesting ..).symm ▸ other)) fun _ => .pure _
  unfold referTo
  split
  · exact .pure _
  · refine .bind (.find? _) fun found => ?_
    split
    · split
      · exact .bind (.modifyNames (fun _ => rfl) fun _ _ _ _ => rfl) fun _ => .pure _
      · exact complains
    · exact complains

theorem sparing_typeWithin (fuel : Nat) (other : missing.isCycle = false) (id : Option TypeExprId) :
    Sparing tree methods (typeWithin tree fuel missing id) := by
  induction fuel generalizing missing id with
  | zero => exact .pure _
  | succ fuel inductionHypothesis =>
    have inner (id : Option TypeExprId) :
        Sparing tree methods (Functor.discard (typeWithin tree fuel .undeclaredType id)) :=
      (inductionHypothesis rfl id).discard
    unfold typeWithin
    split
    · exact .pure _
    · split
      · exact .bind (.forM fun arg _ => inner arg) fun _ => sparing_referTo _ _ other _
      · exact .bind (inner _) fun _ => .pure _
      · exact .bind (inner _) fun _ => .pure _
      · exact .bind (.forM fun member _ => inner member) fun _ => .pure _
      · exact .bind (.forM fun member _ => inner member) fun _ => .pure _

theorem sparing_type (id : Option TypeExprId) :
    Sparing tree methods (Functor.discard (type tree id)) :=
  (sparing_typeWithin _ rfl id).discard

theorem sparing_classType (id : TypeExprId) : Sparing tree methods (classType tree id) := by
  unfold classType
  refine .bind (sparing_typeWithin _ rfl _) fun found => ?_
  split
  · exact .pure _
  · split
    · exact .error rfl ..
    · exact .pure _

/-! ### Expressions -/

theorem sparing_use (id : ExprId) (decl : DeclId) : Sparing tree methods (use id decl) :=
  .modifyNames (fun _ => rfl) fun _ _ _ _ => rfl

theorem sparing_nameUse (place : Place) (id : ExprId) (span : Span) (name : NameId) :
    Sparing tree methods (nameUse tree place id span name) := by
  unfold nameUse
  dsimp only
  split
  · exact .error rfl ..
  · refine .bind (.find? _) fun found => ?_
    split
    · exact sparing_use ..
    · exact .bind .visibleNames fun _ => .unresolved rfl ..

theorem sparing_enumField (id : ExprId) (span : Span) (enum : DeclId) (name : String) :
    Sparing tree methods (enumField tree id span enum name) := by
  unfold enumField
  split
  · exact .pure _
  · split
    · exact sparing_use ..
    · exact .unresolved rfl ..

theorem sparing_fieldUse (place : Place) (id : ExprId) (span : Span) (receiver : ExprId)
    (name : String) : Sparing tree methods (fieldUse tree place id span receiver name) := by
  unfold fieldUse
  split
  · split
    · refine .read fun state => ?_
      dsimp only
      split
      · exact sparing_use ..
      · exact .unresolved rfl ..
    · exact .pure _
  · refine .read fun state => ?_
    split
    · exact sparing_enumField ..
    · exact .pure _
  · exact .pure _

theorem sparing_callUse (place : Place) (id : ExprId) (span : Span) (name : String) :
    Sparing tree methods (callUse place id span name) := by
  refine .read fun state => ?_
  dsimp only
  split
  · exact .bind .visibleNames fun _ => .unresolved rfl ..
  · exact sparing_use ..
  · exact .pure _

theorem sparing_methodUse (place : Place) (id : ExprId) (span : Span) (receiver : ExprId)
    (name : String) : Sparing tree methods (methodUse tree place id span receiver name) := by
  unfold methodUse
  split
  · exact .pure _
  · split
    · refine .read fun state => ?_
      split
      · exact .unresolved rfl ..
      · exact sparing_use ..
      · exact .pure _
    · exact .pure _

theorem sparing_exprWithin (place : Place) (fuel : Nat) (id : ExprId) :
    Sparing tree methods (exprWithin tree place fuel id) := by
  induction fuel generalizing id with
  | zero => exact .pure _
  | succ fuel inner =>
    have all (ids : List ExprId) : Sparing tree methods (ids.forM (exprWithin tree place fuel)) :=
      .forM fun id _ => inner id
    unfold exprWithin
    dsimp only
    split
    · exact .pure _
    · split
      · exact .pure _
      · exact sparing_nameUse ..
      · split
        · exact .error rfl ..
        · exact sparing_use ..
      · exact .bind (inner _) fun _ => sparing_fieldUse ..
      · exact .bind (inner _) fun _ => all _
      · exact .bind (.forM fun arg _ => sparing_type arg) fun _ =>
          .bind (all _) fun _ => sparing_callUse ..
      · exact .bind (inner _) fun _ => .bind (all _) fun _ => sparing_methodUse ..
      · exact .bind (inner _) fun _ => inner _
      · exact inner _
      · exact .bind (sparing_type _) fun _ => inner _
      · exact .bind (sparing_classType _) fun _ => .forM fun init _ => inner init.value
      · exact .bind (sparing_type _) fun _ => all _
      · exact all _

/-! ### Variables -/

/-- A declaration that is no method may be bound, and so may some methods. -/
theorem sparing_bind (fits : tree.kindOf? id = some .method → methods id) (key : Key) :
    Sparing tree methods (Resolve.bind tree key id) := by
  refine .bind .scopes fun table => ?_
  split
  · refine .modifyNames (fun _ => rfl) fun names other isMethod apart => ?_
    have different : id ≠ other := fun same => apart (same ▸ fits (same ▸ isMethod))
    simp [Std.TreeMap.getElem?_insert, different]
  · dsimp only
    split
    · exact .report rfl
    · exact .report rfl

theorem sparing_bindName (fits : tree.kindOf? id = some .method → methods id) :
    Sparing tree methods (bindName tree id) := sparing_bind fits _

theorem sparing_hidden? (name : String) : Sparing tree methods (hidden? tree name) := by
  refine .bind .scopes fun table => ?_
  dsimp only
  split
  · exact .pure _
  · exact .pure _

theorem sparing_bindVariable (fits : tree.kindOf? id = some .method → methods id) (decl : Decl) :
    Sparing tree methods (bindVariable tree id decl) := by
  refine .bind .scopes fun table => ?_
  dsimp only
  split
  · exact .report rfl
  · split
    · refine .bind (sparing_hidden? _) fun hides => ?_
      split
      · exact .report rfl
      · exact sparing_bind fits _
    · exact sparing_bind fits _

theorem sparing_declareVariable (place : Place)
    (fits : tree.kindOf? id = some .method → methods id) :
    Sparing tree methods (declareVariable tree place id) := by
  unfold declareVariable
  split
  · exact .pure _
  · refine .bind (sparing_type _) fun _ => ?_
    dsimp only
    split
    · exact .bind (sparing_exprWithin ..) fun _ => sparing_bindVariable fits _
    · exact sparing_bindVariable fits _

/-! ### Statements -/

theorem sparing_openFor (kind : ScopeKind) (id : StmtId) (span : Span) :
    Sparing tree methods (openFor kind id span) :=
  .modifyNames (fun _ => rfl) fun _ _ _ _ => rfl

theorem sparing_close : Sparing tree methods close := .modifyScopes _

section

variable {loose : List Node} (forest : tree.Forest loose)

include forest

/-- A part of the tree that is of another kind is no method. -/
theorem fits_of_kind {whole : Node} (isPart : .decl kind id ∈ tree.parts whole)
    (other : kind ≠ .method) : tree.kindOf? id = some .method → methods id := fun isMethod =>
  absurd (Option.some.inj (((forest.holds_part isPart : tree.kindOf? id = some kind)).symm.trans
    isMethod)) other

theorem sparing_stmtWithin (place : Place) (fuel : Nat) (id : StmtId) :
    Sparing tree methods (stmtWithin tree place fuel id) :=
  Composes.stmtWithin ⟨.pure _, fun first second => .bind first fun _ => second⟩
    (fun _ => sparing_exprWithin ..) (fun _ _ _ => sparing_openFor ..) sparing_close
    (fun _ _ isPart => sparing_declareVariable place (fits_of_kind forest isPart (by decide))) fuel id

/-! ### Declarations that open scopes -/

omit forest in
theorem sparing_inDeclScope (kind : ScopeKind) (id : DeclId) (span : Span) {action : AnalysisM Unit}
    (spares : Sparing tree methods action) :
    Sparing tree methods (inDeclScope kind id span action) :=
  .bind (.modifyNames (fun _ => rfl) fun _ _ _ _ => rfl) fun _ => .ensuring spares

omit forest in
theorem sparing_declareCallable (fits : tree.kindOf? id = some .method → methods id) :
    Sparing tree methods (declareCallable tree id) := by
  unfold declareCallable
  split
  · exact .pure _
  · exact .bind .scopes fun _ => sparing_bind fits _

theorem sparing_declareEnum (place : Place) (fits : tree.kindOf? id = some .method → methods id) :
    Sparing tree methods (declareEnum tree place id) := by
  refine .bind (sparing_bindName fits) fun _ => ?_
  split
  · next consts isEnum =>
    exact .forM fun const member => sparing_declareVariable place
      (fits_of_kind forest (tree.const_mem_parts isEnum member) (by decide))
  · exact .pure _

theorem sparing_callableBody (place : Place) (id : DeclId) :
    Sparing tree methods (callableBody tree place id) := by
  unfold callableBody
  split
  · next decl callable found isCallable =>
    have isPart {node : Node} (member : node ∈ callable.parts) :
        node ∈ tree.parts (.decl .method id) := Tree.mem_parts_of_callable? isCallable member _
    refine sparing_inDeclScope _ _ _ (.bind (.forM fun param member => ?_) fun _ =>
      .bind (sparing_type _) fun _ => .bind (.forM fun param member => ?_) fun _ =>
        .optionForM fun body _ => .forM fun child _ => ?_)
    · exact sparing_bindName (fits_of_kind forest
        (isPart (by simp [Callable.parts, member]) : .decl .templateParam param ∈ _) (by decide))
    · exact sparing_declareVariable _ (fits_of_kind forest
        (isPart (by simp [Callable.parts, member]) : .decl .param param ∈ _) (by decide))
    · split
      · exact sparing_stmtWithin forest ..
      · exact .pure _
  · exact .pure _

/-! ### Classes -/

omit forest in
theorem sparing_inheritFields (span : Span) (base : DeclId) :
    Sparing tree methods (inheritFields tree span base) := by
  refine .read fun state => ?_
  dsimp only
  split
  · exact .pure _
  · refine .forM fun key _ => ?_
    split
    · split
      · refine .bind .scopes fun table => ?_
        split
        · exact .modifyScopes _
        · exact .report rfl
        · exact .pure _
      · exact .pure _
    · exact .pure _

omit forest in
theorem sparing_resolveBase (id : DeclId) (decl : Decl) (base : TypeExprId) :
    Sparing tree methods (resolveBase tree id decl base) := by
  refine .bind (sparing_typeWithin _ rfl _) fun found => ?_
  split
  · exact .pure _
  · split
    · exact .error rfl ..
    · refine .read fun state => ?_
      split
      · exact .pure _
      · exact .bind (.modifyNames (fun _ => rfl) fun _ _ _ _ => rfl) fun _ =>
          sparing_inheritFields ..

/-- A class gives keys to its own methods alone. -/
theorem sparing_resolveClass (place : Place)
    (own : ∀ body, tree.classBody? id = some body → ∀ method ∈ body.methods, methods method) :
    Sparing tree methods (resolveClass tree place id) := by
  unfold resolveClass
  split
  · next decl body found isBody =>
    have isPart {node : Node} (member : node ∈ body.parts) :
        node ∈ tree.parts (.decl .classDecl id) := Tree.mem_parts_of_classBody? isBody member _
    refine sparing_inDeclScope _ _ _ (.bind (.forM fun param member => ?_) fun _ =>
      .bind (.optionForM fun base _ => sparing_resolveBase id _ base) fun _ =>
        .bind (.forM fun field member => ?_) fun _ =>
          .bind (.forM fun method member => ?_) fun _ =>
            .forM fun method _ => sparing_callableBody forest _ method)
    · exact sparing_bindName (fits_of_kind forest
        (isPart (by simp [ClassBody.parts, member]) : .decl .templateParam param ∈ _) (by decide))
    · exact sparing_declareVariable _ (fits_of_kind forest
        (isPart (by simp [ClassBody.parts, member]) : .decl .field field ∈ _) (by decide))
    · exact sparing_declareCallable fun _ => own body isBody method member
  · exact .pure _

/-! ### The order of classes -/

omit forest

/-- What is reported of a class that inherits from itself. -/
def inheritanceReport (tree : Tree) (id : DeclId) : Diagnostic :=
  .error .inheritanceCycle (spanOf tree id) [tree.nameOf id]

/-- Some classes were found to inherit from themselves, each of them was reported when it was, and
nothing else has happened. -/
structure Finds (tree : Tree) (found : List DeclId) (before after : Analysis) : Prop where
  order : after.names.order = before.names.order
  keys : after.names.keys = before.names.keys
  cyclic : after.cyclic = found.reverse ++ before.cyclic
  items : after.sink.bag.items = before.sink.bag.items ++ found.map (inheritanceReport tree)
  isOpen : after.sink.IsOpen

theorem Finds.refl {state : Analysis} (isOpen : state.sink.IsOpen) : Finds tree [] state state :=
  ⟨rfl, rfl, rfl, (List.append_nil _).symm, isOpen⟩

theorem Finds.trans {found more : List DeclId} (first : Finds tree found before middle)
    (second : Finds tree more middle after) : Finds tree (found ++ more) before after where
  order := second.order.trans first.order
  keys := second.keys.trans first.keys
  cyclic := by rw [second.cyclic, first.cyclic, List.reverse_append, List.append_assoc]
  items := by rw [second.items, first.items, List.map_append, List.append_assoc]
  isOpen := second.isOpen

theorem reportCyclic_finds (isOpen : before.sink.IsOpen)
    (ran : reportCyclic tree id before = .ok () after) :
    ∃ found, Finds tree found before after := by
  change (if id ∈ before.cyclic then _ else _ : AnalysisM Unit) before = _ at ran
  by_cases known : id ∈ before.cyclic
  · rw [if_pos known] at ran
    cases ran
    exact ⟨[], .refl isOpen⟩
  · rw [if_neg known] at ran
    obtain ⟨_, noted, notes, reports⟩ := bind_eq_ok ran
    cases notes
    obtain ⟨sink, reported, isOpen', items⟩ := isOpen.report (inheritanceReport tree id)
    obtain rfl := report_eq_ok reports
    refine ⟨[id], rfl, rfl, rfl, ?_, ?_⟩
    · show (before.sink.report (inheritanceReport tree id)).1.bag.items = _
      rw [reported]
      exact items
    · show (before.sink.report (inheritanceReport tree id)).1.IsOpen
      rw [reported]
      exact isOpen'

theorem baseCandidate?_eq_ok {base : Option DeclId}
    (ran : baseCandidate? tree id before = .ok base after) : after = before := by
  unfold baseCandidate? at ran
  cases isType : tree.typeAt? ((tree.classBody? id).bind ClassBody.base) with
  | none =>
    rw [isType] at ran
    exact (EStateM.Result.ok.inj ran).2.symm
  | some type =>
    rw [isType] at ran
    obtain ⟨_, ⟨form, span⟩⟩ := type
    cases form with
    | named name args => exact (EStateM.Result.ok.inj ran).2.symm
    | _ => exact (EStateM.Result.ok.inj ran).2.symm

theorem visitWithin_finds (fuel : Nat) {visit visit' : ClassVisit} (isOpen : before.sink.IsOpen)
    (ran : visitWithin tree classes fuel visit id before = .ok visit' after) :
    ∃ found, Finds tree found before after := by
  induction fuel generalizing visit visit' id before after with
  | zero =>
    cases ran
    exact ⟨[], .refl isOpen⟩
  | succ fuel inductionHypothesis =>
    have nothing {visit' other : ClassVisit}
        (ran : (pure other : AnalysisM ClassVisit) before = .ok visit' after) :
        ∃ found, Finds tree found before after := by
      cases ran
      exact ⟨[], .refl isOpen⟩
    unfold visitWithin at ran
    cases state : visit.states[id]? with
    | none =>
      rw [state] at ran
      obtain ⟨base, middle, reads, goesOn⟩ := bind_eq_ok ran
      obtain rfl := baseCandidate?_eq_ok reads
      cases base with
      | none => exact nothing goesOn
      | some base =>
        by_cases inside : base ∈ classes
        · simp only [inside, if_true] at goesOn
          obtain ⟨_, middle, visits, goesOn⟩ := bind_eq_ok goesOn
          cases goesOn
          exact inductionHypothesis isOpen visits
        · simp only [inside, if_false] at goesOn
          exact nothing goesOn
    | some known =>
      rw [state] at ran
      cases known with
      | placed => exact nothing ran
      | _ =>
        obtain ⟨_, middle, reports, goesOn⟩ := bind_eq_ok ran
        cases goesOn
        exact reportCyclic_finds isOpen reports

/-- Putting classes in order reports those that are found to inherit from themselves. -/
theorem classOrder_finds {placed : List DeclId} (isOpen : before.sink.IsOpen)
    (ran : classOrder tree classes before = .ok placed after) :
    after.names.order = before.names.order ++ placed ∧
      ∃ found, Finds tree found before
        { after with names := { after.names with order := before.names.order } } := by
  have fold (remaining : List DeclId) {fuel : Nat} {visit visit' : ClassVisit}
      {before after : Analysis} (isOpen : before.sink.IsOpen)
      (ran : remaining.foldlM (visitWithin tree classes fuel) visit before = .ok visit' after) :
      ∃ found, Finds tree found before after := by
    induction remaining generalizing visit before with
    | nil =>
      cases ran
      exact ⟨[], .refl isOpen⟩
    | cons id rest inductionHypothesis =>
      rw [List.foldlM_cons] at ran
      obtain ⟨_, middle, visits, goesOn⟩ := bind_eq_ok ran
      obtain ⟨found, finds⟩ := visitWithin_finds fuel isOpen visits
      obtain ⟨more, finds'⟩ := inductionHypothesis finds.isOpen goesOn
      exact ⟨found ++ more, finds.trans finds'⟩
  obtain ⟨visit, middle, visits, goesOn⟩ := bind_eq_ok ran
  obtain ⟨_, final, notes, returns⟩ := bind_eq_ok goesOn
  cases notes
  cases returns
  obtain ⟨found, finds⟩ := fold classes isOpen visits
  refine ⟨?_, found, rfl, finds.keys, finds.cyclic, finds.items, finds.isOpen⟩
  show middle.names.order ++ visit.placed = _
  rw [finds.order]

/-- Nothing that is said of the order of classes is said of an import. -/
theorem local_classOrder (classes : List DeclId) : Local (classOrder tree classes) := by
  have candidate (id : DeclId) : Local (baseCandidate? tree id) := by
    unfold baseCandidate?
    split
    · split
      · exact .bind (.read fun _ => .pure _) fun _ => .pure _
      · exact .pure _
    · exact .pure _
  have cyclic (id : DeclId) : Local (reportCyclic tree id) := by
    refine .read fun state => ?_
    split
    · exact .pure _
    · exact .bind (.modify fun _ => rfl) fun _ =>
        .report (show Code.inheritanceCycle ≠ .importCycle by decide)
  have visit (fuel : Nat) (visit : ClassVisit) (id : DeclId) :
      Local (visitWithin tree classes fuel visit id) := by
    induction fuel generalizing visit id with
    | zero => exact .pure _
    | succ fuel inductionHypothesis =>
      unfold visitWithin
      split
      · exact .pure _
      · exact .bind (cyclic id) fun _ => .pure _
      · refine .bind (candidate id) fun base => ?_
        dsimp only
        split
        · split
          · exact .bind (inductionHypothesis ..) fun _ => .pure _
          · exact .bind (.pure _) fun _ => .pure _
        · exact .bind (.pure _) fun _ => .pure _
  exact .bind (.foldlM (visit _) _ _) fun _ => .bind (.modifyNames _) fun _ => .pure _

include forest

/-! ### Units -/

variable {unit : UnitId} {found : ProgramUnit} (isUnit : tree.units.get? unit = some found)

include isUnit

theorem fits_of_unitPart (member : .decl kind id ∈ found.parts) (other : kind ≠ .method) :
    tree.kindOf? id = some .method → methods id :=
  fits_of_kind forest (by simpa [Tree.parts, isUnit] using member : _ ∈ tree.parts (.unit unit)) other

theorem sparing_unitDeclarations : Sparing tree methods (unitDeclarations tree found) := by
  refine .bind (.forM fun enum member => sparing_declareEnum forest _ ?_) fun _ =>
    .bind (.forM fun id member => sparing_bindName ?_) fun _ =>
      .bind (.forM fun function member => sparing_declareCallable ?_) fun _ =>
        .bind (.optionForM fun function member => sparing_declareCallable ?_) fun _ =>
          .forM fun global member => sparing_declareVariable _ ?_
  · have isEnum : .decl .enum enum ∈ found.parts := by simp [ProgramUnit.parts, member]
    exact fits_of_unitPart forest isUnit isEnum (by decide)
  · have isClass : .decl .classDecl id ∈ found.parts := by simp [ProgramUnit.parts, member]
    exact fits_of_unitPart forest isUnit isClass (by decide)
  · have isFunction : .decl .function function ∈ found.parts := by simp [ProgramUnit.parts, member]
    exact fits_of_unitPart forest isUnit isFunction (by decide)
  · have isMain : .decl .function function ∈ found.parts := by
      simp [ProgramUnit.parts, Option.mem_def.mp member]
    exact fits_of_unitPart forest isUnit isMain (by decide)
  · have isGlobal : .decl .global global ∈ found.parts := by simp [ProgramUnit.parts, member]
    exact fits_of_unitPart forest isUnit isGlobal (by decide)

omit isUnit in
theorem sparing_unitBodies (unit : ProgramUnit) : Sparing tree methods (unitBodies tree unit) :=
  .bind (.forM fun _ _ => sparing_callableBody forest ..) fun _ =>
    .bind (.optionForM fun _ _ => sparing_callableBody forest ..) fun _ =>
      .forM fun _ _ => sparing_stmtWithin forest ..

theorem local_contents : Local (do
    unitDeclarations tree found
    unitClasses tree found
    unitBodies tree found) := by
  have declarations : Sparing tree (fun _ => True) (unitDeclarations tree found) :=
    sparing_unitDeclarations forest isUnit
  have resolves (id : DeclId) : Sparing tree (fun _ => True) (resolveClass tree {} id) :=
    sparing_resolveClass forest {} fun _ _ _ _ => trivial
  have bodies : Sparing tree (fun _ => True) (unitBodies tree found) :=
    sparing_unitBodies forest found
  exact .bind declarations.toLocal fun _ => .bind
    (.bind (local_classOrder _) fun _ => .forM fun id _ => (resolves id).toLocal) fun _ =>
      bodies.toLocal

/-- What the contents of a unit come to: its classes are put in order behind those before, and no
cycle is reported but that some of them inherit from themselves. -/
theorem contents_account {before after : Analysis} (isOpen : before.sink.IsOpen)
    (ran : (do
      unitDeclarations tree found
      unitClasses tree found
      unitBodies tree found) before = .ok () after) :
    ∃ (declared : Analysis) (placed : List DeclId) (ordered : Analysis) (cyclic : List DeclId),
      unitDeclarations tree found before = .ok () declared ∧
      classOrder tree found.classes declared = .ok placed ordered ∧
      after.names.order = before.names.order ++ placed ∧
      after.cyclic = cyclic.reverse ++ before.cyclic ∧ ordered.cyclic = after.cyclic ∧
      ∀ code : Code, code.isCycle → after.sink.bag.items.filter (·.code = code) =
        (before.sink.bag.items ++ cyclic.map (inheritanceReport tree)).filter (·.code = code) := by
  obtain ⟨_, declared, declares, ran⟩ := bind_eq_ok ran
  obtain ⟨_, resolved, resolves, finishes⟩ := bind_eq_ok ran
  obtain ⟨placed, ordered, orders, resolves⟩ := bind_eq_ok resolves
  have first : Spares tree (fun _ => True) before declared :=
    (sparing_unitDeclarations forest isUnit).spares _ _ _ isOpen declares
  obtain ⟨order, cyclic, finds⟩ := classOrder_finds first.isOpen orders
  have classes : Sparing tree (fun _ => True) (placed.forM (resolveClass tree {})) :=
    .forM fun id _ => sparing_resolveClass forest {} fun _ _ _ _ => trivial
  have isOpen' : ordered.sink.IsOpen := finds.isOpen
  have second := classes.spares _ _ _ isOpen' resolves
  have third : Spares tree (fun _ => True) resolved after :=
    (sparing_unitBodies forest found).spares _ _ _ second.isOpen finishes
  have rest := second.trans third
  have isCyclic : ordered.cyclic = cyclic.reverse ++ before.cyclic := by
    rw [← first.cyclic]
    exact finds.cyclic
  refine ⟨declared, placed, ordered, cyclic, declares, orders, ?_, ?_, rest.cyclic.symm,
    fun code isCycle => ?_⟩
  · rw [rest.order, order, first.order]
  · rw [rest.cyclic, isCyclic]
  · have items : ordered.sink.bag.items =
        declared.sink.bag.items ++ cyclic.map (inheritanceReport tree) := finds.items
    rw [rest.cycles code isCycle, items, List.filter_append, first.cycles code isCycle,
      List.filter_append]

end

end Resolve

end TreeCheck
