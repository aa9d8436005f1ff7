/-
How the actions of name resolution end, whether they come to their end or a report ends
them early. `Ends` has an arm for each; `Notes` and `Stays` are the two forms in which it
is used. Types and expressions only note what names refer to. Everything else stays on
valid ground: the annotations are valid afterwards, scopes have only grown, and the stack
of open scopes is the one it was; where an action ended early, the former stack lies below
the scopes that were left open.

The nodes whose annotations may change are a parameter. They are closed under parts, so
that a walk from one of them touches no others.
-/

import TreeCheck.Proofs.Scoping.Validity

namespace TreeCheck

variable {tree : Tree} {touched : Node → Prop} {before after : Analysis}

/-- How an action ends: with a value, or early. -/
def Ends {α : Type} (failed : Analysis → Prop) (post : α → Analysis → Prop) :
    EStateM.Result Abort Analysis α → Prop
  | .ok value after => post value after
  | .error _ after => failed after

namespace Ends

variable {α β : Type} {failed : Analysis → Prop} {post : α → Analysis → Prop}
variable {action : AnalysisM α}

theorem bind {next : α → AnalysisM β} {result : β → Analysis → Prop}
    (first : Ends failed post (action before))
    (second : ∀ value after, post value after → Ends failed result (next value after)) :
    Ends failed result ((action >>= next) before) := by
  show Ends failed result (EStateM.bind action next before)
  unfold EStateM.bind
  cases ran : action before with
  | ok value after =>
    rw [ran] at first
    exact second value after first
  | error abort after =>
    rw [ran] at first
    exact first

theorem mono {failed' : Analysis → Prop} {post' : α → Analysis → Prop}
    {outcome : EStateM.Result Abort Analysis α} (ends : Ends failed post outcome)
    (early : ∀ after, failed after → failed' after)
    (late : ∀ value after, post value after → post' value after) : Ends failed' post' outcome := by
  cases outcome with
  | ok value after => exact late value after ends
  | error abort after => exact early after ends

theorem report {diagnostic : Diagnostic} {post : PUnit → Analysis → Prop}
    (early : ∀ sink, failed { before with sink }) (late : ∀ sink, post ⟨⟩ { before with sink }) :
    Ends failed post (AnalysisM.report diagnostic before) := by
  unfold AnalysisM.report
  dsimp only
  cases (before.sink.report diagnostic).2 with
  | none => exact late _
  | some raised => exact early _

theorem ensuring {cleanup : Analysis → Analysis}
    (ends : Ends (fun after => failed (cleanup after))
      (fun value after => post value (cleanup after)) (action before)) :
    Ends failed post (AnalysisM.ensuring cleanup action before) := by
  unfold AnalysisM.ensuring
  cases ran : action before with
  | ok value after =>
    rw [ran] at ends
    exact ends
  | error abort after =>
    rw [ran] at ends
    exact ends

theorem discard {result : PUnit → Analysis → Prop} (ends : Ends failed post (action before))
    (late : ∀ value after, post value after → result ⟨⟩ after) :
    Ends failed result (discard action before) := by
  show Ends failed result (EStateM.map _ action before)
  unfold EStateM.map
  cases ran : action before with
  | ok value after =>
    rw [ran] at ends
    exact late value after ends
  | error abort after =>
    rw [ran] at ends
    exact ends

end Ends

/-- Nodes whose parts are among them. -/
def Tree.Closed (tree : Tree) (touched : Node → Prop) : Prop :=
  ∀ whole part, touched whole → part ∈ tree.parts whole → touched part

theorem Tree.Forest.bindable_part {loose : List Node} (forest : tree.Forest loose) {whole : Node}
    {kind : DeclKind} {id : DeclId} (member : .decl kind id ∈ tree.parts whole)
    (noImport : kind ≠ .importDecl) : tree.Bindable id :=
  ⟨kind, forest.holds_part member, noImport⟩

/-- Annotations are valid and a scope is open. -/
structure Inside (tree : Tree) (state : Analysis) : Prop where
  valid : state.names.Valid tree
  isOpen : state.names.scopes.stack ≠ []

/-! ### Noting what names refer to -/

/-- A state has become another one by reports and by notes at certain nodes. -/
structure Noted (tree : Tree) (touched : Node → Prop) (before after : Analysis) : Prop where
  rest : after =
    { before with
      sink := after.sink
      names :=
        { before.names with uses := after.names.uses, typeRefs := after.names.typeRefs } }
  uses : ∀ id : ExprId, after.names.uses[id]? = before.names.uses[id]? ∨
    touched (.expr id) ∧ ∃ decl, after.names.uses[id]? = some decl ∧ (tree.decls.get? decl).isSome
  typeRefs : ∀ id : TypeExprId, after.names.typeRefs[id]? = before.names.typeRefs[id]? ∨
    touched (.type id) ∧ ∃ decl kind, after.names.typeRefs[id]? = some decl ∧
      tree.kindOf? decl = some kind ∧ kind.isTypeName

namespace Noted

variable {tree : Tree} {touched : Node → Prop} {before middle after : Analysis}

theorem refl (state : Analysis) : Noted tree touched state state :=
  ⟨rfl, fun _ => .inl rfl, fun _ => .inl rfl⟩

theorem withSink (state : Analysis) (sink : Sink) : Noted tree touched state { state with sink } :=
  ⟨rfl, fun _ => .inl rfl, fun _ => .inl rfl⟩

theorem trans (first : Noted tree touched before middle) (second : Noted tree touched middle after) :
    Noted tree touched before after := by
  refine ⟨?_, fun id => ?_, fun id => ?_⟩
  · rw [second.rest, first.rest]
  · rcases second.uses id with same | new
    · rw [same]
      exact first.uses id
    · exact .inr new
  · rcases second.typeRefs id with same | new
    · rw [same]
      exact first.typeRefs id
    · exact .inr new

theorem scopes (noted : Noted tree touched before after) :
    after.names.scopes = before.names.scopes := by
  rw [noted.rest]

theorem valid (noted : Noted tree touched before after) (valid : before.names.Valid tree) :
    after.names.Valid tree := by
  have uses (expr : ExprId) (decl : DeclId) (used : after.names.uses[expr]? = some decl) :
      (tree.decls.get? decl).isSome := by
    rcases noted.uses expr with same | ⟨-, other, used', known⟩
    · exact valid.uses expr decl (same ▸ used)
    · cases used.symm.trans used'
      exact known
  rw [noted.rest]
  exact { valid with uses }

theorem inside (noted : Noted tree touched before after) (inside : Inside tree before) :
    Inside tree after :=
  ⟨noted.valid inside.valid, by rw [noted.scopes]; exact inside.isOpen⟩

end Noted

/-- An action ends after nothing but notes and reports. -/
def Notes {α : Type} (tree : Tree) (touched : Node → Prop) (before : Analysis)
    (post : α → Analysis → Prop) (action : AnalysisM α) : Prop :=
  Ends (Noted tree touched before)
    (fun value after => Noted tree touched before after ∧ post value after) (action before)

/-- A postcondition that asks for nothing. -/
def Any {α : Type} (_ : α) (_ : Analysis) : Prop := True

namespace Notes

variable {tree : Tree} {touched : Node → Prop} {before : Analysis} {α β : Type}
  {post : α → Analysis → Prop}
variable {action : AnalysisM α} {next : α → AnalysisM β} {result : β → Analysis → Prop}

theorem pure {value : α} (holds : post value before) :
    Notes tree touched before post (Pure.pure value) :=
  ⟨.refl before, holds⟩

theorem bind (first : Notes tree touched before post action)
    (second : ∀ value after, Noted tree touched before after → post value after →
      Notes tree touched after result (next value)) :
    Notes tree touched before result (action >>= next) :=
  Ends.bind first fun value after ⟨noted, holds⟩ =>
    (second value after noted holds).mono (fun _ => noted.trans)
      fun _ _ ⟨noted', holds'⟩ => ⟨noted.trans noted', holds'⟩

/-- An action that only reads. -/
theorem read {value : α} (reads : action before = .ok value before)
    (rest : Notes tree touched before result (next value)) :
    Notes tree touched before result (action >>= next) := by
  show Ends _ _ (EStateM.bind action next before)
  rw [EStateM.bind, reads]
  exact rest

theorem weaken {weaker : α → Analysis → Prop} {action : AnalysisM α}
    (notes : Notes tree touched before post action)
    (weaken : ∀ value after, post value after → weaker value after) :
    Notes tree touched before weaker action :=
  notes.mono (fun _ noted => noted) fun value after ⟨noted, holds⟩ =>
    ⟨noted, weaken value after holds⟩

theorem report (diagnostic : Diagnostic) :
    Notes tree touched before Any (AnalysisM.report diagnostic) :=
  Ends.report (fun sink => .withSink before sink) fun sink => ⟨.withSink before sink, trivial⟩

theorem error (code : Code) (span : Span) (args : List String) :
    Notes tree touched before Any (AnalysisM.error code span args) :=
  report _

theorem discard (notes : Notes tree touched before post action) :
    Notes tree touched before Any (discard action) :=
  Ends.discard notes fun _ _ ⟨noted, _⟩ => ⟨noted, trivial⟩

theorem forM {actions : α → AnalysisM PUnit} {items : List α}
    (each : ∀ item ∈ items, ∀ state, Noted tree touched before state →
      Notes tree touched state Any (actions item)) :
    Notes tree touched before Any (items.forM actions) := by
  induction items generalizing before with
  | nil => exact .pure trivial
  | cons item rest inductionHypothesis =>
    refine .bind (each item (.head _) before (.refl before)) fun _ after noted _ => ?_
    exact inductionHypothesis fun other member state noted' =>
      each other (.tail _ member) state (noted.trans noted')

end Notes

/-! ### Staying on valid ground -/

/-- A state has become another one whose annotations are valid: scopes have grown, and other
annotations have changed at certain nodes only. -/
structure Annotates (tree : Tree) (touched : Node → Prop) (before after : Analysis) : Prop where
  valid : after.names.Valid tree
  grows : before.names.scopes.Grows after.names.scopes
  uses : ∀ id : ExprId, after.names.uses[id]? = before.names.uses[id]? ∨ touched (.expr id)
  typeRefs : ∀ id : TypeExprId,
    after.names.typeRefs[id]? = before.names.typeRefs[id]? ∨ touched (.type id)
  bases : ∀ id : DeclId,
    after.names.bases[id]? = before.names.bases[id]? ∨ touched (.decl .classDecl id)
  declScopes : ∀ id : DeclId, after.names.scopeOfDecl[id]? = before.names.scopeOfDecl[id]? ∨
    ∃ kind, touched (.decl kind id)

theorem Annotates.trans {middle : Analysis} (first : Annotates tree touched before middle)
    (second : Annotates tree touched middle after) :
    Annotates tree touched before after where
  valid := second.valid
  grows := first.grows.trans second.grows
  uses := fun id => (second.uses id).elim (fun same => same ▸ first.uses id) .inr
  typeRefs := fun id => (second.typeRefs id).elim (fun same => same ▸ first.typeRefs id) .inr
  bases := fun id => (second.bases id).elim (fun same => same ▸ first.bases id) .inr
  declScopes := fun id => (second.declScopes id).elim (fun same => same ▸ first.declScopes id) .inr

/-- What scopes may come to hold: declarations among certain nodes, and fields, which are taken
over from elsewhere. -/
def News (tree : Tree) (touched : Node → Prop) (decl : DeclId) : Prop :=
  tree.kindOf? decl = some .field ∨ ∃ kind, touched (.decl kind decl)

/-- Every declaration that a scope holds has a recorded key. -/
def Resolution.Keyed (names : Resolution) : Prop :=
  ∀ decl, names.scopes.Binds decl → (names.keys[decl]?).isSome

theorem Resolution.Keyed.of_gains {names other : Resolution} (keyed : names.Keyed)
    (gains : names.scopes.Gains names.scopes.Binds other.scopes) (keys : other.keys = names.keys) :
    other.Keyed :=
  fun decl binds => keys ▸ keyed decl ((gains.binds binds).elim id id)

/-- What is bound is given the key. -/
theorem Resolution.Keyed.bind {names : Resolution} (keyed : names.Keyed) {key : Key} {id : DeclId}
    {bound : ScopeTable} (ok : names.scopes.bind key id = .ok bound)
      (homes : Std.TreeMap DeclId ScopeId) :
    Resolution.Keyed { names with
      scopes := bound, declScope := homes, keys := names.keys.insert id key } := by
  have gains : names.scopes.Gains (· = id) bound := ScopeTable.gains_bind ok rfl
  intro decl binds
  rw [Std.TreeMap.getElem?_insert]
  split
  · rfl
  · next other =>
    exact keyed decl ((gains.binds binds).resolve_right fun same => other (by simp [same]))

/-- A state has become another one whose annotations are valid; scopes have come to hold nothing
else than they may, and nothing without a key, a class was given no base but one that a scope holds,
and units keep their global scopes. -/
structure Evolves (tree : Tree) (touched : Node → Prop) (before after : Analysis) : Prop
    extends Annotates tree touched before after where
  gains : before.names.scopes.Gains (News tree touched) after.names.scopes
  keyed : before.names.Keyed → after.names.Keyed
  based : ∀ owner base : DeclId, after.names.bases[owner]? = some base →
    before.names.bases[owner]? = some base ∨ after.names.scopes.Binds base
  homes : ∀ (unit : UnitId) (home : ScopeId), before.names.units[unit]? = some home →
    after.names.units[unit]? = some home

namespace Evolves

variable {tree : Tree} {touched : Node → Prop} {before middle after : Analysis}

/-- What neither adds scopes, nor binds anything, nor gives a class a base. -/
theorem of_same (valid : after.names.Valid tree) (scopes : after.names.scopes = before.names.scopes)
    (keys : after.names.keys = before.names.keys)
    (uses : ∀ id : ExprId, after.names.uses[id]? = before.names.uses[id]? ∨ touched (.expr id))
    (typeRefs : ∀ id : TypeExprId,
      after.names.typeRefs[id]? = before.names.typeRefs[id]? ∨ touched (.type id))
    (bases : after.names.bases = before.names.bases)
    (declScopes : after.names.scopeOfDecl = before.names.scopeOfDecl)
    (units : after.names.units = before.names.units) : Evolves tree touched before after := by
  refine ⟨⟨valid, ?_, uses, typeRefs, fun _ => .inl ?_, fun _ => .inl ?_⟩, ?_,
    fun keyed => keyed.of_gains ?_ keys, fun _ _ isBase => .inl ?_, fun _ _ isHome => ?_⟩
  · rw [scopes]
    exact .refl _
  · rw [bases]
  · rw [declScopes]
  · rw [scopes]
    exact .refl _
  · rw [scopes]
    exact .refl _
  · rwa [bases] at isBase
  · rwa [units]

theorem refl {state : Analysis} (valid : state.names.Valid tree) : Evolves tree touched state state :=
  .of_same valid rfl rfl (fun _ => .inl rfl) (fun _ => .inl rfl) rfl rfl rfl

theorem trans (first : Evolves tree touched before middle) (second : Evolves tree touched middle after) :
    Evolves tree touched before after where
  toAnnotates := first.toAnnotates.trans second.toAnnotates
  gains := first.gains.trans second.gains
  keyed := fun keyed => second.keyed (first.keyed keyed)
  based := fun owner base isBase => (second.based owner base isBase).elim
    (fun isBase => (first.based owner base isBase).imp_right (·.grows second.grows)) .inr
  homes := fun unit home isHome => second.homes unit home (first.homes unit home isHome)

theorem of_noted (noted : Noted tree touched before after) (valid : before.names.Valid tree) :
    Evolves tree touched before after := by
  refine .of_same (noted.valid valid) noted.scopes ?_ (fun id => (noted.uses id).imp_right And.left)
    (fun id => (noted.typeRefs id).imp_right And.left) ?_ ?_ ?_
  all_goals rw [noted.rest]

/-- Other scopes, and at most records of them. -/
theorem of_scopes (valid : after.names.Valid tree)
    (grows : before.names.scopes.Grows after.names.scopes)
    (gains : before.names.scopes.Gains (News tree touched) after.names.scopes)
    (keyed : before.names.Keyed → after.names.Keyed)
    (uses : after.names.uses = before.names.uses)
      (typeRefs : after.names.typeRefs = before.names.typeRefs)
    (bases : after.names.bases = before.names.bases)
    (homes : ∀ (unit : UnitId) (home : ScopeId), before.names.units[unit]? = some home →
      after.names.units[unit]? = some home)
    (declScopes : ∀ id : DeclId, after.names.scopeOfDecl[id]? = before.names.scopeOfDecl[id]? ∨
      ∃ kind, touched (.decl kind id)) : Evolves tree touched before after := by
  refine ⟨⟨valid, grows, fun _ => .inl ?_, fun _ => .inl ?_, fun _ => .inl ?_, declScopes⟩, gains, keyed,
    fun _ _ isBase => .inl ?_, homes⟩
  · rw [uses]
  · rw [typeRefs]
  · rw [bases]
  · rwa [bases] at isBase

/-- Other scopes, and nothing else. Nothing is held that was not held before. -/
theorem ofScopes {table : ScopeTable}
    (valid : { before.names with scopes := table }.Valid tree)
    (grows : before.names.scopes.Grows table)
    (gains : before.names.scopes.Gains (News tree touched) table)
    (held : before.names.scopes.Gains before.names.scopes.Binds table) :
    Evolves tree touched before { before with names := { before.names with scopes := table } } :=
  .of_scopes valid grows gains (fun keyed => keyed.of_gains held rfl) rfl rfl rfl
    (fun _ _ isHome => isHome) fun _ => .inl rfl

end Evolves

/-- An action stays on valid ground, and leaves the stack of open scopes as it was; ending
early, it leaves scopes open on top of it at most. -/
def Stays {α : Type} (tree : Tree) (touched : Node → Prop) (before : Analysis)
    (post : α → Analysis → Prop) (action : AnalysisM α) : Prop :=
  Ends
    (fun after => Evolves tree touched before after ∧
      before.names.scopes.stack <:+ after.names.scopes.stack)
    (fun value after => Evolves tree touched before after ∧
      after.names.scopes.stack = before.names.scopes.stack ∧ post value after) (action before)

/-- An action stays on valid ground, and leaves the stack of open scopes as it was, however it
ends. -/
def Restores {α : Type} (tree : Tree) (touched : Node → Prop) (before : Analysis)
    (post : α → Analysis → Prop) (action : AnalysisM α) : Prop :=
  Ends
    (fun after => Evolves tree touched before after ∧
      after.names.scopes.stack = before.names.scopes.stack)
    (fun value after => Evolves tree touched before after ∧
      after.names.scopes.stack = before.names.scopes.stack ∧ post value after) (action before)

namespace Stays

variable {tree : Tree} {touched : Node → Prop} {before : Analysis} {α β : Type}
  {post : α → Analysis → Prop}
variable {value : α} {action : AnalysisM α} {next : α → AnalysisM β} {result : β → Analysis → Prop}
  {actions : α → AnalysisM PUnit}

theorem pure (valid : before.names.Valid tree) (holds : post value before) :
    Stays tree touched before post (Pure.pure value) :=
  ⟨.refl valid, rfl, holds⟩

theorem bind (first : Stays tree touched before post action)
    (second : ∀ value after, Evolves tree touched before after →
      after.names.scopes.stack = before.names.scopes.stack → post value after →
      Stays tree touched after result (next value)) :
    Stays tree touched before result (action >>= next) := by
  refine Ends.bind first fun value after ⟨leads, stack, holds⟩ => ?_
  refine (second value after leads stack holds).mono (fun _ ⟨leads', below⟩ => ?_)
    fun _ _ ⟨leads', stack', holds'⟩ => ?_
  · exact ⟨leads.trans leads', stack ▸ below⟩
  · exact ⟨leads.trans leads', stack'.trans stack, holds'⟩

/-- An action that only reads. -/
theorem read (reads : action before = .ok value before)
    (rest : Stays tree touched before result (next value)) :
    Stays tree touched before result (action >>= next) := by
  show Ends _ _ (EStateM.bind action next before)
  rw [EStateM.bind, reads]
  exact rest

theorem of_notes (valid : before.names.Valid tree) (notes : Notes tree touched before post action) :
    Stays tree touched before post action :=
  notes.mono (fun _ noted => ⟨.of_noted noted valid, noted.scopes ▸ List.suffix_rfl⟩)
    fun _ _ ⟨noted, holds⟩ => ⟨.of_noted noted valid, noted.scopes ▸ rfl, holds⟩

theorem of_restores (restores : Restores tree touched before post action) :
    Stays tree touched before post action :=
  restores.mono (fun _ ⟨leads, stack⟩ => ⟨leads, stack ▸ List.suffix_rfl⟩) fun _ _ holds => holds

section

variable (valid : before.names.Valid tree)

include valid

theorem report (diagnostic : Diagnostic) :
    Stays tree touched before Any (AnalysisM.report diagnostic) :=
  of_notes valid (.report diagnostic)

theorem error (code : Code) (span : Span) (args : List String) :
    Stays tree touched before Any (AnalysisM.error code span args) :=
  report valid _

theorem forM {items : List α} (each : ∀ item ∈ items, ∀ state, Evolves tree touched before state →
      state.names.scopes.stack = before.names.scopes.stack →
      Stays tree touched state Any (actions item)) :
    Stays tree touched before Any (items.forM actions) := by
  induction items generalizing before with
  | nil => exact .pure valid trivial
  | cons item rest inductionHypothesis =>
    refine .bind (each item (.head _) before (.refl valid) rfl) fun _ after leads stack _ => ?_
    exact inductionHypothesis leads.valid fun other member state leads' stack' =>
      each other (.tail _ member) state (leads.trans leads') (stack'.trans stack)

theorem optionForM {item : Option α}
    (each : ∀ value ∈ item, Stays tree touched before Any (actions value)) :
    Stays tree touched before Any (item.forM actions) := by
  cases item with
  | none => exact .pure valid trivial
  | some value => exact each value rfl

end

/-- What an action that came to its end has done. -/
theorem of_ok (stays : Stays tree touched before post action)
    (runs : action before = .ok value after) :
    Evolves tree touched before after ∧
      after.names.scopes.stack = before.names.scopes.stack ∧ post value after := by
  unfold Stays at stays
  rwa [runs] at stays

theorem modifyNames {change : Resolution → Resolution}
    (leads : Evolves tree touched before { before with names := change before.names })
    (stack : (change before.names).scopes.stack = before.names.scopes.stack) :
    Stays tree touched before Any (AnalysisM.modifyNames change) :=
  ⟨leads, stack, trivial⟩

end Stays

theorem Inside.leads (inside : Inside tree before) (leads : Evolves tree touched before after)
    (stack : after.names.scopes.stack = before.names.scopes.stack) : Inside tree after :=
  ⟨leads.valid, stack ▸ inside.isOpen⟩

namespace Restores

variable {tree : Tree} {touched : Node → Prop} {before : Analysis} {α β : Type}
  {post : α → Analysis → Prop}
variable {action : AnalysisM α} {next : α → AnalysisM β} {result : β → Analysis → Prop}

theorem pure (valid : before.names.Valid tree) {value : α} (holds : post value before) :
    Restores tree touched before post (Pure.pure value) :=
  ⟨.refl valid, rfl, holds⟩

theorem bind (first : Restores tree touched before post action)
    (second : ∀ value after, Evolves tree touched before after →
      after.names.scopes.stack = before.names.scopes.stack → post value after →
      Restores tree touched after result (next value)) :
    Restores tree touched before result (action >>= next) := by
  refine Ends.bind first fun value after ⟨leads, stack, holds⟩ => ?_
  refine (second value after leads stack holds).mono (fun _ ⟨leads', stack'⟩ => ?_)
    fun _ _ ⟨leads', stack', holds'⟩ => ?_
  · exact ⟨leads.trans leads', stack'.trans stack⟩
  · exact ⟨leads.trans leads', stack'.trans stack, holds'⟩

theorem read {value : α} (reads : action before = .ok value before)
    (rest : Restores tree touched before result (next value)) :
    Restores tree touched before result (action >>= next) := by
  show Ends _ _ (EStateM.bind action next before)
  rw [EStateM.bind, reads]
  exact rest

theorem discard (restores : Restores tree touched before post action) :
    Restores tree touched before Any (discard action) :=
  Ends.discard restores fun _ _ ⟨leads, stack, _⟩ => ⟨leads, stack, trivial⟩

theorem report (valid : before.names.Valid tree) (diagnostic : Diagnostic) :
    Restores tree touched before Any (AnalysisM.report diagnostic) :=
  Ends.report (fun sink => ⟨.of_noted (.withSink before sink) valid, rfl⟩)
    fun sink => ⟨.of_noted (.withSink before sink) valid, rfl, trivial⟩

/-- A change of what is not about names. -/
theorem modify {change : Analysis → Analysis} (valid : before.names.Valid tree)
    (same : (change before).names = before.names) :
    Restores tree touched before Any (modify change : AnalysisM PUnit) := by
  refine ⟨.of_same ?_ ?_ ?_ (fun _ => .inl ?_) (fun _ => .inl ?_) ?_ ?_ ?_, ?_, trivial⟩
  · exact same ▸ valid
  all_goals exact same ▸ rfl

end Restores

/-- Whatever happens inside a scope that is there already, the stack is restored. -/
theorem Restores.within {scope : ScopeId} {action : AnalysisM PUnit}
    (valid : before.names.Valid tree) (known : (before.names.scopes.get? scope).isSome)
    (inner : ∀ entered, Inside tree entered → Evolves tree touched before entered →
      Stays tree touched entered Any action) :
    Restores tree touched before Any (AnalysisM.within scope action) := by
  let entered : Analysis :=
    { before with
      names := { before.names with scopes := before.names.scopes.enter scope } }
  have opened : ∀ id ∈ (before.names.scopes.enter scope).stack,
      (before.names.scopes.get? id).isSome := by
    intro id member
    rcases List.mem_cons.mp member with rfl | older
    · exact known
    · exact valid.opened id older
  have leads : Evolves tree touched before entered :=
    .ofScopes (valid.withStack opened) (.refl _) (.refl _) (.refl _)
  have back {after : Analysis} (leads' : Evolves tree touched entered after)
      (below : entered.names.scopes.stack <:+ after.names.scopes.stack) :
      Evolves tree touched before
          { after with
            names := { after.names with
              scopes := after.names.scopes.truncate before.names.scopes.depth } } ∧
        (after.names.scopes.truncate before.names.scopes.depth).stack =
          before.names.scopes.stack := by
    have suffix : before.names.scopes.stack <:+ after.names.scopes.stack :=
      (List.suffix_cons _ _).trans below
    have stack : (after.names.scopes.truncate before.names.scopes.depth).stack =
        before.names.scopes.stack :=
      (List.suffix_iff_eq_drop.mp suffix).symm
    refine ⟨(leads.trans leads').trans (.ofScopes ?_ (.refl _) (.refl _) (.refl _)), stack⟩
    exact leads'.valid.withStack fun id member =>
      leads'.valid.opened id (List.mem_of_mem_drop member)
  refine Ends.ensuring ((inner entered ⟨leads.valid, List.cons_ne_nil _ _⟩ leads).mono ?_ ?_)
  · rintro after ⟨leads', below⟩
    exact back leads' below
  · rintro value after ⟨leads', stack, -⟩
    exact ⟨(back leads' (stack ▸ List.suffix_rfl)).1, (back leads' (stack ▸ List.suffix_rfl)).2,
      trivial⟩

end TreeCheck
