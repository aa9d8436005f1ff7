/-
What turning declarations and written types into types keeps up. A class enters the table
without a base and waits for it while its base type is converted, which may turn further
classes into types, the written arguments of bases may mention classes that still wait, and
so on. In the end a class has as its base a type of the class its declaration inherits from,
and a written type that refers to a class is a type of that class.

That the bound on the depth of conversions is never met is part of this: a written type
waits for its parts, which have smaller numbers, or for the base of a class, of which there
is one less that has no type.

So the two hierarchies of a program agree: the bases of a type, followed to the end, belong to
the declarations that are met when the declared bases are followed to the end, and both ways do
end.
-/

import Mathlib.Data.Finset.Card
import TreeCheck.Proofs.Reporting.Typing
import TreeCheck.Proofs.Types.Hierarchy
import TreeCheck.Proofs.Types.Interning

namespace TreeCheck

open TypeTable

variable {tree : Tree} {loose : List Node} {pending : List Nat} {area : ExprId → Prop}
  {before middle after : Analysis} {origin : TypeTable}
variable {id decl : DeclId} {type : TypeId} {waiting : List Nat} {steps slot : Nat}

namespace TypeTable

variable {table : TypeTable}

theorem Grows.form? {later : TypeTable} (more : table.Grows later) {id : TypeId} {form : TypeForm}
    (found : table.form? id = some form) : later.form? id = some form := by
  unfold TypeTable.form? at found ⊢
  split at found
  · nomatch found
  · next known =>
    rw [if_neg known]
    exact more.form found

theorem kindOf_of_classDecl {id : TypeId} (isClass : table.classDecl id = some decl) :
    table.kindOf id = .classType := by
  obtain ⟨info, isInfo, -⟩ := Option.map_eq_some_iff.mp isClass
  obtain ⟨slot, isForm, -⟩ := classInfo?_eq_some isInfo
  rw [kindOf, isForm]
  rfl

end TypeTable

namespace TypeCheck

open AnalysisM TypeM

/-! ### What is kept up -/

/-- A written type that refers to a class is a type of that class, and one that stands for a type
is known. -/
def Refers (tree : Tree) (state : Analysis) (id : TypeExprId) (type : TypeId) : Prop :=
  (∀ written name args decl, tree.types.get? id = some written → written.form = .named name args →
    TypeKind.ofBuiltin? (tree.text name) = none → state.names.typeRefs[id]? = some decl →
    tree.kindOf? decl = some .classDecl → state.typing.types.classDecl type = some decl) ∧
  (tree.Denotes state.names id → type ≠ 0)

/-- A type is the class of a declaration, and no instance of it. -/
def IsClassOf (state : Analysis) (type : TypeId) (id : DeclId) : Prop :=
  ∃ info, state.typing.types.classInfo? type = some info ∧ info.decl = id ∧ info.generic = 0

/-- A type is what a declaration of a kind introduces: the class, or for an enum or a template
parameter a type that is no class. -/
def Makes (state : Analysis) (type : TypeId) (id : DeclId) : DeclKind → Prop
  | .classDecl => IsClassOf state type id
  | .enum | .templateParam =>
    ∃ form, state.typing.types.form? type = some form ∧ form.kind ≠ .classType
  | _ => True

/-- Types are what the declarations and written types they come from say, except that some
classes wait for their bases. What was in the table at some time before is as it was, and the
classes that wait were not in it. -/
structure Introduces (tree : Tree) (origin : TypeTable) (pending : List Nat) (state : Analysis) :
    Prop where
  rooted : state.names.Rooted tree
  hierarchy : state.typing.types.Hierarchy state.names.bases pending
  nominal : ∀ {id : DeclId} {type kind}, state.typing.nominal[id]? = some type →
    tree.kindOf? id = some kind → Makes state type id kind
  written : ∀ {id : TypeExprId} {type}, state.typing.written[id]? = some type →
    Refers tree state id type
  since : origin.Keeps state.typing.types
  fresh : ∀ slot ∈ pending, origin.classes.get? slot = none

/-- The state before conversions and the one behind them. -/
structure Converted (tree : Tree) (origin : TypeTable) (pending : List Nat)
    (before after : Analysis) : Prop where
  introduces : Introduces tree origin pending after
  types : before.typing.types.Grows after.typing.types
  nominal : ∀ id, id ∈ before.typing.nominal → id ∈ after.typing.nominal
  bases : after.names.bases = before.names.bases
  typeRefs : after.names.typeRefs = before.names.typeRefs

theorem IsClassOf.grows (isClass : IsClassOf before type id)
    (more : before.typing.types.Grows after.typing.types) : IsClassOf after type id := by
  obtain ⟨info, isInfo, rfl, top⟩ := isClass
  obtain ⟨later, there, decl, generic⟩ := more.classInfo? isInfo
  exact ⟨later, there, decl, generic.trans top⟩

theorem IsClassOf.classDecl (isClass : IsClassOf before type id) :
    before.typing.types.classDecl type = some id := by
  obtain ⟨info, isInfo, rfl, -⟩ := isClass
  rw [classDecl, isInfo, Option.map_some]

theorem Makes.grows {kind : DeclKind} (makes : Makes before type id kind)
    (more : before.typing.types.Grows after.typing.types) : Makes after type id kind := by
  cases kind with
  | classDecl => exact IsClassOf.grows makes more
  | enum | templateParam =>
    obtain ⟨form, isForm, noClass⟩ := makes
    exact ⟨form, more.form? isForm, noClass⟩
  | _ => exact makes

/-- What a name in a written type refers to introduces a type that is known. -/
theorem Makes.ne_zero {kind : DeclKind} (makes : Makes before type id kind)
    (isType : kind.isTypeName) : type ≠ 0 := by
  rintro rfl
  cases kind with
  | classDecl => cases IsClassOf.classDecl makes
  | enum | templateParam =>
    obtain ⟨form, isForm, -⟩ := makes
    cases isForm
  | _ => cases isType

/-- What a written type stands for depends on nothing but what names in written types refer to. -/
theorem denotes_of_typeRefs_eq {names later : Resolution} {id : TypeExprId}
    (typeRefs : later.typeRefs = names.typeRefs) (denotes : tree.Denotes names id) :
    tree.Denotes later id :=
  denotes.mono fun _ known => by rwa [Tree.NamesType, typeRefs]

theorem Refers.grows {id : TypeExprId} (refers : Refers tree before id type)
    (typeRefs : after.names.typeRefs = before.names.typeRefs)
    (more : before.typing.types.Grows after.typing.types) : Refers tree after id type := by
  refine ⟨fun written name args decl there form other isRef isClass => ?_, fun denotes =>
    refers.2 (denotes_of_typeRefs_eq typeRefs.symm denotes)⟩
  rw [typeRefs] at isRef
  exact more.classDecl (refers.1 written name args decl there form other isRef isClass)

/-- Nothing but the table of types changes. -/
theorem Introduces.grows (introduces : Introduces tree origin pending before)
    (bases : after.names.bases = before.names.bases)
    (typeRefs : after.names.typeRefs = before.names.typeRefs)
    (nominal : after.typing.nominal = before.typing.nominal)
    (written : after.typing.written = before.typing.written)
    (more : before.typing.types.Grows after.typing.types)
    (since : origin.Keeps after.typing.types) (fresh : ∀ slot ∈ waiting, origin.classes.get? slot = none)
    (hierarchy : after.typing.types.Hierarchy before.names.bases waiting) :
    Converted tree origin waiting before after where
  introduces := by
    refine ⟨⟨?_, ?_⟩, bases ▸ hierarchy, ?_, ?_, since, fresh⟩
    · rw [bases, typeRefs]
      exact introduces.rooted.written
    · rw [bases]
      exact introduces.rooted.lineage
    · intro id type kind known isKind
      rw [nominal] at known
      exact (introduces.nominal known isKind).grows more
    · intro id type known
      rw [written] at known
      exact (introduces.written known).grows typeRefs more
  types := more
  nominal id known := nominal ▸ known
  bases := bases
  typeRefs := typeRefs

namespace Converted

theorem refl (introduces : Introduces tree origin pending before) : Converted tree origin pending
    before before :=
  ⟨introduces, .refl _, fun _ known => known, rfl, rfl⟩

theorem trans (first : Converted tree origin pending before middle)
    (second : Converted tree origin waiting middle after) : Converted tree origin waiting before
      after where
  introduces := second.introduces
  types := first.types.trans second.types
  nominal id known := second.nominal id (first.nominal id known)
  bases := second.bases.trans first.bases
  typeRefs := second.typeRefs.trans first.typeRefs

/-- A change that type checking makes outside of conversions. -/
theorem of_change {change : Analysis → Analysis} (changes : CheckingChange area change)
    (introduces : Introduces tree origin pending before) : Converted tree origin pending before
      (change before) :=
  introduces.grows (by rw [changes.names]) (by rw [changes.names]) (changes.nominal before)
    (changes.written before) (changes.types before)
    (introduces.since.trans (changes.extends_types before).toKeeps) introduces.fresh
    (introduces.hierarchy.of_extends (changes.extends_types before))

end Converted

/-! ### Actions -/

/-- Type checking keeps up what conversions keep up. -/
theorem Converted.of_acts {α : Type} {block : (α : Type) → AnalysisM α → Prop}
    (blocks : ∀ {α : Type} {action : AnalysisM α}, block α action → ∀ {before value after},
      action before = .ok value after → Introduces tree origin pending before →
      Converted tree origin pending before after)
    {action : AnalysisM α} (acts : ActsOver block (CheckingChange area) action) {value : α}
    (ran : action before = .ok value after) (introduces : Introduces tree origin pending before) :
    Converted tree origin pending before after := by
  have enters {state : Analysis} (scope : ScopeId) (introduces : Introduces tree origin pending state) :
      Converted tree origin pending state (state.entering scope) :=
    introduces.grows rfl rfl rfl rfl (.refl _) introduces.since introduces.fresh introduces.hierarchy
  have leaves {state : Analysis} (depth : Nat) (introduces : Introduces tree origin pending state) :
      Converted tree origin pending state (state.backTo depth) :=
    introduces.grows rfl rfl rfl rfl (.refl _) introduces.since introduces.fresh introduces.hierarchy
  let kept (before after : Analysis) : Prop :=
    Introduces tree origin pending before → Converted tree origin pending before after
  have leads : kept before after := by
    refine ActsOver.leads kept (fun _ => .refl)
      (fun first second introduces =>
        (first introduces).trans (second (first introduces).introduces))
      (fun _ changes _ => .of_change changes)
      (fun _ _ introduces => introduces.grows rfl rfl rfl rfl
        (.refl _) introduces.since introduces.fresh introduces.hierarchy)
      (fun {state scope after} inner introduces => ?_) (fun isBlock _ _ _ ran => blocks isBlock ran)
      acts ran
    have inside := inner (enters scope introduces).introduces
    exact ((enters scope introduces).trans inside).trans (leaves _ inside.introduces)
  exact leads introduces

/-- An action from a state, where it comes to its end, leads to a state behind conversions. -/
def Converts {α : Type} (tree : Tree) (origin : TypeTable) (pending : List Nat) (before : Analysis)
    (post : α → Analysis → Prop) (action : AnalysisM α) : Prop :=
  ∀ value after, action before = .ok value after →
    Converted tree origin pending before after ∧ post value after

/-- Nothing is said of a result. -/
def Whatever {α : Type} (_ : α) (_ : Analysis) : Prop := True

namespace Converts

variable {α β : Type} {post : α → Analysis → Prop}
variable {action : AnalysisM α}

theorem pure (introduces : Introduces tree origin pending before) {value : α}
    (holds : post value before) :
    Converts tree origin pending before post (Pure.pure value) := by
  intro found after ran
  cases ran
  exact ⟨.refl introduces, holds⟩

theorem bind {result : β → Analysis → Prop} {next : α → AnalysisM β}
    (first : Converts tree origin pending before post action)
    (second : ∀ value middle, Converted tree origin pending before middle → post value middle →
      Converts tree origin waiting middle result (next value)) :
    Converts tree origin waiting before result (action >>= next) := by
  intro value after ran
  obtain ⟨found, middle, runs, goesOn⟩ := bind_eq_ok ran
  obtain ⟨converted, holds⟩ := first found middle runs
  obtain ⟨converted', holds'⟩ := second found middle converted holds value after goesOn
  exact ⟨converted.trans converted', holds'⟩

theorem read {next : Analysis → AnalysisM α}
    (converts : Converts tree origin pending before post (next before)) :
    Converts tree origin pending before post (get >>= next) :=
  converts

theorem kindOf {id : TypeId} {next : TypeKind → AnalysisM α}
    (converts : Converts tree origin pending before post (next (before.typing.types.kindOf id))) :
    Converts tree origin pending before post (TypeCheck.kindOf id >>= next) :=
  converts

theorem weaken {result : α → Analysis → Prop}
    (converts : Converts tree origin pending before post action)
    (weaker : ∀ value after, Converted tree origin pending before after → post value after →
      result value after) : Converts tree origin pending before result action := by
  intro value after ran
  obtain ⟨converted, holds⟩ := converts value after ran
  exact ⟨converted, weaker value after converted holds⟩

theorem mapM {actions : α → AnalysisM β} {items : List α}
    (introduces : Introduces tree origin pending before)
    (each : ∀ item ∈ items, ∀ middle, Converted tree origin pending before middle →
      Converts tree origin pending middle Whatever (actions item)) :
    Converts tree origin pending before Whatever (items.mapM actions) := by
  induction items generalizing before with
  | nil => exact .pure introduces trivial
  | cons item rest inductionHypothesis =>
    rw [List.mapM_cons]
    refine .bind (each item (.head _) before (.refl introduces)) fun _ _ converted _ => ?_
    refine .bind (inductionHypothesis converted.introduces fun other member middle converted' =>
      each other (.tail _ member) middle (converted.trans converted')) fun _ _ converted _ => ?_
    exact .pure converted.introduces trivial

/-- What type checking does outside of conversions. -/
theorem of_acts (introduces : Introduces tree origin pending before)
    (acts : Acts (CheckingChange everywhere) action) :
    Converts tree origin pending before (fun value after => action before = .ok value after) action := by
  intro value after ran
  exact ⟨.of_acts (fun givesUp _ _ _ ran => absurd ran givesUp.not_ok) acts ran introduces, ran⟩

/-- An operation that adds instances at most. -/
theorem inTypes {action : TypeM α} (introduces : Introduces tree origin pending before)
    (growing : Growing action) :
    Converts tree origin pending before
      (fun value after => action.run before.typing.types = (value, after.typing.types))
      (inTypes action) := by
  intro value after ran
  refine ⟨(of_acts introduces (acts_inTypes growing) value after ran).1, ?_⟩
  cases ran
  rfl

end Converts

/-! ### Declarations -/

/-- The declarations that have no type of their own, be it that they never get one. -/
def unregistered (tree : Tree) (state : Analysis) : Finset DeclId :=
  tree.decls.ids.toFinset.filter (· ∉ state.typing.nominal)

theorem mem_unregistered {state : Analysis} : id ∈ unregistered tree state ↔
    (tree.decls.get? id).isSome ∧ id ∉ state.typing.nominal := by
  rw [unregistered, Finset.mem_filter, List.mem_toFinset, Arena.mem_ids_iff]

theorem card_unregistered_le (tree : Tree) (state : Analysis) :
    (unregistered tree state).card ≤ tree.decls.size :=
  calc (unregistered tree state).card ≤ tree.decls.ids.toFinset.card := Finset.card_filter_le _ _
    _ ≤ tree.decls.ids.length := List.toFinset_card_le _
    _ = tree.decls.size := List.length_range'

theorem Converted.unregistered_subset (converted : Converted tree origin pending before after) :
    unregistered tree after ⊆ unregistered tree before := by
  intro id member
  rw [mem_unregistered] at member ⊢
  exact member.imp_right (mt (converted.nominal id))

/-- A declaration that gets a type is one less. -/
theorem Converted.card_unregistered_lt (converted : Converted tree origin pending before after)
    (holds : (tree.decls.get? id).isSome) (fresh : id ∉ before.typing.nominal)
    (known : id ∈ after.typing.nominal) :
    (unregistered tree after).card < (unregistered tree before).card := by
  refine Finset.card_lt_card (Finset.ssubset_iff_of_subset converted.unregistered_subset |>.mpr ?_)
  exact ⟨id, mem_unregistered.mpr ⟨holds, fresh⟩, fun member => (mem_unregistered.mp member).2 known⟩

/-- So many steps suffice to convert a written type. -/
def Enough (tree : Tree) (state : Analysis) (steps : Nat) (id : Option TypeExprId) : Prop :=
  ∀ type, id = some type → (tree.types.get? type).isSome →
    (unregistered tree state).card * (tree.types.size + 1) + type < steps

theorem Enough.converted {id : Option TypeExprId} (enough : Enough tree before steps id)
    (converted : Converted tree origin pending before after) : Enough tree after steps id := by
  intro type isType holds
  have less := Finset.card_le_card converted.unregistered_subset
  have := enough type isType holds
  have := Nat.mul_le_mul_right (tree.types.size + 1) less
  omega

/-- For the parts of a written type a step less suffices. -/
theorem Enough.part (forest : tree.Forest loose) {id part : TypeExprId} {written : TypeExpr}
    (there : tree.types.get? id = some written) (enough : Enough tree before (steps + 1) (some id))
    (isPart : .type part ∈ written.form.parts) : Enough tree before steps (some part) := by
  rintro _ ⟨⟩ -
  have := enough id rfl (by rw [there]; rfl)
  have := forest.typesBelow id written there part isPart
  omega

theorem Enough.room {id : TypeExprId} (holds : (tree.types.get? id).isSome)
    (enough : Enough tree before (steps + 1) (some id)) :
    (unregistered tree before).card * (tree.types.size + 1) ≤ steps := by
  have := enough id rfl holds
  omega

/-- Once one more declaration has its type, any written type may be converted. -/
theorem enough_of_lt (room : (unregistered tree before).card * (tree.types.size + 1) ≤ steps)
    (less : (unregistered tree after).card < (unregistered tree before).card)
    (id : Option TypeExprId) : Enough tree after steps id := by
  intro type _ holds
  have := ((Arena.isSome_get?_iff _ _).mp holds).2
  have := Nat.mul_le_mul_right (tree.types.size + 1) (Nat.succ_le_of_lt less)
  rw [Nat.succ_mul] at this
  omega

/-- A type is made of a declaration as it should be. -/
def Introduced (tree : Tree) (id : DeclId) (type : TypeId) (state : Analysis) : Prop :=
  ∀ kind, tree.kindOf? id = some kind → Makes state type id kind

theorem introduced_of_isClassOf {state : Analysis} (isClass : IsClassOf state type id)
    (isKind : tree.kindOf? id = some .classDecl) : Introduced tree id type state := by
  intro kind isKind'
  cases isKind.symm.trans isKind'
  exact isClass

theorem converts_recordNominal (introduces : Introduces tree origin pending before)
    (introduced : Introduced tree id type before) :
    Converts tree origin pending before
      (fun _ after => id ∈ after.typing.nominal ∧ after.typing.types = before.typing.types)
      (recordNominal id type) := by
  intro value after ran
  cases ran
  refine ⟨⟨⟨introduces.rooted, introduces.hierarchy, ?_, introduces.written, introduces.since,
    introduces.fresh⟩, .refl _, fun other known => Std.TreeMap.mem_insert.mpr (.inr known), rfl, rfl⟩,
    Std.TreeMap.mem_insert_self, rfl⟩
  intro other found kind known isKind
  have known' : (before.typing.nominal.insert id type)[other]? = some found := known
  rw [Std.TreeMap.getElem?_insert] at known'
  split at known'
  · next same =>
    obtain rfl : id = other := Std.compare_eq_iff_eq.mp same
    cases known'
    exact introduced kind isKind
  · exact introduces.nominal known' isKind

/-- A declaration that is no class is what its type is made of. -/
theorem converts_simpleNominal (introduces : Introduces tree origin pending before) (id : DeclId) :
    Converts tree origin pending before
      (fun type after => tree.kindOf? id ≠ some .classDecl → Introduced tree id type after)
      (simpleNominal tree id) := by
  have registers {kind : DeclKind} (isKind : tree.kindOf? id = some kind) (other : kind ≠ .classDecl)
      {register : TypeTable → TypeId × TypeTable}
      (more : ∀ table : TypeTable, table.Extends (register table).2)
      (made : ∀ table : TypeTable, table.forms[0]? = some .invalid →
        ∃ form, (register table).2.form? (register table).1 = some form ∧ form.kind ≠ .classType) :
      Converts tree origin pending before
        (fun type after => tree.kindOf? id ≠ some .classDecl → Introduced tree id type after) (do
          let type ← AnalysisM.inTypes (modifyGet register)
          recordNominal id type
          return type) := by
    refine .bind (.inTypes introduces more) fun type middle converted ran => ?_
    have introduced : Introduced tree id type middle := by
      have known := made _ introduces.hierarchy.formed.unknown
      rw [show register before.typing.types = _ from ran] at known
      intro kind' isKind'
      cases isKind.symm.trans isKind'
      cases kind with
      | classDecl => exact absurd rfl other
      | enum | templateParam => exact known
      | _ => trivial
    exact .bind (converts_recordNominal converted.introduces introduced) fun _ _ converted' _ =>
      .pure converted'.introduces fun _ kind isKind => (introduced kind isKind).grows converted'.types
  refine .read ?_
  split
  · next isKnown => exact .pure introduces fun _ kind isKind => introduces.nominal isKnown isKind
  · split
    · next isDecl =>
      have isKind : tree.kindOf? id = some .enum := by rw [Tree.kindOf?, isDecl]; rfl
      exact registers isKind (by decide) (fun table => table.extends_registerEnum _ _)
        fun _ taken => ⟨_, form?_push taken _, by rintro ⟨⟩⟩
    · next isDecl =>
      have isKind : tree.kindOf? id = some .templateParam := by rw [Tree.kindOf?, isDecl]; rfl
      exact registers isKind (by decide) (fun table => table.extends_registerParam _ _ _)
        fun _ taken => ⟨_, form?_push taken _, by rintro ⟨⟩⟩
    · next noEnum noParam =>
      refine .pure introduces fun noClass kind isKind => ?_
      obtain ⟨decl, isDecl, rfl⟩ := Option.map_eq_some_iff.mp isKind
      obtain ⟨form, name, type, init, mods, owner, span⟩ := decl
      cases form with
      | classDecl body => exact absurd isKind noClass
      | enum consts => exact (noEnum _ _ _ _ _ _ _ isDecl).elim
      | templateParam constraint => exact (noParam _ _ _ _ _ _ _ isDecl).elim
      | «variable» kind => cases kind <;> trivial
      | _ => trivial

/-- A class enters the table and waits for its base. -/
theorem converts_registerClass (introduces : Introduces tree origin pending before) (name : String)
    (id : DeclId) :
    Converts tree origin (before.typing.types.classes.next :: pending) before
      (fun type after => IsClassOf after type id ∧
        after.typing.types.form? type = some (.classType before.typing.types.classes.next))
      (AnalysisM.inTypes (modifyGet (·.registerClass name id))) := by
  intro type after ran
  cases ran
  have isClass := classInfo?_addClass introduces.hierarchy.formed { name, decl := id }
  refine ⟨introduces.grows rfl rfl rfl rfl (grows_registerClass _ _ _)
    (introduces.since.trans (keeps_registerClass _ _ _)) ?_
    (introduces.hierarchy.registerClass name id), ⟨_, isClass, rfl, rfl⟩, ?_⟩
  · intro other waits
    rcases List.mem_cons.mp waits with rfl | waits
    · by_contra there
      obtain ⟨info, isInfo⟩ := Option.ne_none_iff_exists'.mp there
      cases (Arena.get?_next _).symm.trans (introduces.since.classInfo isInfo)
    · exact introduces.fresh other waits
  · exact form?_addClass introduces.hierarchy.formed { name, decl := id }

theorem converts_setParams (introduces : Introduces tree origin (slot :: pending) before)
    (isForm : before.typing.types.form? type = some (.classType slot))
    (isClass : IsClassOf before type id) (params : List TypeId) :
    Converts tree origin (slot :: pending) before Whatever
      (AnalysisM.inTypes (modify (·.setParams type params))) := by
  intro value after ran
  cases ran
  obtain ⟨info, isInfo, -, top⟩ := isClass
  exact ⟨introduces.grows rfl rfl rfl rfl (grows_setParams ..)
    (introduces.since.modifyClass isForm (introduces.fresh slot (.head _)) _) introduces.fresh
    (introduces.hierarchy.setParams isInfo top params), trivial⟩

theorem converts_setBase (introduces : Introduces tree origin (slot :: pending) before) {base : DeclId}
    {found : TypeId} (isForm : before.typing.types.form? type = some (.classType slot))
    (isClass : IsClassOf before type id) (isBase : before.names.bases[id]? = some base)
    (isType : before.typing.types.classDecl found = some base) :
    Converts tree origin pending before Whatever
      (AnalysisM.inTypes (modify (·.setBase type found))) := by
  intro value after ran
  cases ran
  obtain ⟨info, isInfo, rfl, top⟩ := isClass
  obtain ⟨chain, lineage⟩ := introduces.rooted.lineage base
  have apart : base ≠ info.decl := fun same =>
    (Lineage.step isBase lineage).notMem (same ▸ .head _)
  exact ⟨introduces.grows rfl rfl rfl rfl (grows_setBase ..)
    (introduces.since.setBase isForm (introduces.fresh slot (.head _)) found)
    (fun other waits => introduces.fresh other (.tail _ waits))
    (introduces.hierarchy.setBase isForm isInfo top isBase apart isType), trivial⟩

/-- A class that inherits from none need not wait. -/
theorem Introduces.settle (introduces : Introduces tree origin (slot :: pending) before)
    (isForm : before.typing.types.form? type = some (.classType slot))
    (isClass : IsClassOf before type id) (none : before.names.bases[id]? = none) :
    Introduces tree origin pending before := by
  obtain ⟨info, isInfo, rfl, -⟩ := isClass
  exact (introduces.grows rfl rfl rfl rfl (.refl _) introduces.since
    (fun other waits => introduces.fresh other (.tail _ waits))
    (introduces.hierarchy.settle isForm isInfo none)).introduces

/-- A list or an array of something known is known. -/
theorem sequenceOf_ne_zero {make : TypeId → UInt8 → TypeForm} {sameKind : TypeForm → Bool}
    (taken : before.typing.types.forms[0]? = some .invalid)
    (known : ∀ elem dims, make elem dims ≠ .invalid) {elem value : TypeId} {dims : UInt8}
    (isKnown : elem ≠ 0) (ran : sequenceOf make sameKind elem dims before = .ok value after) :
    value ≠ 0 := by
  unfold sequenceOf at ran
  rw [if_neg isKnown] at ran
  obtain ⟨_, _, isTable, ran⟩ := bind_eq_ok ran
  cases isTable
  cases inner : (before.typing.types.form? elem).filter sameKind with
  | some _ | none =>
    rw [inner] at ran
    cases ran
    exact intern_ne_zero taken (known _ _)

/-- A written type that is no name only has to be known where it denotes something. -/
theorem refers_of_unnamed {id : TypeExprId} {written : TypeExpr}
    (there : tree.types.get? id = some written) (other : ∀ name args, written.form ≠ .named name args)
    (known : tree.Denotes after.names id → type ≠ 0) : Refers tree after id type := by
  refine ⟨fun expr name args decl there' form => ?_, known⟩
  cases there.symm.trans there'
  exact absurd form (other name args)

section Named

variable {id : TypeExprId} {written : TypeExpr} (there : tree.types.get? id = some written)
  {name : NameId}
  {args : List (Option TypeExprId)} (form : written.form = .named name args)
  (noBuiltin : builtin? (tree.text name) = none)

include there form noBuiltin

theorem namesType_of_denotes {names : Resolution} (denotes : tree.Denotes names id) :
    tree.NamesType names id :=
  (denotes.name there form).resolve_left (not_isSome_of_builtin?_eq_none noBuiltin)

/-- Whatever a name stands for, it refers to a type of that declaration. -/
theorem refers_of_typeRef (isRef : after.names.typeRefs[id]? = some decl)
    (isType : tree.kindOf? decl = some .classDecl → after.typing.types.classDecl type = some decl)
    (known : ∀ kind, tree.kindOf? decl = some kind → kind.isTypeName → type ≠ 0) :
    Refers tree after id type := by
  refine ⟨fun expr name' args' decl there' form' other isRef' isClass => ?_, fun denotes => ?_⟩
  · cases isRef.symm.trans isRef'
    exact isType isClass
  · obtain ⟨decl', kind, isRef', isKind, isName⟩ := namesType_of_denotes there form noBuiltin denotes
    cases isRef.symm.trans isRef'
    exact known kind isKind isName

end Named

section Written

variable {typeOf : Option TypeExprId → AnalysisM TypeId} {steps : Nat}
  (converts : ∀ {pending before id}, Introduces tree origin pending before →
    Enough tree before steps id →
    Converts tree origin pending before
      (fun type after => ∀ written, id = some written → Refers tree after written type) (typeOf id))

include converts

/-- The base of a class that waits for it is set, where there is one. -/
theorem converts_base (introduces : Introduces tree origin (slot :: pending) before) {id : DeclId}
    {body : ClassBody} (isBody : tree.classBody? id = some body) {type : TypeId}
    (isForm : before.typing.types.form? type = some (.classType slot))
    (isClass : IsClassOf before type id) (enough : Enough tree before steps body.base) :
    Converts tree origin pending before (Introduced tree id) (do
      if (← get).names.bases.contains id then
        let base ← typeOf body.base
        if (← kindOf base) = .classType then AnalysisM.inTypes (modify (·.setBase type base))
      return type) := by
  have isKind := Tree.kindOf?_of_classBody? isBody
  refine .read ?_
  split
  · next inherits =>
    obtain ⟨base, isBase⟩ : ∃ base, before.names.bases[id]? = some base :=
      Option.isSome_iff_exists.mp (Std.TreeMap.mem_iff_isSome_getElem?.mp inherits)
    obtain ⟨written, expr, name, args, isWritten, there, form, other, refers, isClassDecl⟩ :=
      introduces.rooted.written id base isBase
    rw [Tree.baseType?, isBody, Option.bind_some] at isWritten
    refine .bind (converts introduces enough) fun found middle converted isType => .kindOf ?_
    have isType' : middle.typing.types.classDecl found = some base :=
      (isType written isWritten).1 expr name args base there form other
        (converted.typeRefs ▸ refers) isClassDecl
    rw [if_pos (kindOf_of_classDecl isType')]
    have isClass' := isClass.grows converted.types
    exact .bind (converts_setBase converted.introduces (converted.types.form? isForm) isClass'
      (converted.bases ▸ isBase) isType') fun _ _ converted _ =>
        .pure converted.introduces
          (introduced_of_isClassOf (isClass'.grows converted.types) isKind)
  · next alone =>
    have none : before.names.bases[id]? = none := by
      rw [← Option.not_isSome_iff_eq_none, ← Std.TreeMap.mem_iff_isSome_getElem?]
      exact alone
    exact .pure (introduces.settle isForm isClass none) (introduced_of_isClassOf isClass isKind)

theorem converts_nominalUsing (introduces : Introduces tree origin pending before) (id : DeclId)
    (room : (unregistered tree before).card * (tree.types.size + 1) ≤ steps) :
    Converts tree origin pending before (Introduced tree id) (nominalUsing tree typeOf id) := by
  refine .read ?_
  split
  · next known isKnown =>
    exact .pure introduces fun kind isKind => introduces.nominal isKnown isKind
  · next unknown =>
    split
    · next noBody =>
      have noClass : tree.kindOf? id ≠ some .classDecl := by
        intro isKind
        obtain ⟨decl, there, isKind⟩ := Option.map_eq_some_iff.mp isKind
        obtain ⟨body, form⟩ := Decl.form_of_classDecl isKind
        simp [Tree.classBody?, there, Decl.classBody?, form] at noBody
      exact (converts_simpleNominal introduces id).weaken fun _ _ _ introduced => introduced noClass
    · next body isBody =>
      have fresh : id ∉ before.typing.nominal := by
        rw [Std.TreeMap.mem_iff_isSome_getElem?, unknown]
        simp
      have holds : (tree.decls.get? id).isSome := by
        obtain ⟨decl, there, -⟩ := Option.bind_eq_some_iff.mp isBody
        rw [there]
        rfl
      refine .bind (converts_registerClass introduces _ id)
        fun type registered entered made => ?_
      obtain ⟨isClass, isForm⟩ := made
      refine .bind (converts_recordNominal entered.introduces
        (introduced_of_isClassOf isClass (Tree.kindOf?_of_classBody? isBody)))
        fun _ recorded noted isKnown => ?_
      obtain ⟨known, -⟩ := isKnown
      -- The class has a type now, so there is room for its base.
      have less := (entered.trans noted).card_unregistered_lt holds fresh known
      have finish {ready : Analysis}
          (converted : Converted tree origin
            (before.typing.types.classes.next :: pending) recorded ready) :=
        have grows := noted.types.trans converted.types
        converts_base converts converted.introduces isBody (grows.form? isForm) (isClass.grows grows)
          ((enough_of_lt room less body.base).converted converted)
      dsimp only
      split
      · refine .bind (.mapM noted.introduces fun param _ _ converted => .weaken
          (converts_simpleNominal converted.introduces param) fun _ _ _ _ => trivial)
          fun params _ converted _ => ?_
        have grows := noted.types.trans converted.types
        refine .bind (converts_setParams converted.introduces (grows.form? isForm) (isClass.grows grows)
          params) fun _ _ converted' _ => ?_
        exact finish (converted.trans converted')
      · exact finish (.refl noted.introduces)

/-- An instance that is written is one of the class it is written of. -/
theorem converts_instantiateWritten (introduces : Introduces tree origin pending before) (span : Span)
    {generic : TypeId}
    (isClass : tree.kindOf? decl = some .classDecl →
      before.typing.types.classDecl generic = some decl) {args : List (Option TypeExprId)}
    (enough : ∀ arg ∈ args, Enough tree before steps arg) :
    Converts tree origin pending before
      (fun type after => tree.kindOf? decl = some .classDecl →
        after.typing.types.classDecl type = some decl)
      (instantiateWritten tree typeOf span decl generic args) := by
  unfold instantiateWritten
  dsimp only
  split
  · exact .bind (.of_acts introduces (.error ..)) fun _ _ converted _ =>
      .pure converted.introduces fun isKind => converted.types.classDecl (isClass isKind)
  · refine .bind (.mapM introduces fun arg member _ converted => .weaken
      (converts converted.introduces ((enough arg member).converted converted)) fun _ _ _ _ => trivial)
      fun argTypes middle converted _ => ?_
    refine .bind (.of_acts converted.introduces (show Acts (CheckingChange everywhere) _ from
      .forM fun entry _ => ?_)) fun _ _ converted' _ => ?_
    · split
      · exact acts_checkConstraint tree ..
      · exact .block .giveUp
    refine .weaken (.inTypes converted'.introduces (growing_instantiate generic argTypes))
      fun type after _ ran isKind => ?_
    have isType := instantiate_decl converted'.introduces.hierarchy.formed
      ((converted.types.trans converted'.types).classDecl (isClass isKind)) argTypes
    rwa [ran] at isType

/-- Lists and arrays refer to something known if their elements do. -/
theorem converts_sequence (forest : tree.Forest loose)
    (introduces : Introduces tree origin pending before)
    {id : TypeExprId} {written : TypeExpr} (there : tree.types.get? id = some written)
    (enough : Enough tree before (steps + 1) (some id)) {make : TypeId → UInt8 → TypeForm}
    {sameKind : TypeForm → Bool} {base : TypeExprId} {dims : UInt8}
    (form : written.form = .list base dims ∨ written.form = .array base dims)
    (isSequence : ∀ elem dims, make elem dims ≠ .invalid) :
    Converts tree origin pending before (fun type after => Refers tree after id type) (do
      let elem ← typeOf (some base)
      sequenceOf make sameKind elem dims) := by
  have other : ∀ name args, written.form ≠ .named name args := by
    intro name args isNamed
    rcases form with form | form <;> cases form.symm.trans isNamed
  have isPart : .type base ∈ written.form.parts := by
    rcases form with form | form <;> rw [form] <;> exact .head _
  refine .bind (converts introduces (enough.part forest there isPart))
    fun elem middle converted isElem => ?_
  refine .weaken (.of_acts converted.introduces (acts_sequenceOf ..)) fun type after converted' ran =>
    refers_of_unnamed there other fun denotes => ?_
  refine sequenceOf_ne_zero converted.introduces.hierarchy.formed.unknown isSequence ?_ ran
  exact (isElem base rfl).2
    (denotes_of_typeRefs_eq converted'.typeRefs.symm (denotes.element there form))

/-- A name that was resolved refers to the declaration it stands for, with arguments to an instance
of it. -/
theorem converts_named (introduces : Introduces tree origin pending before) {id : TypeExprId}
    {written : TypeExpr} (there : tree.types.get? id = some written) {name : NameId}
    {args : List (Option TypeExprId)} (form : written.form = .named name args)
    (noBuiltin : TypeTable.builtin? (tree.text name) = none)
    (isDecl : before.names.typeRefs[id]? = some decl)
    (room : (unregistered tree before).card * (tree.types.size + 1) ≤ steps)
    (parts : ∀ arg ∈ args, Enough tree before steps arg) :
    Converts tree origin pending before (fun type after => Refers tree after id type) (do
      let type ← nominalUsing tree typeOf decl
      if (← kindOf type) ≠ .classType ∨ args.isEmpty then return type
      instantiateWritten tree typeOf written.span decl type args) := by
  refine .bind (converts_nominalUsing converts introduces decl room)
    fun type middle converted introduced => .kindOf ?_
  have isRef {after : Analysis} (same : after.names.typeRefs = before.names.typeRefs) :
      after.names.typeRefs[id]? = some decl := same ▸ isDecl
  split
  · exact .pure converted.introduces (refers_of_typeRef there form noBuiltin (isRef converted.typeRefs)
      (fun isClass => IsClassOf.classDecl (introduced _ isClass))
      fun kind isKind isName => (introduced kind isKind).ne_zero isName)
  · next instantiated =>
    have isClassType : middle.typing.types.kindOf type = .classType :=
      Decidable.not_not.mp fun other => instantiated (.inl other)
    refine .weaken (converts_instantiateWritten converts converted.introduces written.span
      (fun isClass => IsClassOf.classDecl (introduced _ isClass)) fun arg member =>
        (parts arg member).converted converted)
      fun made after converted' isType => refers_of_typeRef there form noBuiltin
        (isRef (converted'.typeRefs.trans converted.typeRefs)) isType fun kind isKind isName => ?_
    have makes := introduced kind isKind
    cases kind with
    | classDecl =>
      rintro rfl
      cases isType isKind
    | enum | templateParam =>
      obtain ⟨isForm, there, noClass⟩ := makes
      rw [TypeTable.kindOf, there] at isClassType
      exact absurd isClassType noClass
    | _ => cases isName

/-- What a written type refers to is what it is converted to. -/
theorem converts_convertUsing
    (forest : tree.Forest loose) (introduces : Introduces tree origin pending before)
    {id : TypeExprId} {written : TypeExpr} (there : tree.types.get? id = some written)
    (enough : Enough tree before (steps + 1) (some id)) :
    Converts tree origin pending before (fun type after => Refers tree after id type)
      (convertUsing tree typeOf id written) := by
  have parts {args : List (Option TypeExprId)}
      (areParts : ∀ other, some other ∈ args → .type other ∈ written.form.parts) :
      ∀ arg ∈ args, Enough tree before steps arg := by
    intro arg member
    cases arg with
    | none =>
      intro _ none
      cases none
    | some other => exact enough.part forest there (areParts other member)
  have all {args : List (Option TypeExprId)}
      (areParts : ∀ other, some other ∈ args → .type other ∈ written.form.parts) :
      Converts tree origin pending before Whatever (args.mapM typeOf) :=
    .mapM introduces fun arg member _ converted =>
      .weaken (converts converted.introduces ((parts areParts arg member).converted converted))
        fun _ _ _ _ => trivial
  unfold convertUsing
  split
  · next name args form =>
    split
    · next type isBuiltin =>
      refine .pure introduces ⟨fun expr name' args' decl there' form' other => ?_, fun _ => ?_⟩
      · cases there.symm.trans there'
        cases form.symm.trans form'
        rw [builtin?, other] at isBuiltin
        cases isBuiltin
      · exact builtin?_ne_zero isBuiltin
    · next noBuiltin =>
      refine .read ?_
      split
      · next unknown =>
        refine .pure introduces ⟨fun expr name' args' decl there' form' other isRef =>
          ?_, fun denotes => ?_⟩
        · rw [unknown] at isRef
          cases isRef
        · obtain ⟨decl, kind, isRef, -⟩ := namesType_of_denotes there form noBuiltin denotes
          rw [unknown] at isRef
          cases isRef
      · next decl isDecl =>
        exact converts_named converts introduces there form noBuiltin isDecl
          (enough.room (by rw [there]; rfl)) (parts (by simp [form, TypeExprForm.parts]))
  · next base dims form =>
      exact converts_sequence converts forest introduces there enough (.inl form) nofun
  · next base dims form =>
      exact converts_sequence converts forest introduces there enough (.inr form) nofun
  · next members form =>
    refine .bind (all (by simp [form, TypeExprForm.parts])) fun types middle converted _ =>
      .weaken (.inTypes converted.introduces (growing_makeTuple _)) fun type after _ ran =>
        refers_of_unnamed there (by simp [form]) fun _ => ?_
    obtain rfl : (middle.typing.types.makeTuple types).1 = type := congrArg Prod.fst ran
    exact makeTuple_ne_zero converted.introduces.hierarchy.formed.unknown types
  · next members form =>
    refine .bind (all (by simp [form, TypeExprForm.parts])) fun types middle converted _ =>
      .weaken (.inTypes converted.introduces (growing_makeMulti _)) fun type after _ ran =>
        refers_of_unnamed there (by simp [form]) fun _ => ?_
    obtain rfl : (middle.typing.types.makeMulti types).1 = type := congrArg Prod.fst ran
    exact makeMulti_ne_zero converted.introduces.hierarchy.formed.unknown types

end Written

/-! ### Written types -/

theorem converts_recordWritten (introduces : Introduces tree origin pending before) {id : TypeExprId}
    (refers : Refers tree before id type) :
    Converts tree origin pending before
      Whatever (modifyTyping fun typing =>
        { typing with written := typing.written.insert id type }) := by
  intro value after ran
  cases ran
  refine ⟨⟨⟨introduces.rooted, introduces.hierarchy, introduces.nominal, ?_, introduces.since,
    introduces.fresh⟩, .refl _, fun _ known => known, rfl, rfl⟩, trivial⟩
  intro other found known
  have known' : (before.typing.written.insert id type)[other]? = some found := known
  rw [Std.TreeMap.getElem?_insert] at known'
  split at known'
  · next same =>
    obtain rfl : id = other := Std.compare_eq_iff_eq.mp same
    cases known'
    exact refers
  · exact introduces.written known'

/-- Nothing is said of a written type that is missing. -/
theorem refers_of_absent {id : TypeExprId} (absent : tree.types.get? id = none) (type : TypeId) :
    Refers tree before id type := by
  refine ⟨fun written name args decl there => ?_, fun denotes => ?_⟩
  · rw [absent] at there
    cases there
  · obtain ⟨written, there⟩ := denotes.there
    rw [absent] at there
    cases there

theorem converts_typeWithin (forest : tree.Forest loose) {id : Option TypeExprId}
    (introduces : Introduces tree origin pending before) (enough : Enough tree before steps id) :
    Converts tree origin pending before
      (fun type after => ∀ written, id = some written → Refers tree after written type)
      (typeWithin tree steps id) := by
  induction steps generalizing pending before id with
  | zero =>
    refine .pure introduces fun written isWritten => ?_
    have absent : tree.types.get? written = none := by
      by_contra there
      exact Nat.not_lt_zero _ (enough written isWritten (Option.isSome_iff_ne_none.mpr there))
    exact refers_of_absent absent 0
  | succ steps inductionHypothesis =>
    cases id with
    | none => exact .pure introduces fun _ none => nomatch none
    | some id =>
      have record {state : Analysis} {type : TypeId} (introduces : Introduces tree origin pending state)
          (refers : Refers tree state id type) : Converts tree origin pending state
            (fun type after => ∀ written, some id = some written → Refers tree after written type)
            (do
              modifyTyping fun typing => { typing with written := typing.written.insert id type }
              return type) := by
        refine .bind (converts_recordWritten introduces refers) fun _ _ converted _ =>
          .pure converted.introduces ?_
        rintro _ ⟨⟩
        exact refers.grows converted.typeRefs converted.types
      refine .read ?_
      split
      · next known isKnown =>
        refine .pure introduces ?_
        rintro _ ⟨⟩
        exact introduces.written isKnown
      · dsimp only
        split
        · next written there =>
          exact .bind (converts_convertUsing inductionHypothesis forest introduces there enough)
            fun type middle converted refers => record converted.introduces refers
        · next absent =>
          exact record introduces (refers_of_absent absent 0)

theorem converts_typeOf (forest : tree.Forest loose) (introduces : Introduces tree origin pending before)
    (id : Option TypeExprId) :
    Converts tree origin pending before
      (fun type after => ∀ written, id = some written → Refers tree after written type)
      (typeOf tree id) := by
  refine converts_typeWithin forest introduces fun type _ holds => ?_
  have bound := ((Arena.isSome_get?_iff _ _).mp holds).2
  have := Nat.mul_le_mul_right (tree.types.size + 1) (card_unregistered_le tree before)
  rw [Nat.add_one_mul]
  omega

theorem converts_nominal (forest : tree.Forest loose)
    (introduces : Introduces tree origin pending before)
    (id : DeclId) : Converts tree origin pending before (Introduced tree id) (nominal tree id) := by
  refine converts_nominalUsing (converts_typeWithin forest) introduces id ?_
  exact Nat.mul_le_mul_right _ ((card_unregistered_le tree before).trans (Nat.le_succ _))

/-! ### Types of declarations -/

theorem converts_recordDecl (introduces : Introduces tree origin pending before) (id : DeclId)
    (type : TypeId) :
    Converts tree origin pending before Whatever (recordDecl id type) := by
  intro value after ran
  cases ran
  exact ⟨introduces.grows rfl rfl rfl rfl
    (.refl _) introduces.since introduces.fresh introduces.hierarchy, trivial⟩

theorem converts_declaredType? (forest : tree.Forest loose)
    (introduces : Introduces tree origin pending before)
    (id : DeclId) (decl : Decl) :
    Converts tree origin pending before Whatever (declaredType? tree id decl) := by
  have written (type : Option TypeExprId) :
      Converts tree origin pending before Whatever (do return some (← typeOf tree type)) :=
    .bind (converts_typeOf forest introduces type) fun _ _ converted _ =>
      .pure converted.introduces trivial
  have introduced (owner : DeclId) :
      Converts tree origin pending before Whatever (do return some (← nominal tree owner)) :=
    .bind (converts_nominal forest introduces owner) fun _ _ converted _ =>
      .pure converted.introduces trivial
  unfold declaredType?
  cases decl.kind with
  | enumConst =>
    dsimp only
    split
    · exact introduced _
    · exact .pure introduces trivial
  | classDecl => exact introduced _
  | enum => exact introduced _
  | templateParam => exact introduced _
  | importDecl => exact .pure introduces trivial
  | _ =>
    dsimp only
    split
    · exact .pure introduces trivial
    · exact written _

theorem converts_declType (forest : tree.Forest loose)
    (introduces : Introduces tree origin pending before)
    (id : DeclId) : Converts tree origin pending before Whatever (declType tree id) := by
  refine .read ?_
  split
  · exact .pure introduces trivial
  · split
    · exact .pure introduces trivial
    · refine .bind (converts_declaredType? forest introduces id _) fun found middle converted _ => ?_
      split
      · exact .pure converted.introduces trivial
      · exact .bind (converts_recordDecl converted.introduces id _) fun _ _ converted _ =>
          .pure converted.introduces trivial

/-! ### Programs -/

/-- Whatever type checking does, conversions included, types are afterwards what the declarations
they come from say. -/
theorem Checks.introduces (forest : tree.Forest loose) {α : Type} {action : AnalysisM α}
    (checks : Checks tree area action) (introduces : Introduces tree origin pending before) {value : α}
    (ran : action before = .ok value after) : Introduces tree origin pending after := by
  refine (Converted.of_acts (fun conversion before value after ran introduces => ?_) checks ran
    introduces).introduces
  cases conversion with
  | typeOf id => exact (converts_typeOf forest introduces id value after ran).1
  | nominal id => exact (converts_nominal forest introduces id value after ran).1
  | declType id => exact (converts_declType forest introduces id value after ran).1

end TypeCheck

end TreeCheck

namespace TreeCheck

variable {root : UnitId} {checked : Bool} {after : Analysis}

/-- Name resolution does nothing about types. -/
theorem Resolve.typing_program {tree : Tree} {before : Analysis}
    (ran : Resolve.program tree root checked before = .ok () after) :
    after.typing = before.typing :=
  ActsOver.leads (fun before after => after.typing = before.typing) (fun _ => rfl)
    (fun first second => second.trans first) (fun _ change => change.typing) (fun _ _ => rfl)
    (fun inner => inner) (fun givesUp _ _ _ ran => absurd ran givesUp.not_ok)
      (Resolve.acts_program tree root checked)
    ran

/-- Behind name resolution no class has a type yet. -/
theorem Resolve.introduces_program {tree : Tree} {loose : List Node} (forest : tree.Forest loose)
    {sink : Sink} {trace : Trace.Recorder}
    (ran : Resolve.program tree root checked { sink, trace } = .ok () after) :
    TypeCheck.Introduces tree after.typing.types [] after := by
  have typing := Resolve.typing_program ran
  refine ⟨Resolve.rooted_program forest ran, ?_, ?_, ?_, .refl _, nofun⟩
  · rw [typing]
    exact .empty _
  · intro id type kind known
    simp [typing] at known
  · intro id type known
    simp [typing] at known

/-- Where a program was resolved and checked, whatever was reported, the bases of the type of a
class, or of an instance of it, are found in as many steps as the class has bases, and they are
types of these bases, in the same order. Types that are added later, as following bases may do,
make no difference. -/
theorem hierarchies_agree {loader : Loader} (loaded : loader.Reached) {root : UnitId} {checked : Bool}
    {sink sink' : Sink} {trace trace' : Trace.Recorder} {resolved final : Analysis} {span : Nat}
    (resolves : Resolve.program loader.tree root checked { sink, trace } = .ok () resolved)
    (checks : TypeCheck.program loader.tree span { resolved with sink := sink', trace := trace' } =
      .ok () final)
    {id : DeclId} (isClass : loader.tree.kindOf? id = some .classDecl) {type : TypeId}
    (introduced : final.typing.nominal[id]? = some type) {table : TypeTable}
    (more : final.typing.types.Extends table) {seen : TypeId}
    (isType : seen = type ∨ ∃ info, table.classInfo? seen = some info ∧ info.generic = type) :
    ∃ types after,
      (TypeM.ancestors seen).run table = (types, after) ∧
      types.map after.classDecl = (final.names.ancestors id).map some ∧
      (∀ steps, (final.names.ancestors id).length ≤ steps →
        (TypeM.ancestorsWithin steps [seen] seen).run table = (types, after)) ∧
      Lineage final.names.bases id (final.names.ancestors id) := by
  have forest := loaded.forest
  have introduces := Resolve.introduces_program forest resolves
  have started : TypeCheck.Introduces loader.tree resolved.typing.types []
      { resolved with sink := sink', trace := trace' } :=
    ⟨introduces.rooted, introduces.hierarchy, introduces.nominal, introduces.written, introduces.since,
      introduces.fresh⟩
  have ready := (TypeCheck.checks_program loader.tree span).introduces forest started checks
  obtain ⟨info, isInfo, rfl, top⟩ := ready.nominal introduced isClass
  have hierarchy := ready.hierarchy.of_extends more
  have isSeen : table.classDecl seen = some info.decl := by
    rcases isType with rfl | ⟨other, isOther, rfl⟩
    · rw [TypeTable.classDecl, more.classInfo? isInfo, Option.map_some]
    · obtain ⟨origin, there, -, same⟩ := hierarchy.formed.origin isOther
      have known : other.generic ≠ 0 := by
        intro unknown
        rw [unknown, TypeTable.classInfo?_zero] at isInfo
        cases isInfo
      rw [if_neg known, more.classInfo? isInfo, Option.some.injEq] at there
      rw [TypeTable.classDecl, isOther, Option.map_some, ← same, there]
  obtain ⟨chain, lineage⟩ := ready.rooted.lineage info.decl
  obtain ⟨types, after, ran, same, within⟩ := TypeM.ancestors_spec lineage hierarchy isSeen
  rw [lineage.ancestors_eq]
  exact ⟨types, after, ran, same, within, lineage⟩

/-- A class with a parameter, a second one that inherits from the first with a list of its own
parameter as the argument, and a variable of an instance of the second. -/
def nestedLists : Loader :=
  let named (name : String) (args : List (Option Doc.TypeExpr)) : Option Doc.TypeExpr :=
    some { kind := "named", name, args }
  let inner : Option Doc.TypeExpr := some { kind := "list", base := named "T" [], dims := 1 }
  let document : Doc.Document :=
    { version := 1
      units := [some
        { path := "main"
          globals := [some { name := "a", type := named "A" [named "Int" []] }]
          classes :=
            [some { name := "B", typeParams := [some { name := "T" }] },
              some { name := "A", typeParams := [some { name := "T" }],
                     base := named "B" [inner] }] }] }
  Loader.behind (Loader.load document {})

/-- The program when it was resolved. -/
def nestedListsResolved : Analysis := Acts.behind (Resolve.program nestedLists.tree 1 true {})

/-- The program when it was checked. -/
def nestedListsChecked : Analysis :=
  Acts.behind (TypeCheck.program nestedLists.tree 0 nestedListsResolved)

theorem nestedLists_runs :
    Acts.ended (Resolve.program nestedLists.tree 1 true {}) ∧
      Acts.ended (TypeCheck.program nestedLists.tree 0 nestedListsResolved) ∧
      nestedLists.tree.kindOf? 4 = some .classDecl ∧
      nestedListsChecked.typing.nominal[4]? = some 8 ∧
      (nestedListsChecked.typing.types.classInfo? 14).map ClassInfo.generic = some 8 ∧
      nestedListsChecked.names.ancestors 4 = [2] := by
  simp only [nestedListsChecked, nestedListsResolved, nestedLists, Loader.load_eq_loadWithin]
  decide +kernel

theorem nestedLists_resolves :
    Resolve.program nestedLists.tree 1 true {} = .ok () nestedListsResolved :=
  Acts.eq_ok_behind nestedLists_runs.1

theorem nestedLists_checks :
    TypeCheck.program nestedLists.tree 0 nestedListsResolved = .ok () nestedListsChecked :=
  Acts.eq_ok_behind nestedLists_runs.2.1

/-- The types of an instance, whose base is not a type that any part of the program mentions. -/
theorem hierarchies_agree_nestedLists :
    nestedListsChecked.names.ancestors 4 = [2] ∧
      ∃ types after, (TypeM.ancestors 14).run nestedListsChecked.typing.types = (types, after) ∧
        types.map after.classDecl = [some 2] := by
  obtain ⟨-, -, isClass, introduced, isInstance, bases⟩ := nestedLists_runs
  obtain ⟨types, after, ran, same, -⟩ := hierarchies_agree (.load _ (.fresh {})) nestedLists_resolves
    nestedLists_checks isClass introduced (.refl _) (.inr (Option.map_eq_some_iff.mp isInstance))
  rw [bases] at same
  exact ⟨bases, types, after, ran, same⟩

end TreeCheck
