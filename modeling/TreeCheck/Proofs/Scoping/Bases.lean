/-
The bases of classes. A class is given a base while it is walked, once: the class that its
base type was found to refer to. What can be found then was walked before, or is known to
inherit from itself and has no base of its own. Following bases therefore leads back to
scopes that were opened earlier and earlier, and comes to an end.
-/

import TreeCheck.Proofs.Scoping.Order
import TreeCheck.Proofs.Scoping.Refinement
import TreeCheck.Proofs.Scoping.Staying

namespace TreeCheck

open Resolve

variable {tree : Tree} {loose : List Node}
variable {id found : DeclId} {type : TypeExprId} {body : ClassBody} {tops : List Node} {env : Env}
  {entries : List Entry} {state after : Analysis} {decl : Decl} {holds : Classes → Analysis → Prop}
  {unit : ProgramUnit}

/-! ### Where classes and their base types stand -/

namespace Tree

/-- The type that the base of a class is written as. -/
def baseType? (tree : Tree) (id : DeclId) : Option TypeExprId :=
  (tree.classBody? id).bind ClassBody.base

theorem mem_parts_of_baseType? (isBase : tree.baseType? id = some type) :
    .type type ∈ tree.parts (.decl .classDecl id) := by
  obtain ⟨body, isClass, base⟩ := Option.bind_eq_some_iff.mp isBase
  refine Tree.mem_parts_of_classBody? isClass ?_ .classDecl
  simp [ClassBody.parts, base]

theorem kindOf?_of_classBody? (isClass : tree.classBody? id = some body) :
    tree.kindOf? id = some .classDecl := by
  obtain ⟨decl, found, form⟩ := Option.bind_eq_some_iff.mp isClass
  unfold Decl.classBody? at form
  split at form
  · next isForm => simp [kindOf?, found, Decl.kind, isForm]
  · cases form

theorem kindOf?_of_baseType? (isBase : tree.baseType? id = some type) :
    tree.kindOf? id = some .classDecl := by
  obtain ⟨body, isClass, -⟩ := Option.bind_eq_some_iff.mp isBase
  exact kindOf?_of_classBody? isClass

/-- One of some nodes, or a node below one of them. -/
def Below (tree : Tree) (tops : List Node) (node : Node) : Prop :=
  ∃ top ∈ tops, tree.Reaches top node

theorem below_of_mem {node : Node} (member : node ∈ tops) : tree.Below tops node :=
  ⟨node, member, .refl⟩

theorem closed_below (tree : Tree) (tops : List Node) : tree.Closed (tree.Below tops) :=
  fun _ _ ⟨top, member, reached⟩ isPart => ⟨top, member, reached.tail isPart⟩

/-- Declarations and statements that are there. -/
def Tops (tree : Tree) (tops : List Node) : Prop :=
  ∀ top ∈ tops, tree.Holds top ∧ ((∃ kind id, top = .decl kind id) ∨ ∃ id, top = .stmt id)

theorem Forest.class_below (forest : tree.Forest loose) (isTops : tree.Tops tops)
    (below : tree.Below tops (.decl .classDecl id)) : .decl .classDecl id ∈ tops := by
  obtain ⟨top, member, reached⟩ := below
  obtain ⟨holds, isTop⟩ := isTops top member
  have noUnit (unit : UnitId) : top ≠ .unit unit := by
    rintro rfl
    rcases isTop with ⟨_, _, impossible⟩ | ⟨_, impossible⟩ <;> nomatch impossible
  exact forest.eq_of_reaches_class holds noUnit reached ▸ member

theorem Forest.base_below (forest : tree.Forest loose) (isTops : tree.Tops tops)
    (isBase : tree.baseType? id = some type) (below : tree.Below tops (.type type)) :
    .decl .classDecl id ∈ tops := by
  obtain ⟨top, member, reached⟩ := below
  obtain ⟨holds, isTop⟩ := isTops top member
  have holds' : tree.Holds (.decl .classDecl id) := kindOf?_of_baseType? isBase
  rcases forest.reaches_whole holds holds' (mem_parts_of_baseType? isBase) reached with rfl | reached
  · rcases isTop with ⟨_, _, impossible⟩ | ⟨_, impossible⟩ <;> nomatch impossible
  · exact forest.class_below isTops ⟨top, member, reached⟩

end Tree

/-! ### Bases -/

/-- What is known of a class and its base: how the base is written and what that refers to, and
that the base was walked before, or is known to inherit from itself. -/
structure Inherits (tree : Tree) (state : Analysis) (owner base : DeclId) : Prop where
  written : ∃ type written name args, tree.baseType? owner = some type ∧
    tree.types.get? type = some written ∧ written.form = .named name args ∧
    TypeKind.ofBuiltin? (tree.text name) = none ∧ state.names.typeRefs[type]? = some base
  acyclic : owner ∉ state.cyclic
  earlier : ∃ home, state.names.scopeOfDecl[owner]? = some home ∧ (base ∈ state.cyclic ∨
    ∃ before, state.names.scopeOfDecl[base]? = some before ∧ before < home)

/-- Every base that was recorded is a proper one. -/
def Based (tree : Tree) (state : Analysis) : Prop :=
  ∀ owner base : DeclId, state.names.bases[owner]? = some base → Inherits tree state owner base

namespace Based

variable {before after : Analysis}

/-- What happens below some nodes concerns the classes among them alone. -/
theorem evolves (based : Based tree before) (forest : tree.Forest loose) (isTops : tree.Tops tops)
    (leads : Annotates tree (tree.Below tops) before after) (valid : before.names.Valid tree)
    (more : before.cyclic ⊆ after.cyclic)
    (fresh : ∀ id ∈ after.cyclic, (before.names.scopeOfDecl[id]?).isSome → id ∈ before.cyclic)
    (unwalked : ∀ id, .decl .classDecl id ∈ tops → before.names.scopeOfDecl[id]? = none)
    (own : ∀ id base, .decl .classDecl id ∈ tops → after.names.bases[id]? = some base →
      Inherits tree after id base) : Based tree after := by
  -- A class that was walked before keeps its scope.
  have homes {id : DeclId} {home : ScopeId} (isClass : tree.kindOf? id = some .classDecl)
      (isHome : before.names.scopeOfDecl[id]? = some home) :
      after.names.scopeOfDecl[id]? = some home := by
    rcases leads.declScopes id with same | ⟨kind, below⟩
    · exact same.trans isHome
    · obtain ⟨top, member, reached⟩ := below
      have isKind : tree.kindOf? id = some kind :=
        forest.holds_reached (isTops top member).1 reached
      cases isKind.symm.trans isClass
      have absent := unwalked id (forest.class_below isTops ⟨top, member, reached⟩)
      rw [absent] at isHome
      nomatch isHome
  intro owner base isBase
  by_cases inside : .decl .classDecl owner ∈ tops
  · exact own owner base inside isBase
  · have isBase' : before.names.bases[owner]? = some base :=
      ((leads.bases owner).resolve_right fun below => inside (forest.class_below isTops below)) ▸
        isBase
    obtain ⟨⟨type, written, name, args, isType, found, form, other, refers⟩, acyclic, home, isHome,
      earlier⟩ := based owner base isBase'
    have isClass := tree.kindOf?_of_baseType? isType
    refine ⟨⟨type, written, name, args, isType, found, form, other, ?_⟩, fun cyclic => ?_, home,
      homes isClass isHome, earlier.imp (@more base) fun ⟨early, isEarly, less⟩ =>
        ⟨early, homes (valid.bases owner base isBase') isEarly, less⟩⟩
    · exact ((leads.typeRefs type).resolve_right fun below =>
        inside (forest.base_below isTops isType below)).trans refers
    · exact acyclic (fresh owner cyclic (by rw [isHome]; rfl))

/-- Where there are no classes, nothing happens to bases. -/
theorem apart (based : Based tree before) (forest : tree.Forest loose) (isTops : tree.Tops tops)
    (leads : Annotates tree (tree.Below tops) before after) (valid : before.names.Valid tree)
    (noClass : ∀ id, .decl .classDecl id ∉ tops) (cyclic : after.cyclic = before.cyclic) :
    Based tree after :=
  based.evolves forest isTops leads valid (cyclic ▸ List.Subset.refl _)
    (fun _ member _ => cyclic ▸ member) (fun id member => absurd member (noClass id))
    fun id _ member => absurd member (noClass id)

/-- Putting classes in order that were not walked concerns no base. -/
theorem ordered {classes placed : List DeclId} (based : Based tree before)
    (forest : tree.Forest loose) (valid : before.names.Valid tree)
    (orders : classOrder tree classes before = .ok placed after)
    (more : before.cyclic ⊆ after.cyclic) (fewer : after.cyclic ⊆ before.cyclic ++ classes)
    (unwalked : ∀ id ∈ classes, before.names.scopeOfDecl[id]? = none) : Based tree after := by
  have stays : Stays tree (tree.Below []) before Any (classOrder tree classes) :=
    stays_classOrder valid classes
  have none : tree.Tops [] := fun _ member => nomatch member
  refine based.evolves forest none (stays.of_ok orders).1.toAnnotates valid more
    (fun decl member isWalked => ?_)
    (fun _ member => nomatch member) fun _ _ member => nomatch member
  rcases List.mem_append.mp (fewer member) with old | new
  · exact old
  · rw [unwalked decl new] at isWalked
    nomatch isWalked

end Based

namespace Lexical

open AnalysisM

/-! ### Walking a class -/

theorem typeName?_eq_some (refers : typeName? tree env type = some found) : ∃ written name args,
      tree.types.get? type = some written ∧ written.form = .named name args ∧
      TypeKind.ofBuiltin? (tree.text name) = none ∧
      env.find? (.ofName (tree.text name)) = some found := by
  unfold typeName? at refers
  split at refers
  · next name args isForm =>
    obtain ⟨written, there, form⟩ := Option.map_eq_some_iff.mp isForm
    split at refers
    · nomatch refers
    · next other =>
      obtain ⟨means, -⟩ := Option.filter_eq_some_iff.mp refers
      exact ⟨written, name, args, there, form, Option.not_isSome_iff_eq_none.mp other, means⟩
  · nomatch refers

/-- A name that means a class in the scope of a class, in which only template parameters are
bound, means it outside of the class too. -/
theorem baseCandidate?_of_typeName? (forest : tree.Forest loose)
    (isBody : tree.classBody? id = some body) (isBase : body.base = some type)
    (refers : typeName? tree (templateParams tree body.typeParams ([] :: env)).1 type = some found)
    (isClass : tree.kindOf? found = some .classDecl) : baseCandidate? tree env id = some found := by
  have params : ∀ param ∈ body.typeParams, tree.kindOf? param = some .templateParam := by
    intro param member
    have isPart : .decl .templateParam param ∈ tree.parts (.decl .classDecl id) :=
      Tree.mem_parts_of_classBody? isBody (by simp [ClassBody.parts, member]) _
    exact forest.holds_part isPart
  have adds : Adds tree [] (templateParams tree body.typeParams) :=
    .each fun param member => adds_name fun isClass => by
      rw [params param member] at isClass
      cases isClass
  have outer := adds.outer ([] :: env)
  have head := adds.head ([] :: env)
  obtain ⟨written, name, args, there, form, -, means⟩ := typeName?_eq_some refers
  have candidate : baseCandidate? tree env id = env.find? (.ofName (tree.text name)) := by
    simp [baseCandidate?, isBody, isBase, there, form]
  rw [candidate]
  cases walked : (templateParams tree body.typeParams ([] :: env)).1 with
  | nil => rw [walked] at means; cases means
  | cons first rest =>
    rw [walked] at means outer head
    obtain rfl : rest = env := outer
    rw [Env.find?, List.findSome?_cons] at means
    split at means
    · next other held =>
      obtain rfl := Option.some.inj means
      obtain ⟨_, _, same, -⟩ := List.lookup_eq_some_iff.mp held
      have member : (Key.ofName (tree.text name), other) ∈ first := by simp [same]
      rcases head _ member with fresh | fits
      · cases fresh
      · cases fits isClass
    · exact means

/-- Resolving the base of a class records what its base type was found to refer to, if that is a
class and the class does not inherit from itself, and then takes over its fields; otherwise no
bases are recorded. -/
theorem resolveBase_cases (stands : Stands tree env entries state) (inside : Inside tree state)
    (ran : Resolve.resolveBase tree id decl type state = .ok () after) :
    (∃ base, typeName? tree env type = some base ∧ tree.kindOf? base = some .classDecl ∧
      id ∉ state.cyclic ∧ after.names.bases[id]? = some base ∧
      after.names.typeRefs[type]? = some base ∧
      ∃ noted, Untouched tree state noted ∧
        Resolve.inheritFields tree decl.span base noted = .ok () after) ∨
    after.names.bases[id]? = state.names.bases[id]? ∧ ∀ base, typeName? tree env type = some base →
      tree.kindOf? base = some .classDecl → id ∈ state.cyclic := by
  obtain ⟨middle, runs, untouched⟩ := (reads_type env type).runs entries state stands
  have notes : Notes tree Resolve.Anywhere state
      (fun found after => ∀ decl ∈ found, ∃ type', some type = some type' ∧
        after.names.typeRefs[type']? = some decl ∧ after.names.scopes.Binds decl)
      (Resolve.type tree (some type)) :=
    Resolve.notes_type (Resolve.closed_anywhere tree) inside fun _ _ => trivial
  unfold Notes at notes
  rw [runs] at notes
  obtain ⟨noted, refers⟩ := notes
  have unchanged : middle.names.bases = state.names.bases := by rw [noted.rest]
  have start : Resolve.resolveBase tree id decl type state = _ := bind_eq runs
  rw [start] at ran
  cases named : typeName? tree env type with
  | none =>
    rw [named] at ran
    cases ran
    exact .inr ⟨by rw [unchanged], nofun⟩
  | some found =>
    rw [named] at ran refers
    obtain ⟨_, same, refers, -⟩ := refers found rfl
    cases same
    have inside' := noted.inside inside
    dsimp only at ran
    split at ran
    · next other =>
      have stays : Stays tree (fun _ => False) middle Any
          (AnalysisM.error .baseNotClass decl.span [tree.nameOf found, tree.text decl.name]) :=
        .error inside'.valid ..
      have same := ((stays.of_ok ran).1.bases id).resolve_right not_false
      exact .inr ⟨by rw [same, unchanged], fun _ isBase isClass =>
        absurd (Option.some.inj isBase ▸ isClass) other⟩
    · next isClass =>
      have isClass := not_not.mp isClass
      rw [bind_eq (rfl : (get : AnalysisM Analysis) middle = .ok _ middle)] at ran
      split at ran
      · next cyclic =>
        cases ran
        exact .inr ⟨by rw [unchanged], fun _ _ _ => untouched.cyclic ▸ cyclic⟩
      · next acyclic =>
        let noted' : Analysis := { middle with
          names := { middle.names with bases := middle.names.bases.insert id found } }
        rw [bind_eq (rfl : modifyNames _ middle = .ok () noted')] at ran
        have valid : noted'.names.Valid tree := { inside'.valid with
          bases := fun owner base isBase => by
            have isBase : (middle.names.bases.insert id found)[owner]? = some base := isBase
            rw [Std.TreeMap.getElem?_insert] at isBase
            split at isBase
            · exact Option.some.inj isBase ▸ isClass
            · exact inside'.valid.bases owner base isBase }
        have stays : Stays tree (fun _ => False) noted' Any
            (Resolve.inheritFields tree decl.span found) :=
          Resolve.stays_inheritFields ⟨valid, inside'.isOpen⟩ ..
        have leads := (stays.of_ok ran).1
        refine .inl ⟨found, rfl, isClass, untouched.cyclic ▸ acyclic, ?_,
          ((leads.typeRefs type).resolve_right not_false).trans refers, noted', ?_, ran⟩
        · rw [(leads.bases id).resolve_right not_false]
          simp [noted']
        · exact { untouched with }

theorem inside_openedFor (inside : Inside tree state) (id : DeclId) (span : Span) :
    Inside tree (openedFor .classBody id span state) ∧
      (openedFor .classBody id span state).names.bases = state.names.bases := by
  have inner : ScopeKind.classBody ≠ .invalid ∧ ScopeKind.classBody ≠ .global := by decide
  obtain ⟨table, opens, valid, -, stack⟩ := inside.valid.openDecl inside.isOpen inner id span
  unfold openedFor
  rw [opens]
  refine ⟨⟨valid, ?_⟩, rfl⟩
  show table.stack ≠ []
  rw [stack]
  exact List.cons_ne_nil _ _

theorem tops_members (forest : tree.Forest loose) (isBody : tree.classBody? id = some body) :
    tree.Tops (Resolve.members body) := by
  intro top member
  have isPart := Tree.mem_parts_of_classBody? isBody (Resolve.mem_parts_of_members member)
    .classDecl
  refine ⟨forest.holds_part isPart, .inl ?_⟩
  rcases List.mem_append.mp member with field | method
  · obtain ⟨decl, -, rfl⟩ := List.mem_map.mp field
    exact ⟨_, _, rfl⟩
  · obtain ⟨decl, -, rfl⟩ := List.mem_map.mp method
    exact ⟨_, _, rfl⟩

theorem class_notMem_members (id : DeclId) (body : ClassBody) :
    .decl .classDecl id ∉ Resolve.members body := by
  simp [Resolve.members]

/-- The stages of walking a class: behind its template parameters, and behind its base. -/
structure ClassStages (tree : Tree) (place : Place) (id : DeclId) (decl : Decl) (body : ClassBody)
    (env : Env) (entries : List Entry) (state first second after : Analysis) : Prop where
  stands : Stands tree (templateParams tree body.typeParams ([] :: env)).1 entries first
  kept : Kept tree (openedFor .classBody id decl.span state) first
  inside : Inside tree first
  cyclic : first.cyclic = state.cyclic
  bases : first.names.bases[id]? = state.names.bases[id]?
  inherits : body.base.forM (Resolve.resolveBase tree id decl) first = .ok () second
  declares : (do
    body.fields.forM (Resolve.declareVariable tree place)
    body.methods.forM (Resolve.declareCallable tree)
    body.methods.forM (Resolve.callableBody tree place)) second = .ok () after
  later : after.names.bases[id]? = second.names.bases[id]? ∧
    ∀ type, tree.baseType? id = some type →
      after.names.typeRefs[type]? = second.names.typeRefs[type]?

theorem insideClass_stages (forest : tree.Forest loose) (place : Place)
    (isBody : tree.classBody? id = some body) (stands : Stands tree env entries state)
    (inside : Inside tree state)
    (ran : insideClass tree place id decl body (openedFor .classBody id decl.span state) =
      .ok () after)
    (known : Resolve.KnownPlace tree place) :
    ∃ first second, ClassStages tree place id decl body env entries state first second after := by
  obtain ⟨opening, -⟩ := opening_openedFor .classBody id decl.span stands
  obtain ⟨inside', unchanged⟩ := inside_openedFor inside id decl.span
  obtain ⟨_, first, binds, resolves⟩ := bind_eq_ok ran
  obtain ⟨_, second, inherits, declares⟩ := bind_eq_ok resolves
  -- The template parameters are bound.
  obtain ⟨first', binds', starts, kept⟩ := insideClass_params decl.span body.typeParams stands
  obtain ⟨-, rfl⟩ := EStateM.Result.ok.inj (binds'.symm.trans binds)
  have stays : Stays tree (fun node => ∃ param, node = .decl .templateParam param)
      (openedFor .classBody id decl.span state) Any (body.typeParams.forM (Resolve.bindName tree)) :=
    .forM inside'.valid fun param member other leads stack => by
      have isPart : .decl .templateParam param ∈ tree.parts (.decl .classDecl id) :=
        Tree.mem_parts_of_classBody? isBody (by simp [ClassBody.parts, member]) _
      exact Resolve.stays_bindName (inside'.leads leads stack)
        (forest.bindable_part isPart (by decide)) (.inr ⟨.templateParam, param, rfl⟩)
  obtain ⟨leads, stack, -⟩ := stays.of_ok binds
  have inside'' := inside'.leads leads stack
  have unchanged' : first'.names.bases[id]? = state.names.bases[id]? :=
    ((leads.bases id).resolve_right (by rintro ⟨_, ⟨⟩⟩)).trans (by rw [unchanged])
  -- The base is resolved.
  have stays' : Stays tree Resolve.Anywhere first' Any
      (body.base.forM (Resolve.resolveBase tree id decl)) :=
    .optionForM inside''.valid fun type _ =>
      Resolve.stays_resolveBase (Resolve.closed_anywhere tree) inside'' trivial decl trivial
  obtain ⟨leads', stack', -⟩ := stays'.of_ok inherits
  refine ⟨first', second, starts, kept, inside'', kept.cyclic.trans opening.cyclic, unchanged',
    inherits, declares, ?_⟩
  -- The members of the class leave its base alone.
  obtain ⟨leads, -, -⟩ := (Resolve.stays_members forest (tree.closed_below _)
    (inside''.leads leads' stack') known isBody fun node member => tree.below_of_mem member).of_ok
      declares
  have tops := tops_members forest isBody
  refine ⟨(leads.bases id).resolve_right fun below => ?_, fun type isType =>
    (leads.typeRefs type).resolve_right fun below => ?_⟩
  · exact class_notMem_members id body (forest.class_below tops below)
  · exact class_notMem_members id body (forest.base_below tops isType below)

namespace ClassStages

variable {place : Place} {id : DeclId} {decl : Decl} {body : ClassBody} {env : Env}
  {entries : List Entry} {state first second after : Analysis}

/-- A class is given what its base was found to refer to, if that is a class and the class does not
inherit from itself; otherwise its base is what it was. -/
theorem cases (stages : ClassStages tree place id decl body env entries state first second after)
    (isBody : tree.classBody? id = some body) :
    (∃ type base, body.base = some type ∧
      typeName? tree (templateParams tree body.typeParams ([] :: env)).1 type = some base ∧
      tree.kindOf? base = some .classDecl ∧ id ∉ state.cyclic ∧
      after.names.bases[id]? = some base ∧ after.names.typeRefs[type]? = some base ∧
      ∃ noted, Untouched tree first noted ∧
        inheritFields tree decl.span base noted = .ok () second) ∨
    after.names.bases[id]? = state.names.bases[id]? ∧ ∀ type base, body.base = some type →
      typeName? tree (templateParams tree body.typeParams ([] :: env)).1 type = some base →
      tree.kindOf? base = some .classDecl → id ∈ state.cyclic := by
  obtain ⟨same, sameRefs⟩ := stages.later
  have inherits := stages.inherits
  cases isType : body.base with
  | none =>
    rw [isType] at inherits
    cases inherits
    exact .inr ⟨same.trans stages.bases, nofun⟩
  | some type =>
    have isBaseType : tree.baseType? id = some type := by simp [Tree.baseType?, isBody, isType]
    rw [isType] at inherits
    rcases resolveBase_cases stages.stands stages.inside inherits with
      ⟨base, refers, isClass, acyclic, recorded, refs, takes⟩ | ⟨old, others⟩
    · exact .inl ⟨type, base, rfl, refers, isClass, stages.cyclic ▸ acyclic, same.trans recorded,
        (sameRefs type isBaseType).trans refs, takes⟩
    · refine .inr ⟨same.trans (old.trans stages.bases), fun _ base isType' refers isClass => ?_⟩
      cases isType'
      exact stages.cyclic ▸ others base refers isClass

end ClassStages

/-- The base that a class is given when it is walked is what its base type refers to, and was
found outside of the class. -/
theorem insideClass_bases (forest : tree.Forest loose) (place : Place)
    (isBody : tree.classBody? id = some body) (stands : Stands tree env entries state)
    (inside : Inside tree state)
    (ran : insideClass tree place id decl body (openedFor .classBody id decl.span state) =
      .ok () after)
    (known : Resolve.KnownPlace tree place) {base : DeclId}
    (isBase : after.names.bases[id]? = some base) :
    state.names.bases[id]? = some base ∨
      tree.kindOf? base = some .classDecl ∧ id ∉ state.cyclic ∧ ∃ type, body.base = some type ∧
        typeName? tree (templateParams tree body.typeParams ([] :: env)).1 type = some base ∧
        after.names.typeRefs[type]? = some base := by
  obtain ⟨first, second, stages⟩ := insideClass_stages forest place isBody stands inside ran known
  rcases stages.cases isBody with
    ⟨type, found, isType, refers, isClass, acyclic, recorded, refs, -⟩ | ⟨same, -⟩
  · cases recorded.symm.trans isBase
    exact .inr ⟨isClass, acyclic, type, isType, refers, refs⟩
  · exact .inl (same.symm.trans isBase)

/-- What the base of a class may be was walked before, or is known to inherit from itself. -/
def Ready (tree : Tree) (env : Env) (classes : Classes) (id : DeclId) : Prop :=
  ∀ base, baseCandidate? tree env id = some base → tree.kindOf? base = some .classDecl →
    base ∈ classes.cyclic ∨ (classes.frames.lookup base).isSome

/-- A class that is walked is given a proper base, if any, when what its base may be was walked
before or is known to inherit from itself. -/
theorem resolveClass_based (forest : tree.Forest loose) {classes : Classes} (place : Place)
    (isClass : tree.kindOf? id = some .classDecl) (unwalked : classes.frames.lookup id = none)
    (stands : Stands tree env entries state) (known : Known tree classes state)
    (inside : Inside tree state) (ready : Ready tree env classes id)
    (ran : Resolve.resolveClass tree place id state = .ok () after) (based : Based tree state) :
    Based tree after := by
  obtain ⟨decl, body, inner, found, isForm, isBody, runs, kept, rfl⟩ :=
    insideClass_of_ok forest isClass unwalked stands known ran
  have absent := known.unwalked id isClass unwalked
  obtain ⟨opening, scopeOfDecl⟩ := opening_openedFor .classBody id decl.span stands
  have homeOf (other : DeclId) (isClass : tree.kindOf? other = some .classDecl) :
      inner.names.scopeOfDecl[other]? = if id = other then some state.names.scopes.scopes.next
        else state.names.scopeOfDecl[other]? := by
    rw [kept.classScopes other isClass, scopeOfDecl, Std.TreeMap.getElem?_insert]
    simp
  have cyclic : inner.cyclic = state.cyclic := kept.cyclic.trans opening.cyclic
  have tops : tree.Tops [.decl .classDecl id] := by
    intro top member
    obtain rfl := List.mem_singleton.mp member
    exact ⟨isClass, .inl ⟨_, _, rfl⟩⟩
  have stays := Resolve.stays_resolveClass forest (tree.closed_below [.decl .classDecl id]) inside
    place (tree.below_of_mem (.head _))
  refine based.evolves forest tops (stays.of_ok ran).1.toAnnotates inside.valid ?_ ?_ ?_ ?_
  · show state.cyclic ⊆ inner.cyclic
    rw [cyclic]
    exact .refl _
  · intro other member _
    exact cyclic ▸ member
  · intro other member
    cases List.mem_singleton.mp member
    exact absent
  · intro other base member isBase
    obtain ⟨-, rfl⟩ := Node.decl.inj (List.mem_singleton.mp member)
    have knownPlace : Resolve.KnownPlace tree
        { place with enclosing := some other, callable := none } := by
      intro owner same
      obtain rfl := Option.mem_some.mp same
      rw [found]
      rfl
    rcases insideClass_bases forest _ isBody stands inside runs knownPlace isBase with
      old | ⟨isClass', acyclic, type, isType, refers, refs⟩
    · obtain ⟨home, isHome, -⟩ := (based other base old).earlier
      rw [absent] at isHome
      cases isHome
    · have isBaseType : tree.baseType? other = some type := by simp [Tree.baseType?, isBody, isType]
      have candidate := baseCandidate?_of_typeName? forest isBody isType refers isClass'
      obtain ⟨written, name, args, there, form, unlike, -⟩ := typeName?_eq_some refers
      refine ⟨⟨type, written, name, args, isBaseType, there, form, unlike, refs⟩,
        fun member => acyclic (cyclic ▸ member), state.names.scopes.scopes.next, ?_, ?_⟩
      · show inner.names.scopeOfDecl[other]? = _
        rw [homeOf other isClass, if_pos rfl]
      · refine (ready base candidate isClass').imp (fun member => ?_) fun walked => ?_
        · show base ∈ inner.cyclic
          rw [cyclic, known.cyclic]
          exact member
        · obtain ⟨frame, walked⟩ := Option.isSome_iff_exists.mp walked
          obtain ⟨home, scope, isHome, there, -⟩ := known.walked base frame isClass' walked
          have different : other ≠ base := by
            rintro rfl
            rw [absent] at isHome
            cases isHome
          refine ⟨home, ?_, ?_⟩
          · show inner.names.scopeOfDecl[base]? = _
            rw [homeOf base isClass', if_neg different, isHome]
          · have := ScopeTable.le_size there
            show home < state.names.scopes.scopes.size + 1
            lia

/-! ### The classes of a unit -/

/-- What walking a class keeps up, wherever it is walked. -/
def KeptByClasses (tree : Tree) (env : Env) (holds : Classes → Analysis → Prop) : Prop :=
  ∀ {classes : Classes} {id : DeclId} {entries : List Entry} {state after : Analysis},
    tree.kindOf? id = some .classDecl → classes.frames.lookup id = none →
    Stands tree env entries state → Known tree classes state → Inside tree state →
    Ready tree env classes id → resolveClass tree {} id state = .ok () after →
    holds classes state →
    holds (classes.add id ((classBody tree classes id ([] :: env)).1.headD [])) after

/-- What walking a class keeps up is kept up by walking classes in an order in which bases come
first. -/
theorem resolveClasses_keep (forest : tree.Forest loose) (kept : KeptByClasses tree env holds)
    {order : List DeclId} (areClasses : ∀ id ∈ order, tree.kindOf? id = some .classDecl)
    (nodup : order.Nodup) (world : World)
    (unwalked : ∀ id ∈ order, world.classes.frames.lookup id = none)
    (stands : Stands tree env world.entries state) (known : Known tree world.classes state)
    (inside : Inside tree state)
    (ready : ∀ earlier id later base, order = earlier ++ id :: later →
      baseCandidate? tree env id = some base → tree.kindOf? base = some .classDecl →
      base ∈ earlier ∨ base ∈ world.classes.cyclic ∨ (world.classes.frames.lookup base).isSome)
    (ran : order.forM (resolveClass tree {}) state = .ok () after)
    (held : holds world.classes state) :
    holds (order.foldl (World.walkClass tree env) world).classes after := by
  induction order generalizing world state with
  | nil =>
    cases ran
    exact held
  | cons id rest inductionHypothesis =>
    obtain ⟨apart, nodup'⟩ := List.nodup_cons.mp nodup
    have isClass := areClasses id (.head _)
    have unwalkedHere := unwalked id (.head _)
    obtain ⟨_, middle, resolves, goesOn⟩ := bind_eq_ok ran
    obtain ⟨middle', runs, stands', known', -⟩ :=
      resolveClass_spec forest {} isClass unwalkedHere stands known
    cases runs.symm.trans resolves
    have held' := kept isClass unwalkedHere stands known inside
      (fun base candidate isClass => (ready [] id rest base rfl candidate isClass).resolve_left
        List.not_mem_nil) resolves held
    obtain ⟨leads, stack, -⟩ := (stays_resolveClass forest (closed_anywhere tree)
      inside {} (anywhere _)).of_ok resolves
    have lookup (other : DeclId) : (world.walkClass tree env id).classes.frames.lookup other =
        if other = id then some ((classBody tree world.classes id ([] :: env)).1.headD [])
        else world.classes.frames.lookup other := by
      rw [World.walkClass, Classes.lookup_add]
    refine inductionHypothesis (fun other member => areClasses other (.tail _ member))
      nodup' (world.walkClass tree env id) (fun other member => ?_) stands' known'
      (inside.leads leads stack) (fun earlier other later base split candidate isClass => ?_)
      goesOn held'
    · have different : other ≠ id := fun same => apart (same ▸ member)
      rw [lookup, if_neg different]
      exact unwalked other (.tail _ member)
    · rw [lookup]
      rcases ready (id :: earlier) other later base (by rw [split]; rfl) candidate isClass with
        before | cyclic | walked
      · rcases List.mem_cons.mp before with rfl | before
        · exact .inr (.inr (by rw [if_pos rfl]; rfl))
        · exact .inl before
      · exact .inr (.inl cyclic)
      · refine .inr (.inr ?_)
        split
        · rfl
        · exact walked

/-- What walking a class keeps up is kept up by walking the classes of a unit, if putting them in
order keeps it up and none but they and walked classes are in view. -/
theorem unitClasses_keep (forest : tree.Forest loose) {id : UnitId}
    (found : tree.units.get? id = some unit) (kept : KeptByClasses tree env holds) (world : World)
    (unwalked : ∀ decl ∈ unit.classes, world.classes.frames.lookup decl = none)
    (stands : Stands tree env world.entries state) (known : Known tree world.classes state)
    (inside : Inside tree state)
    (inView : ∀ decl base, baseCandidate? tree env decl = some base →
      tree.kindOf? base = some .classDecl →
      base ∈ unit.classes ∨ (world.classes.frames.lookup base).isSome)
    (ordered : ∀ middle, Resolve.classOrder tree unit.classes state =
        .ok (classOrder tree env unit.classes world.classes.cyclic).placed middle →
      Noted tree state middle →
      middle.cyclic = (classOrder tree env unit.classes world.classes.cyclic).cyclic →
      holds { world.classes with cyclic := middle.cyclic } middle)
    (ran : Resolve.unitClasses tree unit state = .ok () after) :
    holds (world.walkClasses tree env unit).classes after := by
  obtain ⟨order, middle, orders, resolves⟩ := bind_eq_ok ran
  obtain ⟨middle', orders', cyclic, noted⟩ := classOrder_spec stands unit.classes
  obtain ⟨rfl, rfl⟩ := EStateM.Result.ok.inj (orders'.symm.trans orders)
  rw [known.cyclic] at orders cyclic resolves
  have nodup := forest.nodup_classes found
  have perm := classOrder_perm tree env nodup world.classes.cyclic
  have areClasses {decl : DeclId} (member : decl ∈ unit.classes) :
      tree.kindOf? decl = some .classDecl := by
    have isPart : .decl .classDecl decl ∈ unit.parts := by simp [ProgramUnit.parts, member]
    exact holds_unitPart forest found isPart
  have stays : Stays tree (tree.Below []) state Any (Resolve.classOrder tree unit.classes) :=
    Resolve.stays_classOrder inside.valid unit.classes
  obtain ⟨leads, stack, -⟩ := stays.of_ok orders
  have known' := noted.known known cyclic
  refine resolveClasses_keep forest kept (fun decl member => areClasses (perm.mem_iff.mp member))
    (perm.nodup_iff.mpr nodup)
    { world with classes := { world.classes with
      cyclic := (classOrder tree env unit.classes world.classes.cyclic).cyclic } }
    (fun decl member => unwalked decl (perm.mem_iff.mp member)) (noted.stands stands) known'
    (inside.leads leads stack) (fun earlier decl later base split candidate isClass => ?_)
    resolves (cyclic ▸ ordered middle' orders noted cyclic)
  rcases inView decl base candidate isClass with here | walked
  · exact (classOrder_basesFirst tree env unit.classes world.classes.cyclic earlier decl later base
      split candidate here).imp_right .inl
  · exact .inr (.inr walked)

/-- The classes of a unit are given proper bases, if none but they and walked classes are in
view. -/
theorem unitClasses_based (forest : tree.Forest loose) {id : UnitId}
    (found : tree.units.get? id = some unit) (world : World)
    (unwalked : ∀ decl ∈ unit.classes, world.classes.frames.lookup decl = none)
    (stands : Stands tree env world.entries state) (known : Known tree world.classes state)
    (inside : Inside tree state) (based : Based tree state)
    (inView : ∀ decl base, baseCandidate? tree env decl = some base →
      tree.kindOf? base = some .classDecl →
      base ∈ unit.classes ∨ (world.classes.frames.lookup base).isSome)
    (ran : Resolve.unitClasses tree unit state = .ok () after) : Based tree after := by
  have kept : KeptByClasses tree env fun _ state => Based tree state :=
    fun isClass unwalked stands known inside ready =>
      resolveClass_based forest {} isClass unwalked stands known inside ready
  obtain ⟨more, fewer⟩ := cyclic_classOrder tree env unit.classes world.classes.cyclic
  have ends := unitClasses_keep forest found kept world unwalked stands known inside inView
    (fun middle orders _ cyclic => by
      rw [← known.cyclic] at more fewer cyclic
      refine Based.ordered based forest inside.valid orders (cyclic ▸ more) (cyclic ▸ fewer)
        fun decl isClass => ?_
      have isPart : .decl .classDecl decl ∈ unit.parts := by simp [ProgramUnit.parts, isClass]
      exact known.unwalked decl (holds_unitPart forest found isPart) (unwalked decl isClass)) ran
  exact ends

end Lexical

end TreeCheck
