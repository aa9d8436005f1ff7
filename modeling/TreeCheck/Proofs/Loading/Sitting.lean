/-
How the declarations of a unit sit in it. A member is built before what it belongs to, and
adopted by it afterwards; template parameters come last. So members have smaller numbers
than their owner, template parameters larger ones, and all of them point back at it. What
was there before is not touched, since only new declarations are adopted.
-/

import TreeCheck.Proofs.Loading.Builders
import TreeCheck.Tree.Shape

namespace TreeCheck

open LoadM

variable {decl : Decl}

/-- Template parameters have larger numbers than what they belong to, other members smaller ones. -/
def Decl.Ordered (decl : Decl) (id : DeclId) : Prop :=
  ∀ kind part, .decl kind part ∈ decl.parts →
    if kind = .templateParam then id < part else part < id

theorem Decl.ordered_of_single (single : decl.form.parts = []) (id : DeclId) : decl.Ordered id := by
  intro kind part member
  simp [Decl.parts, single] at member

namespace Tree

/-- Every declaration that is there stays as it is. -/
def KeepsDecls (before after : Tree) : Prop :=
  ∀ id decl, before.decls.get? id = some decl → after.decls.get? id = some decl

/-- The declarations with a larger number than some mark are ordered. -/
def OrderedAbove (tree : Tree) (mark : Nat) : Prop :=
  ∀ id decl, mark < id → tree.decls.get? id = some decl → decl.Ordered id

end Tree

namespace Loader

/-- Declarations stay, and new ones are ordered. -/
structure Onward (before after : Loader) : Prop where
  keeps : before.tree.KeepsDecls after.tree
  decls : before.tree.decls.size ≤ after.tree.decls.size
  ordered : after.tree.OrderedAbove before.tree.decls.size

variable {before middle after : Loader}

/-- The declarations are the same. -/
theorem Onward.of_eq (same : after.tree.decls = before.tree.decls) : Onward before after := by
  refine ⟨fun id decl found => ?_, ?_, fun id decl new found => ?_⟩
  · rwa [same]
  · exact Nat.le_of_eq (congrArg Arena.size same.symm)
  · rw [same] at found
    exact absurd (Arena.get?_eq_some_le found).2 (Nat.not_le.mpr new)

theorem Onward.refl (loader : Loader) : Onward loader loader := .of_eq rfl

theorem Onward.trans (first : Onward before middle) (second : Onward middle after) :
    Onward before after where
  keeps id decl found := second.keeps id decl (first.keeps id decl found)
  decls := Nat.le_trans first.decls second.decls
  ordered id decl new found := by
    obtain newer | old := Nat.lt_or_ge middle.tree.decls.size id
    · exact second.ordered id decl newer found
    · have there : (middle.tree.decls.get? id).isSome :=
        (Arena.isSome_get?_iff _ _).mpr ⟨Nat.zero_lt_of_lt new, old⟩
      obtain ⟨item, isItem⟩ := Option.isSome_iff_exists.mp there
      obtain rfl := Option.some.inj ((second.keeps id item isItem).symm.trans found)
      exact first.ordered id item new isItem

/-- A declaration is added that has no members. -/
theorem Onward.of_single (single : decl.form.parts = [])
    (pushed : after.tree.decls = before.tree.decls.push decl) : Onward before after := by
  refine ⟨fun id item found => ?_, ?_, fun id item new found => ?_⟩
  · rw [pushed]
    exact Arena.get?_push_of_some decl found
  · rw [pushed, Arena.size_push]
    exact Nat.le_succ _
  · have last : id = before.tree.decls.next := by
      have bound := (Arena.get?_eq_some_le found).2
      rw [pushed, Arena.size_push] at bound
      exact Nat.le_antisymm bound new
    rw [pushed, last, Arena.get?_push_self] at found
    cases found
    exact Decl.ordered_of_single single id

end Loader

namespace LoadM

variable {gap : Prop} {α : Type} {found : List Finding} {held : List Node} {action : LoadM α}
  {gives : α → List Node}
  {loader after : Loader} {value : α}

/-- A plain action that builds no owners leaves all declarations as they are. -/
theorem Plain.onward (plain : Plain gap False found held action gives)
    (ran : action loader = .ok value after) : loader.Onward after := by
  induction plain generalizing loader after with
  | fail => nomatch ran
  | failThen => nomatch ran
  | crash => nomatch ran
  | telling _ _ _ _ firstOnward secondOnward =>
    obtain ⟨value, middle, ranFirst, ranSecond⟩ := ok_of_bind ran
    exact (firstOnward ranFirst).trans (secondOnward value ranSecond)
  | newDecl _ _ single =>
    cases ran
    exact .of_single (single.resolve_right id) rfl
  | modifyDecl _ owns => exact owns.elim
  | _ =>
    cases ran
    exact .of_eq rfl

theorem run_newDecl {id : DeclId} (ran : newDecl decl loader = .ok id after) :
    id = loader.tree.decls.next ∧ after.tree.decls = loader.tree.decls.push decl ∧
      after.tree.decls.get? id = some decl := by
  cases ran
  exact ⟨rfl, rfl, Arena.get?_push_self _ _⟩

end LoadM

/-! ### Declarations that were built -/

/-- What is known of a declaration lasts as long as declarations stay. -/
def Tree.Lasts (fits : Tree → DeclId → Prop) : Prop :=
  ∀ before after : Tree, before.KeepsDecls after → ∀ id, fits before id → fits after id

namespace Loader

/-- Declarations were built, and something is known of each. -/
structure Declares (fits : Tree → DeclId → Prop) (before after : Loader) (ids : List DeclId) :
    Prop where
  onward : Onward before after
  each : ∀ id ∈ ids, before.tree.decls.size < id ∧ fits after.tree id

namespace Declares

variable {fits : Tree → DeclId → Prop} {before middle after : Loader} {id : DeclId}
  {ids : List DeclId}

theorem nil (fits : Tree → DeclId → Prop) (loader : Loader) : Declares fits loader loader [] :=
  ⟨.refl loader, nofun⟩

theorem cons (lasts : Tree.Lasts fits) (first : Declares fits before middle [id])
    (rest : Declares fits middle after ids) : Declares fits before after (id :: ids) := by
  refine ⟨first.onward.trans rest.onward, fun other member => ?_⟩
  obtain rfl | member := List.mem_cons.mp member
  · exact (first.each other (.head _)).imp_right
      (lasts _ _ rest.onward.keeps other)
  · exact (rest.each other member).imp_left (Nat.lt_of_le_of_lt first.onward.decls)

/-- More was built afterwards. -/
theorem later (lasts : Tree.Lasts fits) (declares : Declares fits before middle ids)
    (onward : Onward middle after) : Declares fits before after ids :=
  ⟨declares.onward.trans onward,
    fun id member => (declares.each id member).imp_right (lasts _ _ onward.keeps id)⟩

/-- More was built before. -/
theorem earlier (declares : Declares fits middle after ids) (onward : Onward before middle) :
    Declares fits before after ids :=
  ⟨onward.trans declares.onward,
    fun id member => (declares.each id member).imp_left (Nat.lt_of_le_of_lt onward.decls)⟩

/-- A declaration without members. -/
theorem newDecl (single : decl.form.parts = [])
    (known : ∀ tree : Tree, tree.decls.get? id = some decl → fits tree id)
    (ran : LoadM.newDecl decl before = .ok id after) : Declares fits before after [id] := by
  obtain ⟨isId, pushed, found⟩ := run_newDecl ran
  refine ⟨.of_single single pushed, fun other member => ?_⟩
  obtain rfl := List.mem_singleton.mp member
  exact ⟨isId ▸ Nat.lt_succ_self _, known _ found⟩

end Declares

end Loader

end TreeCheck

namespace TreeCheck

open LoadM

variable {item : Doc.Function} {kind : VariableKind} {id owner : DeclId} {ids : List DeclId}
  {params : List (Option Doc.TypeParam)} {decl : Decl} {result : PUnit} {start : Loader}
  {method : Bool}

/-! ### Declarations in their places -/

namespace Tree

/-- A declaration is of a kind, lies in a file, and points back at its owner. -/
def Sits (tree : Tree) (file : FileId) (kind : DeclKind) (owner : Option DeclId) (id : DeclId) :
    Prop :=
  ∃ decl, tree.decls.get? id = some decl ∧ decl.kind = kind ∧ decl.owner = owner ∧
    decl.span.file = file

/-- A callable with its parameters, which are older, and its template parameters, which are not. -/
structure CallableSits (tree : Tree) (file : FileId) (kind : DeclKind) (owner : Option DeclId)
    (id : DeclId) : Prop where
  self : tree.Sits file kind owner id
  params : ∀ callable, tree.callable? id = some callable →
    ∀ param ∈ callable.params, tree.Sits file .param (some id) param ∧ param < id
  typeParams : ∀ callable, tree.callable? id = some callable →
    ∀ param ∈ callable.typeParams, tree.Sits file .templateParam (some id) param ∧ id < param

structure EnumSits (tree : Tree) (file : FileId) (id : DeclId) : Prop where
  self : tree.Sits file .enum none id
  consts : ∀ consts, (tree.decls.get? id).bind Decl.consts? = some consts →
    ∀ const ∈ consts, tree.Sits file .enumConst (some id) const ∧ const < id

structure ClassSits (tree : Tree) (file : FileId) (id : DeclId) : Prop where
  self : tree.Sits file .classDecl none id
  fields : ∀ body, tree.classBody? id = some body →
    ∀ field ∈ body.fields, tree.Sits file .field (some id) field ∧ field < id
  methods : ∀ body, tree.classBody? id = some body →
    ∀ method ∈ body.methods, tree.CallableSits file .method (some id) method ∧ method < id
  typeParams : ∀ body, tree.classBody? id = some body →
    ∀ param ∈ body.typeParams, tree.Sits file .templateParam (some id) param ∧ id < param

variable {before after : Tree} {file : FileId} {kind : DeclKind} {owner : Option DeclId}
  {id : DeclId}

theorem Sits.isSome (sits : before.Sits file kind owner id) : (before.decls.get? id).isSome := by
  obtain ⟨decl, found, _⟩ := sits
  rw [found]
  rfl

theorem Sits.keep (sits : before.Sits file kind owner id) (keeps : before.KeepsDecls after) :
    after.Sits file kind owner id := by
  obtain ⟨decl, found, rest⟩ := sits
  exact ⟨decl, keeps id decl found, rest⟩

theorem lasts_sits (file : FileId) (kind : DeclKind) (owner : Option DeclId) :
    Lasts (·.Sits file kind owner) :=
  fun _ _ keeps _ sits => sits.keep keeps

/-- What is read off a declaration that is there can still be read off it. -/
theorem Sits.bind_eq {α : Type} (sits : before.Sits file kind owner id)
    (keeps : before.KeepsDecls after) (view : Decl → Option α) :
    (after.decls.get? id).bind view = (before.decls.get? id).bind view := by
  obtain ⟨decl, found, _⟩ := sits
  rw [found, keeps id decl found]

theorem CallableSits.keep (sits : before.CallableSits file kind owner id)
    (keeps : before.KeepsDecls after) : after.CallableSits file kind owner id where
  self := sits.self.keep keeps
  params callable isCallable param member := by
    rw [callable?, sits.self.bind_eq keeps] at isCallable
    exact (sits.params callable isCallable param member).imp_left (·.keep keeps)
  typeParams callable isCallable param member := by
    rw [callable?, sits.self.bind_eq keeps] at isCallable
    exact (sits.typeParams callable isCallable param member).imp_left (·.keep keeps)

theorem lasts_callableSits (file : FileId) (kind : DeclKind) (owner : Option DeclId) :
    Lasts (·.CallableSits file kind owner) :=
  fun _ _ keeps _ sits => sits.keep keeps

theorem EnumSits.keep (sits : before.EnumSits file id) (keeps : before.KeepsDecls after) :
    after.EnumSits file id where
  self := sits.self.keep keeps
  consts consts isEnum const member := by
    rw [sits.self.bind_eq keeps] at isEnum
    exact (sits.consts consts isEnum const member).imp_left (·.keep keeps)

theorem ClassSits.keep (sits : before.ClassSits file id) (keeps : before.KeepsDecls after) :
    after.ClassSits file id where
  self := sits.self.keep keeps
  fields body isClass field member := by
    rw [classBody?, sits.self.bind_eq keeps] at isClass
    exact (sits.fields body isClass field member).imp_left (·.keep keeps)
  methods body isClass method member := by
    rw [classBody?, sits.self.bind_eq keeps] at isClass
    exact (sits.methods body isClass method member).imp_left (·.keep keeps)
  typeParams body isClass param member := by
    rw [classBody?, sits.self.bind_eq keeps] at isClass
    exact (sits.typeParams body isClass param member).imp_left (·.keep keeps)

end Tree

/-! ### Building -/

theorem BuildPlace.file_span (place : BuildPlace) (extent : Doc.Extent) :
    (place.span extent).file = place.file := by
  unfold span
  split <;> rfl

namespace Build

variable {place : BuildPlace} {loader after : Loader}

theorem onward_intern {text : String} {name : NameId}
    (ran : intern text loader = .ok name after) : loader.Onward after :=
  (Plain.intern text : Plain True False [] [] _ _).onward ran

theorem onward_optionalType {item : Option Doc.TypeExpr} {type : Option TypeExprId}
    (ran : optionalType place item loader = .ok type after) : loader.Onward after :=
  (plain_optionalType place item : Plain True False [] [] _ _).onward ran

theorem onward_modifiers {subject : String} {extent : Doc.Extent} {words : List String}
    {mods all : Modifiers} (ran : modifiers place subject extent mods words loader = .ok all after) :
    loader.Onward after :=
  (plain_modifiers place subject extent mods words : Plain True False [] [] _ _).onward ran

/-! ### Variables -/

theorem declares_variableDecl {item : Doc.Variable}
    (ran : variableDecl place kind item loader = .ok id after) :
    Loader.Declares (·.Sits place.file kind.declKind none) loader after [id] := by
  unfold variableDecl at ran
  dsimp only at ran
  split at ran
  · nomatch ran
  · obtain ⟨name, named, ranName, ran⟩ := ok_of_bind ran
    obtain ⟨type, typed, ranType, ran⟩ := ok_of_bind ran
    obtain ⟨init, valued, ranInit, ran⟩ := ok_of_bind ran
    obtain ⟨mods, before, ranMods, ran⟩ := ok_of_bind ran
    have toValued := (plain_optionalExpr place _ fun _ => trivial : Plain True False [] [] _ _).onward
      ranInit
    have onward := ((onward_intern ranName).trans (onward_optionalType ranType)).trans
      (toValued.trans (onward_modifiers ranMods))
    exact .earlier (.newDecl rfl (fun tree found => ⟨_, found, rfl, rfl, place.file_span _⟩) ran)
      onward

theorem declares_variableDecls {items : List (Option Doc.Variable)}
    (ran : variableDecls place kind items loader = .ok ids after) :
    Loader.Declares (·.Sits place.file kind.declKind none) loader after ids := by
  induction items generalizing loader ids with
  | nil =>
    cases ran
    exact .nil _ _
  | cons item items inductionHypothesis =>
    cases item with
    | none => nomatch ran
    | some item =>
      obtain ⟨id, middle, ranFirst, ran⟩ := ok_of_bind ran
      obtain ⟨ids, _, ranRest, ran⟩ := ok_of_bind ran
      cases ran
      exact .cons (Tree.lasts_sits _ _ _) (declares_variableDecl ranFirst)
        (inductionHypothesis ranRest)

/-! ### Adoption -/

/-- Adopting changes the owner of the children, and nothing else. -/
theorem get?_adopt (owner : DeclId) (children : List DeclId) (loader : Loader) (id : DeclId) :
    (Loader.behind (adopt owner children loader)).tree.decls.get? id =
      if id ∈ children then
        (loader.tree.decls.get? id).map fun decl => { decl with owner := some owner }
      else loader.tree.decls.get? id := by
  induction children generalizing loader with
  | nil => rfl
  | cons child children inductionHypothesis =>
    have step : adopt owner (child :: children) loader =
        adopt owner children (Loader.behind (modifyDecl child (fun decl =>
          { decl with owner := some owner }) loader)) := rfl
    have changed : (Loader.behind (modifyDecl child (fun decl =>
        { decl with owner := some owner }) loader)).tree.decls.get? id =
        if id = child then
          (loader.tree.decls.get? id).map fun decl => { decl with owner := some owner }
        else loader.tree.decls.get? id := Arena.get?_modify ..
    rw [step, inductionHypothesis, changed]
    by_cases isChild : id = child
    · subst isChild
      by_cases again : id ∈ children
      · simp [again, Function.comp_def]
      · simp [again]
    · simp [isChild]

theorem size_adopt (owner : DeclId) (children : List DeclId) (loader : Loader) :
    (Loader.behind (adopt owner children loader)).tree.decls.size = loader.tree.decls.size := by
  induction children generalizing loader with
  | nil => rfl
  | cons child children inductionHypothesis =>
    exact (inductionHypothesis _).trans (Arena.size_modify ..)

/-! ### Template parameters -/

theorem declares_typeParam {param : Doc.TypeParam}
    (ran : typeParam place param loader = .ok id after) :
    Loader.Declares (·.Sits place.file .templateParam none) loader after [id] := by
  rw [typeParam] at ran
  cases known : Constraint.ofText? param.constraint with
  | none =>
    rw [known] at ran
    nomatch ran
  | some constraint =>
    rw [known] at ran
    obtain ⟨name, before, ranName, ran⟩ := ok_of_bind ran
    exact .earlier (.newDecl rfl (fun tree found => ⟨_, found, rfl, rfl, place.file_span _⟩) ran)
      (onward_intern ranName)

theorem declares_typeParams (ran : typeParams place params loader = .ok ids after) :
    Loader.Declares (·.Sits place.file .templateParam none) loader after ids := by
  induction params generalizing loader ids with
  | nil =>
    cases ran
    exact .nil _ _
  | cons param params inductionHypothesis =>
    cases param with
    | none => nomatch ran
    | some param =>
      obtain ⟨id, middle, ranFirst, ran⟩ := ok_of_bind ran
      obtain ⟨ids, _, ranRest, ran⟩ := ok_of_bind ran
      cases ran
      exact .cons (Tree.lasts_sits _ _ _) (declares_typeParam ranFirst) (inductionHypothesis ranRest)

theorem withTypeParams_typeParams (decl : Decl) : decl.withTypeParams decl.typeParams = decl := by
  obtain ⟨form, name, type, init, mods, owner, span⟩ := decl
  cases form <;> rfl

theorem kind_withTypeParams (decl : Decl) (params : List DeclId) :
    (decl.withTypeParams params).kind = decl.kind := by
  obtain ⟨form, name, type, init, mods, owner, span⟩ := decl
  cases form <;> rfl

/-- A declaration that had no template parameters gets some. -/
theorem decl_mem_parts_withTypeParams (none : decl.typeParams = []) {params : List DeclId}
    {kind : DeclKind} {part : DeclId}
    (member : .decl kind part ∈ (decl.withTypeParams params).parts) :
    kind = .templateParam ∧ part ∈ params ∨
      kind ≠ .templateParam ∧ .decl kind part ∈ decl.parts := by
  obtain ⟨form, name, type, init, mods, owner, span⟩ := decl
  cases form <;> simp_all [Decl.withTypeParams, Decl.typeParams, Decl.parts, DeclForm.parts,
    Callable.parts, ClassBody.parts] <;> grind

/-- Template parameters are built, and attached to a declaration that had none. -/
theorem get?_attachTypeParams (isOwner : loader.tree.decls.get? owner = some decl)
    (none : decl.typeParams = [])
    (ran : attachTypeParams place owner params loader = .ok result after) :
    ∃ ids middle, typeParams place params loader = .ok ids middle ∧
      after.tree.decls.size = middle.tree.decls.size ∧
      ∀ id, after.tree.decls.get? id =
        if id ∈ ids then
          (middle.tree.decls.get? id).map fun decl => { decl with owner := some owner }
        else if id = owner then some (decl.withTypeParams ids)
        else middle.tree.decls.get? id := by
  unfold attachTypeParams at ran
  obtain ⟨ids, middle, ranIds, ran⟩ := ok_of_bind ran
  have declares := declares_typeParams ranIds
  have isOwner' := declares.onward.keeps owner decl isOwner
  refine ⟨ids, middle, ranIds, ?_⟩
  split at ran
  · next isEmpty =>
    obtain rfl := List.isEmpty_iff.mp isEmpty
    obtain ⟨_, rfl⟩ := EStateM.Result.ok.inj ran
    refine ⟨rfl, fun id => ?_⟩
    rw [if_neg List.not_mem_nil]
    split
    · next same =>
      rw [same, isOwner', ← none, withTypeParams_typeParams]
    · rfl
  · obtain ⟨_, changed, ranChange, ran⟩ := ok_of_bind ran
    obtain ⟨_, isChanged⟩ := EStateM.Result.ok.inj ranChange
    have isAfter : after = Loader.behind (adopt owner ids changed) :=
      (congrArg Loader.behind ran).symm
    have changes (id : DeclId) : changed.tree.decls.get? id =
        if id = owner then (middle.tree.decls.get? id).map (·.withTypeParams ids)
        else middle.tree.decls.get? id := by
      rw [← isChanged]
      exact Arena.get?_modify ..
    have notAmong : owner ∉ ids := fun member =>
      absurd (Arena.get?_eq_some_le isOwner).2 (Nat.not_le.mpr (declares.each owner member).1)
    refine ⟨?_, fun id => ?_⟩
    · rw [isAfter, size_adopt, ← isChanged]
      exact Arena.size_modify ..
    · rw [isAfter, get?_adopt, changes]
      by_cases same : id = owner
      · rw [if_pos same, if_pos same, same, if_neg notAmong, if_neg notAmong, isOwner',
          Option.map_some]
      · rw [if_neg same, if_neg same]

/-! ### Owners -/

/-- A declaration was built with its template parameters, and those members that were there before
now point back at it; the rest of what was there is as it was. -/
structure Owns (file : FileId) (before after : Tree) (decl : Decl) (members : List DeclId)
    (id : DeclId) : Prop where
  new : before.decls.size < id
  grown : before.decls.size ≤ after.decls.size
  self : ∃ params, after.decls.get? id = some (decl.withTypeParams params) ∧
    ∀ param ∈ params, after.Sits file .templateParam (some id) param ∧ id < param
  old : ∀ other item, before.decls.get? other = some item → after.decls.get? other =
    some (if other ∈ members then { item with owner := some id } else item)
  others : ∀ other item, before.decls.size < other → other ≠ id →
    after.decls.get? other = some item → item.Ordered other

theorem owns_of_attached {members : List DeclId} {declared : Loader}
    (isDecl : newDecl decl loader = .ok id declared) (none : decl.typeParams = [])
    (present : ∀ member ∈ members, (loader.tree.decls.get? member).isSome)
    (attached : attachTypeParams place id params (Loader.behind (adopt id members declared)) =
      .ok result after) : Owns place.file loader.tree after.tree decl members id := by
  obtain ⟨isId, pushed, _⟩ := run_newDecl isDecl
  have new : loader.tree.decls.size < id := isId ▸ Nat.lt_succ_self _
  have notMember : id ∉ members := fun member =>
    absurd ((Arena.isSome_get?_iff _ _).mp (present id member)).2 (Nat.not_le.mpr new)
  have adopted (other : DeclId) :
      (Loader.behind (adopt id members declared)).tree.decls.get? other =
        if other = id then some decl
        else if other ∈ members then
          (loader.tree.decls.get? other).map fun decl => { decl with owner := some id }
        else loader.tree.decls.get? other := by
    rw [get?_adopt, pushed]
    by_cases same : other = id
    · rw [if_pos same, same, if_neg notMember, isId, Arena.get?_push_self]
    · rw [if_neg same, Arena.get?_push_other _ _ (isId ▸ same)]
  have size : (Loader.behind (adopt id members declared)).tree.decls.size = id := by
    rw [size_adopt, pushed, Arena.size_push, isId]
    rfl
  have isOwner := (adopted id).trans (if_pos rfl)
  obtain ⟨ids, middle, ranIds, sizeAfter, each⟩ := get?_attachTypeParams isOwner none attached
  have declares := declares_typeParams ranIds
  have larger (param : DeclId) (member : param ∈ ids) : id < param :=
    size ▸ (declares.each param member).1
  refine ⟨new, ?_, ⟨ids, ?_, fun param member => ⟨?_, larger param member⟩⟩,
    fun other item there => ?_, fun other item newer differs found => ?_⟩
  · rw [sizeAfter]
    exact Nat.le_trans (Nat.le_of_lt new) (size ▸ declares.onward.decls)
  · rw [each, if_neg fun member => Nat.lt_irrefl id (larger id member), if_pos rfl]
  · obtain ⟨item, found, isKind, _, isFile⟩ := (declares.each param member).2
    exact ⟨{ item with owner := some id }, by rw [each, if_pos member, found]; rfl, isKind, rfl,
      isFile⟩
  · have older := Nat.lt_of_le_of_lt (Arena.get?_eq_some_le there).2 new
    rw [each, if_neg fun member => Nat.lt_asymm older (larger other member),
      if_neg (Nat.ne_of_lt older)]
    refine declares.onward.keeps other _ ?_
    rw [adopted, if_neg (Nat.ne_of_lt older), there]
    split <;> rfl
  · have afterId : id < other := by
      have least : id ≤ other := isId ▸ newer
      exact Nat.lt_of_le_of_ne least (Ne.symm differs)
    have ordered := declares.onward.ordered other
    rw [size] at ordered
    rw [each, if_neg differs] at found
    split at found
    · obtain ⟨param, isParam, rfl⟩ := Option.map_eq_some_iff.mp found
      exact ordered param afterId isParam
    · exact ordered item afterId found

namespace Owns

variable {file : FileId} {before after : Tree} {decl : Decl} {members : List DeclId}
  {id other : DeclId} {kind : DeclKind}

theorem member (owns : Owns file before after decl members id) (isMember : other ∈ members)
    (sits : before.Sits file kind none other) :
    after.Sits file kind (some id) other ∧ other < id := by
  obtain ⟨item, found, isKind, _, isFile⟩ := sits
  refine ⟨⟨{ item with owner := some id }, ?_, isKind, rfl, isFile⟩,
    Nat.lt_of_le_of_lt (Arena.get?_eq_some_le found).2 owns.new⟩
  rw [owns.old other item found, if_pos isMember]

/-- What belongs to another declaration was not adopted. -/
theorem owned (owns : Owns file before after decl members id)
    (free : ∀ member ∈ members, ∃ kind, before.Sits file kind none member)
    (sits : before.Sits file kind (some owner) other) :
    after.Sits file kind (some owner) other := by
  obtain ⟨item, found, isKind, isOwned, isFile⟩ := sits
  refine ⟨item, ?_, isKind, isOwned, isFile⟩
  rw [owns.old other item found, if_neg]
  intro isMember
  obtain ⟨_, item', found', _, isFree, _⟩ := free other isMember
  rw [found] at found'
  cases found'
  rw [isOwned] at isFree
  nomatch isFree

/-- An adopted callable keeps its parameters. -/
theorem callable (owns : Owns file before after decl members id)
    (free : ∀ member ∈ members, ∃ kind, before.Sits file kind none member)
    (isMember : other ∈ members) (sits : before.CallableSits file kind none other) :
    after.CallableSits file kind (some id) other ∧ other < id := by
  obtain ⟨self, older⟩ := owns.member isMember sits.self
  have same : after.callable? other = before.callable? other := by
    obtain ⟨item, found, _⟩ := sits.self
    rw [Tree.callable?, Tree.callable?, owns.old other item found, found, if_pos isMember]
    rfl
  refine ⟨⟨self, fun callable isCallable param isParam => ?_,
    fun callable isCallable param isParam => ?_⟩, older⟩
  · rw [same] at isCallable
    exact (sits.params callable isCallable param isParam).imp_left (owns.owned free)
  · rw [same] at isCallable
    exact (sits.typeParams callable isCallable param isParam).imp_left (owns.owned free)

/-- What was there before the members is left alone, and what was built since is ordered. -/
theorem onward {loader after : Loader} (owns : Owns file loader.tree after.tree decl members id)
    (none : decl.typeParams = []) {fits : Tree → DeclId → Prop}
    (declares : start.Declares fits loader members)
    (parts : ∀ kind part, .decl kind part ∈ decl.parts → part ∈ members)
    (present : ∀ member ∈ members, (loader.tree.decls.get? member).isSome) :
    start.Onward after where
  keeps other item found := by
    have old : other ∉ members := fun member =>
      absurd (Arena.get?_eq_some_le found).2 (Nat.not_le.mpr (declares.each other member).1)
    rw [owns.old other item (declares.onward.keeps other item found), if_neg old]
  decls := Nat.le_trans declares.onward.decls owns.grown
  ordered other item new found := by
    obtain newer | older := Nat.lt_or_ge loader.tree.decls.size other
    · by_cases same : other = id
      · subst same
        obtain ⟨params, self, larger⟩ := owns.self
        cases self.symm.trans found
        intro kind part member
        obtain ⟨rfl, isParam⟩ | ⟨other, isPart⟩ := decl_mem_parts_withTypeParams none member
        · exact (larger part isParam).2
        · have isMember := present part (parts kind part isPart)
          rw [if_neg other]
          exact Nat.lt_of_le_of_lt ((Arena.isSome_get?_iff _ _).mp isMember).2 owns.new
      · exact owns.others other item newer same found
    · have there : (loader.tree.decls.get? other).isSome :=
        (Arena.isSome_get?_iff _ _).mpr ⟨Nat.zero_lt_of_lt new, older⟩
      obtain ⟨former, isFormer⟩ := Option.isSome_iff_exists.mp there
      have ordered := declares.onward.ordered other former new isFormer
      cases (owns.old other former isFormer).symm.trans found
      split
      · exact ordered
      · exact ordered

end Owns

/-! ### Callables -/

/-- The head of a function, once its parameters and its body are built. -/
def header (place : BuildPlace) (method : Bool) (item : Doc.Function) (params : List DeclId)
    (body : Option StmtId) : LoadM DeclId := do
  let name ← intern item.name
  let type ← optionalType place item.result
  let mods ← modifiers place item.name item.span .none item.mods
  let callable : Callable := { params, body }
  let form := if method then .method callable else .function callable
  let id ← newDecl { form, name, type, mods, span := place.span item.span }
  adopt id params
  attachTypeParams place id item.typeParams
  return id

theorem declares_header {params : List DeclId} {body : Option StmtId}
    (declares : start.Declares (·.Sits place.file .param none) loader params)
    (ran : header place method item params body loader = .ok id after) :
    start.Declares (·.CallableSits place.file (if method then .method else .function) none)
      after [id] := by
  unfold header at ran
  obtain ⟨name, named, ranName, ran⟩ := ok_of_bind ran
  obtain ⟨type, typed, ranType, ran⟩ := ok_of_bind ran
  obtain ⟨mods, before, ranMods, ran⟩ := ok_of_bind ran
  obtain ⟨id, declared, ranDecl, ran⟩ := ok_of_bind ran
  obtain ⟨_, adopted, ranAdopt, ran⟩ := ok_of_bind ran
  obtain ⟨_, attached, ranAttach, ran⟩ := ok_of_bind ran
  obtain ⟨rfl, rfl⟩ := EStateM.Result.ok.inj ran
  clear ran
  have declares := declares.later (Tree.lasts_sits _ _ _)
    (((onward_intern ranName).trans (onward_optionalType ranType)).trans (onward_modifiers ranMods))
  have isAdopted : adopted = Loader.behind (adopt id params declared) := by rw [ranAdopt]; rfl
  rw [isAdopted] at ranAttach
  have present (param : DeclId) (member : param ∈ params) := (declares.each param member).2.isSome
  have owns := owns_of_attached ranDecl (by cases method <;> rfl) present ranAttach
  have onward := owns.onward (by cases method <;> rfl) declares (fun kind part member => by
    cases method <;> simp [Decl.parts, DeclForm.parts, Callable.parts] at member <;>
      exact member.1) present
  obtain ⟨ids, self, typeParams⟩ := owns.self
  have view : attached.tree.callable? id = some { params, typeParams := ids, body } := by
    rw [Tree.callable?, self]
    cases method <;> rfl
  refine ⟨onward, fun other member => ?_⟩
  obtain rfl := List.mem_singleton.mp member
  refine ⟨Nat.lt_of_le_of_lt declares.onward.decls owns.new, ⟨⟨_, self, ?_, ?_, ?_⟩,
    fun callable isCallable param member => ?_, fun callable isCallable param member => ?_⟩⟩
  · rw [kind_withTypeParams]
    cases method <;> rfl
  · cases method <;> rfl
  · cases method <;> exact place.file_span _
  · obtain rfl := Option.some.inj (view.symm.trans isCallable)
    exact owns.member member (declares.each param member).2
  · obtain rfl := Option.some.inj (view.symm.trans isCallable)
    exact typeParams param member

theorem declares_function (ran : function place method item loader = .ok id after) :
    Loader.Declares (·.CallableSits place.file (if method then .method else .function) none)
      loader after [id] := by
  unfold function at ran
  obtain ⟨params, middle, ranParams, ran⟩ := ok_of_bind ran
  have declares := declares_variableDecls ranParams
  dsimp only at ran
  split at ran
  · exact declares_header declares ran
  · obtain ⟨stmts, listed, ranStmts, ran⟩ := ok_of_bind ran
    obtain ⟨block, before, ranBlock, ran⟩ := ok_of_bind ran
    have toListed := (plain_stmtList place _ fun _ => trivial : Plain True False [] [] _ _).onward
      ranStmts
    have toBefore : Loader.Onward listed before := .of_eq (by cases ranBlock; rfl)
    exact declares_header (declares.later (Tree.lasts_sits _ _ _) (toListed.trans toBefore)) ran

theorem declares_functions {items : List (Option Doc.Function)}
    (ran : functions place method items loader = .ok ids after) :
    Loader.Declares (·.CallableSits place.file (if method then .method else .function) none)
      loader after ids := by
  induction items generalizing loader ids with
  | nil =>
    cases ran
    exact .nil _ _
  | cons item items inductionHypothesis =>
    cases item with
    | none => nomatch ran
    | some item =>
      obtain ⟨id, middle, ranFirst, ran⟩ := ok_of_bind ran
      obtain ⟨ids, _, ranRest, ran⟩ := ok_of_bind ran
      cases ran
      exact .cons (Tree.lasts_callableSits _ _ _) (declares_function ranFirst)
        (inductionHypothesis ranRest)

/-! ### Classes, enums and imports -/

theorem adopt_append (owner : DeclId) (first second : List DeclId) (loader : Loader) :
    Loader.behind (adopt owner second (Loader.behind (adopt owner first loader))) =
      Loader.behind (adopt owner (first ++ second) loader) := by
  induction first generalizing loader with
  | nil => rfl
  | cons child first inductionHypothesis => exact inductionHypothesis _

theorem declares_classDecl {item : Doc.Class} (ran : classDecl place item loader = .ok id after) :
    Loader.Declares (·.ClassSits place.file) loader after [id] := by
  unfold classDecl at ran
  obtain ⟨fields, fielded, ranFields, ran⟩ := ok_of_bind ran
  obtain ⟨methods, methoded, ranMethods, ran⟩ := ok_of_bind ran
  obtain ⟨name, named, ranName, ran⟩ := ok_of_bind ran
  obtain ⟨base, based, ranBase, ran⟩ := ok_of_bind ran
  obtain ⟨mods, before, ranMods, ran⟩ := ok_of_bind ran
  obtain ⟨id, declared, ranDecl, ran⟩ := ok_of_bind ran
  obtain ⟨_, adopted, ranAdopt, ran⟩ := ok_of_bind ran
  obtain ⟨_, adopted', ranAdopt', ran⟩ := ok_of_bind ran
  obtain ⟨_, attached, ranAttach, ran⟩ := ok_of_bind ran
  obtain ⟨rfl, rfl⟩ := EStateM.Result.ok.inj ran
  clear ran
  have stays := ((onward_intern ranName).trans (onward_optionalType ranBase)).trans
    (onward_modifiers ranMods)
  have declaresMethods := (declares_functions ranMethods).later (Tree.lasts_callableSits _ _ _) stays
  have declaresFields := (declares_variableDecls ranFields).later (Tree.lasts_sits _ _ _)
    declaresMethods.onward
  have declares : Loader.Declares (fun tree id => ∃ kind, tree.Sits place.file kind none id)
      loader before (fields ++ methods) := by
    refine ⟨declaresFields.onward, fun member isMember => ?_⟩
    obtain isField | isMethod := List.mem_append.mp isMember
    · exact (declaresFields.each member isField).imp_right fun sits => ⟨_, sits⟩
    · exact ((declaresMethods.earlier (declares_variableDecls ranFields).onward).each member
        isMethod).imp_right fun sits => ⟨_, sits.self⟩
  have isAdopted : adopted' = Loader.behind (adopt id (fields ++ methods) declared) := by
    rw [← adopt_append, ranAdopt]
    exact (congrArg Loader.behind ranAdopt').symm
  rw [isAdopted] at ranAttach
  have free (member : DeclId) (isMember : member ∈ fields ++ methods) :=
    (declares.each member isMember).2
  have present (member : DeclId) (isMember : member ∈ fields ++ methods) :=
    (free member isMember).elim fun _ sits => sits.isSome
  have owns := owns_of_attached ranDecl rfl present ranAttach
  have onward := owns.onward rfl declares (fun kind part member => by
    simp [Decl.parts, DeclForm.parts, ClassBody.parts] at member
    exact List.mem_append.mpr (member.imp And.left And.left)) present
  obtain ⟨ids, self, typeParams⟩ := owns.self
  have view : attached.tree.classBody? id = some { base, fields, methods, typeParams := ids } := by
    rw [Tree.classBody?, self]
    rfl
  refine ⟨onward, fun other member => ?_⟩
  obtain rfl := List.mem_singleton.mp member
  refine ⟨Nat.lt_of_le_of_lt declares.onward.decls owns.new,
    ⟨⟨_, self, rfl, rfl, place.file_span _⟩, fun body isClass field member => ?_,
    fun body isClass method member => ?_, fun body isClass param member => ?_⟩⟩
  all_goals obtain rfl := Option.some.inj (view.symm.trans isClass)
  · exact owns.member (List.mem_append_left _ member) (declaresFields.each field member).2
  · exact owns.callable free (List.mem_append_right _ member)
      (declaresMethods.each method member).2
  · exact typeParams param member

theorem declares_enumConsts {items : List (Option Doc.Constant)}
    (ran : enumConsts place items loader = .ok ids after) :
    Loader.Declares (·.Sits place.file .enumConst none) loader after ids := by
  induction items generalizing loader ids with
  | nil =>
    cases ran
    exact .nil _ _
  | cons item items inductionHypothesis =>
    cases item with
    | none => nomatch ran
    | some item =>
      obtain ⟨name, named, ranName, ran⟩ := ok_of_bind ran
      obtain ⟨id, declared, ranDecl, ran⟩ := ok_of_bind ran
      obtain ⟨ids, _, ranRest, ran⟩ := ok_of_bind ran
      cases ran
      have first : Loader.Declares (·.Sits place.file .enumConst none) named declared [id] :=
        .newDecl rfl (fun tree found => ⟨_, found, rfl, rfl, place.file_span _⟩) ranDecl
      exact .cons (Tree.lasts_sits _ _ _) (first.earlier (onward_intern ranName))
        (inductionHypothesis ranRest)

theorem declares_enumDecl {item : Doc.Enumeration}
    (ran : enumDecl place item loader = .ok id after) :
    Loader.Declares (·.EnumSits place.file) loader after [id] := by
  unfold enumDecl at ran
  obtain ⟨consts, listed, ranConsts, ran⟩ := ok_of_bind ran
  obtain ⟨name, named, ranName, ran⟩ := ok_of_bind ran
  obtain ⟨mods, before, ranMods, ran⟩ := ok_of_bind ran
  obtain ⟨id, declared, ranDecl, ran⟩ := ok_of_bind ran
  obtain ⟨_, adopted, ranAdopt, ran⟩ := ok_of_bind ran
  obtain ⟨rfl, rfl⟩ := EStateM.Result.ok.inj ran
  clear ran
  have declares := (declares_enumConsts ranConsts).later (Tree.lasts_sits _ _ _)
    ((onward_intern ranName).trans (onward_modifiers ranMods))
  have isAdopted : Loader.behind (adopt id consts declared) = adopted := by rw [ranAdopt]; rfl
  -- An enum has no template parameters, which is as good as an empty list of them.
  have attached : attachTypeParams place id [] (Loader.behind (adopt id consts declared)) =
      .ok ⟨⟩ adopted := by
    rw [isAdopted]
    rfl
  have present (const : DeclId) (member : const ∈ consts) := (declares.each const member).2.isSome
  have owns := owns_of_attached ranDecl rfl present attached
  have onward := owns.onward rfl declares (fun kind part member => by
    simp [Decl.parts, DeclForm.parts] at member
    exact member.1) present
  obtain ⟨ids, self, _⟩ := owns.self
  have view : (adopted.tree.decls.get? id).bind Decl.consts? = some consts := by
    rw [self]
    rfl
  refine ⟨onward, fun other member => ?_⟩
  obtain rfl := List.mem_singleton.mp member
  refine ⟨Nat.lt_of_le_of_lt declares.onward.decls owns.new,
    ⟨⟨_, self, rfl, rfl, place.file_span _⟩, fun consts isEnum const member => ?_⟩⟩
  cases view.symm.trans isEnum
  exact owns.member member (declares.each const member).2

end Build

end TreeCheck
