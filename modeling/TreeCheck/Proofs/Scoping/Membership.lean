/-
What a resolved program tells about the members of its classes, in terms of the tables that
later passes read. The scope of a class binds its template parameters, fields and methods; a
method has the key that its class binds it under; and where a class that has a base itself
is the base of another one, no method of that one takes the key of an inherited field.
-/

import TreeCheck.Proofs.Scoping.ClassOrder

namespace TreeCheck

variable {tree : Tree} {loose : List Node}

open Lexical (classesOf Binds Stage)

variable {names : Resolution} {owner : DeclId} {stage : Stage}

/-- A class of a unit that was resolved. -/
def Resolution.Processed (tree : Tree) (names : Resolution) (owner : DeclId) : Prop :=
  ∃ unit ∈ names.unitOrder, owner ∈ classesOf tree unit

/-- What is known of the members of classes. -/
structure Resolution.Members (tree : Tree) (names : Resolution) : Prop where
  processed : ∀ owner key decl, tree.kindOf? owner = some .classDecl →
    names.findIn? owner key = some decl → names.Processed tree owner
  binds : ∀ owner key decl, tree.kindOf? owner = some .classDecl →
    names.findIn? owner key = some decl → Binds tree owner decl
  keyed : ∀ method, tree.kindOf? method = some .method → ∀ key, names.keys[method]? = some key ↔
    ∃ owner, method ∈ tree.methodsOf owner ∧ names.findIn? owner key = some method
  derived : ∀ owner base : DeclId, names.bases[owner]? = some base → names.Processed tree owner
  takes : ∀ owner base : DeclId, names.bases[owner]? = some base → (names.bases[base]?).isSome →
    ∀ key field, names.findIn? base key = some field → tree.kindOf? field = some .field →
      ∃ decl, names.findIn? owner key = some decl ∧ tree.kindOf? decl ≠ some .method
  overloads : ∀ owner name decl,
    decl ∈ names.scopes.localOverloads (names.scopeOf owner) name ↔
      ∃ key, key.isSignature ∧ key.name = name ∧ names.findIn? owner key = some decl

theorem Resolution.Processed.kindOf? (forest : tree.Forest loose)
    (processed : names.Processed tree owner) : tree.kindOf? owner = some .classDecl := by
  obtain ⟨unit, -, isClass⟩ := processed
  unfold classesOf at isClass
  cases isUnit : tree.units.get? unit with
  | none => simp [isUnit] at isClass
  | some body =>
    refine forest.holds_part (show .decl .classDecl owner ∈ tree.parts (.unit unit) from ?_)
    rw [isUnit] at isClass
    have isClass : owner ∈ body.classes := isClass
    simp [Tree.parts, isUnit, ProgramUnit.parts, isClass]

theorem Tree.Forest.kindOf?_typeParam (forest : tree.Forest loose) {id param : DeclId}
    (isClass : tree.kindOf? id = some .classDecl) (member : param ∈ tree.typeParamsOf id) :
    tree.kindOf? param = some .templateParam := by
  obtain ⟨decl, found, isKind⟩ := Option.map_eq_some_iff.mp isClass
  obtain ⟨body, isForm⟩ := decl.form_of_classDecl isKind
  have isBody := Tree.classBody?_eq_some.mpr ⟨decl, found, isForm⟩
  exact Lexical.kindOf?_param forest isBody (Tree.typeParamsOf_eq isBody ▸ member)

namespace Resolution.Members

variable {names : Resolution} {owner method : DeclId} {key : Key}

/-- A method that a class binds is one that it declares. -/
theorem mem_methodsOf (members : names.Members tree) (forest : tree.Forest loose)
    (isClass : tree.kindOf? owner = some .classDecl) (isMethod : tree.kindOf? method = some .method)
    (held : names.findIn? owner key = some method) : method ∈ tree.methodsOf owner := by
  rcases members.binds owner key method isClass held with isParam | isField | isMember
  · rw [forest.kindOf?_typeParam isClass isParam] at isMethod
    nomatch isMethod
  · rw [isField] at isMethod
    nomatch isMethod
  · exact isMember

/-- A method that has a key is bound under it in the class that declares it. -/
theorem findIn?_eq_some (members : names.Members tree) (forest : tree.Forest loose)
    (member : method ∈ tree.methodsOf owner) :
    names.keys[method]? = some key ↔ names.findIn? owner key = some method := by
  rw [members.keyed method (forest.kindOf?_method member) key]
  constructor
  · rintro ⟨owner', member', held⟩
    rwa [forest.owner_unique member' member]
  · exact fun held => ⟨owner, member, held⟩

end Resolution.Members

namespace Lexical

/-! ### Look-up in a class -/

theorem Known.findIn?_eq {classes : Classes} {state : Analysis} (known : Known tree classes state)
    (isClass : tree.kindOf? owner = some .classDecl) (key : Key) :
    state.names.findIn? owner key = (classes.frames.lookup owner).bind (·.lookup key) := by
  cases walked : classes.frames.lookup owner with
  | none =>
    have nowhere : state.names.scopes.get? 0 = none := by
      by_contra some
      obtain ⟨scope, there⟩ := Option.ne_none_iff_exists'.mp some
      exact absurd (Arena.get?_eq_some_le there).1 (Nat.not_lt_zero 0)
    rw [Resolution.findIn?, scopeOf_eq_zero (known.unwalked owner isClass walked), nowhere]
    rfl
  | some frame =>
    obtain ⟨home, scope, isHome, there, -, entries⟩ := known.walked owner frame isClass walked
    rw [Resolution.findIn?, scopeOf_eq isHome, there, Option.bind_some, Scope.find?, entries]
    rfl

/-- The signatures of a name that a class binds. -/
theorem mem_localOverloads (sound : names.scopes.Sound) {name : String} {decl : DeclId} :
    decl ∈ names.scopes.localOverloads (names.scopeOf owner) name ↔
      ∃ key, key.isSignature ∧ key.name = name ∧ names.findIn? owner key = some decl := by
  unfold ScopeTable.localOverloads Resolution.findIn?
  cases there : names.scopes.get? (names.scopeOf owner) with
  | none => simp
  | some scope =>
    have valid := sound.scopes _ _ there
    simp only [Scope.overloadDecls, List.mem_map, valid.indexed, Option.bind_some]
    constructor
    · rintro ⟨key, ⟨bound, isSignature, isName⟩, rfl⟩
      rw [valid.keys] at bound
      obtain ⟨decl, held⟩ := Option.isSome_iff_exists.mp (isSome_lookup_iff_mem.mpr bound)
      have held : scope.find? key = some decl := held
      exact ⟨key, isSignature, isName, by rw [held, Option.getD_some]⟩
    · rintro ⟨key, isSignature, isName, held⟩
      refine ⟨key, ⟨?_, isSignature, isName⟩, by rw [held, Option.getD_some]⟩
      rw [valid.keys, ← isSome_lookup_iff_mem, show scope.entries.lookup key = some decl from held]
      rfl

/-! ### Programs -/

theorem Stage.Listed.processed (listed : stage.Listed tree) (sound : stage.Sound tree)
    (walked : owner ∈ stage.world.classes.frames.map Prod.fst) :
    stage.state.names.Processed tree owner := by
  have ordered : owner ∈ stage.state.names.order := by
    rw [listed.walked]
    exact List.mem_reverse.mpr walked
  obtain ⟨unit, done, isClass⟩ := List.mem_flatMap.mp (listed.classes.mem_iff.mp ordered)
  exact ⟨unit, sound.mirrors.unitOrder ▸ done, isClass⟩

/-- No class was walked twice, so every frame is the one that is looked up. -/
theorem Stage.Listed.lookup (listed : stage.Listed tree) {frame : Frame}
    (member : (owner, frame) ∈ stage.world.classes.frames) :
    stage.world.classes.frames.lookup owner = some frame := by
  have once := listed.once
  rw [listed.walked, List.nodup_reverse] at once
  obtain ⟨front, back, split⟩ := List.append_of_mem member
  rw [split, List.map_append, List.map_cons] at once
  have absent : owner ∉ front.map Prod.fst :=
    fun again => (List.nodup_append.mp once).2.2 owner again owner (.head _) rfl
  rw [split, List.lookup_append, lookup_eq_none_iff_notMem.mpr absent]
  simp

theorem Stage.Listed.members (listed : stage.Listed tree) (sound : stage.Sound tree) :
    stage.state.names.Members tree := by
  obtain ⟨pending, world, state⟩ := stage
  have known : Known tree world.classes state := sound.mirrors.known
  have account : Account tree world.classes state.names := listed.account
  have lookup {owner : DeclId} {frame : Frame} (member : (owner, frame) ∈ world.classes.frames) :
      world.classes.frames.lookup owner = some frame := listed.lookup member
  have isWalked {owner : DeclId} {key : Key} {decl : DeclId}
      (isClass : tree.kindOf? owner = some .classDecl)
      (held : state.names.findIn? owner key = some decl) :
      ∃ frame, world.classes.frames.lookup owner = some frame ∧ frame.lookup key = some decl := by
    rw [known.findIn?_eq isClass] at held
    exact Option.bind_eq_some_iff.mp held
  constructor
  case processed =>
    intro owner key decl isClass held
    obtain ⟨frame, walked, -⟩ := isWalked isClass held
    exact listed.processed sound (isSome_lookup_iff_mem.mp (Option.isSome_of_mem walked))
  case binds =>
    intro owner key decl isClass held
    obtain ⟨frame, walked, held⟩ := isWalked isClass held
    exact account.binds owner frame walked key decl held
  case keyed =>
    intro method isMethod key
    rw [account.keyed method isMethod key]
    constructor
    · rintro ⟨owner, frame, walked, member, held⟩
      refine ⟨owner, member, ?_⟩
      rw [known.findIn?_eq (Tree.mem_parts_of_methodsOf member).1, walked]
      exact held
    · rintro ⟨owner, member, held⟩
      obtain ⟨frame, walked, held⟩ := isWalked (Tree.mem_parts_of_methodsOf member).1 held
      exact ⟨owner, frame, walked, member, held⟩
  case derived =>
    intro owner base isBase
    obtain ⟨later, frame, earlier, split, -⟩ := account.based owner base isBase
    refine listed.processed sound ?_
    show owner ∈ world.classes.frames.map Prod.fst
    rw [split]
    simp
  case takes =>
    intro owner base isBase further key field held isField
    obtain ⟨next, isNext⟩ := Option.isSome_iff_exists.mp further
    obtain ⟨later, frame, earlier, split, cyclic | ⟨inherited, walked, takes⟩⟩ :=
      account.based owner base isBase
    · exact absurd (known.cyclic ▸ cyclic) (listed.based base next isNext).acyclic
    · have isClass : tree.kindOf? base = some .classDecl := sound.names.bases owner base isBase
      have isOwner : tree.kindOf? owner = some .classDecl := by
        obtain ⟨type, -, -, -, isType, -⟩ := (listed.based owner base isBase).written
        obtain ⟨body, isBody, -⟩ := Option.bind_eq_some_iff.mp isType
        exact Tree.kindOf?_of_classBody? isBody
      obtain ⟨front, back, same, -⟩ := List.lookup_eq_some_iff.mp walked
      have ofOwner : (owner, frame) ∈ world.classes.frames := by simp [split]
      have ofBase : (base, inherited) ∈ world.classes.frames := by simp [split, same]
      rw [known.findIn?_eq isClass, lookup ofBase] at held
      rw [known.findIn?_eq isOwner, lookup ofOwner]
      exact takes key field held isField
  case overloads => exact fun _ _ _ => mem_localOverloads sound.mirrors.sound

end Lexical

/-- Whatever the sink was, the members of a resolved program are as they should be. -/
theorem Resolve.members_program (forest : tree.Forest loose) {root : UnitId} {checked : Bool}
    {typing : Typing} {trace : Trace.Recorder} {sink : Sink} {after : Analysis}
    (ran : Resolve.program tree root checked { typing, trace, sink } = .ok () after) :
    after.names.Members tree := by
  have empty := Lexical.listed_empty tree typing trace
  by_cases present : (tree.units.get? root).isSome
  · obtain ⟨_, sound, listed, -, uniform⟩ :=
      Lexical.program_keeps forest present checked empty (Lexical.Step.listed forest)
    rw [(uniform sink after ran).1]
    exact listed.members sound
  · obtain ⟨_, -, ends, uniform⟩ := Lexical.program_ends forest root checked typing trace
    obtain ⟨final, ran'⟩ := ends {} Sink.quiet_open
    obtain rfl := Lexical.program_absent (Option.not_isSome_iff_eq_none.mp present) ran'
    rw [(uniform sink after ran).1, ← (uniform {} _ ran').1]
    exact empty.members (Lexical.sound_empty tree typing trace)

end TreeCheck
