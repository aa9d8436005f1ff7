/-
Bases of classes in the table of types. Where the base that the table knows of a class is a
type of the class that the declaration inherits from, the types met on the way from base to
base belong to the declarations met on theirs. That is so although the way through the types
of an instance creates types as it goes: the arguments change from base to base, and with
them the types, but not the declarations behind them.
-/

import TreeCheck.Proofs.Scoping.Inheritance
import TreeCheck.Proofs.Types.Growth

namespace TreeCheck

variable {bases : Std.TreeMap DeclId DeclId} {pending : List Nat} {table after : TypeTable}
variable {info : ClassInfo} {id : TypeId} {slot : Nat} {base decl : DeclId} {chain : List DeclId}

namespace TypeTable

/-- A class has a type of the class its declaration inherits from as its base, and no base where
it inherits from none. -/
def HasBase (table : TypeTable) (bases : Std.TreeMap DeclId DeclId) (info : ClassInfo) : Prop :=
  match bases[info.decl]? with
  | none => info.base = 0
  | some base => table.classDecl info.base = some base

theorem HasBase.grows (hasBase : table.HasBase bases info) (more : table.Grows after) :
    after.HasBase bases info := by
  unfold HasBase at hasBase ⊢
  split at hasBase
  · exact hasBase
  · exact more.classDecl hasBase

/-- Classes have their bases, except for some that have none yet. -/
structure Hierarchy (bases : Std.TreeMap DeclId DeclId) (pending : List Nat) (table : TypeTable) :
    Prop where
  formed : table.Formed
  classes : ∀ {slot info}, table.classes.get? slot = some info → info.generic = 0 →
    slot ∈ pending ∧ info.base = 0 ∨ table.HasBase bases info

namespace Hierarchy

theorem empty (bases : Std.TreeMap DeclId DeclId) : Hierarchy bases [] {} where
  formed := ⟨rfl, fun {slot _} found => by cases slot <;> simp [Arena.get?] at found⟩
  classes {slot _} found := by cases slot <;> simp [Arena.get?] at found

/-- Whatever adds no classes but instances leaves the hierarchy alone. -/
theorem of_extends (hierarchy : table.Hierarchy bases pending) (more : table.Extends after) :
    after.Hierarchy bases pending where
  formed := more.formed hierarchy.formed
  classes found top := by
    rcases more.added hierarchy.formed found with old | new
    · exact (hierarchy.classes old top).imp_right fun hasBase => hasBase.grows more.grows
    · exact absurd top new.known

/-! ### Classes that are filled in -/

/-- A class that was just registered waits for its base. -/
theorem registerClass (hierarchy : table.Hierarchy bases pending) (name : String) (decl : DeclId) :
    (table.registerClass name decl).2.Hierarchy bases (table.classes.next :: pending) := by
  have more := table.grows_registerClass name decl
  have known {slot : Nat} {info : ClassInfo}
      (found : (table.classes.push { name, decl }).get? slot = some info) :
      slot = table.classes.next ∧ info = { name, decl } ∨ table.classes.get? slot = some info := by
    by_cases fresh : slot = table.classes.next
    · rw [fresh, Arena.get?_push_self, Option.some.injEq] at found
      exact .inl ⟨fresh, found.symm⟩
    · exact .inr ((Arena.get?_push_other _ _ fresh).symm.trans found)
  refine ⟨⟨more.form hierarchy.formed.unknown, fun found generic => ?_⟩, fun found top => ?_⟩
  · rcases known found with ⟨-, rfl⟩ | old
    · exact absurd rfl generic
    · obtain ⟨generic, ⟨origin, there, top, decl⟩, args, base⟩ :=
        hierarchy.formed.instances old generic
      obtain ⟨later, there', decl', top'⟩ := more.classInfo? there
      exact ⟨generic, ⟨later, there', top'.trans top, decl'.trans decl⟩, args, base⟩
  · rcases known found with ⟨rfl, rfl⟩ | old
    · exact .inl ⟨.head _, rfl⟩
    · exact (hierarchy.classes old top).imp (fun waits => ⟨.tail _ waits.1, waits.2⟩)
        fun hasBase => hasBase.grows more

/-- A class that is no instance is filled in. -/
theorem modifyClass (hierarchy : table.Hierarchy bases pending) (change : ClassInfo → ClassInfo)
    (isForm : table.form? id = some (.classType slot)) (found : table.classes.get? slot = some info)
    (top : info.generic = 0)
    (keeps : ∀ info, (change info).name = info.name ∧ (change info).decl = info.decl ∧
      (change info).generic = info.generic ∧ (change info).args = info.args) {waiting : List Nat}
    (wait : ∀ other ∈ pending, other ≠ slot → other ∈ waiting)
    (settles : slot ∈ waiting ∧ (change info).base = 0 ∨
      (table.modifyClass id change).HasBase bases (change info)) :
    (table.modifyClass id change).Hierarchy bases waiting := by
  have more := table.grows_modifyClass id change keeps
  have known {other : Nat} {info' : ClassInfo}
      (found' : (table.modifyClass id change).classes.get? other = some info') :
      other = slot ∧ info' = change info ∨ other ≠ slot ∧ table.classes.get? other = some info' := by
    rw [TypeTable.modifyClass, isForm] at found'
    simp only [Arena.get?_modify] at found'
    split at found'
    · next same =>
      rw [same, found, Option.map_some, Option.some.injEq] at found'
      exact .inl ⟨same, found'.symm⟩
    · next other => exact .inr ⟨other, found'⟩
  refine ⟨⟨more.form hierarchy.formed.unknown, fun found' generic => ?_⟩, fun found' top' => ?_⟩
  · rcases known found' with ⟨-, rfl⟩ | ⟨-, old⟩
    · exact absurd ((keeps info).2.2.1.trans top) generic
    · obtain ⟨generic, ⟨origin, there, top, decl⟩, args, base⟩ :=
        hierarchy.formed.instances old generic
      obtain ⟨later, there', decl', top'⟩ := more.classInfo? there
      exact ⟨generic, ⟨later, there', top'.trans top, decl'.trans decl⟩, args, base⟩
  · rcases known found' with ⟨rfl, rfl⟩ | ⟨apart, old⟩
    · exact settles
    · exact (hierarchy.classes old top').imp (fun waits => ⟨wait _ waits.1 apart, waits.2⟩)
        fun hasBase => hasBase.grows more

theorem setParams (hierarchy : table.Hierarchy bases pending)
    (found : table.classInfo? id = some info) (top : info.generic = 0) (params : List TypeId) :
    (table.setParams id params).Hierarchy bases pending := by
  obtain ⟨slot, isForm, there⟩ := classInfo?_eq_some found
  refine hierarchy.modifyClass (fun info => { info with params }) isForm there top
    (fun _ => ⟨rfl, rfl, rfl, rfl⟩) (fun _ waits _ => waits) ?_
  exact (hierarchy.classes there top).imp_right fun hasBase =>
    hasBase.grows (table.grows_setParams id params)

/-- A class gets its base and waits no longer. -/
theorem setBase (hierarchy : table.Hierarchy bases (slot :: pending)) {type : TypeId}
    (isForm : table.form? id = some (.classType slot)) (found : table.classInfo? id = some info)
    (top : info.generic = 0) (isBase : bases[info.decl]? = some base) (apart : base ≠ info.decl)
    (isType : table.classDecl type = some base) :
    (table.setBase id type).Hierarchy bases pending := by
  have other : id ≠ type := by
    rintro rfl
    rw [classDecl, found, Option.map_some, Option.some.injEq] at isType
    exact apart isType.symm
  have grows := table.grows_setBase id type
  rw [TypeTable.setBase, if_neg other] at grows ⊢
  have there : table.classes.get? slot = some info := by rwa [classInfo?, isForm] at found
  refine hierarchy.modifyClass (fun info => { info with base := type }) isForm there top
    (fun _ => ⟨rfl, rfl, rfl, rfl⟩)
    (fun _ waits apart => (List.mem_cons.mp waits).resolve_left apart) (.inr ?_)
  simp only [HasBase, isBase]
  exact grows.classDecl isType

/-- A class that inherits from none need not wait. -/
theorem settle (hierarchy : table.Hierarchy bases (slot :: pending))
    (isForm : table.form? id = some (.classType slot)) (found : table.classInfo? id = some info)
    (none : bases[info.decl]? = none) :
    table.Hierarchy bases pending where
  formed := hierarchy.formed
  classes {other info'} there top := by
    rcases hierarchy.classes there top with ⟨waits, unknown⟩ | hasBase
    · rcases List.mem_cons.mp waits with rfl | waits
      · rw [classInfo?, isForm] at found
        cases there.symm.trans found
        refine .inr ?_
        simp only [HasBase, none]
        exact unknown
      · exact .inl ⟨waits, unknown⟩
    · exact .inr hasBase

/-! ### Bases that are met -/

/-- What a class or an instance of it was made of has its base. -/
theorem origin (hierarchy : table.Hierarchy bases []) {id : TypeId} {info : ClassInfo}
    (found : table.classInfo? id = some info) :
    ∃ origin, table.classInfo? (if info.generic = 0 then id else info.generic) = some origin ∧
      origin.decl = info.decl ∧ table.HasBase bases origin := by
  obtain ⟨origin, there, top, same⟩ := hierarchy.formed.origin found
  obtain ⟨slot, -, isSlot⟩ := classInfo?_eq_some there
  refine ⟨origin, there, same, (hierarchy.classes isSlot top).resolve_left fun waits => ?_⟩
  exact List.not_mem_nil waits.1

/-- The table has a type of every class on the way from a class it has a type of. -/
theorem known (hierarchy : table.Hierarchy bases []) (lineage : Lineage bases decl chain)
    (isClass : table.classDecl id = some decl) :
    ∀ other ∈ decl :: chain, ∃ type, table.classDecl type = some other := by
  induction lineage generalizing id with
  | root none =>
    intro other member
    obtain rfl := List.mem_singleton.mp member
    exact ⟨id, isClass⟩
  | @step decl base rest isBase _ inductionHypothesis =>
    obtain ⟨info, isInfo, rfl⟩ := Option.map_eq_some_iff.mp isClass
    obtain ⟨origin, -, same, hasBase⟩ := hierarchy.origin isInfo
    rw [HasBase, same, isBase] at hasBase
    intro other member
    rcases List.mem_cons.mp member with rfl | later
    · exact ⟨id, isClass⟩
    · exact inductionHypothesis hasBase other later

theorem lt_size_of_classDecl (isClass : table.classDecl id = some decl) : id < table.size := by
  obtain ⟨info, isInfo, -⟩ := Option.map_eq_some_iff.mp isClass
  obtain ⟨slot, isForm, -⟩ := classInfo?_eq_some isInfo
  unfold form? at isForm
  split at isForm
  · nomatch isForm
  · exact (Array.getElem?_eq_some_iff.mp isForm).1

/-- The way is not longer than there are types. -/
theorem length_le (hierarchy : table.Hierarchy bases []) (lineage : Lineage bases decl chain)
    (isClass : table.classDecl id = some decl) : chain.length ≤ table.size := by
  have among : decl :: chain ⊆ (List.range table.size).filterMap table.classDecl := by
    intro other member
    obtain ⟨type, isType⟩ := hierarchy.known lineage isClass other member
    exact List.mem_filterMap.mpr ⟨type, List.mem_range.mpr (lt_size_of_classDecl isType), isType⟩
  calc chain.length ≤ (decl :: chain).length := Nat.le_succ _
    _ ≤ ((List.range table.size).filterMap table.classDecl).length :=
      (List.subperm_of_subset lineage.nodup among).length_le
    _ ≤ (List.range table.size).length := List.length_filterMap_le _ _
    _ = table.size := List.length_range

end Hierarchy

end TypeTable

/-! ### Substitution -/

namespace TypeM

/-- An instance with other arguments in place of parameters is one of the same class. -/
theorem substituteWithin_decl (formed : table.Formed) (params args : List TypeId) (levels : Nat)
    (isClass : table.classDecl id = some decl) :
    ((substituteWithin params args levels id).run table).2.classDecl
      ((substituteWithin params args levels id).run table).1 = some decl := by
  cases levels with
  | zero => exact isClass
  | succ levels =>
    obtain ⟨info, isInfo, rfl⟩ := Option.map_eq_some_iff.mp isClass
    obtain ⟨slot, isForm, -⟩ := TypeTable.classInfo?_eq_some isInfo
    unfold substituteWithin
    rw [run_get_bind, isForm]
    dsimp only
    rw [run_get_bind, isInfo]
    dsimp only
    split
    · exact isClass
    · next generic =>
      obtain ⟨origin, there, -, same⟩ := formed.origin isInfo
      rw [if_neg generic] at there
      have grows := Growing.mapM (growing_substituteWithin params args levels) info.args table
      have isGeneric : table.classDecl info.generic = some info.decl := by
        rw [TypeTable.classDecl, there, Option.map_some, same]
      exact instantiate_decl (grows.formed formed) (grows.grows.classDecl isGeneric) _

theorem substitute_decl (formed : table.Formed) (params args : List TypeId)
    (isClass : table.classDecl id = some decl) :
    ((substitute params args id).run table).2.classDecl ((substitute params args id).run table).1 =
      some decl := by
  unfold substitute
  split
  · exact isClass
  · exact substituteWithin_decl formed params args _ isClass

/-! ### From base to base -/

/-- A class that inherits from none has no base. -/
theorem baseOf_root (hierarchy : table.Hierarchy bases [])
    (isClass : table.classDecl id = some decl) (none : bases[decl]? = none) :
    (baseOf id).run table = (0, table) := by
  obtain ⟨info, isInfo, rfl⟩ := Option.map_eq_some_iff.mp isClass
  obtain ⟨origin, there, same, hasBase⟩ := hierarchy.origin isInfo
  rw [TypeTable.HasBase, same, none] at hasBase
  unfold baseOf
  rw [run_get_bind, isInfo]
  dsimp only
  split
  · next top =>
    rw [if_pos top, isInfo, Option.some.injEq] at there
    subst there
    exact congrArg (·, table) hasBase
  · next generic =>
    rw [if_neg generic] at there
    rw [run_get_bind, there]
    dsimp only
    rw [if_pos hasBase]
    rfl

/-- The base of a class or an instance is a type of the class that its declaration inherits
from. -/
theorem baseOf_step (hierarchy : table.Hierarchy bases [])
    (isClass : table.classDecl id = some decl) (isBase : bases[decl]? = some base) :
    ((baseOf id).run table).2.classDecl ((baseOf id).run table).1 = some base := by
  obtain ⟨info, isInfo, rfl⟩ := Option.map_eq_some_iff.mp isClass
  obtain ⟨origin, there, same, hasBase⟩ := hierarchy.origin isInfo
  rw [TypeTable.HasBase, same, isBase] at hasBase
  unfold baseOf
  rw [run_get_bind, isInfo]
  dsimp only
  split
  · next top =>
    rw [if_pos top, isInfo, Option.some.injEq] at there
    subst there
    exact hasBase
  · next generic =>
    rw [if_neg generic] at there
    rw [run_get_bind, there]
    dsimp only
    split
    · next unknown =>
      rw [unknown] at hasBase
      nomatch hasBase
    · exact substitute_decl hierarchy.formed _ _ hasBase

theorem run_bind_eq {α β : Type} {action : TypeM α} {next : α → TypeM β} {value : α}
    (ran : action.run table = (value, after)) :
    (action >>= next).run table = (next value).run after := by
  rw [StateT.run_bind, ran]
  rfl

/-- The way from base to base through the types is the one through the declarations, and neither
the bound nor the guard against types met again cuts it short. -/
theorem ancestorsWithin_spec (lineage : Lineage bases decl chain)
    (hierarchy : table.Hierarchy bases []) (isClass : table.classDecl id = some decl)
    {seen : List TypeId}
    (apart : ∀ type ∈ seen, ∃ other, table.classDecl type = some other ∧ other ∉ chain) :
    ∃ types after, table.Extends after ∧ types.map after.classDecl = chain.map some ∧
      ∀ steps, chain.length ≤ steps → (ancestorsWithin steps seen id).run table = (types, after) := by
  induction lineage generalizing table id seen with
  | root none =>
    refine ⟨[], table, .refl table, rfl, fun steps _ => ?_⟩
    unfold ancestorsWithin
    rw [run_bind_eq (baseOf_root hierarchy isClass none), if_pos (.inl rfl)]
    rfl
  | @step decl base rest isBase lineage inductionHypothesis =>
    obtain ⟨type, middle, ran⟩ : ∃ type middle, (baseOf id).run table = (type, middle) :=
      ⟨_, _, rfl⟩
    have grows := growing_baseOf id table
    have isType := baseOf_step hierarchy isClass isBase
    rw [ran] at grows isType
    have known : type ≠ 0 := by
      rintro rfl
      nomatch isType
    have fresh : type ∉ seen := by
      intro member
      obtain ⟨other, isOther, notMem⟩ := apart type member
      cases isType.symm.trans (grows.grows.classDecl isOther)
      exact notMem (.head _)
    have apart' : ∀ other ∈ type :: seen,
        ∃ decl, middle.classDecl other = some decl ∧ decl ∉ rest := by
      intro other member
      rcases List.mem_cons.mp member with rfl | old
      · exact ⟨base, isType, lineage.notMem⟩
      · obtain ⟨decl, isDecl, notMem⟩ := apart other old
        exact ⟨decl, grows.grows.classDecl isDecl, fun later => notMem (.tail _ later)⟩
    obtain ⟨types, after, grows', same, runs⟩ :=
      inductionHypothesis (hierarchy.of_extends grows) isType apart'
    refine ⟨type :: types, after, grows.trans grows', ?_, fun steps enough => ?_⟩
    · rw [List.map_cons, List.map_cons, same, grows'.grows.classDecl isType]
    · cases steps with
      | zero => simp at enough
      | succ steps =>
        unfold ancestorsWithin
        rw [run_bind_eq ran, if_neg (by simp [known, fresh]),
          run_bind_eq (runs steps (Nat.le_of_succ_le_succ enough))]
        rfl

theorem run_ancestors (table : TypeTable) (id : TypeId) :
    (ancestors id).run table = (ancestorsWithin (patience + table.size) [id] id).run table := by
  unfold ancestors
  rw [StateT.run_bind]
  rfl

/-- The bases of a type belong to the bases of its declaration, one by one. They are found in as
many steps as there are, however many more are allowed. -/
theorem ancestors_spec (lineage : Lineage bases decl chain) (hierarchy : table.Hierarchy bases [])
    (isClass : table.classDecl id = some decl) :
    ∃ types after, (ancestors id).run table = (types, after) ∧
      types.map after.classDecl = chain.map some ∧
      ∀ steps, chain.length ≤ steps → (ancestorsWithin steps [id] id).run table = (types, after) := by
  have apart : ∀ type ∈ [id], ∃ other, table.classDecl type = some other ∧ other ∉ chain := by
    intro type member
    obtain rfl := List.mem_singleton.mp member
    exact ⟨decl, isClass, lineage.notMem⟩
  obtain ⟨types, after, -, same, runs⟩ := ancestorsWithin_spec lineage hierarchy isClass apart
  have enough : chain.length ≤ patience + table.size :=
    Nat.le_add_left_of_le (hierarchy.length_le lineage isClass)
  exact ⟨types, after, (run_ancestors table id).trans (runs _ enough), same, runs⟩

end TypeM

end TreeCheck
