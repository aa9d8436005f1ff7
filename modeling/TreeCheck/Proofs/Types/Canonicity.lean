/-
Types are canonical. Whatever is asked of the table of types, in whatever order, a type is
known by what it is made of: lists, arrays, tuples and unions of the same parts are the same
type, and so are instances of a class with the same arguments. Nothing that is asked later
changes what a type is or how it is shown.

Substitution and the search for bases ask the table for types one after the other; they are
taken apart into single requests, which keep the table sound. That the parts of a type are
older than the type is part of soundness and bounds how deep its signature goes.
-/

import Mathlib.Logic.Relation
import TreeCheck.Proofs.Types.Interning

namespace TreeCheck

open TypeM

variable {levels : Nat}

namespace TypeTable

variable {table before middle after : TypeTable}

/-- A type that is in the table. -/
def There (id : TypeId) (table : TypeTable) : Prop := id < table.size

/-- Types that are in the table. -/
def AllThere (ids : List TypeId) (table : TypeTable) : Prop := ∀ id ∈ ids, id < table.size

instance {id : TypeId} {table : TypeTable} : Decidable (There id table) :=
  inferInstanceAs (Decidable (id < table.size))

instance {ids : List TypeId} {table : TypeTable} : Decidable (AllThere ids table) :=
  inferInstanceAs (Decidable (∀ id ∈ ids, id < table.size))

/-! ### Single requests -/

/-- What a single request does to the table. Forms that are entered outright have to be
allowed. -/
inductive Serves (allowed : TypeTable → TypeForm → Prop) (before : TypeTable) : TypeTable → Prop where
  | intern {form} : before.Holds form → allowed before form →
    Serves allowed before (before.intern form).2
  | makeTuple {elems} : AllThere elems before →
      Serves allowed before (before.makeTuple elems).2
  | makeMulti {candidates} : AllThere candidates before →
      Serves allowed before (before.makeMulti candidates).2
  | registerClass (name decl) : Serves allowed before (before.registerClass name decl).2
  | registerEnum (name decl) : Serves allowed before (before.registerEnum name decl).2
  | registerParam (name decl constraint) :
      Serves allowed before (before.registerParam name decl constraint).2
  | setBase (id) {base} : base < before.size → Serves allowed before (before.setBase id base)
  | setParams (id params) : Serves allowed before (before.setParams id params)
  | instantiate (generic) {args} : AllThere args before →
      Serves allowed before ((instantiate generic args).run before).2
  | giveUp : Serves allowed before (giveUp.run before).2

/-- Any number of requests, one after the other. -/
def Served (allowed : TypeTable → TypeForm → Prop) : TypeTable → TypeTable → Prop :=
  Relation.ReflTransGen (Serves allowed)

variable {allowed : TypeTable → TypeForm → Prop}

theorem Sound.giveUp (sound : table.Sound) : (giveUp.run table).2.Sound := by
  have grows := (growing_giveUp table).grows
  exact ⟨sound.primitives, sound.form_once, sound.holds, sound.older, sound.group_once,
    fun found => grows.groupFits (sound.group_fits found), sound.class_placed,
    fun found => grows.classFits (sound.class_fits found), sound.base_there, sound.instance_once⟩

theorem Serves.sound (serves : Serves allowed before after) (sound : before.Sound) : after.Sound := by
  cases serves with
  | intern held _ => exact sound.intern held
  | makeTuple there => exact sound.makeTuple there
  | makeMulti there => exact sound.makeMulti there
  | registerClass name decl => exact sound.registerClass name decl
  | registerEnum name decl => exact sound.registerEnum name decl
  | registerParam name decl constraint => exact sound.registerParam name decl constraint
  | setBase id there => exact sound.setBase id there
  | setParams id params => exact sound.setParams id params
  | instantiate generic there => exact (sound.instantiate there).1
  | giveUp => exact sound.giveUp

theorem Serves.grows (serves : Serves allowed before after) : before.Grows after := by
  cases serves with
  | intern _ _ => exact (extends_intern ..).grows
  | makeTuple _ => exact (extends_makeTuple ..).grows
  | makeMulti _ => exact (extends_makeMulti ..).grows
  | registerClass name decl => exact grows_registerClass ..
  | registerEnum name decl => exact (extends_registerEnum ..).grows
  | registerParam name decl constraint => exact (extends_registerParam ..).grows
  | setBase id _ => exact grows_setBase ..
  | setParams id params => exact grows_setParams ..
  | instantiate generic _ => exact (growing_instantiate generic _ before).grows
  | giveUp => exact (growing_giveUp before).grows

namespace Served

theorem sound (served : Served allowed before after) (sound : before.Sound) : after.Sound := by
  induction served with
  | refl => exact sound
  | tail _ serves inductionHypothesis => exact serves.sound inductionHypothesis

theorem grows (served : Served allowed before after) : before.Grows after := by
  induction served with
  | refl => exact .refl before
  | tail _ serves inductionHypothesis => exact inductionHypothesis.trans serves.grows

theorem lt_size (served : Served allowed before after) {id : TypeId} (there : id < before.size) :
    id < after.size :=
  Nat.lt_of_lt_of_le there served.grows.size_le

theorem all_lt_size (served : Served allowed before after) {ids : List TypeId}
    (there : AllThere ids before) : AllThere ids after :=
  fun id among => served.lt_size (there id among)

end Served

theorem intern_lt (sound : table.Sound) (form : TypeForm) :
    (table.intern form).1 < (table.intern form).2.size := by
  by_cases unknown : form = .invalid
  · simp [TypeTable.intern, unknown, sound.positive]
  · exact lt_size_of_form (forms_intern table unknown)

theorem forms_makeTuple (table : TypeTable) (elems : List TypeId) :
    (table.makeTuple elems).2.forms[(table.makeTuple elems).1]? =
      some (.tuple (table.group .tuple elems).1) :=
  forms_intern _ nofun

theorem makeMulti_lt (sound : table.Sound) {candidates : List TypeId}
    (there : AllThere candidates table) :
    (table.makeMulti candidates).1 < (table.makeMulti candidates).2.size := by
  unfold TypeTable.makeMulti
  split
  · have isVoid : table.forms[TypeId.void]? = some .void := sound.primitives rfl
    exact lt_size_of_form isVoid
  · next one single =>
    have among : one ∈ distinct candidates := single ▸ .head _
    exact there one (mem_distinct.mp among).1
  · exact lt_size_of_form (forms_intern _ nofun)

end TypeTable

/-! ### Operations that ask for types -/

namespace TypeM

open TypeTable

variable {α β : Type} {allowed : TypeTable → TypeForm → Prop} {table : TypeTable}
variable {action : TypeM α}

/-- An operation that changes the table by requests, with a condition on what it gives. -/
def Makes (allowed : TypeTable → TypeForm → Prop) (table : TypeTable)
    (post : α → TypeTable → Prop) (action : TypeM α) : Prop :=
  Served allowed table (action.run table).2 ∧ post (action.run table).1 (action.run table).2

namespace Makes

variable {post : α → TypeTable → Prop}

theorem pure {value : α} (holds : post value table) : Makes allowed table post (pure value) :=
  ⟨.refl, holds⟩

theorem bind {result : β → TypeTable → Prop} {next : α → TypeM β}
    (first : Makes allowed table post action)
    (second : ∀ value after, action.run table = (value, after) → Served allowed table after →
      post value after → Makes allowed after result (next value)) :
    Makes allowed table result (action >>= next) := by
  obtain ⟨served, holds⟩ := first
  obtain ⟨served', holds'⟩ := second _ _ rfl served holds
  exact ⟨served.trans served', holds'⟩

theorem read {next : TypeTable → TypeM α} (makes : Makes allowed table post (next table)) :
    Makes allowed table post (get >>= next) :=
  makes

theorem weaken {result : α → TypeTable → Prop} (makes : Makes allowed table post action)
    (weaker : ∀ value after, Served allowed table after → post value after → result value after) :
    Makes allowed table result action :=
  ⟨makes.1, weaker _ _ makes.1 makes.2⟩

theorem mapM {actions : α → TypeM TypeId} {items : List α}
    (each : ∀ item ∈ items, ∀ middle, Served allowed table middle →
      Makes allowed middle There (actions item)) :
    Makes allowed table AllThere (items.mapM actions) := by
  induction items generalizing table with
  | nil => exact .pure nofun
  | cons item rest inductionHypothesis =>
    rw [List.mapM_cons]
    refine .bind (each item (.head _) table .refl) fun first _ _ served isFirst =>
      .bind (inductionHypothesis fun other among middle served' =>
        each other (.tail _ among) middle (served.trans served')) fun others _ _ served' areThere =>
          .pure fun id among => ?_
    rcases List.mem_cons.mp among with rfl | among
    · exact served'.lt_size isFirst
    · exact areThere id among

theorem intern (sound : table.Sound) {form : TypeForm} (held : table.Holds form)
    (allows : allowed table form) : Makes allowed table There (intern form) :=
  ⟨.single (.intern held allows), intern_lt sound form⟩

theorem makeTuple {elems : List TypeId} (there : AllThere elems table) :
    Makes allowed table There (makeTuple elems) :=
  ⟨.single (.makeTuple there), lt_size_of_form (forms_makeTuple table elems)⟩

theorem makeMulti (sound : table.Sound) {candidates : List TypeId}
    (there : AllThere candidates table) : Makes allowed table There (makeMulti candidates) :=
  ⟨.single (.makeMulti there), makeMulti_lt sound there⟩

theorem instantiate (sound : table.Sound) (generic : TypeId) {args : List TypeId}
    (there : AllThere args table) : Makes allowed table There (instantiate generic args) :=
  ⟨.single (.instantiate generic there), (sound.instantiate there).2⟩

end Makes

/-- Lists and arrays are allowed where a substitution rebuilds them: one is there, and in its
place the substitution gives something else for its element. -/
structure Rebuilds (allowed : TypeTable → TypeForm → Prop) (params args : List TypeId) : Prop where
  list : ∀ {before after : TypeTable} {levels id elem dims replaced}, before.Sound →
    AllThere args before → before.form? id = some (.list elem dims) →
    (substituteWithin params args levels elem).run before = (replaced, after) →
    allowed after (.list replaced dims)
  array : ∀ {before after : TypeTable} {levels id elem dims replaced}, before.Sound →
    AllThere args before → before.form? id = some (.array elem dims) →
    (substituteWithin params args levels elem).run before = (replaced, after) →
    allowed after (.array replaced dims)

/-- Everything is allowed. -/
theorem rebuilds_any (params args : List TypeId) : Rebuilds (fun _ _ => True) params args :=
  ⟨fun _ _ _ _ => trivial, fun _ _ _ _ => trivial⟩

section Substitution

variable {params args : List TypeId}

theorem makes_substituteWithin (rebuilds : Rebuilds allowed params args) {id : TypeId}
    (sound : table.Sound) (given : AllThere args table) (there : id < table.size) :
    Makes allowed table There (substituteWithin params args levels id) := by
  induction levels generalizing table id with
  | zero => exact .pure there
  | succ levels inductionHypothesis =>
    have older {form : TypeForm} (isForm : table.form? id = some form) :
        AllThere (table.parts form) table := fun part among =>
      Nat.lt_trans (sound.older (form?_eq_some.mp isForm).2 part among) there
    have each {ids : List TypeId} (areThere : AllThere ids table) :
        Makes allowed table AllThere (ids.mapM (substituteWithin params args levels)) :=
      .mapM fun part among middle served =>
        inductionHypothesis (served.sound sound) (served.all_lt_size given)
          (served.lt_size (areThere part among))
    refine .read ?_
    split
    · split
      · next index _ =>
        refine .pure ?_
        cases found : args[index]? with
        | none => exact there
        | some arg => exact given arg (List.mem_of_getElem? found)
      · exact .pure there
    · next elem dims isForm =>
      refine .bind (inductionHypothesis sound given (older isForm elem (.head _)))
        fun replaced after ran served isThere => ?_
      split
      · exact .pure (served.lt_size there)
      · exact .intern (served.sound sound) isThere (rebuilds.list sound given isForm ran)
    · next elem dims isForm =>
      refine .bind (inductionHypothesis sound given (older isForm elem (.head _)))
        fun replaced after ran served isThere => ?_
      split
      · exact .pure (served.lt_size there)
      · exact .intern (served.sound sound) isThere (rebuilds.array sound given isForm ran)
    · next slot isForm =>
      exact .read (.bind (each (elems_of_tuple isForm ▸ older isForm)) fun _ _ _ _ areThere =>
        .makeTuple areThere)
    · next slot isForm =>
      exact .read (.bind (each (elems_of_multi isForm ▸ older isForm)) fun _ _ _ served areThere =>
        .makeMulti (served.sound sound) areThere)
    · refine .read ?_
      split
      · next info isClass =>
        split
        · exact .pure there
        · have younger := sound.part_lt_of_classInfo? isClass
          refine .bind (each fun arg among => ?_) fun _ _ _ served areThere =>
            .instantiate (served.sound sound) _ areThere
          exact Nat.lt_trans (younger arg (.tail _ among)) there
      · exact .pure there
    · exact .pure there

theorem makes_substitute (rebuilds : Rebuilds allowed params args) {id : TypeId}
    (sound : table.Sound) (given : AllThere args table) (there : id < table.size) :
    Makes allowed table There (substitute params args id) := by
  unfold substitute
  split
  · exact .pure there
  · exact makes_substituteWithin rebuilds sound given there

end Substitution

theorem makes_baseOf (rebuilds : ∀ params args, Rebuilds allowed params args) (sound : table.Sound)
    (id : TypeId) : Makes allowed table There (baseOf id) := by
  refine .read ?_
  split
  · exact .pure sound.positive
  · next info isClass =>
    obtain ⟨slot, -, isInfo⟩ := classInfo?_eq_some isClass
    split
    · exact .pure (sound.base_there isInfo)
    · refine .read ?_
      split
      · exact .pure sound.positive
      · next generic isGeneric =>
        obtain ⟨slot', -, isInfo'⟩ := classInfo?_eq_some isGeneric
        split
        · exact .pure sound.positive
        · refine makes_substitute (rebuilds _ _) sound (fun arg among => ?_) (sound.base_there isInfo')
          exact Nat.lt_trans (sound.part_lt_of_classInfo? isClass arg (.tail _ among))
            (lt_size_of_classInfo isClass)

end TypeM

/-! ### What types are and how they are shown -/

namespace TypeTable

variable {table before after : TypeTable}

section Growth

variable (grows : before.Grows after) {id : TypeId} (there : id < before.size)

include grows

theorem Grows.enumInfo_eq {slot : Nat} (held : before.Holds (.enum slot)) :
    after.enums.get? slot = before.enums.get? slot := by
  obtain ⟨info, found⟩ := Option.isSome_iff_exists.mp held
  rw [found, grows.enumInfo found]

theorem Grows.paramInfo_eq {slot : Nat} (held : before.Holds (.param slot)) :
    after.params.get? slot = before.params.get? slot := by
  obtain ⟨info, found⟩ := Option.isSome_iff_exists.mp held
  rw [found, grows.paramInfo found]

include there

theorem Grows.form?_eq : after.form? id = before.form? id := by
  have found : before.forms[id]? = some before.forms[id] := Array.getElem?_eq_getElem there
  unfold form?
  rw [found, grows.form found]

theorem Grows.elems_eq (sound : before.Sound) : after.elems id = before.elems id := by
  unfold elems
  rw [grows.form?_eq there]
  cases isForm : before.form? id with
  | none => rfl
  | some form =>
    have held := sound.holds (form?_eq_some.mp isForm).2
    cases form with
    | tuple slot =>
      obtain ⟨members, found⟩ := held
      simp only [found, grows.group found]
    | multi slot =>
      obtain ⟨members, found⟩ := held
      simp only [found, grows.group found]
    | _ => rfl

end Growth

/-- The members of a tuple or union are older than it. -/
theorem Sound.elem_lt (sound : table.Sound) {id elem : TypeId} (among : elem ∈ table.elems id) :
    elem < id := by
  cases isForm : table.form? id with
  | none => simp [elems, isForm] at among
  | some form =>
    have older := sound.part_lt_of_form? isForm
    cases form with
    | tuple slot => exact older elem (elems_of_tuple isForm ▸ among)
    | multi slot => exact older elem (elems_of_multi isForm ▸ among)
    | _ => simp [elems, isForm] at among

/-- The label of a type stays. -/
theorem Grows.labelWithin (grows : before.Grows after) (sound : before.Sound) {id : TypeId}
    (there : id < before.size) : after.labelWithin levels id = before.labelWithin levels id := by
  induction levels generalizing id with
  | zero => rfl
  | succ levels inductionHypothesis =>
    have elemsSame : (after.elems id).map (after.labelWithin levels) =
        (before.elems id).map (before.labelWithin levels) := by
      rw [grows.elems_eq there sound]
      exact List.map_congr_left fun elem among =>
        inductionHypothesis (Nat.lt_trans (sound.elem_lt among) there)
    unfold TypeTable.labelWithin
    rw [grows.form?_eq there]
    cases isForm : before.form? id with
    | none => rfl
    | some form =>
      have held := sound.holds (form?_eq_some.mp isForm).2
      have older := sound.part_lt_of_form? isForm
      cases form with
      | enum slot => simp only [grows.enumInfo_eq held]
      | param slot => simp only [grows.paramInfo_eq held]
      | classType slot =>
        obtain ⟨info, found⟩ := Option.isSome_iff_exists.mp held
        obtain ⟨later, found', name, -, -, args⟩ := grows.classInfo found
        have same : info.args.map (after.labelWithin levels) =
            info.args.map (before.labelWithin levels) := by
          refine List.map_congr_left fun arg among => inductionHypothesis (Nat.lt_trans ?_ there)
          simp only [TypeTable.parts, found] at older
          exact older arg (.tail _ among)
        simp only [found, found', Option.getD_some, name, args, same]
      | list elem dims =>
        simp only [inductionHypothesis (Nat.lt_trans (older elem (.head _)) there)]
      | array elem dims =>
        simp only [inductionHypothesis (Nat.lt_trans (older elem (.head _)) there)]
      | tuple slot => simp only [elemsSame]
      | multi slot => simp only [elemsSame]
      | _ => rfl

/-- The code of a type stays, and no bound above its number cuts it short. -/
theorem Grows.signatureWithin (grows : before.Grows after) (sound : before.Sound)
    {bound bound' : Nat} {id : TypeId} (there : id < before.size) (deep : id < bound)
    (deep' : id < bound') : after.signatureWithin bound' id = before.signatureWithin bound id := by
  induction bound generalizing bound' id with
  | zero => exact absurd deep (Nat.not_lt_zero _)
  | succ bound inductionHypothesis =>
    obtain ⟨bound', rfl⟩ := Nat.exists_eq_add_one_of_ne_zero (Nat.ne_of_gt (Nat.zero_lt_of_lt deep'))
    have part {other : TypeId} (older : other < id) :
        after.signatureWithin bound' other = before.signatureWithin bound other :=
      inductionHypothesis (Nat.lt_trans older there)
        (Nat.lt_of_lt_of_le older (Nat.le_of_lt_succ deep))
        (Nat.lt_of_lt_of_le older (Nat.le_of_lt_succ deep'))
    have elemsSame : (after.elems id).map (after.signatureWithin bound') =
        (before.elems id).map (before.signatureWithin bound) := by
      rw [grows.elems_eq there sound]
      exact List.map_congr_left fun elem among => part (sound.elem_lt among)
    unfold TypeTable.signatureWithin
    rw [grows.form?_eq there]
    cases isForm : before.form? id with
    | none => rfl
    | some form =>
      have held := sound.holds (form?_eq_some.mp isForm).2
      have older := sound.part_lt_of_form? isForm
      have label : after.label id = before.label id := grows.labelWithin sound there
      cases form with
      | enum slot => simp only [label]
      | param slot => simp only [label]
      | classType slot =>
        obtain ⟨info, found⟩ := Option.isSome_iff_exists.mp held
        obtain ⟨later, found', name, -⟩ := grows.classInfo found
        simp only [found, found', Option.map_some, name]
      | list elem dims => simp only [part (older elem (.head _))]
      | array elem dims => simp only [part (older elem (.head _))]
      | tuple slot => simp only [elemsSame]
      | multi slot => simp only [elemsSame]
      | _ => rfl

theorem Grows.signature (grows : before.Grows after) (sound : before.Sound) {id : TypeId}
    (there : id < before.size) : after.signature id = before.signature id :=
  grows.signatureWithin sound there (Nat.lt_succ_of_lt there)
    (Nat.lt_succ_of_lt (Nat.lt_of_lt_of_le there grows.size_le))

/-! ### Canonical tables -/

/-- A type is known by what it is made of. -/
structure Canonical (table : TypeTable) : Prop where
  structural : ∀ {first second : TypeId} {form other}, table.form? first = some form →
    table.form? second = some other → form.kind = other.kind →
    form.kind ∈ [.list, .array, .tuple, .multi] → form.dims = other.dims →
    table.parts form = table.parts other → first = second
  instances : ∀ {first second : TypeId} {info other}, table.classInfo? first = some info →
    table.classInfo? second = some other → info.generic ≠ 0 → info.generic = other.generic →
    info.args = other.args → first = second
  elems_makeTuple : ∀ {elems}, AllThere elems table →
    (table.makeTuple elems).2.kindOf (table.makeTuple elems).1 = .tuple ∧
      (table.makeTuple elems).2.elems (table.makeTuple elems).1 = elems
  makeTuple_elems : ∀ {id}, table.kindOf id = .tuple → table.makeTuple (table.elems id) = (id, table)
  union : ∀ {candidates}, AllThere candidates table →
    match (candidates.filter (· ≠ 0)).eraseDups with
    | [] => table.makeMulti candidates = (TypeId.void, table)
    | [one] => table.makeMulti candidates = (one, table)
    | members => (table.makeMulti candidates).2.kindOf (table.makeMulti candidates).1 = .multi ∧
        (table.makeMulti candidates).2.elems (table.makeMulti candidates).1 = members
  older : ∀ {id : TypeId} {form}, table.form? id = some form → ∀ part ∈ table.parts form, part < id
  signature_ends : ∀ {id bound : Nat}, id < table.size → id < bound →
    table.signatureWithin bound id = table.signature id

theorem Sound.eq_of_form? (sound : table.Sound) {first second : TypeId} {form : TypeForm}
    (isFirst : table.form? first = some form) (isSecond : table.form? second = some form) :
    first = second :=
  sound.form_once (form?_eq_some.mp isFirst).2 (form?_eq_some.mp isSecond).2

theorem Sound.elems_makeTuple (sound : table.Sound) {elems : List TypeId}
    (there : AllThere elems table) :
    (table.makeTuple elems).2.kindOf (table.makeTuple elems).1 = .tuple ∧
      (table.makeTuple elems).2.elems (table.makeTuple elems).1 = elems := by
  have isForm : (table.makeTuple elems).2.form? (table.makeTuple elems).1 =
      some (.tuple (table.group .tuple elems).1) :=
    (sound.makeTuple there).form?_of_forms (forms_makeTuple table elems) nofun
  have kept : (table.makeTuple elems).2.groups.get? (table.group .tuple elems).1 =
      some (.tuple, elems) := (extends_intern _ _).group (table.groups_group .tuple elems)
  refine ⟨by rw [kindOf, isForm]; rfl, ?_⟩
  rw [elems_of_tuple isForm, parts, kept]
  rfl

theorem Sound.elems_makeMulti (sound : table.Sound) {candidates : List TypeId}
    (there : AllThere candidates table) (several : 2 ≤ (distinct candidates).length) :
    (table.makeMulti candidates).2.kindOf (table.makeMulti candidates).1 = .multi ∧
      (table.makeMulti candidates).2.elems (table.makeMulti candidates).1 = distinct candidates := by
  have unfolded : table.makeMulti candidates = (table.group .multi (distinct candidates)).2.intern
      (.multi (table.group .multi (distinct candidates)).1) := by
    unfold TypeTable.makeMulti
    split
    · next none => simp [none] at several
    · next one single => simp [single] at several
    · rfl
  have isForm : (table.makeMulti candidates).2.form? (table.makeMulti candidates).1 =
      some (.multi (table.group .multi (distinct candidates)).1) :=
    (sound.makeMulti there).form?_of_forms (unfolded ▸ forms_intern _ nofun) nofun
  have kept : (table.makeMulti candidates).2.groups.get?
      (table.group .multi (distinct candidates)).1 = some (.multi, distinct candidates) :=
    unfolded ▸ (extends_intern _ _).group (table.groups_group .multi _)
  refine ⟨by rw [kindOf, isForm]; rfl, ?_⟩
  rw [elems_of_multi isForm, parts, kept]
  rfl

theorem exists_of_kindOf_tuple {id : TypeId} (isTuple : table.kindOf id = .tuple) :
    ∃ slot, table.form? id = some (.tuple slot) := by
  unfold kindOf at isTuple
  split at isTuple
  · next form isForm =>
    cases form with
    | tuple slot => exact ⟨slot, isForm⟩
    | _ => nomatch isTuple
  · nomatch isTuple

theorem Sound.canonical (sound : table.Sound) : table.Canonical where
  structural {first second form other} isFirst isSecond sameKind isStructural sameDims sameParts := by
    have held := sound.holds (form?_eq_some.mp isFirst).2
    have held' := sound.holds (form?_eq_some.mp isSecond).2
    suffices form = other from sound.eq_of_form? isFirst (this ▸ isSecond)
    cases form with
    | list elem dims =>
      cases other with
      | list elem' dims' =>
        obtain rfl : dims = dims' := sameDims
        rw [List.singleton_inj.mp sameParts]
      | _ => cases sameKind
    | array elem dims =>
      cases other with
      | array elem' dims' =>
        obtain rfl : dims = dims' := sameDims
        rw [List.singleton_inj.mp sameParts]
      | _ => cases sameKind
    | tuple slot =>
      cases other with
      | tuple slot' =>
        obtain ⟨members, found⟩ := held
        obtain ⟨members', found'⟩ := held'
        simp only [parts, found, found', Option.map_some, Option.getD_some] at sameParts
        obtain rfl : members = members' := sameParts
        rw [sound.group_once found found']
      | _ => cases sameKind
    | multi slot =>
      cases other with
      | multi slot' =>
        obtain ⟨members, found⟩ := held
        obtain ⟨members', found'⟩ := held'
        simp only [parts, found, found', Option.map_some, Option.getD_some] at sameParts
        obtain rfl : members = members' := sameParts
        rw [sound.group_once found found']
      | _ => cases sameKind
    | _ => simp [TypeForm.kind] at isStructural
  instances {first second info other} isFirst isSecond known generic args := by
    obtain ⟨slot, isForm, isInfo⟩ := classInfo?_eq_some isFirst
    obtain ⟨slot', isForm', isInfo'⟩ := classInfo?_eq_some isSecond
    obtain rfl := sound.instance_once isInfo isInfo' known generic args
    exact sound.eq_of_form? isForm isForm'
  elems_makeTuple := sound.elems_makeTuple
  makeTuple_elems {id} isTuple := by
    obtain ⟨slot, isForm⟩ := exists_of_kindOf_tuple isTuple
    obtain ⟨members, found⟩ := sound.holds (form?_eq_some.mp isForm).2
    have isElems : table.elems id = members := by
      rw [elems_of_tuple isForm, parts, found]
      rfl
    rw [isElems, TypeTable.makeTuple, sound.group_eq found]
    exact sound.intern_eq isForm
  union {candidates} there := by
    rw [← distinct_eq]
    split
    · next none => rw [TypeTable.makeMulti, none]
    · next one single => rw [TypeTable.makeMulti, single]
    · next none one => exact sound.elems_makeMulti there (two_le_length none one)
  older := sound.part_lt_of_form?
  signature_ends there deep :=
    (Grows.refl table).signatureWithin sound there (Nat.lt_succ_of_lt there) deep

/-! ### Sequences of requests -/

/-- What a table of types may be asked for. -/
inductive Request where
  | intern (form : TypeForm)
  | makeTuple (elems : List TypeId)
  | makeMulti (candidates : List TypeId)
  | registerClass (name : String) (decl : DeclId)
  | registerEnum (name : String) (decl : DeclId)
  | registerParam (name : String) (decl : DeclId) (constraint : Constraint)
  | setBase (id base : TypeId)
  | setParams (id : TypeId) (params : List TypeId)
  | instantiate (generic : TypeId) (args : List TypeId)
  | substitute (params args : List TypeId) (id : TypeId)
  | baseOf (id : TypeId)

namespace Request

/-- What a request refers to is in the table. A descriptor that is interned is well-formed besides:
its payload is an entry of the table of its kind, and its parts are types. -/
def Allocated (table : TypeTable) : Request → Prop
  | .intern form => table.Holds form
  | .makeTuple ids | .makeMulti ids => AllThere ids table
  | .registerClass .. | .registerEnum .. | .registerParam .. => True
  | .setBase id base => There id table ∧ There base table
  | .setParams id params => There id table ∧ AllThere params table
  | .instantiate generic args => There generic table ∧ AllThere args table
  | .substitute params args id => AllThere params table ∧ AllThere args table ∧ There id table
  | .baseOf id => There id table

instance Allocated.decidable (table : TypeTable) : (request : Request) →
    Decidable (request.Allocated table)
  | .intern form => Holds.decidable table form
  | .makeTuple ids | .makeMulti ids => inferInstanceAs (Decidable (AllThere ids table))
  | .registerClass .. | .registerEnum .. | .registerParam .. => .isTrue trivial
  | .setBase id base => inferInstanceAs (Decidable (There id table ∧ There base table))
  | .setParams id params => inferInstanceAs (Decidable (There id table ∧ AllThere params table))
  | .instantiate generic args =>
    inferInstanceAs (Decidable (There generic table ∧ AllThere args table))
  | .substitute params args id =>
    inferInstanceAs (Decidable (AllThere params table ∧ AllThere args table ∧ There id table))
  | .baseOf id => inferInstanceAs (Decidable (There id table))

/-- The table behind a request. -/
def perform (table : TypeTable) : Request → TypeTable
  | .intern form => (table.intern form).2
  | .makeTuple elems => (table.makeTuple elems).2
  | .makeMulti candidates => (table.makeMulti candidates).2
  | .registerClass name decl => (table.registerClass name decl).2
  | .registerEnum name decl => (table.registerEnum name decl).2
  | .registerParam name decl constraint => (table.registerParam name decl constraint).2
  | .setBase id base => table.setBase id base
  | .setParams id params => table.setParams id params
  | .instantiate generic args => ((TypeM.instantiate generic args).run table).2
  | .substitute params args id => ((TypeM.substitute params args id).run table).2
  | .baseOf id => ((TypeM.baseOf id).run table).2

end Request

/-- The second table comes of the first by requests one after the other, each for what is in
the table by then. -/
inductive Asked (table : TypeTable) : TypeTable → Prop where
  | start : Asked table table
  | next {middle} (request : Request) : Asked table middle → request.Allocated middle →
      Asked table (request.perform middle)

/-- A request is made of single requests. -/
theorem Request.served {request : Request} (sound : table.Sound) (allocated : request.Allocated table) :
    Served (fun _ _ => True) table (request.perform table) := by
  cases request with
  | intern form => exact .single (.intern allocated trivial)
  | makeTuple elems => exact .single (.makeTuple allocated)
  | makeMulti candidates => exact .single (.makeMulti allocated)
  | registerClass name decl => exact .single (.registerClass name decl)
  | registerEnum name decl => exact .single (.registerEnum name decl)
  | registerParam name decl constraint => exact .single (.registerParam name decl constraint)
  | setBase id base => exact .single (.setBase id allocated.2)
  | setParams id params => exact .single (.setParams id params)
  | instantiate generic args => exact .single (.instantiate generic allocated.2)
  | substitute params args id =>
    exact (TypeM.makes_substitute (TypeM.rebuilds_any params args) sound allocated.2.1 allocated.2.2).1
  | baseOf id => exact (TypeM.makes_baseOf TypeM.rebuilds_any sound id).1

theorem Asked.served (asked : Asked before after) (sound : before.Sound) :
    Served (fun _ _ => True) before after := by
  induction asked with
  | start => exact .refl
  | next request _ allocated inductionHypothesis =>
    exact inductionHypothesis.trans (request.served (inductionHypothesis.sound sound) allocated)

/-- Whatever a table was asked for, its types are canonical, and whatever it is asked for then
leaves them as they are. -/
theorem types_are_canonical (asked : Asked {} table) :
    table.Canonical ∧ ∀ {later}, Asked table later → ∀ id, There id table →
      later.form? id = table.form? id ∧ later.elems id = table.elems id ∧
        later.label id = table.label id ∧ later.signature id = table.signature id := by
  have sound : table.Sound := (asked.served sound_empty).sound sound_empty
  refine ⟨sound.canonical, fun {later} onward id there => ?_⟩
  have grows : table.Grows later := (onward.served sound).grows
  exact ⟨grows.form?_eq there, grows.elems_eq there sound, grows.labelWithin sound there,
    grows.signature sound there⟩

/-- Requests one after the other. -/
def performAll (table : TypeTable) : List Request → TypeTable
  | [] => table
  | request :: rest => performAll (request.perform table) rest

/-- Each request is for what is in the table by then. -/
def AllocatedAll (table : TypeTable) : List Request → Prop
  | [] => True
  | request :: rest => request.Allocated table ∧ AllocatedAll (request.perform table) rest

instance AllocatedAll.decidable (table : TypeTable) : (requests : List Request) →
    Decidable (AllocatedAll table requests)
  | [] => .isTrue trivial
  | request :: rest =>
    have := AllocatedAll.decidable (request.perform table) rest
    inferInstanceAs (Decidable (request.Allocated table ∧ AllocatedAll (request.perform table) rest))

theorem Asked.all (asked : Asked before table) {requests : List Request}
    (allocated : AllocatedAll table requests) : Asked before (performAll table requests) := by
  induction requests generalizing table with
  | nil => exact asked
  | cons request rest inductionHypothesis =>
    exact inductionHypothesis (asked.next request allocated.1) allocated.2

/-- A class with a template parameter, its instance for a pair of the parameter and a list of it,
and a union. -/
def pairRequests : List Request :=
  [.registerClass "A" 1, .registerParam "T" 2 .any, .setParams 8 [9], .intern (.list 9 1),
    .makeTuple [9, 10], .instantiate 8 [11], .makeMulti [2, 0, 3, 2]]

/-- The union in place of the parameter; the class gets a base that the new instance inherits. -/
def unionRequests : List Request := [.substitute [9] [13] 12, .setBase 8 10, .baseOf 16]

theorem pairRequests_allocated : AllocatedAll {} pairRequests := by with_unfolding_all decide

theorem unionRequests_allocated : AllocatedAll (performAll {} pairRequests) unionRequests := by
  with_unfolding_all decide

theorem types_are_canonical_pairs :
    Asked {} (performAll {} pairRequests) ∧ (performAll {} pairRequests).Canonical ∧
      (performAll {} pairRequests).label 12 = "A<(T, [T])>" ∧
      (performAll (performAll {} pairRequests) unionRequests).label 16 =
        "A<(Int | Char, [Int | Char])>" ∧
      (performAll (performAll {} pairRequests) unionRequests).label 12 =
        (performAll {} pairRequests).label 12 := by
  have asked : Asked {} (performAll {} pairRequests) := Asked.start.all pairRequests_allocated
  have onward : Asked (performAll {} pairRequests)
      (performAll (performAll {} pairRequests) unionRequests) :=
    Asked.start.all unionRequests_allocated
  have there : There 12 (performAll {} pairRequests) := by decide +kernel
  obtain ⟨canonical, kept⟩ := types_are_canonical asked
  exact ⟨asked, canonical, by decide +kernel, by decide +kernel, (kept onward 12 there).2.2.1⟩

end TypeTable

end TreeCheck
