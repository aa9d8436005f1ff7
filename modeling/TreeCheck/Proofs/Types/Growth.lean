/-
The table of types only grows. A number keeps its form, a group keeps its members, and a
class keeps its name, its declaration and, as an instance, the class it is an instance of
and its arguments; only the base and the parameters of a class are filled in later, where
its declaration is turned into a type. Every other operation on types leaves the classes
that are there alone and adds no classes but instances of them.
-/

import TreeCheck.Types.Operators
import TreeCheck.Typing.Overloads

namespace TreeCheck

open TypeTable

variable {table before after : TypeTable} {id generic : TypeId} {info : ClassInfo} {decl : DeclId}

namespace TypeTable

/-- The second table knows of every type what the first one knows. -/
structure Grows (before after : TypeTable) : Prop where
  form : ∀ {id : Nat} {form}, before.forms[id]? = some form → after.forms[id]? = some form
  group : ∀ {slot members}, before.groups.get? slot = some members →
    after.groups.get? slot = some members
  classInfo : ∀ {slot info}, before.classes.get? slot = some info →
    ∃ later, after.classes.get? slot = some later ∧ later.name = info.name ∧
      later.decl = info.decl ∧ later.generic = info.generic ∧ later.args = info.args
  enumInfo : ∀ {slot info}, before.enums.get? slot = some info →
    after.enums.get? slot = some info
  paramInfo : ∀ {slot info}, before.params.get? slot = some info →
    after.params.get? slot = some info

namespace Grows

theorem refl (table : TypeTable) : table.Grows table :=
  ⟨id, id, fun found => ⟨_, found, rfl, rfl, rfl, rfl⟩, id, id⟩

theorem trans {first second third : TypeTable} (early : first.Grows second)
    (late : second.Grows third) : first.Grows third where
  form found := late.form (early.form found)
  group found := late.group (early.group found)
  classInfo found := by
    obtain ⟨middle, foundMiddle, name, decl, generic, args⟩ := early.classInfo found
    obtain ⟨last, foundLast, name', decl', generic', args'⟩ := late.classInfo foundMiddle
    exact ⟨last, foundLast, name'.trans name, decl'.trans decl, generic'.trans generic,
      args'.trans args⟩
  enumInfo found := late.enumInfo (early.enumInfo found)
  paramInfo found := late.paramInfo (early.paramInfo found)

theorem classInfo? (grows : before.Grows after) (found : before.classInfo? id = some info) :
    ∃ later, after.classInfo? id = some later ∧ later.decl = info.decl ∧
      later.generic = info.generic := by
  unfold TypeTable.classInfo? form? at found ⊢
  split at found
  · next slot isForm =>
    split at isForm
    · nomatch isForm
    · next known =>
      obtain ⟨later, there, -, decl, generic, -⟩ := grows.classInfo found
      rw [if_neg known, grows.form isForm]
      exact ⟨later, there, decl, generic⟩
  · nomatch found

theorem classDecl (grows : before.Grows after) (found : before.classDecl id = some decl) :
    after.classDecl id = some decl := by
  obtain ⟨info, isInfo, rfl⟩ := Option.map_eq_some_iff.mp found
  obtain ⟨later, there, same, -⟩ := grows.classInfo? isInfo
  simp [classDecl, there, same]

end Grows

/-! ### Instances -/

/-- An instance of a class, with arguments and without a base of its own. -/
structure IsInstance (table : TypeTable) (info : ClassInfo) : Prop where
  known : info.generic ≠ 0
  generic : ∃ origin, table.classInfo? info.generic = some origin ∧ origin.generic = 0 ∧
    origin.decl = info.decl
  args : info.args ≠ []
  base : info.base = 0

/-- Number zero is no class, and whatever refers to a class it is an instance of is one. -/
structure Formed (table : TypeTable) : Prop where
  unknown : table.forms[0]? = some .invalid
  instances : ∀ {slot info}, table.classes.get? slot = some info → info.generic ≠ 0 →
    table.IsInstance info

theorem classInfo?_eq_some (found : table.classInfo? id = some info) :
    ∃ slot, table.form? id = some (.classType slot) ∧ table.classes.get? slot = some info := by
  unfold classInfo? at found
  split at found
  · next slot isForm => exact ⟨slot, isForm, found⟩
  · nomatch found

/-- A class is what its instances are made of, and an instance is made of a class. -/
theorem Formed.origin (formed : table.Formed) (found : table.classInfo? id = some info) :
    ∃ origin, table.classInfo? (if info.generic = 0 then id else info.generic) = some origin ∧
      origin.generic = 0 ∧ origin.decl = info.decl := by
  split
  · next top => exact ⟨info, found, top, rfl⟩
  · next known =>
    obtain ⟨slot, -, there⟩ := classInfo?_eq_some found
    exact (formed.instances there known).generic

/-- The second table says of every type what the first one says, bases and parameters of classes
included. -/
structure Keeps (before after : TypeTable) : Prop where
  form : ∀ {id : Nat} {form}, before.forms[id]? = some form → after.forms[id]? = some form
  group : ∀ {slot members}, before.groups.get? slot = some members →
    after.groups.get? slot = some members
  classInfo : ∀ {slot info}, before.classes.get? slot = some info →
    after.classes.get? slot = some info
  enumInfo : ∀ {slot info}, before.enums.get? slot = some info →
    after.enums.get? slot = some info
  paramInfo : ∀ {slot info}, before.params.get? slot = some info →
    after.params.get? slot = some info
  endless : before.endless → after.endless

namespace Keeps

variable {before middle after : TypeTable}

theorem refl (table : TypeTable) : table.Keeps table :=
  ⟨id, id, id, id, id, id⟩

theorem trans (early : before.Keeps middle) (late : middle.Keeps after) : before.Keeps after where
  form found := late.form (early.form found)
  group found := late.group (early.group found)
  classInfo found := late.classInfo (early.classInfo found)
  enumInfo found := late.enumInfo (early.enumInfo found)
  paramInfo found := late.paramInfo (early.paramInfo found)
  endless given := late.endless (early.endless given)

theorem grows (keeps : before.Keeps after) : before.Grows after :=
  ⟨keeps.form, keeps.group, fun found => ⟨_, keeps.classInfo found, rfl, rfl, rfl, rfl⟩,
    keeps.enumInfo, keeps.paramInfo⟩

/-- Filling in a class that was not there keeps all that were. -/
theorem modifyClass (keeps : before.Keeps after) {slot : Nat}
    (isForm : after.form? id = some (.classType slot)) (fresh : before.classes.get? slot = none)
    (change : ClassInfo → ClassInfo) : before.Keeps (after.modifyClass id change) := by
  rw [TypeTable.modifyClass, isForm]
  refine ⟨keeps.form, keeps.group, fun {other info} found => ?_, keeps.enumInfo, keeps.paramInfo,
    keeps.endless⟩
  have apart : other ≠ slot := by
    rintro rfl
    cases fresh.symm.trans found
  simpa [Arena.get?_modify, apart] using keeps.classInfo found

theorem setBase (keeps : before.Keeps after) {slot : Nat}
    (isForm : after.form? id = some (.classType slot)) (fresh : before.classes.get? slot = none)
    (base : TypeId) : before.Keeps (after.setBase id base) := by
  unfold TypeTable.setBase
  split
  · exact keeps
  · exact keeps.modifyClass isForm fresh _

end Keeps

/-- The second table has the types of the first one, and no classes but those and instances of
them. -/
structure Extends (before after : TypeTable) : Prop extends Keeps before after where
  added : before.Formed → ∀ {slot info}, after.classes.get? slot = some info →
    before.classes.get? slot = some info ∨ after.IsInstance info

namespace Extends

variable {before middle after : TypeTable}

theorem grows (more : before.Extends after) : before.Grows after := more.toKeeps.grows

theorem classInfo? (more : before.Extends after) (found : before.classInfo? id = some info) :
    after.classInfo? id = some info := by
  unfold TypeTable.classInfo? form? at found ⊢
  split at found
  · next slot isForm =>
    split at isForm
    · nomatch isForm
    · next known =>
      rw [if_neg known, more.form isForm]
      exact more.classInfo found
  · nomatch found

theorem isInstance (more : before.Extends after) {info : ClassInfo}
    (isInstance : before.IsInstance info) : after.IsInstance info := by
  obtain ⟨origin, found, top, decl⟩ := isInstance.generic
  exact ⟨isInstance.known, ⟨origin, more.classInfo? found, top, decl⟩, isInstance.args,
    isInstance.base⟩

theorem formed (more : before.Extends after) (formed : before.Formed) : after.Formed where
  unknown := more.form formed.unknown
  instances found known := by
    rcases more.added formed found with old | new
    · exact more.isInstance (formed.instances old known)
    · exact new

theorem refl (table : TypeTable) : table.Extends table :=
  ⟨.refl table, fun _ _ _ found => .inl found⟩

theorem trans (early : before.Extends middle) (late : middle.Extends after) :
    before.Extends after where
  toKeeps := early.toKeeps.trans late.toKeeps
  added formed _ _ found := by
    rcases late.added (early.formed formed) found with old | new
    · exact (early.added formed old).imp_right late.isInstance
    · exact .inr new

end Extends

/-! ### Single operations -/

theorem extends_push (table : TypeTable) (form : TypeForm) :
    table.Extends (table.push form).2 where
  form found := by
    have bound := (Array.getElem?_eq_some_iff.mp found).1
    simp only [push, Array.getElem?_push, Nat.ne_of_lt bound, if_false]
    exact found
  group := id
  classInfo := id
  enumInfo := id
  paramInfo := id
  endless := id
  added _ _ _ found := .inl found

theorem extends_intern (table : TypeTable) (form : TypeForm) :
    table.Extends (table.intern form).2 := by
  unfold intern
  split
  · exact .refl table
  · split
    · exact .refl table
    · exact extends_push table form

theorem extends_group (table : TypeTable) (kind : GroupKind) (ids : List TypeId) :
    table.Extends (table.group kind ids).2 := by
  unfold group
  split
  · exact .refl table
  · exact ⟨⟨id, Arena.get?_push_of_some _, id, id, id, id⟩, fun _ _ _ found => .inl found⟩

theorem extends_makeTuple (table : TypeTable) (elems : List TypeId) :
    table.Extends (table.makeTuple elems).2 :=
  (extends_group table .tuple elems).trans (extends_intern _ _)

theorem extends_makeMulti (table : TypeTable) (candidates : List TypeId) :
    table.Extends (table.makeMulti candidates).2 := by
  unfold makeMulti
  split
  · exact .refl table
  · exact .refl table
  · exact (extends_group table .multi _).trans (extends_intern _ _)

theorem extends_registerEnum (table : TypeTable) (name : String) (decl : DeclId) :
    table.Extends (table.registerEnum name decl).2 := by
  have added : table.Extends { table with enums := table.enums.push { name, decl } } :=
    ⟨⟨id, id, id, Arena.get?_push_of_some _, id, id⟩, fun _ _ _ found => .inl found⟩
  exact added.trans (extends_push _ _)

theorem extends_registerParam (table : TypeTable) (name : String) (decl : DeclId)
    (constraint : Constraint) : table.Extends (table.registerParam name decl constraint).2 := by
  have added : table.Extends { table with params := table.params.push { name, decl, constraint } } :=
    ⟨⟨id, id, id, id, Arena.get?_push_of_some _, id⟩, fun _ _ _ found => .inl found⟩
  exact added.trans (extends_push _ _)

theorem classInfo?_zero (table : TypeTable) : table.classInfo? 0 = none := rfl

section Known

variable {table : TypeTable} (taken : table.forms[0]? = some .invalid)

include taken

/-- Number zero is taken by the unknown type. -/
theorem push_ne_zero (form : TypeForm) : (table.push form).1 ≠ 0 :=
  Nat.ne_of_gt (Array.getElem?_eq_some_iff.mp taken).1

theorem form?_push (form : TypeForm) : (table.push form).2.form? (table.push form).1 = some form := by
  rw [form?, if_neg (push_ne_zero taken form)]
  exact Array.getElem?_push_size

theorem intern_ne_zero {form : TypeForm} (known : form ≠ .invalid) : (table.intern form).1 ≠ 0 := by
  unfold intern
  rw [if_neg known]
  split
  · next found isFound =>
    rintro rfl
    obtain ⟨index, isIndex, first⟩ := Option.map_eq_some_iff.mp isFound
    have isForm := (Array.finIdxOf?_eq_some_iff.mp isIndex).1
    have isForm : table.forms[index.val]? = some form := by simp [← isForm]
    rw [first, taken] at isForm
    exact known (Option.some.inj isForm).symm
  · exact push_ne_zero taken form

theorem makeTuple_ne_zero (elems : List TypeId) : (table.makeTuple elems).1 ≠ 0 :=
  intern_ne_zero ((extends_group table .tuple elems).form taken) nofun

end Known

theorem builtin?_ne_zero {name : String} {type : TypeId} (isType : builtin? name = some type) :
    type ≠ 0 := by
  unfold builtin? at isType
  split at isType
  case h_8 => cases isType
  all_goals
    rw [← Option.some.inj isType]
    decide

/-- The primitive types are those that are written by name. -/
theorem not_isSome_of_builtin?_eq_none {name : String} (none : builtin? name = none) :
    ¬(TypeKind.ofBuiltin? name).isSome := by
  intro known
  obtain ⟨kind, isKind⟩ := Option.isSome_iff_exists.mp known
  rw [builtin?, isKind] at none
  unfold TypeKind.ofBuiltin? at isKind
  split at isKind <;> cases isKind <;> cases none

/-- An instance of a class that is there is added. -/
theorem extends_addInstance (table : TypeTable)
    (isInstance : table.Formed → table.IsInstance info) :
    table.Extends { table with classes := table.classes.push info } := by
  refine ⟨⟨id, id, Arena.get?_push_of_some _, id, id, id⟩, fun formed slot other found => ?_⟩
  by_cases fresh : slot = table.classes.next
  · rw [fresh, Arena.get?_push_self, Option.some.injEq] at found
    subst found
    obtain ⟨known, ⟨origin, there, top, decl⟩, args, base⟩ := isInstance formed
    refine .inr ⟨known, ⟨origin, ?_, top, decl⟩, args, base⟩
    unfold classInfo? at there ⊢
    split at there
    · next isForm =>
      have isForm' : form? { table with classes := table.classes.push info } info.generic = _ :=
        isForm
      rw [isForm']
      exact Arena.get?_push_of_some _ there
    · nomatch there
  · exact .inl ((Arena.get?_push_other _ _ fresh).symm.trans found)

theorem form?_addClass {table : TypeTable} (formed : table.Formed) (info : ClassInfo) :
    let (id, after) :=
      push { table with classes := table.classes.push info } (.classType table.classes.next)
    after.form? id = some (.classType table.classes.next) := by
  have bound : 0 < table.size := (Array.getElem?_eq_some_iff.mp formed.unknown).1
  show form? (push { table with classes := table.classes.push info }
    (.classType table.classes.next)).2 table.size = _
  rw [form?, if_neg (Nat.ne_of_gt bound)]
  exact Array.getElem?_push_size

/-- A class that was added is known under its number. -/
theorem classInfo?_addClass {table : TypeTable} (formed : table.Formed) (info : ClassInfo) :
    let (id, after) :=
      push { table with classes := table.classes.push info } (.classType table.classes.next)
    after.classInfo? id = some info := by
  have isForm := form?_addClass formed info
  dsimp only at isForm ⊢
  rw [classInfo?, isForm]
  exact Arena.get?_push_self _ _

theorem keeps_registerClass (table : TypeTable) (name : String) (decl : DeclId) :
    table.Keeps (table.registerClass name decl).2 := by
  have added : table.Keeps { table with classes := table.classes.push { name, decl } } :=
    ⟨id, id, Arena.get?_push_of_some _, id, id, id⟩
  exact added.trans (extends_push _ _).toKeeps

theorem grows_registerClass (table : TypeTable) (name : String) (decl : DeclId) :
    table.Grows (table.registerClass name decl).2 :=
  (table.keeps_registerClass name decl).grows

/-- Filling in the base or the parameters of a class changes nothing else about it. -/
theorem grows_modifyClass (table : TypeTable) (id : TypeId) (change : ClassInfo → ClassInfo)
    (keeps : ∀ info, (change info).name = info.name ∧ (change info).decl = info.decl ∧
      (change info).generic = info.generic ∧ (change info).args = info.args) :
    table.Grows (table.modifyClass id change) := by
  unfold modifyClass
  split
  · next slot _ =>
    refine ⟨fun found => found, fun found => found, fun {other info} found => ?_, fun found =>
      found, fun found => found⟩
    by_cases same : other = slot
    · refine ⟨change info, ?_, keeps info⟩
      simp only [Arena.get?_modify, same, if_true]
      rw [← same, found]
      rfl
    · refine ⟨info, ?_, rfl, rfl, rfl, rfl⟩
      simp only [Arena.get?_modify, same, if_false]
      exact found
  · exact .refl table

theorem grows_setBase (table : TypeTable) (id base : TypeId) :
    table.Grows (table.setBase id base) := by
  unfold setBase
  split
  · exact .refl table
  · exact grows_modifyClass table id _ fun _ => ⟨rfl, rfl, rfl, rfl⟩

theorem grows_setParams (table : TypeTable) (id : TypeId) (params : List TypeId) :
    table.Grows (table.setParams id params) :=
  grows_modifyClass table id _ fun _ => ⟨rfl, rfl, rfl, rfl⟩

end TypeTable

/-! ### Operations on the table -/

namespace TypeM

/-- An operation that extends the table, whatever it was. -/
def Growing {α : Type} (action : TypeM α) : Prop :=
  ∀ table : TypeTable, table.Extends (action.run table).2

namespace Growing

variable {α β : Type}
variable {test : α → TypeM Bool}

theorem pure (value : α) : Growing (Pure.pure value : TypeM α) := fun table => .refl table

theorem bind {action : TypeM α} {next : α → TypeM β} (first : Growing action)
    (later : ∀ value, Growing (next value)) : Growing (action >>= next) := fun table =>
  (first table).trans (later _ _)

theorem get : Growing (MonadState.get : TypeM TypeTable) := fun table => .refl table

theorem mapM {actions : α → TypeM β} (grows : ∀ item, Growing (actions item)) (items : List α) :
    Growing (items.mapM actions) := by
  induction items with
  | nil => exact .pure _
  | cons item rest inductionHypothesis =>
    rw [List.mapM_cons]
    exact .bind (grows item) fun _ => .bind inductionHypothesis fun _ => .pure _

theorem foldlM {step : β → α → TypeM β} (grows : ∀ value item, Growing (step value item))
    (items : List α) (start : β) : Growing (items.foldlM step start) := by
  induction items generalizing start with
  | nil => exact .pure _
  | cons item rest inductionHypothesis => exact .bind (grows start item) inductionHypothesis

theorem anyM (grows : ∀ item, Growing (test item)) (items : List α) :
    Growing (items.anyM test) := by
  induction items with
  | nil => exact .pure _
  | cons item rest inductionHypothesis =>
    refine .bind (grows item) fun found => ?_
    cases found with
    | true => exact .pure _
    | false => exact inductionHypothesis

theorem allM (grows : ∀ item, Growing (test item)) (items : List α) :
    Growing (items.allM test) := by
  induction items with
  | nil => exact .pure _
  | cons item rest inductionHypothesis =>
    refine .bind (grows item) fun found => ?_
    cases found with
    | true => exact inductionHypothesis
    | false => exact .pure _

end Growing

theorem growing_intern (form : TypeForm) : Growing (intern form) := fun table =>
  table.extends_intern form

theorem growing_makeTuple (elems : List TypeId) : Growing (makeTuple elems) := fun table =>
  table.extends_makeTuple elems

theorem growing_makeMulti (candidates : List TypeId) : Growing (makeMulti candidates) :=
  fun table => table.extends_makeMulti candidates

theorem run_get_bind {α : Type} (next : TypeTable → TypeM α) (table : TypeTable) :
    (MonadState.get >>= next).run table = (next table).run table :=
  rfl

theorem growing_instantiate (generic : TypeId) (args : List TypeId) :
    Growing (instantiate generic args) := by
  intro table
  unfold instantiate
  rw [run_get_bind]
  split
  · exact .refl table
  · next info isClass =>
    split
    · exact .refl table
    · next given =>
      rw [run_get_bind]
      split
      · exact .refl table
      · next found isOrigin =>
        rw [run_get_bind]
        split
        · exact .refl table
        · refine (table.extends_addInstance fun formed => ?_).trans (extends_push _ _)
          obtain ⟨origin, there, top, -⟩ := formed.origin isClass
          cases isOrigin.symm.trans there
          refine ⟨fun unknown => ?_, ⟨found, isOrigin, top, rfl⟩, by simpa using given, rfl⟩
          dsimp only at unknown
          rw [unknown, classInfo?_zero] at isOrigin
          nomatch isOrigin

theorem findInstance?_eq_some (formed : table.Formed) {args : List TypeId}
    (found : findInstance? table generic args = some id) :
    ∃ info, table.classInfo? id = some info ∧ info.generic = generic := by
  obtain ⟨bound, fits, -⟩ := Array.findIdx?_eq_some_iff_getElem.mp found
  have there : table.forms[id]? = some table.forms[id] := Array.getElem?_eq_getElem bound
  split at fits
  · next slot isForm =>
    split at fits
    · next info isInfo =>
      have known : id ≠ 0 := by
        rintro rfl
        rw [formed.unknown, isForm] at there
        nomatch there
      refine ⟨info, ?_, by simp only [Bool.and_eq_true, decide_eq_true_eq] at fits; exact fits.1⟩
      rw [classInfo?, form?, if_neg known, there, isForm]
      exact isInfo
    · nomatch fits
  · nomatch fits

/-- An instance of a class has the declaration of the class. -/
theorem instantiate_decl (formed : table.Formed) (isClass : table.classDecl generic = some decl)
    (args : List TypeId) :
    ((instantiate generic args).run table).2.classDecl ((instantiate generic args).run table).1 =
      some decl := by
  obtain ⟨info, isInfo, rfl⟩ := Option.map_eq_some_iff.mp isClass
  obtain ⟨origin, there, top, same⟩ := formed.origin isInfo
  unfold instantiate
  rw [run_get_bind, isInfo]
  dsimp only
  split
  · exact isClass
  · rw [run_get_bind, there]
    dsimp only
    rw [run_get_bind]
    split
    · next id found =>
      obtain ⟨other, isOther, isGeneric⟩ := findInstance?_eq_some formed found
      have known : other.generic ≠ 0 := by
        rintro unknown
        rw [isGeneric] at unknown
        rw [unknown, classInfo?_zero] at there
        nomatch there
      obtain ⟨slot, -, isSlot⟩ := classInfo?_eq_some isOther
      obtain ⟨origin', there', -, same'⟩ := (formed.instances isSlot known).generic
      rw [isGeneric, there] at there'
      cases there'
      show table.classDecl id = _
      rw [classDecl, isOther, Option.map_some, ← same', same]
    · rw [← same]
      exact congrArg (Option.map ClassInfo.decl) (classInfo?_addClass formed _)

theorem growing_substituteWithin (params args : List TypeId) (levels : Nat) (id : TypeId) :
    Growing (substituteWithin params args levels id) := by
  induction levels generalizing id with
  | zero => exact .pure _
  | succ levels inductionHypothesis =>
    refine .bind .get fun table => ?_
    split
    · split <;> exact .pure _
    · refine .bind (inductionHypothesis _) fun replaced => ?_
      split
      · exact .pure _
      · exact growing_intern _
    · refine .bind (inductionHypothesis _) fun replaced => ?_
      split
      · exact .pure _
      · exact growing_intern _
    · exact .bind .get fun _ => .bind (.mapM inductionHypothesis _) fun _ => growing_makeTuple _
    · exact .bind .get fun _ => .bind (.mapM inductionHypothesis _) fun _ => growing_makeMulti _
    · refine .bind .get fun table => ?_
      split
      · split
        · exact .pure _
        · exact .bind (.mapM inductionHypothesis _) fun _ => growing_instantiate _ _
      · exact .pure _
    · exact .pure _

theorem growing_substitute (params args : List TypeId) (id : TypeId) :
    Growing (substitute params args id) := by
  unfold substitute
  split
  · exact .pure _
  · exact growing_substituteWithin _ _ _ _

theorem growing_baseOf (id : TypeId) : Growing (baseOf id) := by
  refine .bind .get fun table => ?_
  split
  · exact .pure _
  · split
    · exact .pure _
    · refine .bind .get fun table => ?_
      split
      · exact .pure _
      · split
        · exact .pure _
        · exact growing_substitute _ _ _

theorem growing_giveUp : Growing giveUp := fun _ =>
  ⟨⟨id, id, id, id, id, fun _ => rfl⟩, fun _ _ _ found => .inl found⟩

theorem growing_ancestorsWithin (steps : Nat) (seen : List TypeId) (id : TypeId) :
    Growing (ancestorsWithin steps seen id) := by
  induction steps generalizing seen id with
  | zero =>
    refine .bind (growing_baseOf id) fun base => ?_
    split
    · exact .pure _
    · exact .bind growing_giveUp fun _ => .pure _
  | succ steps inductionHypothesis =>
    refine .bind (growing_baseOf id) fun base => ?_
    split
    · exact .pure _
    · exact .bind (inductionHypothesis _ _) fun _ => .pure _

theorem growing_ancestors (id : TypeId) : Growing (ancestors id) :=
  .bind .get fun _ => growing_ancestorsWithin _ _ _

theorem growing_isAncestor (ancestor id : TypeId) : Growing (isAncestor ancestor id) :=
  .bind (growing_ancestors id) fun _ => .bind .get fun _ => .pure _

theorem growing_compatibleWithin (levels : Nat) (left right : TypeId) :
    Growing (compatibleWithin levels left right) := by
  induction levels generalizing left right with
  | zero => exact .pure _
  | succ levels inductionHypothesis =>
    unfold compatibleWithin
    split
    · exact .pure _
    · refine .bind .get fun table => ?_
      split
      · exact .pure _
      · split
        · exact .anyM (fun candidate => inductionHypothesis candidate right) _
        · exact .anyM (fun candidate => inductionHypothesis left candidate) _
        · refine .bind (growing_isAncestor _ _) fun found => ?_
          split
          · exact .pure _
          · exact growing_isAncestor _ _
        · split
          · exact .pure _
          · exact inductionHypothesis _ _
        · split
          · exact .pure _
          · exact inductionHypothesis _ _
        · dsimp only
          split
          · exact .pure _
          · exact .allM (fun (pair : TypeId × TypeId) => inductionHypothesis pair.1 pair.2) _
        · exact .pure _

theorem growing_compatible (left right : TypeId) : Growing (compatible left right) :=
  growing_compatibleWithin _ _ _

theorem growing_binaryType? (op : BinaryOp) (left right : TypeId) :
    Growing (binaryType? op left right) := by
  unfold binaryType?
  induction op.rules with
  | nil => exact .pure _
  | cons rule rest inductionHypothesis =>
    have fits : Growing (ruleFits rule left right) := by
      refine .bind .get fun table => ?_
      split
      · exact .pure _
      · split
        · exact .pure _
        · refine .bind (growing_compatible left right) fun found => ?_
          split
          · exact .pure _
          · exact growing_compatible right left
    refine .bind fits fun fitting => ?_
    split
    · exact .bind .get fun _ => .pure _
    · exact inductionHypothesis

end TypeM

namespace TypeCheck

open TypeM

theorem growing_matchWithin (params : List TypeId) (levels : Nat) (binding : List TypeId)
    (formal actual : TypeId) : Growing (matchWithin params levels binding formal actual) := by
  induction levels generalizing binding formal actual with
  | zero => exact .pure _
  | succ levels inductionHypothesis =>
    have pairwise (pairs : List (TypeId × TypeId)) (start : List TypeId) :
        Growing (pairs.foldlM
          (fun binding (pair : TypeId × TypeId) =>
            matchWithin params levels binding pair.1 pair.2) start) :=
      .foldlM (fun binding pair => inductionHypothesis binding pair.1 pair.2) pairs start
    unfold matchWithin
    split
    · exact .pure _
    · split
      · exact .pure _
      · refine .bind .get fun table => ?_
        dsimp only
        split
        · split
          · exact inductionHypothesis _ _ _
          · split
            · exact .bind (growing_intern _) fun _ => inductionHypothesis _ _ _
            · exact .pure _
        · split
          · exact inductionHypothesis _ _ _
          · split
            · exact .bind (growing_intern _) fun _ => inductionHypothesis _ _ _
            · exact .pure _
        · split
          · exact pairwise _ _
          · exact .pure _
        · split
          · split
            · exact pairwise _ _
            · exact .pure _
          · exact .pure _
        · exact .pure _

theorem growing_infer (params formals actuals : List TypeId) :
    Growing (infer params formals actuals) :=
  .foldlM (fun binding (pair : TypeId × TypeId) =>
    growing_matchWithin params _ binding pair.1 pair.2) _ _

theorem growing_exactArgs (overload : Overload) (pairs : List (TypeId × TypeId)) :
    Growing (exactArgs overload pairs) := by
  induction pairs with
  | nil => exact .pure _
  | cons pair rest inductionHypothesis =>
    unfold exactArgs
    split
    · exact inductionHypothesis
    · refine .bind (growing_substitute _ _ _) fun replaced => .bind .get fun table => ?_
      split
      · exact inductionHypothesis
      · exact .pure _

end TypeCheck

end TreeCheck
