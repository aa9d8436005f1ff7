/-
The bases of a class are a strict order. Neither the numbers of types nor the size of the table
bounds the way from base to base, since for an instance every step may enter a type. What
descends is the class of its own behind the base: each step goes from one to the one it inherits
from, and where that relation has no circle the way ends without the guard against types met
again. A base that arguments turn into something else could lead anywhere, so a recorded base
is neither a parameter of its class nor a union.

That the bases of a base are the rest of the bases, and that they stay, is repeatability: asked
again in a table that keeps everything, each operation enters nothing and gives what it gave.
-/

import TreeCheck.Proofs.Types.Canonicity
import TreeCheck.Proofs.Types.Hierarchy

namespace TreeCheck

open TypeM

variable {form : TypeForm} {info : ClassInfo} {id origin generic derived : TypeId}
  {params args candidates : List TypeId}

namespace TypeTable

variable {table before after : TypeTable}

/-! ### Tables that keep everything -/

namespace Keeps

section

variable (keeps : before.Keeps after)

include keeps

theorem lt_size (there : id < before.size) :
    id < after.size :=
  Nat.lt_of_lt_of_le there keeps.grows.size_le

theorem all_lt_size {ids : List TypeId} (there : AllThere ids before) :
    AllThere ids after :=
  fun id among => keeps.lt_size (there id among)

theorem form?_eq (there : id < before.size) :
    after.form? id = before.form? id :=
  keeps.grows.form?_eq there

theorem form?_of_some
    (isForm : before.form? id = some form) : after.form? id = some form :=
  (keeps.form?_eq (lt_size_of_form (form?_eq_some.mp isForm).2)).trans isForm

theorem kindOf_eq (there : id < before.size) :
    after.kindOf id = before.kindOf id := by
  rw [kindOf, kindOf, keeps.form?_eq there]

theorem classInfo?_eq (sound : before.Sound)
    (there : id < before.size) : after.classInfo? id = before.classInfo? id := by
  unfold classInfo?
  rw [keeps.form?_eq there]
  split
  · next slot isForm =>
    obtain ⟨info, found⟩ := Option.isSome_iff_exists.mp (sound.holds (form?_eq_some.mp isForm).2)
    rw [found, keeps.classInfo found]
  · rfl

theorem classInfo?_of_some
    (isClass : before.classInfo? id = some info) : after.classInfo? id = some info := by
  obtain ⟨slot, isForm, isInfo⟩ := classInfo?_eq_some isClass
  rw [classInfo?, keeps.form?_of_some isForm]
  exact keeps.classInfo isInfo

end

end Keeps

/-! ### The class behind a type -/

/-- The class of its own that a type is, or is an instance of. -/
def origin? (table : TypeTable) (id : TypeId) : Option TypeId :=
  (table.classInfo? id).map fun info => if info.generic = 0 then id else info.generic

/-- Arguments in place of the parameters do not turn the type into one of another kind. -/
structure Rigid (table : TypeTable) (params : List TypeId) (id : TypeId) : Prop where
  noUnion : table.kindOf id ≠ .multi
  noParam : table.kindOf id = .param → id ∉ params

/-- What is recorded as the base of a class of its own is neither one of its parameters nor a
union. -/
def FixedBases (table : TypeTable) : Prop :=
  ∀ {id info}, table.classInfo? id = some info → info.generic = 0 →
    table.Rigid info.params info.base

/-- The class of its own behind the recorded base of a class of its own. -/
def inherited? (table : TypeTable) (id : TypeId) : Option TypeId := do
  let info ← table.classInfo? id
  if info.generic = 0 then table.origin? info.base else none

/-- A class of its own inherits from another one. -/
def Inherits (table : TypeTable) (derived base : TypeId) : Prop := table.inherited? derived = some base

/-- No class of its own inherits, over others, from itself. -/
def Acyclic (table : TypeTable) : Prop := ∀ id, ¬ Relation.TransGen table.Inherits id id

/-- Whether a type is a class of its own, not an instance of one. -/
def isOwn (table : TypeTable) (id : TypeId) : Bool := (table.classInfo? id).any (·.generic = 0)

def ownClasses (table : TypeTable) : List TypeId := (List.range table.size).filter table.isOwn

theorem origin?_of_form (isForm : table.form? id = some form)
    (other : ∀ slot, form ≠ .classType slot) : table.origin? id = none := by
  rw [origin?, classInfo?, isForm]
  cases form with
  | classType slot => exact absurd rfl (other slot)
  | _ => rfl

theorem origin?_own (isClass : table.classInfo? id = some info)
    (own : info.generic = 0) : table.origin? id = some id := by
  rw [origin?, isClass, Option.map_some, if_pos own]

theorem origin?_instance (isClass : table.classInfo? id = some info)
    (isInstance : info.generic ≠ 0) : table.origin? id = some info.generic := by
  rw [origin?, isClass, Option.map_some, if_neg isInstance]

/-- The class behind a type is a class of its own. -/
theorem Sound.own_of_origin? (sound : table.Sound)
    (isOrigin : table.origin? id = some origin) :
    ∃ info, table.classInfo? origin = some info ∧ info.generic = 0 := by
  obtain ⟨info, isClass, rfl⟩ := Option.map_eq_some_iff.mp isOrigin
  obtain ⟨own, isOwn, top, -⟩ := sound.origin isClass
  exact ⟨own, isOwn, top⟩

theorem Keeps.origin?_eq (keeps : before.Keeps after) (sound : before.Sound)
    (there : id < before.size) : after.origin? id = before.origin? id := by
  rw [origin?, origin?, keeps.classInfo?_eq sound there]

theorem Keeps.origin?_of_some (keeps : before.Keeps after)
    (isOrigin : before.origin? id = some origin) : after.origin? id = some origin := by
  obtain ⟨info, isClass, rfl⟩ := Option.map_eq_some_iff.mp isOrigin
  rw [origin?, keeps.classInfo?_of_some isClass, Option.map_some]

/-- An instance that is there is the one that is found. -/
theorem Sound.findInstance?_eq (sound : table.Sound)
    (isClass : table.classInfo? id = some info) (isInstance : info.generic ≠ 0) :
    findInstance? table info.generic info.args = some id := by
  obtain ⟨slot, -, isInfo⟩ := classInfo?_eq_some isClass
  obtain ⟨other, found⟩ := Option.ne_none_iff_exists'.mp (sound.findInstance?_ne_none isInfo)
  obtain ⟨info', isClass', generic, args⟩ := sound.classInfo?_of_findInstance? found
  rw [found, sound.canonical.instances isClass isClass' isInstance generic.symm args.symm]

/-! ### Requests that redefine no class -/

/-- Whether a request gives a class another base or other parameters. -/
def Request.Redefines : Request → Prop
  | .setBase .. | .setParams .. => True
  | _ => False

theorem Request.keeps {request : Request} (onward : ¬ request.Redefines) (table : TypeTable) :
    table.Keeps (request.perform table) := by
  cases request with
  | intern form => exact (extends_intern ..).toKeeps
  | makeTuple elems => exact (extends_makeTuple ..).toKeeps
  | makeMulti candidates => exact (extends_makeMulti ..).toKeeps
  | registerClass name decl => exact keeps_registerClass ..
  | registerEnum name decl => exact (extends_registerEnum ..).toKeeps
  | registerParam name decl constraint => exact (extends_registerParam ..).toKeeps
  | setBase id base => exact absurd trivial onward
  | setParams id params => exact absurd trivial onward
  | instantiate generic args => exact (growing_instantiate generic args table).toKeeps
  | substitute params args id => exact (growing_substitute params args id table).toKeeps
  | baseOf id => exact (growing_baseOf id table).toKeeps

/-- The second table comes of the first by requests that redefine no class. -/
inductive Continued (table : TypeTable) : TypeTable → Prop where
  | start : Continued table table
  | next {middle} (request : Request) : Continued table middle → request.Allocated middle →
      ¬ request.Redefines → Continued table (request.perform middle)

theorem Continued.keeps (onward : Continued before after) : before.Keeps after := by
  induction onward with
  | start => exact .refl before
  | next request _ _ apart inductionHypothesis =>
    exact inductionHypothesis.trans (request.keeps apart _)

theorem Continued.sound (onward : Continued before after) (sound : before.Sound) : after.Sound := by
  induction onward with
  | start => exact sound
  | next request _ allocated _ inductionHypothesis =>
    exact (request.served inductionHypothesis allocated).sound inductionHypothesis

end TypeTable

/-! ### Operations that can be repeated -/

namespace TypeM

open TypeTable

variable {α β : Type} {table after later : TypeTable}
variable {action : TypeM α}

theorem endless_intern (table : TypeTable) (form : TypeForm) :
    (table.intern form).2.endless = table.endless := by
  unfold TypeTable.intern
  split
  · rfl
  · split <;> rfl

theorem endless_group (table : TypeTable) (kind : GroupKind) (ids : List TypeId) :
    (table.group kind ids).2.endless = table.endless := by
  unfold TypeTable.group
  split <;> rfl

theorem endless_makeTuple (table : TypeTable) (elems : List TypeId) :
    (table.makeTuple elems).2.endless = table.endless :=
  (endless_intern _ _).trans (endless_group table .tuple elems)

theorem endless_makeMulti (table : TypeTable) (candidates : List TypeId) :
    (table.makeMulti candidates).2.endless = table.endless := by
  unfold TypeTable.makeMulti
  split
  · rfl
  · rfl
  · exact (endless_intern _ _).trans (endless_group table .multi _)

theorem endless_instantiate (table : TypeTable) (generic : TypeId) (args : List TypeId) :
    ((instantiate generic args).run table).2.endless = table.endless := by
  unfold instantiate
  rw [run_get_bind]
  split
  · rfl
  · split
    · rfl
    · rw [run_get_bind]
      split
      · rfl
      · rw [run_get_bind]
        split <;> rfl

/-- An operation keeps everything that is there, meets no walk without end, gives something that
fits, and gives it again without entering anything, whatever was entered since. -/
structure Repeats (table : TypeTable) (post : α → TypeTable → Prop) (action : TypeM α) : Prop where
  sound : (action.run table).2.Sound
  keeps : table.Keeps (action.run table).2
  ends : (action.run table).2.endless = table.endless
  holds : post (action.run table).1 (action.run table).2
  again : ∀ {later}, (action.run table).2.Keeps later → later.Sound →
    action.run later = ((action.run table).1, later)

namespace Repeats

variable {post : α → TypeTable → Prop}

theorem pure (sound : table.Sound) {value : α} (holds : post value table) :
    Repeats table post (Pure.pure value) :=
  ⟨sound, .refl table, rfl, holds, fun _ _ => rfl⟩

theorem bind {result : β → TypeTable → Prop} {next : α → TypeM β}
    (first : Repeats table post action)
    (second : ∀ value after, table.Keeps after → after.Sound → post value after →
      Repeats after result (next value)) : Repeats table result (action >>= next) := by
  obtain ⟨sound, keeps, ends, holds, again⟩ := first
  obtain ⟨sound', keeps', ends', holds', again'⟩ := second _ _ keeps sound holds
  refine ⟨sound', keeps.trans keeps', ends'.trans ends, holds', fun {later} kept isSound => ?_⟩
  rw [run_bind_eq (again (keeps'.trans kept) isSound)]
  exact again' kept isSound

/-- What is read of a table has to be the same in every table that keeps everything. -/
theorem read {next : TypeTable → TypeM α}
    (same : ∀ {later}, table.Keeps later → later.Sound → next later = next table)
    (repeats : Repeats table post (next table)) : Repeats table post (get >>= next) := by
  refine ⟨repeats.sound, repeats.keeps, repeats.ends, repeats.holds, fun {later} kept isSound => ?_⟩
  rw [run_get_bind, same (repeats.keeps.trans kept) isSound]
  exact repeats.again kept isSound

theorem weaken {result : α → TypeTable → Prop} (repeats : Repeats table post action)
    (weaker : ∀ value after, table.Keeps after → after.Sound → post value after → result value after) :
    Repeats table result action :=
  ⟨repeats.sound, repeats.keeps, repeats.ends,
    weaker _ _ repeats.keeps repeats.sound repeats.holds, repeats.again⟩

theorem mapM {actions : α → TypeM TypeId} {items : List α} (sound : table.Sound)
    (each : ∀ item ∈ items, ∀ middle, table.Keeps middle → middle.Sound →
      Repeats middle There (actions item)) :
    Repeats table (fun made after => made.length = items.length ∧ AllThere made after)
      (items.mapM actions) := by
  induction items generalizing table with
  | nil => exact .pure sound ⟨rfl, nofun⟩
  | cons item rest inductionHypothesis =>
    rw [List.mapM_cons]
    refine .bind (each item (.head _) table (.refl table) sound)
      fun first middle kept sound isFirst => ?_
    refine .bind (inductionHypothesis sound fun other among middle' kept' =>
        each other (.tail _ among) middle' (kept.trans kept'))
      fun others after kept' sound ⟨length, areThere⟩ => .pure sound ⟨congrArg (· + 1) length, ?_⟩
    intro id among
    rcases List.mem_cons.mp among with rfl | among
    · exact kept'.lt_size isFirst
    · exact areThere id among

theorem intern (sound : table.Sound) (held : table.Holds form) (known : form ≠ .invalid) :
    Repeats table (fun id after => after.form? id = some form) (intern form) := by
  have sound' : (table.intern form).2.Sound := sound.intern held
  have isForm : (table.intern form).2.form? (table.intern form).1 = some form :=
    sound'.form?_of_forms (forms_intern table known) known
  exact ⟨sound', (extends_intern table form).toKeeps, endless_intern table form, isForm,
    fun kept isSound => isSound.intern_eq (kept.form?_of_some isForm)⟩

/-- A group and the form that refers to it are found again. -/
theorem group_again {kind : GroupKind} {members : List TypeId} {form : Nat → TypeForm}
    (entered : after.groups.get? (table.group kind members).1 = some (kind, members))
    (isForm : after.form? id = some (form (table.group kind members).1))
    (kept : after.Keeps later) (sound : later.Sound) :
    (later.group kind members).2.intern (form (later.group kind members).1) = (id, later) := by
  rw [sound.group_eq (kept.group entered)]
  exact sound.intern_eq (kept.form?_of_some isForm)

theorem makeTuple (sound : table.Sound) {elems : List TypeId} (there : AllThere elems table) :
    Repeats table (fun id after => after.kindOf id = .tuple) (makeTuple elems) := by
  have sound' : (table.makeTuple elems).2.Sound := sound.makeTuple there
  have isForm := sound'.form?_of_forms (forms_makeTuple table elems) nofun
  have entered : (table.makeTuple elems).2.groups.get? (table.group .tuple elems).1 =
      some (.tuple, elems) := (extends_intern _ _).group (table.groups_group .tuple elems)
  refine ⟨sound', (extends_makeTuple table elems).toKeeps, endless_makeTuple table elems,
    (sound.elems_makeTuple there).1,
    fun kept isSound => group_again entered isForm kept isSound⟩

/-- Two candidates or more that are left are a group in every table. -/
theorem makeMulti_of_several (several : 2 ≤ (distinct candidates).length) (table : TypeTable) :
    table.makeMulti candidates =
      (table.group .multi (distinct candidates)).2.intern
        (.multi (table.group .multi (distinct candidates)).1) := by
  unfold TypeTable.makeMulti
  split
  · next none => simp [none] at several
  · next one single => simp [single] at several
  · rfl

theorem makeMulti (sound : table.Sound) (there : AllThere candidates table) :
    Repeats table There (makeMulti candidates) := by
  have sound' : (table.makeMulti candidates).2.Sound := sound.makeMulti there
  refine ⟨sound', (extends_makeMulti table candidates).toKeeps, endless_makeMulti table candidates,
    makeMulti_lt sound there, fun {later} kept isSound => ?_⟩
  replace kept : (table.makeMulti candidates).2.Keeps later := kept
  show later.makeMulti candidates = ((table.makeMulti candidates).1, later)
  by_cases several : 2 ≤ (distinct candidates).length
  · rw [makeMulti_of_several several] at sound' kept ⊢
    rw [makeMulti_of_several several]
    have isForm := sound'.form?_of_forms (forms_intern _ nofun) nofun
    exact group_again ((extends_intern _ _).group (table.groups_group .multi _)) isForm kept isSound
  · unfold TypeTable.makeMulti
    split
    · rfl
    · rfl
    · next none one => exact absurd (two_le_length none one) several

/-- Without a class there is nothing to be made an instance of. -/
theorem instantiate_none (noClass : table.classInfo? generic = none) (args : List TypeId) :
    (instantiate generic args).run table = (0, table) := by
  unfold instantiate
  rw [run_get_bind, noClass]
  rfl

theorem instantiate_nil (isClass : table.classInfo? generic = some info) :
    (instantiate generic []).run table = (generic, table) := by
  unfold instantiate
  rw [run_get_bind, isClass]
  rfl

/-- An instance that is there is not made again. -/
theorem instantiate_again (sound : table.Sound) {made : TypeId} {info instance' : ClassInfo}
    (isClass : table.classInfo? generic = some info)
    (isMade : table.classInfo? made = some instance')
    (isGeneric : instance'.generic = if info.generic = 0 then generic else info.generic)
    (given : instance'.args ≠ []) :
    (instantiate generic instance'.args).run table = (made, table) := by
  obtain ⟨origin, isOrigin, -⟩ := sound.origin isClass
  rw [← isGeneric] at isOrigin
  have isInstance : instance'.generic ≠ 0 := by
    intro unknown
    rw [unknown, classInfo?_zero] at isOrigin
    nomatch isOrigin
  unfold instantiate
  rw [run_get_bind, isClass]
  dsimp only
  rw [if_neg (by simpa using given), run_get_bind, ← isGeneric, isOrigin]
  dsimp only
  rw [run_get_bind, sound.findInstance?_eq isMade isInstance]
  rfl

/-- What is made an instance of a class of its own has that class behind it. -/
theorem instantiate (sound : table.Sound) (isThere : generic < table.size)
    (there : AllThere args table) :
    Repeats table (fun made after => There made after ∧
        ∀ info, table.classInfo? generic = some info → info.generic = 0 →
          after.origin? made = some generic)
      (instantiate generic args) := by
  have keeps := (growing_instantiate generic args table).toKeeps
  have ends := endless_instantiate table generic args
  cases isClass : table.classInfo? generic with
  | none =>
    have ran := instantiate_none isClass args
    refine ⟨ran ▸ sound, keeps, ends, ran ▸ ⟨sound.positive, nofun⟩, fun {later} kept isSound => ?_⟩
    rw [ran] at kept ⊢
    exact instantiate_none ((kept.classInfo?_eq sound isThere).trans isClass) args
  | some info =>
    by_cases given : args = []
    · subst given
      have ran := instantiate_nil isClass
      refine ⟨ran ▸ sound, keeps, ends, ran ▸ ⟨isThere, fun info' same own => ?_⟩,
        fun {later} kept isSound => ?_⟩
      · exact origin?_own (isClass.trans same) own
      · rw [ran] at kept ⊢
        exact instantiate_nil (kept.classInfo?_of_some isClass)
    · obtain ⟨sound', made, isMade, isGeneric, rfl⟩ := sound.instance_spec isClass given there
      refine ⟨sound', keeps, ends, ⟨lt_size_of_classInfo isMade, fun info' same own => ?_⟩,
        fun {later} kept isSound => ?_⟩
      · cases same
        rw [if_pos own] at isGeneric
        have isInstance : made.generic ≠ 0 := by
          intro unknown
          rw [← isGeneric, unknown, classInfo?_zero] at isClass
          nomatch isClass
        rw [origin?_instance isMade isInstance, isGeneric]
      · exact instantiate_again isSound (kept.classInfo?_of_some (keeps.classInfo?_of_some isClass))
          (kept.classInfo?_of_some isMade) isGeneric given

end Repeats

/-- A substitution can be repeated, and what it makes of a type that it does not turn into another
kind has the same class behind it. -/
theorem repeats_substituteWithin {levels : Nat} (sound : table.Sound)
    (given : AllThere args table) (there : id < table.size) :
    Repeats table (fun made after => There made after ∧
        (table.Rigid params id → after.origin? made = table.origin? id))
      (substituteWithin params args levels id) := by
  induction levels generalizing table id with
  | zero => exact .pure sound ⟨there, fun _ => rfl⟩
  | succ levels inductionHypothesis =>
    have older {form : TypeForm} (isForm : table.form? id = some form) :
        AllThere (table.parts form) table := fun part among =>
      Nat.lt_trans (sound.part_lt_of_form? isForm part among) there
    have each {ids : List TypeId} (areThere : AllThere ids table) :=
      Repeats.mapM sound fun part among middle kept isSound =>
        (inductionHypothesis isSound (kept.all_lt_size given)
          (kept.lt_size (areThere part among))).weaken fun _ _ _ _ fits => fits.1
    -- Lists and arrays differ in their form only.
    have rebuild {whole : TypeId → TypeForm} {elem : TypeId}
        (isForm : table.form? id = some (whole elem))
        (isThere : elem < table.size)
          (holds : ∀ {made after}, There made after → after.Holds (whole made))
        (known : ∀ made, whole made ≠ .invalid) (noClass : ∀ made slot, whole made ≠ .classType slot) :
        Repeats table (fun made after => There made after ∧
            (table.Rigid params id → after.origin? made = table.origin? id))
          (do
            let replaced ← substituteWithin params args levels elem
            if replaced = elem then return id else intern (whole replaced)) := by
      refine .bind (inductionHypothesis sound given isThere) fun replaced after kept isSound fits => ?_
      split
      · exact .pure isSound ⟨kept.lt_size there, fun _ => kept.origin?_eq sound there⟩
      · refine (Repeats.intern isSound (holds fits.1) (known replaced)).weaken
          fun made last _ _ isMade => ⟨lt_size_of_form (form?_eq_some.mp isMade).2, fun _ => ?_⟩
        rw [origin?_of_form isMade (noClass replaced), origin?_of_form isForm (noClass elem)]
    refine .read (fun kept _ => by simp only [kept.form?_eq there]) ?_
    split
    · next slot isForm =>
      split
      · next index isIndex =>
        refine .pure sound ⟨?_, fun rigid => ?_⟩
        · cases found : args[index]? with
          | none => exact there
          | some arg => exact given arg (List.mem_of_getElem? found)
        · refine absurd (List.isSome_idxOf?.mp (isIndex ▸ rfl)) (rigid.noParam ?_)
          rw [kindOf, isForm]
          rfl
      · exact .pure sound ⟨there, fun _ => rfl⟩
    · next elem dims isForm =>
      exact @rebuild (.list · dims) elem isForm (older isForm elem (.head _))
        (fun isThere => isThere) (by rintro _ ⟨⟩) (by rintro _ _ ⟨⟩)
    · next elem dims isForm =>
      exact @rebuild (.array · dims) elem isForm (older isForm elem (.head _))
        (fun isThere => isThere) (by rintro _ ⟨⟩) (by rintro _ _ ⟨⟩)
    · next slot isForm =>
      refine .read (fun kept _ => by simp only [kept.grows.elems_eq there sound]) ?_
      refine .bind (each (elems_of_tuple isForm ▸ older isForm)) fun replaced after kept isSound made =>
        (Repeats.makeTuple isSound made.2).weaken fun made last _ _ isTuple => ?_
      obtain ⟨slot', isMade⟩ := exists_of_kindOf_tuple isTuple
      refine ⟨lt_size_of_form (form?_eq_some.mp isMade).2, fun _ => ?_⟩
      rw [origin?_of_form isMade (by rintro _ ⟨⟩), origin?_of_form isForm (by rintro _ ⟨⟩)]
    · next slot isForm =>
      refine .read (fun kept _ => by simp only [kept.grows.elems_eq there sound]) ?_
      refine .bind (each (elems_of_multi isForm ▸ older isForm)) fun replaced after kept isSound made =>
        (Repeats.makeMulti isSound made.2).weaken fun made last _ _ isThere =>
          ⟨isThere, fun rigid => absurd ?_ rigid.noUnion⟩
      rw [kindOf, isForm]
      rfl
    · next slot isForm =>
      refine .read (fun kept _ => by simp only [kept.classInfo?_eq sound there]) ?_
      split
      · next info isClass =>
        split
        · exact .pure sound ⟨there, fun _ => rfl⟩
        · next isInstance =>
          have younger : AllThere (info.generic :: info.args) table := fun part among =>
            Nat.lt_trans (sound.part_lt_of_classInfo? isClass part among) there
          obtain ⟨origin, isOrigin, own, -⟩ := sound.origin isClass
          rw [if_neg isInstance] at isOrigin
          refine .bind (each fun arg among => younger arg (.tail _ among))
            fun replaced after kept isSound made => ?_
          refine (Repeats.instantiate isSound (kept.lt_size (younger _ (.head _))) made.2).weaken
            fun made last _ _ behind => ⟨behind.1, fun _ => ?_⟩
          rw [behind.2 origin (kept.classInfo?_of_some isOrigin) own,
            origin?_instance isClass isInstance]
      · exact .pure sound ⟨there, fun _ => rfl⟩
    · exact .pure sound ⟨there, fun _ => rfl⟩

theorem repeats_substitute (sound : table.Sound) (given : AllThere args table)
    (there : id < table.size) :
    Repeats table (fun made after => There made after ∧
        (table.Rigid params id → after.origin? made = table.origin? id))
      (substitute params args id) := by
  unfold substitute
  split
  · exact .pure sound ⟨there, fun _ => rfl⟩
  · exact repeats_substituteWithin sound given there

/-- The base of a type has the class behind it that is behind the recorded base of the class behind
the type. -/
theorem repeats_baseOf (sound : table.Sound) (there : id < table.size) :
    Repeats table (fun base after => There base after ∧
        ∀ origin info, table.origin? id = some origin → table.classInfo? origin = some info →
          table.Rigid info.params info.base → after.origin? base = table.origin? info.base)
      (baseOf id) := by
  refine .read (fun kept _ => by simp only [kept.classInfo?_eq sound there]) ?_
  split
  · next noClass =>
    refine .pure sound ⟨sound.positive, fun origin info isOrigin => ?_⟩
    rw [origin?, noClass] at isOrigin
    nomatch isOrigin
  · next info isClass =>
    obtain ⟨slot, -, isInfo⟩ := classInfo?_eq_some isClass
    split
    · next own =>
      refine .pure sound ⟨sound.base_there isInfo, fun origin info' isOrigin isClass' _ => ?_⟩
      rw [origin?_own isClass own, Option.some.injEq] at isOrigin
      subst isOrigin
      cases isClass.symm.trans isClass'
      rfl
    · next isInstance =>
      have younger : AllThere (info.generic :: info.args) table := fun part among =>
        Nat.lt_trans (sound.part_lt_of_classInfo? isClass part among) there
      obtain ⟨own, isOwn, top, -⟩ := sound.origin isClass
      rw [if_neg isInstance] at isOwn
      obtain ⟨slot', -, isInfo'⟩ := classInfo?_eq_some isOwn
      refine .read (fun kept _ => by
        simp only [kept.classInfo?_eq sound (younger _ (.head _))]) ?_
      rw [isOwn]
      dsimp only
      have same {origin : TypeId} {info' : ClassInfo} (isOrigin : table.origin? id = some origin)
          (isClass' : table.classInfo? origin = some info') : info' = own := by
        rw [origin?_instance isClass isInstance, Option.some.injEq] at isOrigin
        subst isOrigin
        exact Option.some.inj (isClass'.symm.trans isOwn)
      split
      · next none =>
        refine .pure sound ⟨sound.positive, fun origin info' isOrigin isClass' _ => ?_⟩
        rw [same isOrigin isClass', none]
      · refine (repeats_substitute sound (fun arg among => younger arg (.tail _ among))
          (sound.base_there isInfo')).weaken fun base after _ _ ⟨isThere, behind⟩ =>
            ⟨isThere, fun origin info' isOrigin isClass' rigid => ?_⟩
        rw [same isOrigin isClass'] at rigid ⊢
        exact behind rigid

theorem baseOf_none (noClass : table.classInfo? id = none) :
    (baseOf id).run table = (0, table) := by
  unfold baseOf
  rw [run_get_bind, noClass]
  rfl

/-! ### From base to base -/

/-- The way from a type to its base, the base of that and so on up to one that has none, with
nothing that cuts it short, and the table behind it. -/
inductive Climbs : TypeTable → TypeId → List TypeId → TypeTable → Prop where
  | top {table after : TypeTable} {id : TypeId} : (baseOf id).run table = (0, after) →
    Climbs table id [] after
  | step {table middle after : TypeTable} {id base : TypeId} {rest : List TypeId} :
      (baseOf id).run table = (base, middle) → base ≠ 0 →
      Climbs middle base rest after → Climbs table id (base :: rest) after

namespace Climbs

variable {chain : List TypeId}

/-- The way can be gone again, as a whole and from each type on it. -/
theorem repeats (climbs : Climbs table id chain after) (sound : table.Sound) (there : id < table.size) :
    after.Sound ∧ table.Keeps after ∧ after.endless = table.endless ∧ ∀ {later}, after.Keeps later →
      later.Sound →
      Climbs later id chain later ∧ ∀ {front base back}, chain = front ++ base :: back →
        Climbs later base back later := by
  induction climbs with
  | @top table after id ran =>
    obtain ⟨sound', keeps, ends, -, again⟩ := repeats_baseOf sound there
    rw [ran] at sound' keeps ends again
    exact ⟨sound', keeps, ends, fun kept isSound =>
      ⟨.top (again kept isSound), fun none => by simp at none⟩⟩
  | @step table middle after id base rest ran known climbs inductionHypothesis =>
    obtain ⟨sound', keeps, ends, ⟨isThere, -⟩, again⟩ := repeats_baseOf sound there
    rw [ran] at sound' keeps ends isThere again
    obtain ⟨sound'', keeps', ends', onward⟩ := inductionHypothesis sound' isThere
    refine ⟨sound'', keeps.trans keeps', ends'.trans ends, fun {later} kept isSound => ?_⟩
    obtain ⟨rest', parts⟩ := onward kept isSound
    refine ⟨.step (again (keeps'.trans kept) isSound) known rest', fun {front other back} split => ?_⟩
    cases front with
    | nil =>
      cases split
      exact rest'
    | cons first front => exact parts (List.cons.inj split).2

theorem allThere (climbs : Climbs table id chain after) (sound : table.Sound) (there : id < table.size) :
    AllThere chain after := by
  induction climbs with
  | top _ => exact nofun
  | @step table middle after id base rest ran known climbs inductionHypothesis =>
    obtain ⟨sound', -, -, ⟨isThere, -⟩, -⟩ := repeats_baseOf sound there
    rw [ran] at sound' isThere
    obtain ⟨-, keeps, -, -⟩ := climbs.repeats sound' isThere
    intro other among
    rcases List.mem_cons.mp among with rfl | among
    · exact keeps.lt_size isThere
    · exact inductionHypothesis sound' isThere other among

/-- The guard and the bound do not cut short a way without repetition. -/
theorem ancestorsWithin (climbs : Climbs table id chain after) {seen : List TypeId}
    (apart : ∀ base ∈ chain, base ∉ seen) (nodup : chain.Nodup) {steps : Nat}
    (enough : chain.length ≤ steps) : (ancestorsWithin steps seen id).run table = (chain, after) := by
  induction climbs generalizing seen steps with
  | top ran =>
    unfold TypeM.ancestorsWithin
    rw [run_bind_eq ran, if_pos (.inl rfl)]
    rfl
  | @step table middle after id base rest ran known climbs inductionHypothesis =>
    obtain ⟨steps, rfl⟩ := Nat.exists_eq_add_one_of_ne_zero (Nat.ne_of_gt (Nat.zero_lt_of_lt enough))
    obtain ⟨fresh, nodup⟩ := List.nodup_cons.mp nodup
    have apart' : ∀ other ∈ rest, other ∉ base :: seen := by
      intro other among passed
      rcases List.mem_cons.mp passed with rfl | passed
      · exact fresh among
      · exact apart other (.tail _ among) passed
    have later := inductionHypothesis apart' nodup (Nat.le_of_succ_le_succ enough)
    unfold TypeM.ancestorsWithin
    rw [run_bind_eq ran, if_neg (by simp [known, apart base (.head _)]), run_bind_eq later]
    rfl

theorem ancestors (climbs : Climbs table id chain after) (nodup : (id :: chain).Nodup)
    (short : chain.length ≤ patience + table.size) : (ancestors id).run table = (chain, after) := by
  obtain ⟨fresh, nodup⟩ := List.nodup_cons.mp nodup
  rw [run_ancestors]
  refine climbs.ancestorsWithin (fun base among passed => ?_) nodup short
  exact fresh (List.mem_singleton.mp passed ▸ among)

theorem unique (climbs : Climbs table id chain after) {chain' : List TypeId} {after' : TypeTable}
    (climbs' : Climbs table id chain' after') : chain = chain' := by
  induction climbs generalizing chain' after' with
  | top ran =>
    cases climbs' with
    | top _ => rfl
    | step ran' known _ => exact absurd (congrArg Prod.fst (ran'.symm.trans ran)) known
  | step ran known _ inductionHypothesis =>
    cases climbs' with
    | top ran' => exact absurd (congrArg Prod.fst (ran.symm.trans ran')) known
    | step ran' _ rest =>
      cases ran.symm.trans ran'
      rw [inductionHypothesis rest]

/-- A way that ends meets nothing twice: from both places it would go on alike. -/
theorem nodup (climbs : Climbs table id chain after) (sound : table.Sound) (there : id < table.size) :
    (id :: chain).Nodup := by
  induction climbs with
  | top _ => exact List.nodup_singleton _
  | @step table middle after id base rest ran known climbs inductionHypothesis =>
    obtain ⟨sound', -, -, ⟨isThere, -⟩, -⟩ := repeats_baseOf sound there
    rw [ran] at sound' isThere
    refine List.nodup_cons.mpr ⟨fun among => ?_, inductionHypothesis sound' isThere⟩
    obtain ⟨isSound, -, -, again⟩ := (Climbs.step ran known climbs).repeats sound there
    obtain ⟨whole, parts⟩ := again (.refl after) isSound
    obtain ⟨front, back, isSplit⟩ := List.append_of_mem among
    have same := congrArg List.length (whole.unique (parts isSplit))
    rw [isSplit, List.length_append, List.length_cons] at same
    omega

/-- Asked again, the table gives the same bases. -/
theorem repeats_ancestors (climbs : Climbs table id chain after) (sound : table.Sound)
    (there : id < table.size) (short : chain.length ≤ patience + table.size) :
    Repeats table AllThere (TypeM.ancestors id) := by
  have nodup := climbs.nodup sound there
  obtain ⟨sound', kept, ends, again⟩ := climbs.repeats sound there
  have ran := climbs.ancestors nodup short
  have allThere := climbs.allThere sound there
  constructor <;> rw [ran]
  · exact sound'
  · exact kept
  · exact ends
  · exact allThere
  · exact fun later isSound => (again later isSound).1.ancestors nodup
      (Nat.le_trans short (Nat.add_le_add_left (kept.trans later).grows.size_le _))

end Climbs

end TypeM

/-! ### The order of classes -/

namespace TypeTable

variable {table after : TypeTable}

open Relation

theorem mem_ownClasses (isClass : table.classInfo? id = some info)
    (own : info.generic = 0) : id ∈ table.ownClasses := by
  refine List.mem_filter.mpr ⟨List.mem_range.mpr (lt_size_of_classInfo isClass), ?_⟩
  simp [isOwn, isClass, own]

theorem lt_size_of_ownClasses (isOwn : id ∈ table.ownClasses) : id < table.size :=
  List.mem_range.mp (List.mem_filter.mp isOwn).1

theorem length_ownClasses_le (table : TypeTable) : table.ownClasses.length ≤ table.size :=
  Nat.le_trans (List.length_filter_le _ _) (Nat.le_of_eq List.length_range)

/-- The base of a type is none, or what is behind it is what the class behind the type inherits
from. -/
theorem Keeps.inherits {now : TypeTable} (keeps : table.Keeps now) (sound : table.Sound)
    (isSound : now.Sound) (fixed : table.FixedBases) {id base behind : TypeId}
    (isOrigin : now.origin? id = some origin) (there : origin < table.size)
    (ran : (baseOf id).run now = (base, after))
    (isBehind : after.origin? base = some behind) :
    table.Inherits origin behind := by
  obtain ⟨info, isClass, own⟩ := isSound.own_of_origin? isOrigin
  have isClass' : table.classInfo? origin = some info :=
    (keeps.classInfo?_eq sound there).symm.trans isClass
  obtain ⟨slot, -, isInfo⟩ := classInfo?_eq_some isClass'
  have baseThere := sound.base_there isInfo
  have rigid : now.Rigid info.params info.base := by
    obtain ⟨noUnion, noParam⟩ := fixed isClass' own
    rw [← keeps.kindOf_eq baseThere] at noUnion noParam
    exact ⟨noUnion, noParam⟩
  obtain ⟨info', isInfo', -⟩ := Option.map_eq_some_iff.mp isOrigin
  have leads := (repeats_baseOf isSound (lt_size_of_classInfo isInfo')).holds.2 origin info
    isOrigin isClass rigid
  rw [ran, isBehind, keeps.origin?_eq sound baseThere] at leads
  simp only [Inherits, inherited?, isClass', Option.bind_eq_bind, Option.bind_some, if_pos own, leads]

theorem Inherits.lt_size {base : TypeId} (inherits : table.Inherits derived base) :
    derived < table.size := by
  obtain ⟨info, isClass, -⟩ := Option.bind_eq_some_iff.mp inherits
  exact lt_size_of_classInfo isClass

theorem Inherits.mem_ownClasses (sound : table.Sound) {base : TypeId}
    (inherits : table.Inherits derived base) : base ∈ table.ownClasses := by
  obtain ⟨info, -, rest⟩ := Option.bind_eq_some_iff.mp inherits
  split at rest
  · obtain ⟨own, isOwn, top⟩ := sound.own_of_origin? rest
    exact TypeTable.mem_ownClasses isOwn top
  · nomatch rest

/-- Classes that lead to another one are not all there are. -/
theorem Acyclic.length_lt (acyclic : table.Acyclic) {passed : List TypeId}
    (isOwn : origin ∈ table.ownClasses) (nodup : passed.Nodup)
    (leads : ∀ other ∈ passed, other ∈ table.ownClasses ∧ TransGen table.Inherits other origin) :
    passed.length < table.ownClasses.length := by
  have fresh : origin ∉ passed := fun among => acyclic origin (leads origin among).2
  have among : origin :: passed ⊆ table.ownClasses :=
    List.cons_subset.mpr ⟨isOwn, fun other passed => (leads other passed).1⟩
  exact (List.subperm_of_subset (List.nodup_cons.mpr ⟨fresh, nodup⟩) among).length_le

/-- The way from base to base ends. The induction is on how many classes of their own are not passed
yet: the class behind a type is a new one each time, since the relation between them has no circle. -/
theorem Acyclic.climbs (acyclic : table.Acyclic) (fixed : table.FixedBases) (sound : table.Sound)
    {bound : Nat} {now : TypeTable} {id origin : TypeId} {passed : List TypeId} (keeps : table.Keeps now)
    (isSound : now.Sound) (isOrigin : now.origin? id = some origin) (isOwn : origin ∈ table.ownClasses)
    (nodup : passed.Nodup)
    (leads : ∀ other ∈ passed, other ∈ table.ownClasses ∧ TransGen table.Inherits other origin)
    (left : table.ownClasses.length = passed.length + bound) :
    ∃ chain after, TypeM.Climbs now id chain after ∧ chain.length ≤ bound ∧ (id :: chain).Nodup ∧
      ∀ base ∈ chain, ∀ behind, after.origin? base = some behind →
        TransGen table.Inherits origin behind := by
  induction bound generalizing now id origin passed with
  | zero => exact absurd (acyclic.length_lt isOwn nodup leads) (Nat.not_lt.mpr (Nat.le_of_eq left))
  | succ bound inductionHypothesis =>
    obtain ⟨info, isClass, -⟩ := Option.map_eq_some_iff.mp isOrigin
    obtain ⟨base, middle, ran⟩ : ∃ base middle, (baseOf id).run now = (base, middle) :=
      ⟨_, _, rfl⟩
    obtain ⟨sound', keeps', -, ⟨isThere, -⟩, -⟩ :=
      repeats_baseOf isSound (lt_size_of_classInfo isClass)
    rw [ran] at sound' keeps' isThere
    have isOrigin' : middle.origin? id = some origin := keeps'.origin?_of_some isOrigin
    by_cases known : base = 0
    · subst known
      exact ⟨[], middle, .top ran, Nat.zero_le _, List.nodup_singleton id, nofun⟩
    cases isBehind : middle.origin? base with
    | none =>
      have apart : id ≠ base := by
        rintro rfl
        rw [isOrigin'] at isBehind
        nomatch isBehind
      have noClass : middle.classInfo? base = none := Option.map_eq_none_iff.mp isBehind
      refine ⟨[base], middle, .step ran known (.top (baseOf_none noClass)),
        Nat.succ_le_succ (Nat.zero_le _), by simp [apart], fun other among behind found => ?_⟩
      rw [List.mem_singleton.mp among, isBehind] at found
      nomatch found
    | some behind =>
      have inherits : table.Inherits origin behind :=
        keeps.inherits sound isSound fixed isOrigin (lt_size_of_ownClasses isOwn) ran isBehind
      have fresh : origin ∉ passed := fun among => acyclic origin (leads origin among).2
      obtain ⟨rest, after, climbs, short, nodup', above⟩ :=
        inductionHypothesis (keeps.trans keeps') sound' isBehind (inherits.mem_ownClasses sound)
          (List.nodup_cons.mpr ⟨fresh, nodup⟩)
          (fun other among => (List.mem_cons.mp among).elim
            (fun same => same ▸ ⟨isOwn, .single inherits⟩)
            fun among => ⟨(leads other among).1, (leads other among).2.tail inherits⟩)
          (by rw [List.length_cons, left, Nat.add_right_comm, Nat.add_assoc])
      obtain ⟨-, keeps'', -, -⟩ := climbs.repeats sound' isThere
      have above' : ∀ other ∈ base :: rest, ∀ behind', after.origin? other = some behind' →
          TransGen table.Inherits origin behind' := by
        intro other among behind' found
        rcases List.mem_cons.mp among with rfl | among
        · rw [keeps''.origin?_of_some isBehind, Option.some.injEq] at found
          exact .single (found ▸ inherits)
        · exact .head inherits (above other among behind' found)
      refine ⟨base :: rest, after, .step ran known climbs, Nat.succ_le_succ short,
        List.nodup_cons.mpr ⟨fun among => ?_, nodup'⟩, above'⟩
      exact acyclic origin (above' id among origin (keeps''.origin?_of_some isOrigin'))

/-- From every type in the table the way ends, also if the table was extended since. -/
theorem Acyclic.exists_climb (acyclic : table.Acyclic) (fixed : table.FixedBases) (sound : table.Sound)
    {now : TypeTable} (keeps : table.Keeps now) (isSound : now.Sound)
    (there : id < table.size) :
    ∃ chain after, TypeM.Climbs now id chain after ∧ chain.length ≤ table.ownClasses.length ∧
      (id :: chain).Nodup := by
  cases isOrigin : table.origin? id with
  | none =>
    have noClass : now.classInfo? id = none :=
      (keeps.classInfo?_eq sound there).trans (Option.map_eq_none_iff.mp isOrigin)
    exact ⟨[], now, .top (baseOf_none noClass), Nat.zero_le _, List.nodup_singleton id⟩
  | some origin =>
    obtain ⟨info, isOwn, top⟩ := sound.own_of_origin? isOrigin
    obtain ⟨chain, after, climbs, short, nodup, -⟩ :=
      acyclic.climbs fixed sound keeps isSound (keeps.origin?_of_some isOrigin)
        (mem_ownClasses isOwn top) List.nodup_nil nofun (Nat.zero_add _).symm
    exact ⟨chain, after, climbs, short, nodup⟩

/-- The bases of a class are a strict order. The way to them ends by itself, meets nothing twice
and is no longer than there are classes that are no instances; from each base on it is the way
from that base. Whatever is asked for later changes none of it, unless it redefines a class. -/
theorem ancestors_are_ordered (asked : Asked {} table) (acyclic : table.Acyclic)
    (fixed : table.FixedBases) (isClass : (table.classInfo? id).isSome) :
    ∃ chain after, (ancestors id).run table = (chain, after) ∧
      TypeM.Climbs table id chain after ∧ chain.Nodup ∧ id ∉ chain ∧
      chain.length ≤ table.ownClasses.length ∧
      ∀ {later}, Continued after later → (ancestors id).run later = (chain, later) ∧
        (∀ {front base back}, chain = front ++ base :: back →
          (ancestors base).run later = (back, later)) ∧
        ∀ base ∈ chain, ((ancestors base).run later).1 ⊆ chain := by
  have sound : table.Sound := (asked.served sound_empty).sound sound_empty
  obtain ⟨info, found⟩ := Option.isSome_iff_exists.mp isClass
  have there : id < table.size := lt_size_of_classInfo found
  obtain ⟨chain, after, climbs, short, nodup⟩ :=
    acyclic.exists_climb fixed sound (.refl table) sound there
  have bounded : chain.length ≤ table.size := Nat.le_trans short (length_ownClasses_le table)
  obtain ⟨fresh, nodup'⟩ := List.nodup_cons.mp nodup
  refine ⟨chain, after, climbs.ancestors nodup (Nat.le_add_left_of_le bounded), climbs, nodup',
    fresh, short,
    fun {later} onward => ?_⟩
  obtain ⟨sound', keeps, -, again⟩ := climbs.repeats sound there
  obtain ⟨climbs', parts⟩ := again onward.keeps (onward.sound sound')
  have grown : table.size ≤ later.size := (keeps.trans onward.keeps).grows.size_le
  have part {front back : List TypeId} {base : TypeId} (isSplit : chain = front ++ base :: back) :
      (ancestors base).run later = (back, later) := by
    have isSuffix : base :: back <:+ chain := ⟨front, isSplit.symm⟩
    have shorter : back.length ≤ chain.length := Nat.le_of_succ_le isSuffix.length_le
    exact (parts isSplit).ancestors (isSuffix.sublist.nodup nodup')
      (Nat.le_add_left_of_le (Nat.le_trans (Nat.le_trans shorter bounded) grown))
  refine ⟨climbs'.ancestors nodup (Nat.le_add_left_of_le (Nat.le_trans bounded grown)), part,
    fun base among => ?_⟩
  obtain ⟨front, back, isSplit⟩ := List.append_of_mem among
  rw [part isSplit, isSplit]
  exact List.subset_append_of_subset_right _ (List.subset_cons_self _ _)

/-! ### Requests are no walks -/

theorem endless_modifyClass (table : TypeTable) (id : TypeId) (change : ClassInfo → ClassInfo) :
    (table.modifyClass id change).endless = table.endless := by
  unfold modifyClass
  split <;> rfl

theorem Request.endless {request : Request} (sound : table.Sound) (allocated : request.Allocated table) :
    (request.perform table).endless = table.endless := by
  cases request with
  | intern form => exact endless_intern table form
  | makeTuple elems => exact endless_makeTuple table elems
  | makeMulti candidates => exact endless_makeMulti table candidates
  | registerClass | registerEnum | registerParam => rfl
  | setBase id base =>
    show (table.setBase id base).endless = _
    unfold TypeTable.setBase
    split
    · rfl
    · exact endless_modifyClass ..
  | setParams id params => exact endless_modifyClass ..
  | instantiate generic args => exact endless_instantiate table generic args
  | substitute params args id => exact (repeats_substitute sound allocated.2.1 allocated.2.2).ends
  | baseOf id => exact (repeats_baseOf sound allocated).ends

theorem Asked.endless (asked : Asked before after) (sound : before.Sound) :
    after.endless = before.endless := by
  induction asked with
  | start => rfl
  | next request asked allocated inductionHypothesis =>
    exact (Request.endless ((asked.served sound).sound sound) allocated).trans inductionHypothesis

theorem Continued.endless (onward : Continued before after) (sound : before.Sound) :
    after.endless = before.endless := by
  induction onward with
  | start => rfl
  | next request onward allocated _ inductionHypothesis =>
    exact (Request.endless (onward.sound sound) allocated).trans inductionHypothesis

/-! ### Whether a table is one of these -/

instance (table : TypeTable) (params : List TypeId) (id : TypeId) : Decidable (table.Rigid params id) :=
  decidable_of_iff (table.kindOf id ≠ .multi ∧ (table.kindOf id = .param → id ∉ params))
    ⟨fun ⟨noUnion, noParam⟩ => ⟨noUnion, noParam⟩, fun rigid => ⟨rigid.noUnion, rigid.noParam⟩⟩

/-- Where a class is older than those that inherit from it there is no circle. -/
theorem acyclic_of_older
    (older : ∀ derived < table.size, ∀ base ∈ table.inherited? derived, base < derived) :
    table.Acyclic := by
  have descends {derived base : TypeId} (leads : TransGen table.Inherits derived base) :
      base < derived := by
    induction leads with
    | single inherits => exact older _ inherits.lt_size _ inherits
    | tail _ inherits inductionHypothesis =>
      exact Nat.lt_trans (older _ inherits.lt_size _ inherits) inductionHypothesis
  exact fun id leads => Nat.lt_irrefl id (descends leads)

theorem fixedBases (rigid : ∀ id < table.size, ∀ info ∈ table.classInfo? id, info.generic = 0 →
    table.Rigid info.params info.base) : table.FixedBases :=
  fun isClass own => rigid _ (lt_size_of_classInfo isClass) _ isClass own

/-- A class that inherits from an instance of one that inherits from an instance of a third one. -/
def instanceBases : List Request :=
  [.registerClass "A" 1, .registerClass "B" 2, .registerParam "T" 3 .any, .setParams 8 [10],
    .setParams 9 [10], .intern (.list 10 1), .instantiate 8 [11], .setBase 9 12, .instantiate 9 [2],
    .registerClass "C" 4, .setBase 14 13]

theorem instanceBases_asked : Asked {} (performAll {} instanceBases) := by
  refine Asked.start.all ?_
  with_unfolding_all decide

/-- The second of the two bases is entered on the way, and found from then on. -/
theorem ancestors_are_ordered_instanceBases :
    (performAll {} instanceBases).Acyclic ∧ (performAll {} instanceBases).FixedBases ∧
      (performAll {} instanceBases).size = 15 ∧
      ∃ after, (ancestors 14).run (performAll {} instanceBases) = ([13, 16], after) ∧
        (ancestors 14).run (after.registerEnum "E" 5).2 =
          ([13, 16], (after.registerEnum "E" 5).2) := by
  have acyclic : (performAll {} instanceBases).Acyclic := acyclic_of_older (by decide +kernel)
  have fixed : (performAll {} instanceBases).FixedBases := fixedBases (by decide +kernel)
  have isClass : ((performAll {} instanceBases).classInfo? 14).isSome := by decide +kernel
  obtain ⟨chain, after, ran, -, -, -, -, kept⟩ :=
    ancestors_are_ordered instanceBases_asked acyclic fixed isClass
  have isChain : ((ancestors 14).run (performAll {} instanceBases)).1 = [13, 16] := by
    decide +kernel
  rw [ran] at isChain
  subst isChain
  exact ⟨acyclic, fixed, by decide +kernel, after, ran,
    (kept (.next (.registerEnum "E" 5) .start trivial (fun redefines => redefines))).1⟩

/-- A class that inherits from its own parameter, and the instance of it for its instance. -/
def parameterBase : List Request :=
  [.registerClass "A" 1, .registerParam "T" 2 .any, .setParams 8 [9], .setBase 8 9,
    .instantiate 8 [2], .instantiate 8 [10]]

theorem parameterBase_asked : Asked {} (performAll {} parameterBase) := by
  refine Asked.start.all ?_
  with_unfolding_all decide

/-- Without fixed bases there may be more bases than classes. -/
theorem more_ancestors_than_classes :
    Asked {} (performAll {} parameterBase) ∧ (performAll {} parameterBase).Acyclic ∧
      ((performAll {} parameterBase).classInfo? 11).isSome ∧
      (performAll {} parameterBase).ownClasses.length <
        ((ancestors 11).run (performAll {} parameterBase)).1.length :=
  ⟨parameterBase_asked, acyclic_of_older (by decide +kernel), by decide +kernel, by decide +kernel⟩

end TypeTable

end TreeCheck
