/-
What a substitution makes of a type. It is described by what the two types are made of, level
by level, in a table that has them both: a parameter gives way to its argument, a union of
what its members became is formed anew and may collapse, and every other type keeps its head
over what its parts became. Since a table is canonical, that says which type it is.

A substitution reaches sixteen levels deep and leaves alone what lies deeper. So the parameters
are gone afterwards just when none of them lies deeper than that.
-/

import Mathlib.Data.List.Forall2
import TreeCheck.Proofs.Types.Agreement
import TreeCheck.Proofs.Types.Climbing
import TreeCheck.Proofs.Types.Folding

namespace TreeCheck

variable {form : TypeForm} {info : ClassInfo} {depth levels : Nat} {inner : TypeId}
  {becomes becomes' : TypeId → TypeId → Prop} {members : List TypeId} {α β : Type}

namespace TypeTable

variable {table before after : TypeTable} {id made : TypeId}

instance (id : TypeId) (table : TypeTable) : Decidable (There id table) :=
  inferInstanceAs (Decidable (id < table.size))

instance (ids : List TypeId) (table : TypeTable) : Decidable (AllThere ids table) :=
  inferInstanceAs (Decidable (∀ id ∈ ids, id < table.size))

/-! ### Heads and parts -/

/-- What a type is, apart from its parts: one that is known by its number, one that is formed of
others, or an instance of a class. -/
inductive Head where
  | whole (id : TypeId)
  | formed (kind : TypeKind) (dims : UInt8)
  | applied (generic : TypeId)
  deriving DecidableEq

/-- Lists, arrays, tuples and unions are formed of others. -/
def head (table : TypeTable) (id : TypeId) : Head :=
  match table.form? id, table.classInfo? id with
  | _, some info => if info.args = [] then .whole id else .applied info.generic
  | some form, none =>
    if form.kind ∈ [.list, .array, .tuple, .multi] then .formed form.kind form.dims else .whole id
  | none, none => .whole id

theorem head_formed (isForm : table.form? id = some form)
    (isFormed : form.kind ∈ [.list, .array, .tuple, .multi]) :
    table.head id = .formed form.kind form.dims ∧ table.shownParts id = table.parts form := by
  have noClass : table.classInfo? id = none := by
    rw [classInfo?, isForm]
    cases form with
    | classType slot => simp [TypeForm.kind] at isFormed
    | _ => rfl
  constructor
  · simp only [head, isForm, noClass, isFormed, if_true]
  · simp only [shownParts, noClass, outerParts, isForm]
    cases form with
    | list elem dims => rfl
    | array elem dims => rfl
    | tuple slot => exact elems_of_tuple isForm
    | multi slot => exact elems_of_multi isForm
    | _ => simp [TypeForm.kind] at isFormed

theorem head_applied (isClass : table.classInfo? id = some info) (given : info.args ≠ []) :
    table.head id = .applied info.generic ∧ table.shownParts id = info.args := by
  simp [head, shownParts, isClass, given]

theorem IsName.head (isName : table.IsName id) : table.head id = .whole id := by
  unfold TypeTable.head
  split
  · next isClass => exact if_pos (isName.top isClass)
  · next isForm _ => exact if_neg (isName.plain isForm)
  · rfl

/-- What a head says of a type. -/
def Headed (table : TypeTable) (id : TypeId) : Head → Prop
  | .whole other => other = id ∧ table.shownParts id = []
  | .formed kind dims => ∃ form, table.form? id = some form ∧ form.kind = kind ∧ form.dims = dims ∧
      kind ∈ [.list, .array, .tuple, .multi] ∧ table.shownParts id = table.parts form
  | .applied generic => ∃ info, table.classInfo? id = some info ∧ info.args ≠ [] ∧
      info.generic = generic ∧ table.shownParts id = info.args

theorem headed_formed (isForm : table.form? id = some form)
    (isFormed : form.kind ∈ [.list, .array, .tuple, .multi]) : table.Headed id (table.head id) := by
  obtain ⟨isHead, parts⟩ := head_formed isForm isFormed
  exact isHead ▸ ⟨form, isForm, rfl, rfl, isFormed, parts⟩

theorem Sound.headed (sound : table.Sound) (id : TypeId) : table.Headed id (table.head id) := by
  by_cases there : There id table
  case neg =>
    have noForm : table.form? id = none := by
      by_contra some
      obtain ⟨form, isForm⟩ := Option.ne_none_iff_exists'.mp some
      exact there (lt_size_of_form (form?_eq_some.mp isForm).2)
    simp [head, Headed, shownParts, classInfo?, outerParts, elems, noForm]
  cases sound.view there with
  | list isForm => exact headed_formed isForm (by simp [TypeForm.kind])
  | array isForm => exact headed_formed isForm (by simp [TypeForm.kind])
  | tuple isForm => exact headed_formed isForm (by simp [TypeForm.kind])
  | union isForm => exact headed_formed isForm (by simp [TypeForm.kind])
  | @apply info isClass given =>
    obtain ⟨isHead, parts⟩ := head_applied isClass given
    exact isHead ▸ ⟨info, isClass, given, rfl, parts⟩
  | name isName => exact isName.head ▸ ⟨rfl, isName.shownParts⟩

theorem Sound.args_ne_nil (sound : table.Sound) (isClass : table.classInfo? id = some info)
    (known : info.generic ≠ 0) : info.args ≠ [] := by
  obtain ⟨slot, -, isInfo⟩ := classInfo?_eq_some isClass
  rcases sound.class_fits isInfo with ⟨top, -⟩ | ⟨given, -⟩
  · exact absurd top known
  · exact given

section Same

variable {first second : TypeId} (sound : table.Sound)
  (sameHead : table.head first = table.head second)

include sound sameHead

/-- A type is known by its head and its parts. -/
theorem Sound.eq_of_head (sameParts : table.shownParts first = table.shownParts second) :
    first = second := by
  have headed := sound.headed first
  have headed' := sound.headed second
  rw [sameHead] at headed
  generalize table.head second = head at headed headed'
  cases head with
  | whole other => exact headed.1.symm.trans headed'.1
  | formed kind dims =>
    obtain ⟨form, isForm, rfl, rfl, isFormed, parts⟩ := headed
    obtain ⟨form', isForm', sameKind, sameDims, -, parts'⟩ := headed'
    exact sound.canonical.structural isForm isForm' sameKind.symm isFormed sameDims.symm
      (parts.symm.trans (sameParts.trans parts'))
  | applied generic =>
    obtain ⟨info, isClass, given, rfl, parts⟩ := headed
    obtain ⟨info', isClass', -, sameGeneric, parts'⟩ := headed'
    exact sound.canonical.instances isClass isClass' (sound.generic_ne_zero isClass given)
      sameGeneric.symm (parts.symm.trans (sameParts.trans parts'))

theorem Sound.kindOf_eq_of_head : table.kindOf first = table.kindOf second := by
  have headed := sound.headed first
  have headed' := sound.headed second
  rw [sameHead] at headed
  generalize table.head second = head at headed headed'
  cases head with
  | whole other => rw [← headed.1, ← headed'.1]
  | formed kind dims =>
    obtain ⟨form, isForm, isKind, -⟩ := headed
    obtain ⟨form', isForm', isKind', -⟩ := headed'
    rw [kindOf_of_form? isForm, kindOf_of_form? isForm', isKind, isKind']
  | applied generic =>
    obtain ⟨info, isClass, -⟩ := headed
    obtain ⟨info', isClass', -⟩ := headed'
    rw [kindOf_of_classInfo? isClass, kindOf_of_classInfo? isClass']

end Same

/-- Parts are older than the type. -/
theorem Sound.shownPart_lt (sound : table.Sound) : ∀ part ∈ table.shownParts id, part < id := by
  intro part isPart
  have headed := sound.headed id
  generalize table.head id = head at headed
  cases head with
  | whole other => rw [headed.2] at isPart; nomatch isPart
  | formed kind dims =>
    obtain ⟨form, isForm, -, -, -, parts⟩ := headed
    exact sound.part_lt_of_form? isForm part (parts ▸ isPart)
  | applied generic =>
    obtain ⟨info, isClass, -, -, parts⟩ := headed
    exact sound.part_lt_of_classInfo? isClass part (.tail _ (parts ▸ isPart))

theorem shownParts_of_param (isParam : table.kindOf id = .param) : table.shownParts id = [] := by
  unfold kindOf at isParam
  split at isParam
  · next form isForm =>
    cases form with
    | param slot => simp [shownParts, classInfo?, outerParts, elems, isForm]
    | _ => cases isParam
  · cases isParam

theorem shownParts_zero (table : TypeTable) : table.shownParts 0 = [] := rfl

theorem Keeps.shownParts_eq (keeps : before.Keeps after) (sound : before.Sound)
    (there : There id before) : after.shownParts id = before.shownParts id := by
  unfold shownParts outerParts
  rw [keeps.classInfo?_eq sound there, keeps.form?_eq there, keeps.grows.elems_eq there sound]

theorem Keeps.head_eq (keeps : before.Keeps after) (sound : before.Sound) (there : There id before) :
    after.head id = before.head id := by
  unfold head
  rw [keeps.classInfo?_eq sound there, keeps.form?_eq there]

/-! ### Occurrences -/

/-- A type occurs in another one, so many levels deep. -/
def OccursAt (table : TypeTable) : Nat → TypeId → TypeId → Prop
  | 0, inner, id => inner = id
  | depth + 1, inner, id => ∃ part ∈ table.shownParts id, OccursAt table depth inner part

theorem Keeps.occursAt_iff (keeps : before.Keeps after) (sound : before.Sound)
    (there : There id before) : after.OccursAt depth inner id ↔ before.OccursAt depth inner id := by
  induction depth generalizing id with
  | zero => exact Iff.rfl
  | succ depth inductionHypothesis =>
    simp only [OccursAt, keeps.shownParts_eq sound there]
    refine exists_congr fun part => and_congr_right fun isPart => inductionHypothesis ?_
    exact Nat.lt_trans (sound.shownPart_lt part isPart) there

theorem OccursAt.there (sound : table.Sound) (there : There id table)
    (occurs : table.OccursAt depth inner id) : There inner table := by
  induction depth generalizing id with
  | zero => exact occurs ▸ there
  | succ depth inductionHypothesis =>
    obtain ⟨part, isPart, occurs⟩ := occurs
    exact inductionHypothesis (Nat.lt_trans (sound.shownPart_lt part isPart) there) occurs

instance decidableOccursAt (table : TypeTable) :
    ∀ (depth : Nat) (inner id : TypeId), Decidable (table.OccursAt depth inner id)
  | 0, inner, id => inferInstanceAs (Decidable (inner = id))
  | depth + 1, inner, id =>
    have : DecidablePred (table.OccursAt depth inner) := decidableOccursAt table depth inner
    inferInstanceAs (Decidable (∃ part ∈ table.shownParts id, table.OccursAt depth inner part))

/-- Where a label shows all of a type, nothing lies deeper in it. -/
theorem Shown.occursAt_lt (shown : table.Shown levels id) (occurs : table.OccursAt depth inner id) :
    depth < levels := by
  induction levels generalizing depth id with
  | zero => exact shown.elim
  | succ levels inductionHypothesis =>
    cases depth with
    | zero => exact Nat.zero_lt_succ levels
    | succ depth =>
      obtain ⟨part, isPart, occurs⟩ := occurs
      exact Nat.succ_lt_succ (inductionHypothesis (shown part isPart) occurs)

theorem occursAt_of_noParts (noParts : table.shownParts id = [])
    (occurs : table.OccursAt depth inner id) : inner = id := by
  cases depth with
  | zero => exact occurs
  | succ depth =>
    obtain ⟨part, isPart, -⟩ := occurs
    rw [noParts] at isPart
    nomatch isPart

/-! ### What becomes of a type -/

/-- A type is the union of some types: of none it is the type without values, and of a single one
it is that one. -/
def Unites (table : TypeTable) (members : List TypeId) (made : TypeId) : Prop :=
  match distinct members with
  | [] => made = TypeId.void
  | [one] => made = one
  | several => table.kindOf made = .multi ∧ table.shownParts made = several

/-- A type is made over what the parts of another one became. -/
inductive Rebuilt (table : TypeTable) (becomes : TypeId → TypeId → Prop) (id made : TypeId) : Prop where
  | union (members : List TypeId) (isUnion : table.kindOf id = .multi)
      (each : List.Forall₂ becomes (table.shownParts id) members) (unites : table.Unites members made)
  | other (noUnion : table.kindOf id ≠ .multi) (sameHead : table.head made = table.head id)
      (each : List.Forall₂ becomes (table.shownParts id) (table.shownParts made))

/-- What a type becomes if the parameters in it are replaced so many levels deep. -/
def Becomes (table : TypeTable) (params args : List TypeId) : Nat → TypeId → TypeId → Prop
  | 0, id, made => made = id
  | levels + 1, id, made =>
    if table.kindOf id = .param then made = argumentFor params args id
    else table.Rebuilt (Becomes table params args levels) id made

theorem rebuilt_formed {form' : TypeForm} (isForm : table.form? id = some form)
    (isForm' : table.form? made = some form')
    (isFormed : form.kind ∈ [.list, .array, .tuple, .multi]) (noUnion : form.kind ≠ .multi)
    (sameKind : form'.kind = form.kind) (sameDims : form'.dims = form.dims)
    (each : List.Forall₂ becomes (table.shownParts id) (table.parts form')) :
    table.Rebuilt becomes id made := by
  obtain ⟨isHead, -⟩ := head_formed isForm isFormed
  obtain ⟨isHead', parts'⟩ := head_formed isForm' (sameKind ▸ isFormed)
  refine .other (kindOf_of_form? isForm ▸ noUnion) ?_ (parts' ▸ each)
  rw [isHead, isHead', sameKind, sameDims]

/-- A type without parts stands for itself. -/
theorem rebuilt_self (noUnion : table.kindOf id ≠ .multi) (noParts : table.shownParts id = []) :
    table.Rebuilt becomes id id :=
  .other noUnion rfl (noParts ▸ .nil)

theorem elems_eq_shownParts_of_multi (isUnion : table.kindOf id = .multi) :
    table.elems id = table.shownParts id := by
  obtain ⟨slot, isForm⟩ := exists_of_kindOf_multi isUnion
  rw [(head_formed isForm (by simp [TypeForm.kind])).2, elems_of_multi isForm]

theorem Sound.unites_makeMulti (sound : table.Sound) (there : AllThere members table)
    (made : table.makeMulti members = (id, table)) : table.Unites members id := by
  have union := sound.canonical.union there
  rw [← distinct_eq, made] at union
  unfold Unites
  split
  · next none => simpa [none] using union
  · next one single => simpa [single] using union
  · next several _ _ =>
    obtain ⟨isUnion, isElems⟩ : table.kindOf id = .multi ∧ table.elems id = distinct members := by
      simp_all
    exact ⟨isUnion, (elems_eq_shownParts_of_multi isUnion).symm.trans isElems⟩

end TypeTable

/-! ### Substitutions that enter nothing -/

namespace TypeM

open TypeTable

variable {α β : Type} {table : TypeTable} {params args : List TypeId} {id made : TypeId}

/-- Where two operations enter nothing together, neither does by itself. -/
theorem Repeats.settled_bind {post : α → TypeTable → Prop} {action : TypeM α} {next : α → TypeM β}
    {value : β} (first : Repeats table post action) (sound : table.Sound)
    (grows : ∀ given, Growing (next given)) (ran : (action >>= next).run table = (value, table)) :
    ∃ given, action.run table = (given, table) ∧ post given table ∧
      (next given).run table = (value, table) := by
  obtain ⟨given, middle, ranFirst⟩ : ∃ given middle, action.run table = (given, middle) := ⟨_, _, rfl⟩
  obtain ⟨-, -, -, holds, again⟩ := first
  rw [run_bind_eq ranFirst] at ran
  have kept : middle.Keeps table := by
    have onward := (grows given middle).toKeeps
    rwa [ran] at onward
  rw [ranFirst] at holds again
  have same := again kept sound
  obtain rfl : middle = table := congrArg Prod.snd (ranFirst.symm.trans same)
  exact ⟨given, ranFirst, holds, ran⟩

theorem settled_mapM {actions : TypeId → TypeM TypeId} {items values : List TypeId}
    (sound : table.Sound) (grows : ∀ item, Growing (actions item))
    (each : ∀ item ∈ items, ∀ middle, table.Keeps middle → middle.Sound →
      Repeats middle There (actions item))
    (ran : (items.mapM actions).run table = (values, table)) :
    List.Forall₂ (fun item value => (actions item).run table = (value, table)) items values := by
  induction items generalizing values with
  | nil =>
    obtain rfl : [] = values := congrArg Prod.fst ran
    exact .nil
  | cons item rest inductionHypothesis =>
    have each' : ∀ item ∈ rest, ∀ middle, table.Keeps middle → middle.Sound →
        Repeats middle There (actions item) := fun other among => each other (.tail _ among)
    rw [List.mapM_cons] at ran
    obtain ⟨value, ranFirst, -, ran⟩ := (each item (.head _) table (.refl table) sound).settled_bind
      sound (fun _ => .bind (.mapM grows rest) fun _ => .pure _) ran
    obtain ⟨others, ranRest, -, ran⟩ := (Repeats.mapM sound each').settled_bind sound
      (fun _ => .pure _) ran
    obtain rfl : value :: others = values := congrArg Prod.fst ran
    exact .cons ranFirst (inductionHypothesis each' ranRest)

/-- A form that is entered where nothing is entered is there. -/
theorem form?_of_settled (sound : table.Sound) (held : table.Holds form) (known : form ≠ .invalid)
    (ran : (TypeM.intern form).run table = (made, table)) : table.form? made = some form := by
  have isMade := (Repeats.intern sound held known).holds
  rwa [ran] at isMade

section Parts

/- Some operation takes the place of the substitution of parts. -/
variable {replace : TypeId → TypeM TypeId} {becomes : TypeId → TypeId → Prop} (sound : table.Sound)
  (repeats : ∀ part ∈ table.shownParts id, ∀ middle, table.Keeps middle → middle.Sound →
    Repeats middle There (replace part))
  (gives : ∀ part ∈ table.shownParts id, ∀ value, (replace part).run table = (value, table) →
    becomes part value)

include sound repeats gives

/-- Lists and arrays differ in their form only. -/
theorem rebuilt_of_sequence (whole : TypeId → TypeForm) {elem : TypeId}
    (isForm : table.form? id = some (whole elem))
    (isFormed : (whole elem).kind ∈ [.list, .array, .tuple, .multi])
      (noUnion : (whole elem).kind ≠ .multi)
    (holds : ∀ {other}, There other table → table.Holds (whole other))
    (known : ∀ other, whole other ≠ .invalid)
    (same : ∀ other, (whole other).kind = (whole elem).kind ∧ (whole other).dims = (whole elem).dims)
    (parts : ∀ other, table.parts (whole other) = [other])
    (ran : (do
        let replaced ← replace elem
        if replaced = elem then return id else TypeM.intern (whole replaced)).run table =
          (made, table)) :
    table.Rebuilt becomes id made := by
  have isPart : table.shownParts id = [elem] := (head_formed isForm isFormed).2.trans (parts elem)
  have among : elem ∈ table.shownParts id := isPart ▸ .head _
  obtain ⟨replaced, ranElem, isThere, ran⟩ :=
    (repeats elem among table (.refl table) sound).settled_bind sound
      (fun replaced => by split <;> first | exact .pure _ | exact growing_intern _) ran
  have isForm' : table.form? made = some (whole replaced) := by
    split at ran
    · next unchanged =>
      obtain rfl : id = made := congrArg Prod.fst ran
      exact unchanged ▸ isForm
    · exact form?_of_settled sound (holds isThere) (known replaced) ran
  refine rebuilt_formed isForm isForm' isFormed noUnion (same replaced).1 (same replaced).2 ?_
  rw [isPart, parts]
  exact .cons (gives elem among replaced ranElem) .nil

variable (grows : ∀ part, Growing (replace part))

include grows

theorem parts_of_settled {rest : List TypeId → TypeM TypeId}
    (growing : ∀ values, Growing (rest values))
    (ran : ((table.shownParts id).mapM replace >>= rest).run table = (made, table)) :
    ∃ values, AllThere values table ∧ (rest values).run table = (made, table) ∧
      List.Forall₂ becomes (table.shownParts id) values := by
  obtain ⟨values, ranParts, ⟨-, areThere⟩, ran⟩ :=
    (Repeats.mapM sound repeats).settled_bind sound growing ran
  refine ⟨values, areThere, ran, ?_⟩
  have each := settled_mapM sound grows repeats ranParts
  exact ((List.forall₂_and_left _ _).mpr ⟨fun _ isPart => isPart, each⟩).imp
    fun part value ⟨isPart, ran⟩ => gives part isPart value ran

theorem rebuilt_of_tuple {slot : Nat} (isForm : table.form? id = some (.tuple slot))
    (ran : ((table.elems id).mapM replace >>= TypeM.makeTuple).run table = (made, table)) :
    table.Rebuilt becomes id made := by
  have isFormed : (TypeForm.tuple slot).kind ∈ [.list, .array, .tuple, .multi] := by
    simp [TypeForm.kind]
  rw [elems_of_tuple isForm, ← (head_formed isForm isFormed).2] at ran
  obtain ⟨values, areThere, ran, each⟩ :=
    parts_of_settled sound repeats gives grows growing_makeTuple ran
  obtain ⟨isTuple, isElems⟩ := sound.elems_makeTuple areThere
  replace ran : table.makeTuple values = (made, table) := ran
  rw [ran] at isTuple isElems
  obtain ⟨slot', isForm'⟩ := exists_of_kindOf_tuple isTuple
  refine rebuilt_formed isForm isForm' isFormed (by rintro ⟨⟩) rfl rfl ?_
  rw [← elems_of_tuple isForm', isElems]
  exact each

theorem rebuilt_of_union (isUnion : table.kindOf id = .multi)
    (ran : ((table.elems id).mapM replace >>= TypeM.makeMulti).run table = (made, table)) :
    table.Rebuilt becomes id made := by
  rw [elems_eq_shownParts_of_multi isUnion] at ran
  obtain ⟨values, areThere, ran, each⟩ :=
    parts_of_settled sound repeats gives grows growing_makeMulti ran
  exact .union values isUnion each (sound.unites_makeMulti areThere ran)

theorem rebuilt_of_instance (isClass : table.classInfo? id = some info) (known : info.generic ≠ 0)
    (ran : (info.args.mapM replace >>= TypeM.instantiate info.generic).run table = (made, table)) :
    table.Rebuilt becomes id made := by
  have given : info.args ≠ [] := sound.args_ne_nil isClass known
  obtain ⟨isHead, parts⟩ := head_applied isClass given
  rw [← parts] at ran
  obtain ⟨values, areThere, ran, each⟩ :=
    parts_of_settled sound repeats gives grows (growing_instantiate info.generic) ran
  obtain ⟨origin, isOrigin, top, -⟩ := sound.origin isClass
  rw [if_neg known] at isOrigin
  have given' : values ≠ [] := by
    rintro rfl
    rw [parts] at each
    exact given (List.forall₂_nil_right_iff.mp each)
  obtain ⟨-, info', isMade, isGeneric, rfl⟩ := sound.instance_spec isOrigin given' areThere
  rw [ran] at isMade
  rw [if_pos top] at isGeneric
  obtain ⟨isHead', parts'⟩ := head_applied isMade given'
  refine .other (by rw [kindOf_of_classInfo? isClass]; nofun) ?_ (parts' ▸ each)
  rw [isHead, isHead', isGeneric]

end Parts

/-- What a substitution gives that enters nothing. -/
theorem becomes_of_settled (sound : table.Sound) (given : AllThere args table)
    (there : There id table)
    (ran : (substituteWithin params args levels id).run table = (made, table)) :
    table.Becomes params args levels id made := by
  induction levels generalizing id made with
  | zero => exact (congrArg Prod.fst ran).symm
  | succ levels inductionHypothesis =>
    have younger (part : TypeId) (isPart : part ∈ table.shownParts id) : There part table :=
      Nat.lt_trans (sound.shownPart_lt part isPart) there
    have repeats : ∀ part ∈ table.shownParts id, ∀ middle, table.Keeps middle → middle.Sound →
        Repeats middle There (substituteWithin params args levels part) :=
      fun part isPart middle kept isSound => (repeats_substituteWithin isSound (kept.all_lt_size given)
        (kept.lt_size (younger part isPart))).weaken fun _ _ _ _ fits => fits.1
    have gives : ∀ part ∈ table.shownParts id, ∀ value,
        (substituteWithin params args levels part).run table = (value, table) →
          table.Becomes params args levels part value :=
      fun part isPart _ ran => inductionHypothesis (younger part isPart) ran
    have grows (part : TypeId) := growing_substituteWithin params args levels part
    have plain (noParam : table.kindOf id ≠ .param)
        (rebuilt : table.Rebuilt (table.Becomes params args levels) id made) :
        table.Becomes params args (levels + 1) id made := by
      rw [Becomes, if_neg noParam]
      exact rebuilt
    rw [substituteWithin, run_get_bind] at ran
    split at ran
    · next slot isForm =>
      have isParam : table.kindOf id = .param := kindOf_of_form? isForm
      rw [Becomes, if_pos isParam, argumentFor]
      split at ran
      · next index found => exact found ▸ (congrArg Prod.fst ran).symm
      · next found => exact found ▸ (congrArg Prod.fst ran).symm
    · next elem dims isForm =>
      refine plain (by rw [kindOf_of_form? isForm]; rintro ⟨⟩) ?_
      exact rebuilt_of_sequence sound repeats gives (.list · dims) isForm
        (by simp [TypeForm.kind]) (by rintro ⟨⟩) (fun isThere => isThere) (by rintro _ ⟨⟩)
          (fun _ => ⟨rfl, rfl⟩) (fun _ => rfl) ran
    · next elem dims isForm =>
      refine plain (by rw [kindOf_of_form? isForm]; rintro ⟨⟩) ?_
      exact rebuilt_of_sequence sound repeats gives (.array · dims) isForm
        (by simp [TypeForm.kind]) (by rintro ⟨⟩) (fun isThere => isThere) (by rintro _ ⟨⟩)
          (fun _ => ⟨rfl, rfl⟩) (fun _ => rfl) ran
    · next slot isForm =>
      exact plain (by rw [kindOf_of_form? isForm]; rintro ⟨⟩)
        (rebuilt_of_tuple sound repeats gives grows isForm ran)
    · next slot isForm =>
      exact plain (by rw [kindOf_of_form? isForm]; rintro ⟨⟩)
        (rebuilt_of_union sound repeats gives grows (kindOf_of_form? isForm) ran)
    · next slot isForm =>
      refine plain (by rw [kindOf_of_form? isForm]; rintro ⟨⟩) ?_
      rw [run_get_bind] at ran
      split at ran
      · next info isClass =>
        split at ran
        · next own =>
          have none : info.args = [] := by
            by_contra given
            exact sound.generic_ne_zero isClass given own
          obtain rfl : id = made := congrArg Prod.fst ran
          refine rebuilt_self (by rw [kindOf_of_form? isForm]; rintro ⟨⟩) ?_
          rw [shownParts, isClass]
          exact none
        · next known => exact rebuilt_of_instance sound repeats gives grows isClass known ran
      · next noClass =>
        obtain ⟨info, isInfo⟩ := Option.isSome_iff_exists.mp (sound.holds (form?_eq_some.mp isForm).2)
        rw [classInfo?, isForm] at noClass
        cases noClass.symm.trans isInfo
    · next noParam noList noArray noTuple noUnion noClass =>
      obtain rfl : id = made := congrArg Prod.fst ran
      have noParts : table.kindOf id ≠ .param ∧ table.kindOf id ≠ .multi ∧ table.shownParts id = [] := by
        cases isForm : table.form? id with
        | none => simp [kindOf, shownParts, classInfo?, outerParts, elems, isForm]
        | some form =>
          cases form with
          | param slot => exact (noParam slot isForm).elim
          | list elem dims => exact (noList elem dims isForm).elim
          | array elem dims => exact (noArray elem dims isForm).elim
          | tuple slot => exact (noTuple slot isForm).elim
          | multi slot => exact (noUnion slot isForm).elim
          | classType slot => exact (noClass slot isForm).elim
          | _ => simp [kindOf, TypeForm.kind, shownParts, classInfo?, outerParts, elems, isForm]
      exact plain noParts.1 (rebuilt_self noParts.2.1 noParts.2.2)

end TypeM

/-! ### Which parameters are left -/

namespace TypeTable

variable {table after : TypeTable} {params args : List TypeId} {id made : TypeId}
variable {related : α → β → Prop} {items : List α} {values : List β}

theorem exists_right_of_forall₂ (each : List.Forall₂ related items values) {item : α}
    (among : item ∈ items) : ∃ value ∈ values, related item value := by
  induction each with
  | nil => nomatch among
  | cons holds _ inductionHypothesis =>
    rcases List.mem_cons.mp among with rfl | among
    · exact ⟨_, .head _, holds⟩
    · obtain ⟨value, isValue, holds⟩ := inductionHypothesis among
      exact ⟨value, .tail _ isValue, holds⟩

theorem exists_left_of_forall₂ (each : List.Forall₂ related items values) {value : β}
    (among : value ∈ values) : ∃ item ∈ items, related item value :=
  exists_right_of_forall₂ each.flip among

theorem forall₂_with_mem (each : List.Forall₂ related items values) :
    List.Forall₂
      (fun item value => item ∈ items ∧ value ∈ values ∧ related item value) items values := by
  induction each with
  | nil => exact .nil
  | cons holds _ inductionHypothesis =>
    refine .cons ⟨.head _, .head _, holds⟩ (inductionHypothesis.imp ?_)
    exact fun item value ⟨isItem, isValue, holds⟩ =>
      ⟨.tail _ isItem, .tail _ isValue, holds⟩

/-- Of the types that are united nothing is left out but the unknown type. -/
theorem Unites.cases (unites : table.Unites members made) :
    (∀ member ∈ members, member = 0) ∧ made = TypeId.void ∨
      made ∈ members ∧ made ≠ 0 ∧ (∀ member ∈ members, member = 0 ∨ member = made) ∨
      table.kindOf made = .multi ∧ table.shownParts made = distinct members := by
  have kept {member : TypeId} (among : member ∈ members) : member = 0 ∨ member ∈ distinct members := by
    by_cases unknown : member = 0
    · exact .inl unknown
    · exact .inr (mem_distinct.mpr ⟨among, unknown⟩)
  unfold Unites at unites
  split at unites
  · next none => exact .inl ⟨fun member among => (kept among).resolve_right (by simp [none]), unites⟩
  · next one single =>
    subst unites
    have isMember : made ∈ distinct members := single ▸ .head _
    refine .inr
      (.inl ⟨(mem_distinct.mp isMember).1, (mem_distinct.mp isMember).2, fun member among => ?_⟩)
    simpa [single] using kept among
  · exact .inr (.inr unites)

/-- A type stays rebuilt in a table that says the same of the two types, by whatever its parts
become then. -/
theorem Rebuilt.carry (rebuilt : table.Rebuilt becomes id made)
    (kind : ∀ type ∈ [id, made], after.kindOf type = table.kindOf type)
    (head : ∀ type ∈ [id, made], after.head type = table.head type)
    (parts : ∀ type ∈ [id, made], after.shownParts type = table.shownParts type)
    (imp : ∀ part ∈ table.shownParts id, ∀ value,
      (value = 0 ∨ value = made ∨ value ∈ table.shownParts made) → becomes part value →
        becomes' part value) :
    after.Rebuilt becomes' id made := by
  simp only [List.forall_mem_cons, List.not_mem_nil, false_implies, implies_true,
    and_true] at kind head parts
  have each {values : List TypeId} (among : ∀ value ∈ values,
      value = 0 ∨ value = made ∨ value ∈ table.shownParts made)
      (each : List.Forall₂ becomes (table.shownParts id) values) :
      List.Forall₂ becomes' (after.shownParts id) values := by
    rw [parts.1]
    refine (forall₂_with_mem each).imp fun part value ⟨isPart, isValue, becomes⟩ => ?_
    exact imp part isPart value (among value isValue) becomes
  cases rebuilt with
  | union members isUnion each' unites =>
    refine .union members (kind.1.trans isUnion) (each (fun member isMember => ?_) each') ?_
    · obtain ⟨none, -⟩ | ⟨-, -, single⟩ | ⟨-, parts⟩ := unites.cases
      · exact .inl (none member isMember)
      · exact (single member isMember).imp_right .inl
      · by_cases unknown : member = 0
        · exact .inl unknown
        · exact .inr (.inr (parts ▸ mem_distinct.mpr ⟨isMember, unknown⟩))
    · unfold Unites at unites ⊢
      rwa [kind.2, parts.2]
  | other noUnion sameHead each' =>
    refine .other (kind.1 ▸ noUnion) (head.2.trans (sameHead.trans head.1.symm)) ?_
    rw [parts.2]
    exact each (fun value isValue => .inr (.inr isValue)) each'

theorem Rebuilt.imp (rebuilt : table.Rebuilt becomes id made)
    (imp : ∀ part ∈ table.shownParts id, ∀ value, becomes part value → becomes' part value) :
    table.Rebuilt becomes' id made :=
  rebuilt.carry (fun _ _ => rfl) (fun _ _ => rfl) (fun _ _ => rfl) fun part isPart value _ =>
    imp part isPart value

/-- What lies deeper than a substitution reaches is left. -/
theorem Becomes.left_deep (known : inner ≠ 0) (becomes : table.Becomes params args levels id made)
    (occurs : table.OccursAt depth inner id) (deep : levels ≤ depth) :
    ∃ depth, table.OccursAt depth inner made := by
  induction levels generalizing depth id made with
  | zero => exact ⟨depth, becomes ▸ occurs⟩
  | succ levels inductionHypothesis =>
    obtain ⟨depth, rfl⟩ := Nat.exists_eq_add_one_of_ne_zero (Nat.ne_of_gt (Nat.zero_lt_of_lt deep))
    obtain ⟨part, isPart, occurs⟩ := occurs
    rw [Becomes] at becomes
    split at becomes
    · next isParam =>
      rw [shownParts_of_param isParam] at isPart
      nomatch isPart
    · cases becomes with
      | union members isUnion each unites =>
        obtain ⟨member, isMember, becomes⟩ := exists_right_of_forall₂ each isPart
        obtain ⟨depth, occurs⟩ := inductionHypothesis becomes occurs (Nat.le_of_succ_le_succ deep)
        have isKnown : member ≠ 0 := by
          rintro rfl
          exact known (occursAt_of_noParts (shownParts_zero table) occurs)
        obtain ⟨none, -⟩ | ⟨-, -, single⟩ | ⟨-, parts⟩ := unites.cases
        · exact absurd (none member isMember) isKnown
        · exact ⟨depth, (single member isMember).resolve_left isKnown ▸ occurs⟩
        · exact ⟨depth + 1, member, parts ▸ mem_distinct.mpr ⟨isMember, isKnown⟩, occurs⟩
      | other noUnion sameHead each =>
        obtain ⟨part', isPart', becomes⟩ := exists_right_of_forall₂ each isPart
        obtain ⟨depth, occurs⟩ := inductionHypothesis becomes occurs (Nat.le_of_succ_le_succ deep)
        exact ⟨depth + 1, part', isPart', occurs⟩

theorem argumentFor_mem (sameLength : params.length = args.length) (among : id ∈ params) :
    argumentFor params args id ∈ args := by
  obtain ⟨index, found⟩ := Option.isSome_iff_exists.mp (List.isSome_idxOf?.mpr among)
  obtain ⟨bound, -⟩ := List.idxOf?_eq_some_iff.mp found
  rw [argumentFor, found, Option.bind_some, List.getElem?_eq_getElem (sameLength ▸ bound)]
  exact List.getElem_mem _

theorem argumentFor_of_not_mem (apart : id ∉ params) : argumentFor params args id = id := by
  rw [argumentFor, List.idxOf?_eq_none_iff.mpr apart]
  rfl

theorem argumentFor_mem_or (params args : List TypeId) (id : TypeId) :
    argumentFor params args id ∈ args ∨ argumentFor params args id = id := by
  unfold argumentFor
  cases found : (params.idxOf? id).bind (args[·]?) with
  | none => exact .inr rfl
  | some arg =>
    obtain ⟨index, -, isArg⟩ := Option.bind_eq_some_iff.mp found
    exact .inl (List.mem_of_getElem? isArg)

theorem there_of_param (isParam : table.kindOf id = .param) : There id table := by
  unfold kindOf at isParam
  split at isParam
  · next isForm => exact lt_size_of_form (form?_eq_some.mp isForm).2
  · nomatch isParam

theorem Sound.form?_void (sound : table.Sound) : table.form? TypeId.void = some .void :=
  sound.form?_of_forms (sound.primitives rfl) nofun

theorem Sound.shownParts_void (sound : table.Sound) : table.shownParts TypeId.void = [] := by
  simp [shownParts, classInfo?, outerParts, elems, sound.form?_void]

/-- Within its reach a substitution leaves no parameter. -/
theorem Becomes.clears {param : TypeId} (sound : table.Sound)
    (sameLength : params.length = args.length) (isParam : table.kindOf param = .param)
    (among : param ∈ params) (clean : ∀ arg ∈ args, ∀ depth, ¬table.OccursAt depth param arg)
    (becomes : table.Becomes params args levels id made)
    (shallow : ∀ depth, table.OccursAt depth param id → depth < levels) :
    ∀ depth, ¬table.OccursAt depth param made := by
  induction levels generalizing id made with
  | zero =>
    intro depth occurs
    exact absurd (shallow depth (becomes ▸ occurs)) (Nat.not_lt_zero _)
  | succ levels inductionHypothesis =>
    have inPart {part value : TypeId} (isPart : part ∈ table.shownParts id)
        (becomes : table.Becomes params args levels part value) (depth : Nat) :
        ¬table.OccursAt depth param value := by
      refine inductionHypothesis becomes (fun depth occurs => ?_) depth
      exact Nat.lt_of_succ_lt_succ (shallow (depth + 1) ⟨part, isPart, occurs⟩)
    intro depth occurs
    rw [Becomes] at becomes
    split at becomes
    · next isParam' =>
      subst becomes
      by_cases isGiven : id ∈ params
      · exact clean _ (argumentFor_mem sameLength isGiven) depth occurs
      · rw [argumentFor_of_not_mem isGiven] at occurs
        exact isGiven (occursAt_of_noParts (shownParts_of_param isParam') occurs ▸ among)
    · next noParam =>
      cases becomes with
      | union members isUnion each unites =>
        have inMember {member : TypeId} (isMember : member ∈ members) (depth : Nat) :
            ¬table.OccursAt depth param member := by
          obtain ⟨part, isPart, becomes⟩ := exists_left_of_forall₂ each isMember
          exact inPart isPart becomes depth
        obtain ⟨-, rfl⟩ | ⟨isMember, -⟩ | ⟨isUnion', parts⟩ := unites.cases
        · obtain rfl := occursAt_of_noParts sound.shownParts_void occurs
          rw [kindOf_of_form? sound.form?_void] at isParam
          nomatch isParam
        · exact inMember isMember depth occurs
        · cases depth with
          | zero =>
            obtain rfl : param = made := occurs
            nomatch isParam.symm.trans isUnion'
          | succ depth =>
            obtain ⟨part', isPart', occurs⟩ := occurs
            exact inMember (mem_distinct.mp (parts ▸ isPart')).1 depth occurs
      | other noUnion sameHead each =>
        cases depth with
        | zero =>
          obtain rfl : param = made := occurs
          exact noParam ((sound.kindOf_eq_of_head sameHead).symm.trans isParam)
        | succ depth =>
          obtain ⟨part', isPart', occurs⟩ := occurs
          obtain ⟨part, isPart, becomes⟩ := exists_left_of_forall₂ each isPart'
          exact inPart isPart becomes depth occurs

/-- Without parameters everything stays. -/
theorem Sound.becomes_refl (sound : table.Sound) (there : There id table) :
    table.Becomes [] [] levels id id :=
  TypeM.becomes_of_settled sound nofun there
    (TypeM.substituteWithin_stays sound (fun _ _ => rfl) (fun _ _ _ => trivial) trivial)

/-- A substitution, and what came of it as the table behind it has it. -/
theorem Sound.becomes_substitute (sound : table.Sound) (given : AllThere args table)
    (there : There id table) (sameLength : params.length = args.length)
    (ran : (TypeM.substitute params args id).run table = (made, after)) :
    after.Sound ∧ table.Keeps after ∧ There made after ∧
      after.Becomes params args (TypeM.substitutionDepth + 1) id made := by
  obtain ⟨sound', keeps, -, ⟨isThere, -⟩, again⟩ :=
    @TypeM.repeats_substitute id params args table sound given there
  rw [ran] at sound' keeps isThere again
  refine ⟨sound', keeps, isThere, ?_⟩
  replace again := again (.refl after) sound'
  unfold TypeM.substitute at again
  split at again
  · next trivial =>
    obtain rfl : params = [] := by simpa [sameLength] using trivial
    obtain rfl : args = [] := List.length_eq_zero_iff.mp sameLength.symm
    obtain rfl : id = made := congrArg Prod.fst again
    exact sound'.becomes_refl isThere
  · exact TypeM.becomes_of_settled sound' (keeps.all_lt_size given) (keeps.lt_size there) again

/-- No parameter is left behind a substitution just if none of them lies deeper in the type than
the substitution reaches; and whatever lies deeper is still there behind it. -/
theorem parameters_gone_iff_shallow (asked : Asked {} table)
    (areParams : ∀ param ∈ params, table.kindOf param = .param)
    (sameLength : params.length = args.length) (given : AllThere args table)
    (clean : ∀ param ∈ params, ∀ arg ∈ args, ∀ depth, ¬table.OccursAt depth param arg)
    (there : There id table)
    (ran : (TypeM.substitute params args id).run table = (made, after)) :
    ((∀ param ∈ params, ∀ depth, ¬after.OccursAt depth param made) ↔
      ∀ param ∈ params, ∀ depth, table.OccursAt depth param id → depth ≤ TypeM.substitutionDepth) ∧
    ∀ inner ≠ 0, ∀ depth, table.OccursAt depth inner id → TypeM.substitutionDepth < depth →
      ∃ depth, after.OccursAt depth inner made := by
  have sound : table.Sound := (asked.served sound_empty).sound sound_empty
  obtain ⟨sound', keeps, -, becomes⟩ := sound.becomes_substitute given there sameLength ran
  have left (inner : TypeId) (known : inner ≠ 0) (depth : Nat) (occurs : table.OccursAt depth inner id)
      (deep : TypeM.substitutionDepth < depth) : ∃ depth, after.OccursAt depth inner made :=
    becomes.left_deep known ((keeps.occursAt_iff sound there).mpr occurs) deep
  refine ⟨forall₂_congr fun param among => ⟨fun gone depth occurs => ?_, fun shallow => ?_⟩, left⟩
  · by_contra deep
    have known : param ≠ 0 := by
      rintro rfl
      nomatch areParams 0 among
    obtain ⟨depth', stays⟩ := left param known depth occurs (Nat.lt_of_not_le deep)
    exact gone depth' stays
  · have isParam : after.kindOf param = .param :=
      (keeps.kindOf_eq (there_of_param (areParams param among))).trans (areParams param among)
    refine becomes.clears sound' sameLength isParam among (fun arg isArg depth occurs => ?_)
      fun depth occurs => ?_
    · exact clean param among arg isArg depth ((keeps.occursAt_iff sound (given arg isArg)).mp occurs)
    · exact Nat.lt_succ_of_le (shallow depth ((keeps.occursAt_iff sound there).mp occurs))

/-- A parameter in an instance of a class gives way to a union. -/
theorem parameters_gone_iff_shallow_pairs :
    Asked {} (performAll {} pairRequests) ∧ (performAll {} pairRequests).OccursAt 3 9 12 ∧
      ∃ made after, (TypeM.substitute [9] [13] 12).run (performAll {} pairRequests) = (made, after) ∧
        after.label made = "A<(Int | Char, [Int | Char])>" ∧ ∀ depth, ¬after.OccursAt depth 9 made := by
  have asked : Asked {} (performAll {} pairRequests) := Asked.start.all pairRequests_allocated
  have areParams : ∀ param ∈ [9], (performAll {} pairRequests).kindOf param = .param := by decide +kernel
  have given : AllThere [13] (performAll {} pairRequests) := by decide +kernel
  have there : There 12 (performAll {} pairRequests) := by decide +kernel
  have shown : (performAll {} pairRequests).Shown 4 12 := by decide +kernel
  have shown' : (performAll {} pairRequests).Shown 2 13 := by decide +kernel
  have clean : ∀ param ∈ [9], ∀ arg ∈ [13], ∀ depth,
      ¬(performAll {} pairRequests).OccursAt depth param arg := by
    have bounded : ∀ param ∈ [9], ∀ arg ∈ [13], ∀ depth < 2,
        ¬(performAll {} pairRequests).OccursAt depth param arg := by decide +kernel
    intro param among arg isArg depth occurs
    obtain rfl := List.mem_singleton.mp isArg
    exact bounded param among 13 isArg depth (shown'.occursAt_lt occurs) occurs
  obtain ⟨made, after, ran⟩ : ∃ made after,
      (TypeM.substitute [9] [13] 12).run (performAll {} pairRequests) = (made, after) := ⟨_, _, rfl⟩
  have label : ((TypeM.substitute [9] [13] 12).run (performAll {} pairRequests)).2.label
      ((TypeM.substitute [9] [13] 12).run (performAll {} pairRequests)).1 =
        "A<(Int | Char, [Int | Char])>" := by decide +kernel
  rw [ran] at label
  have gone := (parameters_gone_iff_shallow asked areParams (by decide) given clean there ran).1.mpr
    fun param _ depth occurs => Nat.le_trans (Nat.le_of_lt (shown.occursAt_lt occurs)) (by decide)
  exact ⟨asked, by decide +kernel, made, after, ran, label, gone 9 (.head _)⟩

/-- A parameter in so many lists. -/
def listTower (levels : Nat) : List Request :=
  .registerParam "T" 1 .any :: (List.range levels).map fun level => .intern (.list (8 + level) 1)

theorem listTower_allocated : AllocatedAll {} (listTower 17) := by
  with_unfolding_all decide

/-- A parameter in seventeen lists is left. -/
theorem parameter_left_in_tower :
    Asked {} (performAll {} (listTower 17)) ∧ (performAll {} (listTower 17)).kindOf 8 = .param ∧
      There 25 (performAll {} (listTower 17)) ∧ There TypeId.int (performAll {} (listTower 17)) ∧
      (∀ depth, ¬(performAll {} (listTower 17)).OccursAt depth 8 TypeId.int) ∧
      ((TypeM.substitute [8] [TypeId.int] 25).run (performAll {} (listTower 17))).1 = 25 ∧
      ((TypeM.substitute [8] [TypeId.int] 25).run (performAll {} (listTower 17))).2.OccursAt 17 8
        25 := by
  have noParts : (performAll {} (listTower 17)).shownParts TypeId.int = [] := by decide +kernel
  exact ⟨Asked.start.all listTower_allocated, by decide +kernel, by decide +kernel, by decide +kernel,
    fun depth occurs =>
      (nomatch occursAt_of_noParts noParts occurs), by decide +kernel, by decide +kernel⟩

end TypeTable

end TreeCheck
