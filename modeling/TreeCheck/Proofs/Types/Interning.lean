/-
The table of types says everything once. Forms, groups and instances are looked up before
they are entered, each in a place of its own, so what makes a table sound is an account of
all four tables together: every form, every group and every pair of a class and its
arguments stands in one place, and what an entry refers to was there before it.

Every operation keeps a table sound if what it is given is in the table. They all come down
to entering at most one form, at most one group and at most one class, so soundness is
argued once for that.
-/

import Mathlib.Data.List.Induction
import TreeCheck.Proofs.Types.Growth

namespace TreeCheck

open TypeM TypeTable

variable {α : Type} {id generic : TypeId} {form : TypeForm} {slot : Nat} {kind : GroupKind}
  {members candidates args : List TypeId} {info : ClassInfo}

namespace TypeTable

/-! ### Sound tables -/

/-- What a form refers to is in the table. -/
def Holds (table : TypeTable) : TypeForm → Prop
  | .enum slot => (table.enums.get? slot).isSome
  | .param slot => (table.params.get? slot).isSome
  | .classType slot => (table.classes.get? slot).isSome
  | .list elem _ | .array elem _ => elem < table.size
  | .tuple slot => ∃ members, table.groups.get? slot = some (.tuple, members)
  | .multi slot => ∃ members, table.groups.get? slot = some (.multi, members)
  | _ => True

instance Holds.decidable (table : TypeTable) : (form : TypeForm) → Decidable (table.Holds form)
  | .enum slot => inferInstanceAs (Decidable ((table.enums.get? slot).isSome = true))
  | .param slot => inferInstanceAs (Decidable ((table.params.get? slot).isSome = true))
  | .classType slot => inferInstanceAs (Decidable ((table.classes.get? slot).isSome = true))
  | .list elem _ | .array elem _ => inferInstanceAs (Decidable (elem < table.size))
  | .tuple slot => decidable_of_iff ((table.groups.get? slot).map Prod.fst = some .tuple)
    (by simp [Holds])
  | .multi slot => decidable_of_iff ((table.groups.get? slot).map Prod.fst = some .multi)
    (by simp [Holds])
  | .invalid | .void | .int | .char | .bool | .string | .text | .real => .isTrue trivial

/-- The types a form is made of; those of an instance are its class and its arguments. -/
def parts (table : TypeTable) : TypeForm → List TypeId
  | .list elem _ | .array elem _ => [elem]
  | .tuple slot | .multi slot => ((table.groups.get? slot).map Prod.snd).getD []
  | .classType slot =>
    ((table.classes.get? slot).map fun info => info.generic :: info.args).getD []
  | _ => []

/-- A group of types that are there; a union has two different members at least, all known. -/
structure GroupFits (table : TypeTable) (kind : GroupKind) (members : List TypeId) : Prop where
  there : ∀ member ∈ members, member < table.size
  union : kind = .multi → members.Nodup ∧ 0 ∉ members ∧ 2 ≤ members.length

/-- A class of its own, or an instance with arguments of such a class, under the same name. -/
def ClassFits (table : TypeTable) (info : ClassInfo) : Prop :=
  info.generic = 0 ∧ info.args = [] ∨
    info.args ≠ [] ∧ ∃ origin, table.classInfo? info.generic = some origin ∧
      origin.generic = 0 ∧ origin.name = info.name

/-- Everything stands in one place, and what it refers to is there. -/
structure Sound (table : TypeTable) : Prop where
  primitives : ∀ {id : Nat} {form}, ({} : TypeTable).forms[id]? = some form →
    table.forms[id]? = some form
  form_once : ∀ {first second : Nat} {form}, table.forms[first]? = some form →
    table.forms[second]? = some form → first = second
  holds : ∀ {id : Nat} {form}, table.forms[id]? = some form → table.Holds form
  older : ∀ {id : Nat} {form}, table.forms[id]? = some form → ∀ part ∈ table.parts form, part < id
  group_once : ∀ {first second entry}, table.groups.get? first = some entry →
    table.groups.get? second = some entry → first = second
  group_fits : ∀ {slot kind members}, table.groups.get? slot = some (kind, members) →
    table.GroupFits kind members
  class_placed : ∀ {slot info}, table.classes.get? slot = some info →
    ∃ id : Nat, table.forms[id]? = some (.classType slot)
  class_fits : ∀ {slot info}, table.classes.get? slot = some info → table.ClassFits info
  base_there : ∀ {slot info}, table.classes.get? slot = some info → info.base < table.size
  instance_once : ∀ {first second info other}, table.classes.get? first = some info →
    table.classes.get? second = some other → info.generic ≠ 0 → info.generic = other.generic →
    info.args = other.args → first = second

variable {table before after : TypeTable}

theorem get?_empty (slot : Nat) : ({} : Arena α).get? slot = none := by
  cases slot <;> rfl

/-- The table in which nothing but the primitive types is known is sound. -/
theorem sound_empty : ({} : TypeTable).Sound where
  primitives := id
  form_once {first second form} isFirst isSecond := by
    have bounded : ∀ first < 8, ∀ second < 8,
        ({} : TypeTable).forms[first]? = ({} : TypeTable).forms[second]? → first = second := by decide
    exact bounded first (Array.getElem?_eq_some_iff.mp isFirst).1 second
      (Array.getElem?_eq_some_iff.mp isSecond).1 (isFirst.trans isSecond.symm)
  holds {id form} found := by
    have among : form ∈ ({} : TypeTable).forms := Array.mem_of_getElem? found
    simp only [List.mem_toArray, List.mem_cons, List.not_mem_nil, or_false] at among
    rcases among with rfl | rfl | rfl | rfl | rfl | rfl | rfl | rfl <;> trivial
  older {id form} found := by
    have among : form ∈ ({} : TypeTable).forms := Array.mem_of_getElem? found
    simp only [List.mem_toArray, List.mem_cons, List.not_mem_nil, or_false] at among
    rcases among with rfl | rfl | rfl | rfl | rfl | rfl | rfl | rfl <;> exact nofun
  group_once isFirst := nomatch (get?_empty _).symm.trans isFirst
  group_fits found := nomatch (get?_empty _).symm.trans found
  class_placed found := nomatch (get?_empty _).symm.trans found
  class_fits found := nomatch (get?_empty _).symm.trans found
  base_there found := nomatch (get?_empty _).symm.trans found
  instance_once isFirst := nomatch (get?_empty _).symm.trans isFirst

/-! ### What growing tables keep -/

namespace Grows

variable (grows : before.Grows after)

include grows

theorem size_le : before.size ≤ after.size := by
  refine Nat.le_of_not_lt fun (less : after.size < before.forms.size) => ?_
  have found := grows.form (Array.getElem?_eq_getElem less)
  exact Nat.lt_irrefl _ (Array.getElem?_eq_some_iff.mp found).1

theorem classInfo?_info (found : before.classInfo? id = some info) :
    ∃ later, after.classInfo? id = some later ∧ later.name = info.name ∧
      later.generic = info.generic ∧ later.args = info.args := by
  unfold TypeTable.classInfo? form? at found ⊢
  split at found
  · next slot isForm =>
    split at isForm
    · nomatch isForm
    · next known =>
      obtain ⟨later, there, name, -, generic, args⟩ := grows.classInfo found
      rw [if_neg known, grows.form isForm]
      exact ⟨later, there, name, generic, args⟩
  · nomatch found

theorem holds (held : before.Holds form) : after.Holds form := by
  cases form with
  | enum slot =>
    obtain ⟨info, found⟩ := Option.isSome_iff_exists.mp held
    exact Option.isSome_iff_exists.mpr ⟨info, grows.enumInfo found⟩
  | param slot =>
    obtain ⟨info, found⟩ := Option.isSome_iff_exists.mp held
    exact Option.isSome_iff_exists.mpr ⟨info, grows.paramInfo found⟩
  | classType slot =>
    obtain ⟨info, found⟩ := Option.isSome_iff_exists.mp held
    obtain ⟨later, there, -⟩ := grows.classInfo found
    exact Option.isSome_iff_exists.mpr ⟨later, there⟩
  | list elem dims => exact Nat.lt_of_lt_of_le held grows.size_le
  | array elem dims => exact Nat.lt_of_lt_of_le held grows.size_le
  | tuple slot => exact held.imp fun _ found => grows.group found
  | multi slot => exact held.imp fun _ found => grows.group found
  | _ => trivial

theorem parts (held : before.Holds form) : after.parts form = before.parts form := by
  cases form with
  | classType slot =>
    obtain ⟨info, found⟩ := Option.isSome_iff_exists.mp held
    obtain ⟨later, there, -, -, generic, args⟩ := grows.classInfo found
    simp only [parts, found, there, Option.map_some, Option.getD_some, generic, args]
  | tuple slot =>
    obtain ⟨members, found⟩ := held
    simp only [parts, found, grows.group found]
  | multi slot =>
    obtain ⟨members, found⟩ := held
    simp only [parts, found, grows.group found]
  | _ => rfl

theorem groupFits (fits : before.GroupFits kind members) : after.GroupFits kind members :=
  ⟨fun member among => Nat.lt_of_lt_of_le (fits.there member among) grows.size_le, fits.union⟩

theorem classFits (fits : before.ClassFits info) : after.ClassFits info := by
  refine fits.imp_right fun ⟨args, origin, found, top, name⟩ => ⟨args, ?_⟩
  obtain ⟨later, there, name', top', -⟩ := grows.classInfo?_info found
  exact ⟨later, there, top'.trans top, name'.trans name⟩

end Grows

/-! ### Entering something new -/

/-- A class that gets its form along with its entry, and is no instance that is there. -/
structure FreshClass (before after : TypeTable) (slot : Nat) (info : ClassInfo) : Prop where
  last : slot = before.classes.next
  placed : ∃ id : Nat, after.forms[id]? = some (.classType slot)
  fits : before.ClassFits info
  fresh : ∀ {other old}, before.classes.get? other = some old → info.generic ≠ 0 →
    info.generic = old.generic → info.args ≠ old.args

/-- What may be entered in one go: a form, a group and a class that are not there yet. Of a class
that is there, the base and the parameters may change. -/
structure Enters (before after : TypeTable) : Prop where
  grows : before.Grows after
  form : ∀ {id : Nat} {form}, after.forms[id]? = some form → before.forms[id]? = some form ∨
    id = before.size ∧ (∀ other : Nat, before.forms[other]? ≠ some form) ∧ after.Holds form ∧
      ∀ part ∈ after.parts form, part < id
  group : ∀ {slot kind members}, after.groups.get? slot = some (kind, members) →
    before.groups.get? slot = some (kind, members) ∨
    slot = before.groups.next ∧ (∀ other, before.groups.get? other ≠ some (kind, members)) ∧
      before.GroupFits kind members
  classInfo : ∀ {slot info}, after.classes.get? slot = some info →
    (∃ old, before.classes.get? slot = some old ∧ info.name = old.name ∧
      info.generic = old.generic ∧ info.args = old.args) ∨ before.FreshClass after slot info
  base : ∀ {slot info}, after.classes.get? slot = some info → info.base < after.size

theorem Sound.enter (sound : before.Sound) (enters : before.Enters after) : after.Sound where
  primitives found := enters.grows.form (sound.primitives found)
  form_once {first second form} isFirst isSecond := by
    rcases enters.form isFirst with old | ⟨rfl, fresh, -⟩
    · rcases enters.form isSecond with old' | ⟨rfl, fresh, -⟩
      · exact sound.form_once old old'
      · exact absurd old (fresh _)
    · rcases enters.form isSecond with old' | ⟨rfl, -⟩
      · exact absurd old' (fresh _)
      · rfl
  holds found := by
    rcases enters.form found with old | ⟨-, -, holds, -⟩
    · exact enters.grows.holds (sound.holds old)
    · exact holds
  older {id form} found part among := by
    rcases enters.form found with old | ⟨-, -, -, older⟩
    · rw [enters.grows.parts (sound.holds old)] at among
      exact sound.older old part among
    · exact older part among
  group_once {first second entry} isFirst isSecond := by
    obtain ⟨kind, members⟩ := entry
    rcases enters.group isFirst with old | ⟨rfl, fresh, -⟩
    · rcases enters.group isSecond with old' | ⟨rfl, fresh, -⟩
      · exact sound.group_once old old'
      · exact absurd old (fresh _)
    · rcases enters.group isSecond with old' | ⟨rfl, -⟩
      · exact absurd old' (fresh _)
      · rfl
  group_fits found := by
    rcases enters.group found with old | ⟨-, -, fits⟩
    · exact enters.grows.groupFits (sound.group_fits old)
    · exact enters.grows.groupFits fits
  class_placed found := by
    rcases enters.classInfo found with ⟨old, there, -⟩ | new
    · exact (sound.class_placed there).imp fun _ isForm => enters.grows.form isForm
    · exact new.placed
  class_fits {slot info} found := by
    rcases enters.classInfo found with ⟨old, there, name, generic, args⟩ | new
    · have fits := enters.grows.classFits (sound.class_fits there)
      rwa [ClassFits, name, generic, args]
    · exact enters.grows.classFits new.fits
  base_there found := enters.base found
  instance_once {first second info other} isFirst isSecond known generic args := by
    rcases enters.classInfo isFirst with ⟨old, there, -, isGeneric, isArgs⟩ | new
    · rcases enters.classInfo isSecond with ⟨old', there', -, isGeneric', isArgs'⟩ | new
      · exact sound.instance_once there there' (isGeneric ▸ known)
          (isGeneric ▸ isGeneric' ▸ generic) (isArgs ▸ isArgs' ▸ args)
      · exact absurd (args.symm.trans isArgs) (new.fresh there (generic ▸ known)
          (generic.symm.trans isGeneric))
    · rcases enters.classInfo isSecond with ⟨old', there', -, isGeneric', isArgs'⟩ | new'
      · exact absurd (args.trans isArgs') (new.fresh there' known (generic.trans isGeneric'))
      · exact new.last.trans new'.last.symm

/-! ### Single operations -/

theorem form?_eq_some : table.form? id = some form ↔ id ≠ 0 ∧ table.forms[id]? = some form := by
  unfold form?
  split
  · next unknown => simp [unknown]
  · next known => simp [known]

theorem lt_size_of_form {id : Nat} (found : table.forms[id]? = some form) : id < table.size :=
  (Array.getElem?_eq_some_iff.mp found).1

/-- What a form that may be entered is made of is in the table. -/
theorem Sound.part_lt (sound : table.Sound) (held : table.Holds form) :
    ∀ part ∈ table.parts form, part < table.size := by
  cases form with
  | list elem dims =>
    rintro part among
    rwa [List.mem_singleton.mp among]
  | array elem dims =>
    rintro part among
    rwa [List.mem_singleton.mp among]
  | tuple slot =>
    obtain ⟨members, found⟩ := held
    rw [parts, found]
    exact (sound.group_fits found).there
  | multi slot =>
    obtain ⟨members, found⟩ := held
    rw [parts, found]
    exact (sound.group_fits found).there
  | classType slot =>
    obtain ⟨info, found⟩ := Option.isSome_iff_exists.mp held
    obtain ⟨id, placed⟩ := sound.class_placed found
    exact fun part among => Nat.lt_trans (sound.older placed part among) (lt_size_of_form placed)
  | _ => nofun

theorem forms_push_cases {forms : Array TypeForm} {found : TypeForm} {id : Nat}
    (isForm : (forms.push form)[id]? = some found) :
    forms[id]? = some found ∨ id = forms.size ∧ found = form := by
  rw [Array.getElem?_push] at isForm
  split at isForm
  · next last => exact .inr ⟨last, (Option.some.inj isForm).symm⟩
  · exact .inl isForm

theorem arena_push_cases {arena : Arena α} {item found : α}
    (isItem : (arena.push item).get? slot = some found) :
    arena.get? slot = some found ∨ slot = arena.next ∧ found = item := by
  by_cases fresh : slot = arena.next
  · rw [fresh, Arena.get?_push_self, Option.some.injEq] at isItem
    exact .inr ⟨fresh, isItem.symm⟩
  · rw [Arena.get?_push_other _ _ fresh] at isItem
    exact .inl isItem

/-- No entry has the number the next one will get. -/
theorem arena_get?_next (arena : Arena α) : arena.get? arena.next = none := by
  rw [← Option.not_isSome_iff_eq_none, Arena.isSome_get?_iff, Arena.next]
  exact fun bounds => Nat.not_succ_le_self _ bounds.2

/-- A form is entered, and nothing among classes and groups. -/
theorem Sound.enterForm (sound : before.Sound) (grows : before.Grows after)
    (forms : after.forms = before.forms.push form) (groups : after.groups = before.groups)
    (classes : after.classes = before.classes)
    (fresh : ∀ other : Nat, before.forms[other]? ≠ some form) (held : after.Holds form)
    (older : ∀ part ∈ after.parts form, part < before.size) : after.Sound := by
  refine sound.enter ⟨grows, fun isForm => ?_, fun found => .inl (groups ▸ found),
    fun found => .inl ⟨_, classes ▸ found, rfl, rfl, rfl⟩, fun found => ?_⟩
  · rw [forms] at isForm
    rcases forms_push_cases isForm with old | ⟨last, rfl⟩
    · exact .inl old
    · exact .inr ⟨last, fresh, held, fun part among => last ▸ older part among⟩
  · exact Nat.lt_of_lt_of_le (sound.base_there (classes ▸ found)) grows.size_le

theorem Sound.push (sound : table.Sound) (held : table.Holds form)
    (fresh : ∀ other : Nat, table.forms[other]? ≠ some form) : (table.push form).2.Sound := by
  have grows := (extends_push table form).grows
  refine sound.enterForm grows rfl rfl rfl fresh (grows.holds held) fun part among => ?_
  rw [grows.parts held] at among
  exact sound.part_lt held part among

/-- A form is entered once, and from then on has its number. -/
theorem Sound.intern (sound : table.Sound) (held : table.Holds form) :
    (table.intern form).2.Sound := by
  unfold TypeTable.intern
  split
  · exact sound
  · split
    · exact sound
    · next absent =>
      refine sound.push held fun other found => ?_
      obtain ⟨bound, same⟩ := Array.getElem?_eq_some_iff.mp found
      rw [Array.idxOf?_eq_none_iff] at absent
      exact absent (same ▸ Array.getElem_mem bound)

theorem forms_intern (table : TypeTable) (known : form ≠ .invalid) :
    (table.intern form).2.forms[(table.intern form).1]? = some form := by
  unfold intern
  rw [if_neg known]
  split
  · next id found =>
    obtain ⟨index, isIndex, rfl⟩ := Option.map_eq_some_iff.mp found
    have isForm := (Array.finIdxOf?_eq_some_iff.mp isIndex).1
    simp [← isForm]
  · exact Array.getElem?_push_size

theorem Sound.group (sound : table.Sound) (fits : table.GroupFits kind members) :
    (table.group kind members).2.Sound := by
  have grows := (extends_group table kind members).grows
  unfold TypeTable.group at grows ⊢
  split
  · exact sound
  · next absent =>
    rw [absent] at grows
    refine sound.enter ⟨grows, .inl, fun {slot kind' members'} isGroup => ?_,
      fun found => .inl ⟨_, found, rfl, rfl, rfl⟩, sound.base_there⟩
    rcases arena_push_cases isGroup with old | ⟨last, same⟩
    · exact .inl old
    · cases same
      refine .inr ⟨last, fun other found => ?_, fits⟩
      rw [Array.idxOf?_eq_none_iff] at absent
      cases other with
      | zero => nomatch found
      | succ index =>
        obtain ⟨bound, same⟩ := Array.getElem?_eq_some_iff.mp found
        exact absent (same ▸ Array.getElem_mem bound)

theorem groups_group (table : TypeTable) (kind : GroupKind) (members : List TypeId) :
    (table.group kind members).2.groups.get? (table.group kind members).1 = some (kind, members) := by
  unfold group
  split
  · next index found =>
    obtain ⟨place, isPlace, rfl⟩ := Option.map_eq_some_iff.mp found
    have isGroup := (Array.finIdxOf?_eq_some_iff.mp isPlace).1
    simp [Arena.get?, ← isGroup]
  · exact Arena.get?_push_self _ _

/-- A group that is there is not entered again. -/
theorem Sound.group_eq (sound : table.Sound)
    (found : table.groups.get? slot = some (kind, members)) :
    table.group kind members = (slot, table) := by
  have entered := table.groups_group kind members
  unfold TypeTable.group at entered ⊢
  split
  · next index isIndex =>
    simp only [isIndex] at entered
    rw [sound.group_once entered found]
  · next absent =>
    rw [Array.idxOf?_eq_none_iff] at absent
    cases slot with
    | zero => nomatch found
    | succ index =>
      obtain ⟨bound, same⟩ := Array.getElem?_eq_some_iff.mp found
      exact absurd (same ▸ Array.getElem_mem bound) absent

/-- A form that is there is not entered again. -/
theorem Sound.intern_eq (sound : table.Sound) (isForm : table.form? id = some form) :
    table.intern form = (id, table) := by
  obtain ⟨nonzero, found⟩ := form?_eq_some.mp isForm
  have known : form ≠ .invalid := by
    rintro rfl
    exact nonzero (sound.form_once found (sound.primitives rfl))
  have entered := table.forms_intern known
  unfold TypeTable.intern at entered ⊢
  rw [if_neg known] at entered ⊢
  split
  · next other isOther =>
    simp only [isOther] at entered
    rw [sound.form_once entered found]
  · next absent =>
    rw [Array.idxOf?_eq_none_iff] at absent
    obtain ⟨bound, same⟩ := Array.getElem?_eq_some_iff.mp found
    exact absurd (same ▸ Array.getElem_mem bound) absent

theorem Sound.makeTuple (sound : table.Sound) {elems : List TypeId}
    (there : ∀ elem ∈ elems, elem < table.size) : (table.makeTuple elems).2.Sound := by
  have fits : table.GroupFits .tuple elems := ⟨there, nofun⟩
  have held : (table.group .tuple elems).2.Holds (.tuple _) := ⟨elems, groups_group ..⟩
  exact (sound.group fits).intern held

theorem distinct_append (front : List TypeId) (candidate : TypeId) :
    distinct (front ++ [candidate]) =
      if candidate = 0 ∨ candidate ∈ distinct front then distinct front
      else distinct front ++ [candidate] :=
  List.foldl_append

/-- What is left of candidates are the known ones, each where it occurs first. -/
theorem distinct_eq (candidates : List TypeId) :
    distinct candidates = (candidates.filter (· ≠ 0)).eraseDups := by
  induction candidates using List.reverseRecOn with
  | nil => rfl
  | append_singleton front candidate inductionHypothesis =>
    rw [distinct_append, inductionHypothesis, List.filter_append, List.eraseDups_append]
    by_cases unknown : candidate = 0
    · simp [unknown]
    · by_cases among : candidate ∈ front <;> simp [unknown, among, List.removeAll, List.eraseDups_cons]

theorem mem_distinct {candidate : TypeId} :
    candidate ∈ distinct candidates ↔ candidate ∈ candidates ∧ candidate ≠ 0 := by
  simp [distinct_eq]

/-- A union is known, be it one of nothing known, which is the type without values. -/
theorem makeMulti_ne_zero (taken : table.forms[0]? = some .invalid) (candidates : List TypeId) :
    (table.makeMulti candidates).1 ≠ 0 := by
  unfold makeMulti
  split
  · show TypeId.void ≠ 0
    decide
  · next one single => exact (mem_distinct.mp (single ▸ List.mem_singleton_self one)).2
  · exact intern_ne_zero ((extends_group table .multi _).form taken) nofun

theorem nodup_distinct (candidates : List TypeId) : (distinct candidates).Nodup := by
  induction candidates using List.reverseRecOn with
  | nil => exact .nil
  | append_singleton front candidate inductionHypothesis =>
    rw [distinct_append]
    split
    · exact inductionHypothesis
    · next fresh =>
      refine List.nodup_append.mpr ⟨inductionHypothesis, by simp, fun other among same isLast => ?_⟩
      rintro rfl
      exact fresh (.inr (List.mem_singleton.mp isLast ▸ among))

/-- Members that are known and different are all kept. -/
theorem distinct_members (nodup : members.Nodup) (known : 0 ∉ members) :
    distinct members = members := by
  induction members using List.reverseRecOn with
  | nil => rfl
  | append_singleton front member inductionHypothesis =>
    obtain ⟨nodupFront, -, apart⟩ := List.nodup_append.mp nodup
    rw [distinct_append, inductionHypothesis nodupFront fun among =>
      known (List.mem_append_left _ among)]
    refine if_neg fun dropped => dropped.elim (fun unknown => known ?_) fun among => ?_
    · rw [unknown]
      exact List.mem_append_right _ (.head _)
    · exact apart _ among _ (.head _) rfl

theorem two_le_length {items : List α} (none : items = [] → False)
    (one : ∀ item, items = [item] → False) : 2 ≤ items.length := by
  match items with
  | [] => exact (none rfl).elim
  | [only] => exact (one only rfl).elim
  | _ :: _ :: _ => simp

/-- Two candidates or more that are left form a group. -/
theorem groupFits_distinct (there : ∀ candidate ∈ candidates, candidate < table.size)
    (several : 2 ≤ (distinct candidates).length) : table.GroupFits .multi (distinct candidates) :=
  ⟨fun member among => there member (mem_distinct.mp among).1,
    fun _ => ⟨nodup_distinct _, fun among => (mem_distinct.mp among).2 rfl, several⟩⟩

theorem Sound.makeMulti (sound : table.Sound)
    (there : ∀ candidate ∈ candidates, candidate < table.size) :
    (table.makeMulti candidates).2.Sound := by
  unfold TypeTable.makeMulti
  split
  · exact sound
  · exact sound
  · next none one =>
    have several := two_le_length none one
    have held : (table.group .multi (distinct candidates)).2.Holds (.multi _) :=
      ⟨_, groups_group ..⟩
    exact (sound.group (groupFits_distinct there several)).intern held

theorem Sound.registerEnum (sound : table.Sound) (name : String) (decl : DeclId) :
    (table.registerEnum name decl).2.Sound := by
  refine sound.enterForm (extends_registerEnum table name decl).grows rfl rfl rfl
    (fun other found => ?_) ?_ nofun
  · have held := sound.holds found
    rw [Holds, arena_get?_next] at held
    nomatch held
  · exact Option.isSome_iff_exists.mpr ⟨_, Arena.get?_push_self _ _⟩

theorem Sound.registerParam (sound : table.Sound) (name : String) (decl : DeclId)
    (constraint : Constraint) : (table.registerParam name decl constraint).2.Sound := by
  refine sound.enterForm (extends_registerParam table name decl constraint).grows rfl rfl rfl
    (fun other found => ?_) ?_ nofun
  · have held := sound.holds found
    rw [Holds, arena_get?_next] at held
    nomatch held
  · exact Option.isSome_iff_exists.mpr ⟨_, Arena.get?_push_self _ _⟩

/-- A class with its form, be it one of its own or an instance. -/
def addClass (table : TypeTable) (info : ClassInfo) : TypeId × TypeTable :=
  push { table with classes := table.classes.push info } (.classType table.classes.next)

theorem grows_addClass (table : TypeTable) (info : ClassInfo) :
    table.Grows (table.addClass info).2 := by
  have added : table.Grows { table with classes := table.classes.push info } :=
    ⟨id, id, fun found => ⟨_, Arena.get?_push_of_some _ found, rfl, rfl, rfl, rfl⟩, id, id⟩
  exact added.trans (extends_push _ _).grows

section

variable (sound : table.Sound)

include sound

theorem Sound.addClass (fits : table.ClassFits info)
    (there : ∀ part ∈ info.base :: info.generic :: info.args, part < table.size)
    (fresh : ∀ {other old}, table.classes.get? other = some old → info.generic ≠ 0 →
      info.generic = old.generic → info.args ≠ old.args) : (table.addClass info).2.Sound := by
  have grows := table.grows_addClass info
  have entered : (table.addClass info).2.classes.get? table.classes.next = some info :=
    Arena.get?_push_self _ _
  have placed : (table.addClass info).2.forms[table.size]? = some (.classType table.classes.next) :=
    Array.getElem?_push_size
  refine sound.enter ⟨grows, fun isForm => ?_, .inl, fun found => ?_, fun found => ?_⟩
  · rcases forms_push_cases isForm with old | ⟨last, rfl⟩
    · exact .inl old
    · refine .inr ⟨last, fun other found => ?_, Option.isSome_iff_exists.mpr ⟨info, entered⟩,
        fun part among => ?_⟩
      · have held := sound.holds found
        rw [Holds, arena_get?_next] at held
        nomatch held
      · rw [parts, entered] at among
        rw [last]
        exact there part (.tail _ among)
  · rcases arena_push_cases found with old | ⟨last, rfl⟩
    · exact .inl ⟨_, old, rfl, rfl, rfl⟩
    · exact .inr ⟨last, ⟨_, last ▸ placed⟩, fits, fresh⟩
  · refine Nat.lt_of_lt_of_le ?_ grows.size_le
    rcases arena_push_cases found with old | ⟨-, rfl⟩
    · exact sound.base_there old
    · exact there _ (.head _)

theorem Sound.positive : 0 < table.size := by
  have zero : table.forms[0]? = some .invalid := sound.primitives rfl
  exact lt_size_of_form zero

theorem Sound.registerClass (name : String) (decl : DeclId) :
    (table.registerClass name decl).2.Sound := by
  refine sound.addClass (.inl ⟨rfl, rfl⟩) (fun part among => ?_) fun _ known => absurd rfl known
  rw [List.mem_cons, List.mem_singleton, or_self] at among
  exact among ▸ sound.positive

/-- The base and the parameters of a class may change. -/
theorem Sound.modifyClass (id : TypeId) {change : ClassInfo → ClassInfo}
    (keeps : ∀ info, (change info).name = info.name ∧ (change info).decl = info.decl ∧
      (change info).generic = info.generic ∧ (change info).args = info.args)
    (base : ∀ info, info.base < table.size → (change info).base < table.size) :
    (table.modifyClass id change).Sound := by
  have grows := table.grows_modifyClass id change keeps
  unfold TypeTable.modifyClass at grows ⊢
  split
  · next slot isForm =>
    rw [isForm] at grows
    have known {other : Nat} {info : ClassInfo}
        (found : (table.classes.modify slot change).get? other = some info) :
        ∃ old, table.classes.get? other = some old ∧ (info = old ∨ info = change old) := by
      rw [Arena.get?_modify] at found
      split at found
      · obtain ⟨old, there, rfl⟩ := Option.map_eq_some_iff.mp found
        exact ⟨old, there, .inr rfl⟩
      · exact ⟨info, found, .inl rfl⟩
    refine sound.enter ⟨grows, .inl, .inl, fun found => .inl ?_, fun found => ?_⟩
    · obtain ⟨old, there, rfl | rfl⟩ := known found
      · exact ⟨_, there, rfl, rfl, rfl⟩
      · obtain ⟨name, -, generic, args⟩ := keeps old
        exact ⟨old, there, name, generic, args⟩
    · obtain ⟨old, there, rfl | rfl⟩ := known found
      · exact sound.base_there there
      · exact base old (sound.base_there there)
  · exact sound

theorem Sound.setBase (id : TypeId) {base : TypeId}
    (there : base < table.size) : (table.setBase id base).Sound := by
  unfold TypeTable.setBase
  split
  · exact sound
  · exact sound.modifyClass id (fun _ => ⟨rfl, rfl, rfl, rfl⟩) fun _ _ => there

theorem Sound.setParams (id : TypeId) (params : List TypeId) :
    (table.setParams id params).Sound :=
  sound.modifyClass id (fun _ => ⟨rfl, rfl, rfl, rfl⟩) fun _ there => there

end

/-! ### Instances -/

theorem Sound.form?_of_forms (sound : table.Sound) {id : Nat} (found : table.forms[id]? = some form)
    (known : form ≠ .invalid) : table.form? id = some form := by
  refine form?_eq_some.mpr ⟨?_, found⟩
  rintro rfl
  exact known (Option.some.inj (found.symm.trans (sound.primitives rfl)))

theorem Sound.classInfo?_of_forms (sound : table.Sound) {id : Nat}
    (found : table.forms[id]? = some (.classType slot))
    (isInfo : table.classes.get? slot = some info) : table.classInfo? id = some info := by
  rw [classInfo?, sound.form?_of_forms found (by rintro ⟨⟩)]
  exact isInfo

theorem lt_size_of_classInfo (found : table.classInfo? id = some info) : id < table.size := by
  obtain ⟨slot, isForm, -⟩ := classInfo?_eq_some found
  exact lt_size_of_form (form?_eq_some.mp isForm).2

theorem Sound.part_lt_of_form? (sound : table.Sound) (isForm : table.form? id = some form) :
    ∀ part ∈ table.parts form, part < id :=
  sound.older (form?_eq_some.mp isForm).2

/-- An instance is younger than its class and its arguments. -/
theorem Sound.part_lt_of_classInfo? (sound : table.Sound)
    (found : table.classInfo? id = some info) :
    ∀ part ∈ info.generic :: info.args, part < id := by
  obtain ⟨slot, isForm, isInfo⟩ := classInfo?_eq_some found
  have older := sound.part_lt_of_form? isForm
  rwa [parts, isInfo] at older

theorem elems_of_tuple {id : Nat} (isForm : table.form? id = some (.tuple slot)) :
    table.elems id = table.parts (.tuple slot) := by
  simp only [elems, isForm, parts]
  cases table.groups.get? slot <;> rfl

theorem elems_of_multi {id : Nat} (isForm : table.form? id = some (.multi slot)) :
    table.elems id = table.parts (.multi slot) := by
  simp only [elems, isForm, parts]
  cases table.groups.get? slot <;> rfl

/-- A class is an instance of a class of its own, or it is one. -/
theorem Sound.origin (sound : table.Sound) (found : table.classInfo? id = some info) :
    ∃ origin, table.classInfo? (if info.generic = 0 then id else info.generic) = some origin ∧
      origin.generic = 0 ∧ origin.name = info.name := by
  obtain ⟨slot, -, isInfo⟩ := classInfo?_eq_some found
  split
  · next top => exact ⟨info, found, top, rfl⟩
  · next known =>
    rcases sound.class_fits isInfo with ⟨top, -⟩ | ⟨-, origin⟩
    · exact absurd top known
    · exact origin

/-- An instance that is there is found. -/
theorem Sound.findInstance?_ne_none (sound : table.Sound)
    (there : table.classes.get? slot = some info) :
    findInstance? table info.generic info.args ≠ none := by
  obtain ⟨id, placed⟩ := sound.class_placed there
  obtain ⟨bound, same⟩ := Array.getElem?_eq_some_iff.mp placed
  intro none
  have fails := Array.findIdx?_eq_none_iff.mp none _ (Array.getElem_mem bound)
  simp [same, there] at fails

theorem Sound.classInfo?_of_findInstance? (sound : table.Sound)
    (found : findInstance? table generic args = some id) :
    ∃ info, table.classInfo? id = some info ∧ info.generic = generic ∧ info.args = args := by
  obtain ⟨bound, fits, -⟩ := Array.findIdx?_eq_some_iff_getElem.mp found
  split at fits
  · next slot isForm =>
    split at fits
    · next info isInfo =>
      simp only [Bool.and_eq_true, decide_eq_true_eq] at fits
      have there : table.forms[id]? = some (.classType slot) := by
        rw [← isForm]
        exact Array.getElem?_eq_getElem bound
      exact ⟨info, sound.classInfo?_of_forms there isInfo, fits⟩
    · nomatch fits
  · nomatch fits

/-- An instance that is asked for is there afterwards. -/
theorem Sound.instance_spec (sound : table.Sound) (isClass : table.classInfo? generic = some info)
    (given : args ≠ []) (there : ∀ arg ∈ args, arg < table.size) :
    ((instantiate generic args).run table).2.Sound ∧
      ∃ made, ((instantiate generic args).run table).2.classInfo?
          ((instantiate generic args).run table).1 = some made ∧
        made.generic = (if info.generic = 0 then generic else info.generic) ∧ made.args = args := by
  obtain ⟨origin, isOrigin, top, name⟩ := sound.origin isClass
  unfold instantiate
  rw [run_get_bind, isClass]
  dsimp only
  rw [if_neg (by simpa using given), run_get_bind, isOrigin]
  dsimp only
  rw [run_get_bind]
  split
  · next found => exact ⟨sound, sound.classInfo?_of_findInstance? found⟩
  · next absent =>
    let made : ClassInfo :=
      { name := origin.name, decl := origin.decl, params := origin.params,
        generic := if info.generic = 0 then generic else info.generic, args }
    have sound' : (table.addClass made).2.Sound := by
      refine sound.addClass (.inr ⟨given, origin, isOrigin, top, rfl⟩) (fun part among => ?_) ?_
      · rcases List.mem_cons.mp among with rfl | among
        · exact sound.positive
        · rcases List.mem_cons.mp among with rfl | among
          · exact lt_size_of_classInfo isOrigin
          · exact there part among
      · intro other old isOld known isGeneric isArgs
        refine sound.findInstance?_ne_none isOld ?_
        rw [← isGeneric, ← isArgs]
        exact absent
    have isMade : (table.addClass made).2.classInfo? table.size = some made :=
      sound'.classInfo?_of_forms Array.getElem?_push_size (Arena.get?_push_self _ _)
    exact ⟨sound', made, isMade, rfl, rfl⟩

/-- Where there is nothing to be made an instance of, nothing is made. -/
theorem Sound.instantiate (sound : table.Sound) (there : ∀ arg ∈ args, arg < table.size) :
    ((TypeM.instantiate generic args).run table).2.Sound ∧
      ((TypeM.instantiate generic args).run table).1 <
        ((TypeM.instantiate generic args).run table).2.size := by
  cases isClass : table.classInfo? generic with
  | none =>
    unfold TypeM.instantiate
    rw [TypeM.run_get_bind, isClass]
    exact ⟨sound, sound.positive⟩
  | some info =>
    by_cases given : args = []
    · subst given
      unfold TypeM.instantiate
      rw [TypeM.run_get_bind, isClass]
      exact ⟨sound, lt_size_of_classInfo isClass⟩
    · obtain ⟨sound', made, isMade, -⟩ := sound.instance_spec isClass given there
      exact ⟨sound', lt_size_of_classInfo isMade⟩

end TypeTable

end TreeCheck
