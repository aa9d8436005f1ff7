/-
When labels tell types apart. A label shows all that a type is made of, though not always in
a way that can be read back: brackets and bars of neighbouring types run together, and deep
down a label is cut off. Where neither happens and everything goes by a name of its own, types
with the same label are the same type.

Labels are read back as shapes. That takes two steps: legible types have legible shapes, which
can be read back whatever they are shapes of, and the table says everything once, so legible
types of one shape are one type.
-/

import TreeCheck.Proofs.Types.Canonicity
import TreeCheck.Proofs.Types.Shapes

namespace TreeCheck

variable {levels : Nat}

namespace TypeTable

variable {table : TypeTable} {id : TypeId}

/-! ### Names -/

/-- The name under which a class, enum or template parameter was introduced. Instances have the
name of their class and are not introduced. -/
def introduced? (table : TypeTable) (id : TypeId) : Option String :=
  match table.form? id with
  | some (.enum slot) => (table.enums.get? slot).map EnumInfo.name
  | some (.param slot) => (table.params.get? slot).map ParamInfo.name
  | some (.classType slot) =>
    ((table.classes.get? slot).filter fun info => info.generic = 0).map ClassInfo.name
  | _ => none

/-- Classes, enums and template parameters go by different words, none of which is the name of a
primitive type. -/
structure WellNamed (table : TypeTable) : Prop where
  nonempty : ∀ {id name}, table.introduced? id = some name → name ≠ ""
  plain : ∀ {id name}, table.introduced? id = some name →
    ∀ letter ∈ name.toList, letter ∉ '?' :: Shape.marks
  primitive : ∀ {id name}, table.introduced? id = some name → TypeKind.ofBuiltin? name = none
  apart : ∀ {first second name}, table.introduced? first = some name →
    table.introduced? second = some name → first = second

/-- Letters are no punctuation. -/
theorem notMem_marks_of_isAlpha {letter : Char} (isLetter : letter.isAlpha = true) :
    letter ∉ '?' :: Shape.marks := by
  intro among
  have all : ('?' :: Shape.marks).all (!·.isAlpha) = true := by decide
  have none := List.all_eq_true.mp all letter among
  rw [isLetter] at none
  nomatch none

/-- Different names made of letters will do, if none of them is the name of a primitive type. -/
theorem wellNamed_of_alpha
    (alpha : ∀ id < table.size, ∀ name ∈ table.introduced? id,
      name ≠ "" ∧ name.toList.all Char.isAlpha = true ∧ TypeKind.ofBuiltin? name = none)
    (apart : ∀ first < table.size, ∀ second < table.size, ∀ name ∈ table.introduced? first,
      table.introduced? second = some name → first = second) : table.WellNamed := by
  have there {id : TypeId} {name : String} (introduced : table.introduced? id = some name) :
      id < table.size := by
    by_contra beyond
    have none : table.form? id = none := by
      rw [form?, Array.getElem?_eq_none_iff.mpr (Nat.le_of_not_lt beyond), ite_self]
    rw [introduced?, none] at introduced
    cases introduced
  refine ⟨fun introduced => (alpha _ (there introduced) _ introduced).1,
    fun introduced letter among => notMem_marks_of_isAlpha ?_,
    fun introduced => (alpha _ (there introduced) _ introduced).2.2,
    fun introduced introduced' =>
      apart _ (there introduced) _ (there introduced') _ introduced introduced'⟩
  exact List.all_eq_true.mp (alpha _ (there introduced) _ introduced).2.1 letter among

/-! ### What labels show of template arguments -/

/-- The label of a type shows all of it within so many levels: nothing is cut off, every list and
array has brackets, no list stands directly in a list, no array or union directly in an array, and
no union directly in a union. -/
def Legible (table : TypeTable) : Nat → TypeId → Prop
  | 0, _ => False
  | levels + 1, id =>
    match table.form? id with
    | some (.list elem dims) => dims ≠ 0 ∧ table.kindOf elem ≠ .list ∧ table.Legible levels elem
    | some (.array elem dims) =>
      dims ≠ 0 ∧ table.kindOf elem ≠ .array ∧ table.kindOf elem ≠ .multi ∧
        table.Legible levels elem
    | some (.tuple _) => ∀ member ∈ table.elems id, table.Legible levels member
    | some (.multi _) =>
      ∀ member ∈ table.elems id, table.kindOf member ≠ .multi ∧ table.Legible levels member
    | some (.classType slot) =>
      ∀ info, table.classes.get? slot = some info → ∀ arg ∈ info.args, table.Legible levels arg
    | _ => True

/-! ### Shapes of types -/

/-- The shape of a type, so many levels deep. -/
def shapeWithin (table : TypeTable) : Nat → TypeId → Shape
  | 0, id => .leaf id
  | levels + 1, id =>
    match table.form? id with
    | some (.list elem dims) => .list dims.toNat (table.shapeWithin levels elem)
    | some (.array elem dims) => .array dims.toNat (table.shapeWithin levels elem)
    | some (.tuple _) => .tuple ((table.elems id).map (table.shapeWithin levels))
    | some (.multi _) => .union ((table.elems id).map (table.shapeWithin levels))
    | some (.classType _) =>
      match table.classInfo? id with
      | some info =>
        if info.args = [] then .leaf id
        else .apply info.generic (info.args.map (table.shapeWithin levels))
      | none => .leaf id
    | _ => .leaf id

/-- A type that is shown by a name alone. -/
structure IsName (table : TypeTable) (id : TypeId) : Prop where
  there : There id table
  plain : ∀ {form}, table.form? id = some form → form.kind ∉ [.list, .array, .tuple, .multi]
  top : ∀ {info}, table.classInfo? id = some info → info.args = []

/-- The name of a type that is shown by a name alone. -/
def nameText (table : TypeTable) (id : TypeId) : List Char := (table.labelWithin 1 id).toList

/-- What sort of type it is, as labels go. -/
inductive View (table : TypeTable) (id : TypeId) : Prop where
  | list {elem dims} (isForm : table.form? id = some (.list elem dims))
  | array {elem dims} (isForm : table.form? id = some (.array elem dims))
  | tuple {slot} (isForm : table.form? id = some (.tuple slot))
  | union {slot} (isForm : table.form? id = some (.multi slot))
  | apply {info} (isClass : table.classInfo? id = some info) (given : info.args ≠ [])
  | name (isName : table.IsName id)

theorem Sound.view (sound : table.Sound) {id : TypeId} (there : There id table) : table.View id := by
  cases isForm : table.form? id with
  | none => exact .name ⟨there, by simp [isForm], by simp [classInfo?, isForm]⟩
  | some form =>
    cases form with
    | list elem dims => exact .list isForm
    | array elem dims => exact .array isForm
    | tuple slot => exact .tuple isForm
    | multi slot => exact .union isForm
    | classType slot =>
      obtain ⟨info, isInfo⟩ := Option.isSome_iff_exists.mp (sound.holds (form?_eq_some.mp isForm).2)
      have isClass : table.classInfo? id = some info := by rw [classInfo?, isForm]; exact isInfo
      by_cases given : info.args = []
      · refine .name ⟨there, fun isForm' => ?_, fun isClass' => ?_⟩
        · cases isForm.symm.trans isForm'
          simp [TypeForm.kind]
        · cases isClass.symm.trans isClass'
          exact given
      · exact .apply isClass given
    | _ =>
      refine .name ⟨there, fun isForm' => ?_, by simp [classInfo?, isForm]⟩
      cases isForm.symm.trans isForm'
      simp [TypeForm.kind]

/-! ### Labels of shapes -/

theorem toList_join (separator : String) (parts : List String) :
    (Text.join separator parts).toList = separator.toList.intercalate (parts.map String.toList) := by
  induction parts with
  | nil => rfl
  | cons part rest inductionHypothesis =>
    cases rest with
    | nil => simp [Text.join]
    | cons second rest =>
      simp only [Text.join, String.toList_append, inductionHypothesis, List.map_cons,
        List.intercalate_cons_cons]

theorem toList_repeated (text : String) (count : Nat) :
    (Text.repeated text count).toList = (List.replicate count text.toList).flatten := by
  induction count with
  | zero => rfl
  | succ count inductionHypothesis =>
    rw [Text.repeated, String.toList_append, inductionHypothesis, List.replicate_succ,
      List.flatten_cons]

/-- The label of a type as a list of characters. -/
def labelText (table : TypeTable) (levels : Nat) (id : TypeId) : List Char :=
  (table.labelWithin levels id).toList

section Labels

variable {levels : Nat} {id elem : TypeId} {dims : UInt8} {slot : Nat} {info : ClassInfo}

theorem labelText_list (isForm : table.form? id = some (.list elem dims)) :
    table.labelText (levels + 1) id =
      List.replicate dims.toNat '[' ++
        (table.labelText levels elem ++ List.replicate dims.toNat ']') := by
  have bracket (mark : Char) (count : Nat) :
      (List.replicate count [mark]).flatten = List.replicate count mark := by
    induction count with
    | zero => rfl
    | succ count inductionHypothesis =>
      rw [List.replicate_succ, List.flatten_cons, inductionHypothesis, List.replicate_succ]
      rfl
  simp only [labelText, labelWithin, isForm, String.toList_append, toList_repeated, List.append_assoc]
  exact congrArg₂ (· ++ ·) (bracket '[' _) (congrArg (_ ++ ·) (bracket ']' _))

theorem labelText_array (isForm : table.form? id = some (.array elem dims)) :
    table.labelText (levels + 1) id =
      table.labelText levels elem ++ Shape.brackets dims.toNat := by
  simp only [labelText, labelWithin, isForm, String.toList_append, toList_repeated]
  rfl

theorem labelText_tuple (isForm : table.form? id = some (.tuple slot)) :
    table.labelText (levels + 1) id =
      '(' :: ([',', ' '].intercalate ((table.elems id).map (table.labelText levels)) ++ [')']) := by
  simp only [labelText, labelWithin, isForm, String.toList_append, toList_join, List.map_map]
  rfl

theorem labelText_union (isForm : table.form? id = some (.multi slot)) :
    table.labelText (levels + 1) id =
      [' ', '|', ' '].intercalate ((table.elems id).map (table.labelText levels)) := by
  simp only [labelText, labelWithin, isForm, toList_join, List.map_map]
  rfl

theorem labelText_class (isClass : table.classInfo? id = some info) :
    table.labelText (levels + 1) id =
      if info.args = [] then info.name.toList
      else info.name.toList ++
        '<' :: ([',', ' '].intercalate (info.args.map (table.labelText levels)) ++ ['>']) := by
  obtain ⟨slot, isForm, isInfo⟩ := classInfo?_eq_some isClass
  simp only [labelText, labelWithin, isForm, isInfo, Option.getD_some, List.isEmpty_iff]
  split
  · rfl
  · simp only [String.toList_append, toList_join, List.map_map, List.append_assoc]
    rfl

/-- A name is shown in the same way on every level. -/
theorem IsName.labelText (isName : table.IsName id) :
    table.labelText (levels + 1) id = table.nameText id := by
  unfold TypeTable.labelText nameText labelWithin
  cases isForm : table.form? id with
  | none => rfl
  | some form =>
    have plain := isName.plain isForm
    cases form with
    | classType slot =>
      have args : ((table.classes.get? slot).getD {}).args = [] := by
        cases isInfo : table.classes.get? slot with
        | none => rfl
        | some info => exact isName.top (by rw [classInfo?, isForm]; exact isInfo)
      simp only [args, List.isEmpty_nil, if_true]
    | list => simp [TypeForm.kind] at plain
    | array => simp [TypeForm.kind] at plain
    | tuple => simp [TypeForm.kind] at plain
    | multi => simp [TypeForm.kind] at plain
    | _ => rfl

end Labels

/-! ### Shapes tell types apart -/

/-- What a shape says about the type it is of. -/
theorem shapeWithin_spec (table : TypeTable) (levels : Nat) (id : TypeId) :
    match table.shapeWithin (levels + 1) id with
    | .leaf other => other = id
    | .apply generic args => ∃ info, table.classInfo? id = some info ∧ info.args ≠ [] ∧
        generic = info.generic ∧ args = info.args.map (table.shapeWithin levels)
    | .list count shape => ∃ elem dims, table.form? id = some (.list elem dims) ∧
        count = dims.toNat ∧ shape = table.shapeWithin levels elem
    | .array count shape => ∃ elem dims, table.form? id = some (.array elem dims) ∧
        count = dims.toNat ∧ shape = table.shapeWithin levels elem
    | .tuple shapes => ∃ slot, table.form? id = some (.tuple slot) ∧
        shapes = (table.elems id).map (table.shapeWithin levels)
    | .union shapes => ∃ slot, table.form? id = some (.multi slot) ∧
        shapes = (table.elems id).map (table.shapeWithin levels) := by
  rw [shapeWithin]
  cases isForm : table.form? id with
  | none => rfl
  | some form =>
    cases form with
    | classType slot =>
      cases isClass : table.classInfo? id with
      | none => rfl
      | some info =>
        by_cases given : info.args = []
        · simp only [given, if_true]
        · simp only [given, if_false]
          exact ⟨info, rfl, given, rfl, rfl⟩
    | list elem dims => exact ⟨elem, dims, rfl, rfl, rfl⟩
    | array elem dims => exact ⟨elem, dims, rfl, rfl, rfl⟩
    | tuple slot => exact ⟨slot, rfl, rfl⟩
    | multi slot => exact ⟨slot, rfl, rfl⟩
    | _ => rfl

theorem IsName.shapeWithin (isName : table.IsName id) (levels : Nat) :
    table.shapeWithin (levels + 1) id = .leaf id := by
  have spec := table.shapeWithin_spec levels id
  cases isShape : table.shapeWithin (levels + 1) id with
  | leaf other =>
    rw [isShape] at spec
    exact congrArg Shape.leaf spec
  | apply generic args =>
    rw [isShape] at spec
    obtain ⟨info, isClass, given, -⟩ := spec
    exact absurd (isName.top isClass) given
  | list count shape =>
    rw [isShape] at spec
    obtain ⟨elem, dims, isForm, -⟩ := spec
    exact absurd (isName.plain isForm) (by simp [TypeForm.kind])
  | array count shape =>
    rw [isShape] at spec
    obtain ⟨elem, dims, isForm, -⟩ := spec
    exact absurd (isName.plain isForm) (by simp [TypeForm.kind])
  | tuple shapes =>
    rw [isShape] at spec
    obtain ⟨slot, isForm, -⟩ := spec
    exact absurd (isName.plain isForm) (by simp [TypeForm.kind])
  | union shapes =>
    rw [isShape] at spec
    obtain ⟨slot, isForm, -⟩ := spec
    exact absurd (isName.plain isForm) (by simp [TypeForm.kind])

theorem shapeWithin_class (isClass : table.classInfo? id = some info)
    (given : info.args ≠ []) (levels : Nat) : table.shapeWithin (levels + 1) id =
      .apply info.generic (info.args.map (table.shapeWithin levels)) := by
  obtain ⟨slot, isForm, -⟩ := classInfo?_eq_some isClass
  simp only [shapeWithin, isForm, isClass, given, if_false]

theorem eq_of_map {α β : Type} {read read' : α → β} {items items' : List α}
    (each : ∀ item ∈ items, ∀ item' ∈ items', read item = read' item' → item = item')
    (same : items.map read = items'.map read') : items = items' := by
  induction items generalizing items' with
  | nil => exact (List.map_eq_nil_iff.mp same.symm).symm
  | cons item rest inductionHypothesis =>
    cases items' with
    | nil => nomatch same
    | cons item' rest' =>
      obtain ⟨isItem, isRest⟩ := List.cons.inj same
      obtain rfl := each item (.head _) item' (.head _) isItem
      rw [inductionHypothesis (fun other among other' among' =>
        each other (.tail _ among) other' (.tail _ among')) isRest]

section Legible

variable {levels levels' : Nat} {elem : TypeId} {dims : UInt8} {slot : Nat}

attribute [local simp] Legible

theorem legible_list (isForm : table.form? id = some (.list elem dims)) :
    table.Legible (levels + 1) id ↔
      dims ≠ 0 ∧ table.kindOf elem ≠ .list ∧ table.Legible levels elem := by
  simp [isForm]

theorem legible_array (isForm : table.form? id = some (.array elem dims)) :
    table.Legible (levels + 1) id ↔ dims ≠ 0 ∧ table.kindOf elem ≠ .array ∧
      table.kindOf elem ≠ .multi ∧ table.Legible levels elem := by
  simp [isForm]

theorem legible_tuple (isForm : table.form? id = some (.tuple slot)) :
    table.Legible (levels + 1) id ↔ ∀ member ∈ table.elems id, table.Legible levels member := by
  simp [isForm]

theorem legible_union (isForm : table.form? id = some (.multi slot)) :
    table.Legible (levels + 1) id ↔
      ∀ member ∈ table.elems id, table.kindOf member ≠ .multi ∧ table.Legible levels member := by
  simp [isForm]

theorem legible_class (isClass : table.classInfo? id = some info) :
    table.Legible (levels + 1) id ↔ ∀ arg ∈ info.args, table.Legible levels arg := by
  obtain ⟨slot, isForm, isInfo⟩ := classInfo?_eq_some isClass
  rw [Legible, isForm]
  exact ⟨fun legible => legible info isInfo, fun legible other isOther =>
    Option.some.inj (isInfo.symm.trans isOther) ▸ legible⟩

instance decidableLegible (table : TypeTable) :
    ∀ (levels : Nat) (id : TypeId), Decidable (table.Legible levels id)
  | 0, _ => .isFalse not_false
  | levels + 1, id =>
    have : DecidablePred (table.Legible levels) := decidableLegible table levels
    match isForm : table.form? id with
    | some (.list _ _) => decidable_of_iff' _ (legible_list isForm)
    | some (.array _ _) => decidable_of_iff' _ (legible_array isForm)
    | some (.tuple _) => decidable_of_iff' _ (legible_tuple isForm)
    | some (.multi _) => decidable_of_iff' _ (legible_union isForm)
    | some (.classType slot) =>
      decidable_of_iff
        (∀ info ∈ table.classes.get? slot, ∀ arg ∈ info.args, table.Legible levels arg)
        (by rw [Legible, isForm]; rfl)
    | some .invalid | some .void | some .int | some .char | some .bool | some .string
    | some .text | some .real | some (.enum _) | some (.param _) | none =>
      .isTrue (by rw [Legible, isForm]; trivial)

end Legible

theorem Sound.generic_ne_zero (sound : table.Sound)
    (isClass : table.classInfo? id = some info) (given : info.args ≠ []) :
    info.generic ≠ 0 := by
  obtain ⟨slot, -, isInfo⟩ := classInfo?_eq_some isClass
  rcases sound.class_fits isInfo with ⟨-, none⟩ | ⟨-, origin, isOrigin, -⟩
  · exact absurd none given
  · rintro top
    rw [top] at isOrigin
    nomatch isOrigin

/-- Legible types of one shape are one type. -/
theorem Sound.eq_of_shape (sound : table.Sound) {levels' : Nat} {first second : TypeId}
    (legible : table.Legible levels first) (legible' : table.Legible levels' second)
    (same : table.shapeWithin levels first = table.shapeWithin levels' second) :
    first = second := by
  induction levels generalizing levels' first second with
  | zero => exact legible.elim
  | succ levels inductionHypothesis =>
    cases levels' with
    | zero => exact legible'.elim
    | succ levels' =>
      have spec := table.shapeWithin_spec levels first
      have spec' := table.shapeWithin_spec levels' second
      rw [← same] at spec'
      have each {ids ids' : List TypeId} (areLegible : ∀ id ∈ ids, table.Legible levels id)
          (areLegible' : ∀ id ∈ ids', table.Legible levels' id)
          (areSame : ids.map (table.shapeWithin levels) = ids'.map (table.shapeWithin levels')) :
          ids = ids' :=
        eq_of_map (fun id among id' among' isSame =>
          inductionHypothesis (areLegible id among) (areLegible' id' among') isSame) areSame
      have element {elem elem' : TypeId} {dims dims' : UInt8} (isLegible : table.Legible levels elem)
          (isLegible' : table.Legible levels' elem') (isDims : dims.toNat = dims'.toNat)
          (isSame : table.shapeWithin levels elem = table.shapeWithin levels' elem') :
          elem = elem' ∧ dims = dims' :=
        ⟨inductionHypothesis isLegible isLegible' isSame, UInt8.toNat_inj.mp isDims⟩
      cases isShape : table.shapeWithin (levels + 1) first with
      | leaf id =>
        rw [isShape] at spec spec'
        exact spec.symm.trans spec'
      | apply generic args =>
        rw [isShape] at spec spec'
        obtain ⟨info, isClass, given, isGeneric, areArgs⟩ := spec
        obtain ⟨info', isClass', -, isGeneric', areArgs'⟩ := spec'
        have isArgs := each ((legible_class isClass).mp legible)
          ((legible_class isClass').mp legible') (areArgs.symm.trans areArgs')
        exact sound.canonical.instances isClass isClass' (sound.generic_ne_zero isClass given)
          (isGeneric.symm.trans isGeneric') isArgs
      | list count shape =>
        rw [isShape] at spec spec'
        obtain ⟨elem, dims, isForm, isCount, isElem⟩ := spec
        obtain ⟨elem', dims', isForm', isCount', isElem'⟩ := spec'
        obtain ⟨rfl, rfl⟩ := element ((legible_list isForm).mp legible).2.2
          ((legible_list isForm').mp legible').2.2 (isCount.symm.trans isCount')
          (isElem.symm.trans isElem')
        exact sound.eq_of_form? isForm isForm'
      | array count shape =>
        rw [isShape] at spec spec'
        obtain ⟨elem, dims, isForm, isCount, isElem⟩ := spec
        obtain ⟨elem', dims', isForm', isCount', isElem'⟩ := spec'
        obtain ⟨rfl, rfl⟩ := element ((legible_array isForm).mp legible).2.2.2
          ((legible_array isForm').mp legible').2.2.2 (isCount.symm.trans isCount')
          (isElem.symm.trans isElem')
        exact sound.eq_of_form? isForm isForm'
      | tuple shapes =>
        rw [isShape] at spec spec'
        obtain ⟨slot, isForm, areElems⟩ := spec
        obtain ⟨slot', isForm', areElems'⟩ := spec'
        have isElems := each ((legible_tuple isForm).mp legible)
          ((legible_tuple isForm').mp legible') (areElems.symm.trans areElems')
        rw [elems_of_tuple isForm, elems_of_tuple isForm'] at isElems
        exact sound.canonical.structural isForm isForm' rfl (by simp [TypeForm.kind]) rfl isElems
      | union shapes =>
        rw [isShape] at spec spec'
        obtain ⟨slot, isForm, areElems⟩ := spec
        obtain ⟨slot', isForm', areElems'⟩ := spec'
        have isElems := each
          (fun member among => ((legible_union isForm).mp legible member among).2)
          (fun member among => ((legible_union isForm').mp legible' member among).2)
          (areElems.symm.trans areElems')
        rw [elems_of_multi isForm, elems_of_multi isForm'] at isElems
        exact sound.canonical.structural isForm isForm' rfl (by simp [TypeForm.kind]) rfl isElems

/-! ### Shapes of legible types -/

theorem Sound.args_of_top (sound : table.Sound)
    (isClass : table.classInfo? id = some info) (top : info.generic = 0) : info.args = [] := by
  by_contra given
  exact sound.generic_ne_zero isClass given top

/-- The class of an instance is shown by its name, which is the name of the instance. -/
theorem Sound.isName_generic (sound : table.Sound)
    (isClass : table.classInfo? id = some info) (given : info.args ≠ []) :
    table.IsName info.generic ∧ table.nameText info.generic = info.name.toList := by
  obtain ⟨origin, isOrigin, top, name⟩ := sound.origin isClass
  rw [if_neg (sound.generic_ne_zero isClass given)] at isOrigin
  have args := sound.args_of_top isOrigin top
  obtain ⟨slot, isForm, -⟩ := classInfo?_eq_some isOrigin
  refine ⟨⟨lt_size_of_classInfo isOrigin, fun isForm' => ?_, fun isOrigin' => ?_⟩, ?_⟩
  · cases isForm.symm.trans isForm'
    simp [TypeForm.kind]
  · exact Option.some.inj (isOrigin.symm.trans isOrigin') ▸ args
  · exact (labelText_class isOrigin).trans (by rw [if_pos args, name])

/-- The label of a type is that of its shape. -/
theorem Sound.shown_shapeWithin (sound : table.Sound) (there : There id table) :
    (table.shapeWithin levels id).shown table.nameText levels = table.labelText levels id := by
  induction levels generalizing id with
  | zero => simp [Shape.shown, TypeTable.labelText, TypeTable.labelWithin]
  | succ levels inductionHypothesis =>
    have parts {ids : List TypeId} (areThere : ∀ part ∈ ids, part < id) :
        (ids.map (table.shapeWithin levels)).map (Shape.shown table.nameText levels) =
          ids.map (table.labelText levels) := by
      rw [List.map_map]
      exact List.map_congr_left fun part among =>
        inductionHypothesis (Nat.lt_trans (areThere part among) there)
    cases sound.view there with
    | list isForm =>
      have older := sound.part_lt_of_form? isForm _ (.head _)
      rw [shapeWithin, isForm, labelText_list isForm]
      simp only [Shape.shown, inductionHypothesis (Nat.lt_trans older there)]
    | array isForm =>
      have older := sound.part_lt_of_form? isForm _ (.head _)
      rw [shapeWithin, isForm, labelText_array isForm]
      simp only [Shape.shown, inductionHypothesis (Nat.lt_trans older there)]
    | tuple isForm =>
      rw [shapeWithin, isForm, labelText_tuple isForm]
      simp only [Shape.shown, parts fun part => sound.elem_lt]
    | union isForm =>
      rw [shapeWithin, isForm, labelText_union isForm]
      simp only [Shape.shown, parts fun part => sound.elem_lt]
    | apply isClass given =>
      have older := sound.part_lt_of_classInfo? isClass
      rw [shapeWithin_class isClass given, labelText_class isClass, if_neg given]
      simp only [Shape.shown, (sound.isName_generic isClass given).2,
        parts fun part among => older part (.tail _ among)]
    | name isName => rw [isName.shapeWithin, isName.labelText]; rfl

theorem kindOf_of_isList (isList : (table.shapeWithin levels id).IsList) :
    table.kindOf id = .list := by
  cases levels with
  | zero => exact isList.elim
  | succ levels =>
    have spec := table.shapeWithin_spec levels id
    cases isShape : table.shapeWithin (levels + 1) id with
    | list count shape =>
      rw [isShape] at spec
      obtain ⟨elem, dims, isForm, -⟩ := spec
      rw [kindOf, isForm]
      rfl
    | _ =>
      rw [isShape] at isList
      exact isList.elim

theorem kindOf_of_isUnion (isUnion : (table.shapeWithin levels id).IsUnion) :
    table.kindOf id = .multi := by
  cases levels with
  | zero => exact isUnion.elim
  | succ levels =>
    have spec := table.shapeWithin_spec levels id
    cases isShape : table.shapeWithin (levels + 1) id with
    | union shapes =>
      rw [isShape] at spec
      obtain ⟨slot, isForm, -⟩ := spec
      rw [kindOf, isForm]
      rfl
    | _ =>
      rw [isShape] at isUnion
      exact isUnion.elim

theorem isAtom_of_kindOf (notArray : table.kindOf id ≠ .array)
    (notUnion : table.kindOf id ≠ .multi) :
    (table.shapeWithin levels id).IsAtom := by
  cases levels with
  | zero => trivial
  | succ levels =>
    have spec := table.shapeWithin_spec levels id
    cases isShape : table.shapeWithin (levels + 1) id with
    | array count shape =>
      rw [isShape] at spec
      obtain ⟨elem, dims, isForm, -⟩ := spec
      exact absurd (by rw [kindOf, isForm]; rfl) notArray
    | union shapes =>
      rw [isShape] at spec
      obtain ⟨slot, isForm, -⟩ := spec
      exact absurd (by rw [kindOf, isForm]; rfl) notUnion
    | _ => trivial

theorem toNat_pos {dims : UInt8} (some : dims ≠ 0) : 0 < dims.toNat :=
  Nat.pos_of_ne_zero fun none => some (UInt8.toNat_inj.mp none)

/-- A legible type has a legible shape. -/
theorem Sound.legible_shapeWithin (sound : table.Sound) (there : There id table)
    (legible : table.Legible levels id) :
    (table.shapeWithin levels id).Legible table.IsName levels := by
  induction levels generalizing id with
  | zero => exact legible.elim
  | succ levels inductionHypothesis =>
    have parts {ids : List TypeId} (areThere : ∀ part ∈ ids, part < id)
        (areLegible : ∀ part ∈ ids, table.Legible levels part) :
        ∀ shape ∈ ids.map (table.shapeWithin levels), shape.Legible table.IsName levels := by
      intro shape among
      obtain ⟨part, isPart, rfl⟩ := List.mem_map.mp among
      exact inductionHypothesis (Nat.lt_trans (areThere part isPart) there) (areLegible part isPart)
    cases sound.view there with
    | list isForm =>
      obtain ⟨some, notList, isLegible⟩ := (legible_list isForm).mp legible
      have older := sound.part_lt_of_form? isForm _ (.head _)
      rw [shapeWithin, isForm]
      exact ⟨toNat_pos some, fun isList => notList (kindOf_of_isList isList),
        inductionHypothesis (Nat.lt_trans older there) isLegible⟩
    | array isForm =>
      obtain ⟨some, notArray, notUnion, isLegible⟩ := (legible_array isForm).mp legible
      have older := sound.part_lt_of_form? isForm _ (.head _)
      rw [shapeWithin, isForm]
      exact ⟨toNat_pos some, isAtom_of_kindOf notArray notUnion,
        inductionHypothesis (Nat.lt_trans older there) isLegible⟩
    | tuple isForm =>
      rw [shapeWithin, isForm]
      exact parts (fun _ => sound.elem_lt) ((legible_tuple isForm).mp legible)
    | union isForm =>
      have areLegible := (legible_union isForm).mp legible
      obtain ⟨members, found⟩ := sound.holds (form?_eq_some.mp isForm).2
      have isElems : table.elems id = members := by
        rw [elems_of_multi isForm, TypeTable.parts, found]
        rfl
      rw [shapeWithin, isForm]
      refine ⟨?_, fun shape among => ?_⟩
      · rw [List.length_map, isElems]
        exact ((sound.group_fits found).union rfl).2.2
      · obtain ⟨part, isPart, rfl⟩ := List.mem_map.mp among
        exact ⟨fun isUnion => (areLegible part isPart).1 (kindOf_of_isUnion isUnion),
          inductionHypothesis (Nat.lt_trans (sound.elem_lt isPart) there) (areLegible part isPart).2⟩
    | apply isClass given =>
      have older := sound.part_lt_of_classInfo? isClass
      rw [shapeWithin_class isClass given]
      exact ⟨(sound.isName_generic isClass given).1, by simpa using given,
        parts (fun part among => older part (.tail _ among))
          ((legible_class isClass).mp legible)⟩
    | name isName =>
      rw [isName.shapeWithin]
      exact isName

/-! ### Names of types -/

/-- Every table grows out of the one where nothing but the primitive types is known. -/
theorem Sound.grows_empty (sound : table.Sound) : ({} : TypeTable).Grows table where
  form := sound.primitives
  group found := nomatch (get?_empty _).symm.trans found
  classInfo found := nomatch (get?_empty _).symm.trans found
  enumInfo found := nomatch (get?_empty _).symm.trans found
  paramInfo found := nomatch (get?_empty _).symm.trans found

theorem Sound.nameText_basic (sound : table.Sound) (basic : id < 8) :
    table.nameText id = ({} : TypeTable).nameText id :=
  congrArg String.toList (sound.grows_empty.labelWithin sound_empty basic)

/-- What is known of a type by its kind: what it is made of, the name under which it was
introduced, or that it is in every table. -/
theorem Sound.kindOf_spec (sound : table.Sound) (there : There id table) :
    match table.kindOf id with
    | .list => ∃ elem dims, table.form? id = some (.list elem dims)
    | .array => ∃ elem dims, table.form? id = some (.array elem dims)
    | .tuple => ∃ slot, table.form? id = some (.tuple slot)
    | .multi => ∃ slot, table.form? id = some (.multi slot)
    | .classType => ∃ info, table.classInfo? id = some info
    | .enum | .param => ∃ name, table.introduced? id = some name ∧ table.nameText id = name.toList
    | _ => id < 8 := by
  rw [kindOf]
  cases isForm : table.form? id with
  | none =>
    refine Nat.lt_of_le_of_lt (Nat.le_of_eq ?_) (Nat.zero_lt_succ 7)
    by_contra known
    rw [form?, if_neg known, Array.getElem?_eq_none_iff] at isForm
    exact Nat.not_le_of_lt there isForm
  | some form =>
    have found := (form?_eq_some.mp isForm).2
    have held := sound.holds found
    have basic {other : Nat} (less : other < 8)
        (isBasic : ({} : TypeTable).forms[other]? = some form) : id < 8 :=
      sound.form_once found (sound.primitives isBasic) ▸ less
    cases form with
    | list elem dims => exact ⟨elem, dims, rfl⟩
    | array elem dims => exact ⟨elem, dims, rfl⟩
    | tuple slot => exact ⟨slot, rfl⟩
    | multi slot => exact ⟨slot, rfl⟩
    | classType slot =>
      rw [classInfo?, isForm]
      exact Option.isSome_iff_exists.mp held
    | enum slot =>
      obtain ⟨info, isInfo⟩ := Option.isSome_iff_exists.mp held
      exact ⟨info.name, by simp [introduced?, isForm, isInfo],
        by simp [nameText, labelWithin, isForm, isInfo]⟩
    | param slot =>
      obtain ⟨info, isInfo⟩ := Option.isSome_iff_exists.mp held
      exact ⟨info.name, by simp [introduced?, isForm, isInfo],
        by simp [nameText, labelWithin, isForm, isInfo]⟩
    | invalid => exact basic (by decide) (rfl : _[0]? = _)
    | void => exact basic (by decide) (rfl : _[1]? = _)
    | int => exact basic (by decide) (rfl : _[2]? = _)
    | char => exact basic (by decide) (rfl : _[3]? = _)
    | bool => exact basic (by decide) (rfl : _[4]? = _)
    | string => exact basic (by decide) (rfl : _[5]? = _)
    | text => exact basic (by decide) (rfl : _[6]? = _)
    | real => exact basic (by decide) (rfl : _[7]? = _)

/-- A class without arguments was introduced under its name. -/
theorem introduced?_class (isClass : table.classInfo? id = some info)
    (top : info.generic = 0) : table.introduced? id = some info.name := by
  obtain ⟨slot, isForm, isInfo⟩ := classInfo?_eq_some isClass
  simp [introduced?, isForm, isInfo, top, Option.filter]

theorem Sound.top_of_args (sound : table.Sound)
    (isClass : table.classInfo? id = some info) (args : info.args = []) : info.generic = 0 := by
  obtain ⟨slot, -, isInfo⟩ := classInfo?_eq_some isClass
  rcases sound.class_fits isInfo with ⟨top, -⟩ | ⟨given, -⟩
  · exact top
  · exact absurd args given

/-- A type that is shown by a name is in every table, or it was introduced under that name. -/
theorem Sound.basic_or_introduced (sound : table.Sound) (isName : table.IsName id) :
    id < 8 ∨ ∃ name, table.introduced? id = some name ∧ table.nameText id = name.toList := by
  have spec := sound.kindOf_spec isName.there
  split at spec
  · obtain ⟨elem, dims, isForm⟩ := spec
    exact absurd (isName.plain isForm) (by simp [TypeForm.kind])
  · obtain ⟨elem, dims, isForm⟩ := spec
    exact absurd (isName.plain isForm) (by simp [TypeForm.kind])
  · obtain ⟨slot, isForm⟩ := spec
    exact absurd (isName.plain isForm) (by simp [TypeForm.kind])
  · obtain ⟨slot, isForm⟩ := spec
    exact absurd (isName.plain isForm) (by simp [TypeForm.kind])
  · obtain ⟨info, isClass⟩ := spec
    have args := isName.top isClass
    exact .inr ⟨info.name, introduced?_class isClass (sound.top_of_args isClass args),
      (labelText_class isClass).trans (if_pos args)⟩
  · exact .inr spec
  · exact .inr spec
  · exact .inl spec

theorem basic_names : ∀ id < 8, ({} : TypeTable).nameText id ≠ [] ∧
    (∀ letter ∈ ({} : TypeTable).nameText id, letter ∉ Shape.marks) ∧
    ('?' ∈ ({} : TypeTable).nameText id ∨
      (TypeKind.ofBuiltin? (({} : TypeTable).labelWithin 1 id)).isSome) := by
  have plain : ∀ id < 8, (({} : TypeTable).nameText id).all (· ∉ Shape.marks) = true := by decide
  have named : ∀ id < 8, ({} : TypeTable).nameText id ≠ [] ∧
      ('?' ∈ ({} : TypeTable).nameText id ∨
        (TypeKind.ofBuiltin? (({} : TypeTable).labelWithin 1 id)).isSome) := by decide
  intro id basic
  exact ⟨(named id basic).1, fun letter among =>
    of_decide_eq_true (List.all_eq_true.mp (plain id basic) letter among), (named id basic).2⟩

theorem basic_names_apart : ∀ first < 8, ∀ second < 8,
    ({} : TypeTable).nameText first = ({} : TypeTable).nameText second → first = second := by
  decide

/-- No class, enum or template parameter goes by the name of a type that is always there. -/
theorem WellNamed.not_basic (named : table.WellNamed) {name : String} {basic : TypeId}
    (isName : table.introduced? id = some name) (isBasic : basic < 8) :
    ({} : TypeTable).nameText basic ≠ name.toList := by
  intro same
  rcases (basic_names basic isBasic).2.2 with unknown | primitive
  · rw [same] at unknown
    exact named.plain isName _ unknown (.head _)
  · rw [String.toList_injective same, named.primitive isName] at primitive
    nomatch primitive

theorem WellNamed.naming (named : table.WellNamed) (sound : table.Sound) :
    Shape.Naming table.nameText table.IsName where
  some {id} isName := by
    rcases sound.basic_or_introduced isName with basic | ⟨name, introduced, isText⟩
    · rw [sound.nameText_basic basic]
      exact (basic_names id basic).1
    · rw [isText]
      exact fun empty => named.nonempty introduced (String.toList_eq_nil_iff.mp empty)
  plain {id} isName letter among := by
    rcases sound.basic_or_introduced isName with basic | ⟨name, introduced, isText⟩
    · rw [sound.nameText_basic basic] at among
      exact (basic_names id basic).2.1 letter among
    · rw [isText] at among
      exact fun isMark => named.plain introduced letter among (.tail _ isMark)
  apart {id other} isName isName' same := by
    rcases sound.basic_or_introduced isName with basic | ⟨name, introduced, isText⟩
    · rw [sound.nameText_basic basic] at same
      rcases sound.basic_or_introduced isName' with basic' | ⟨name', introduced', isText'⟩
      · rw [sound.nameText_basic basic'] at same
        exact basic_names_apart id basic other basic' same
      · exact absurd (same.trans isText') (named.not_basic introduced' basic)
    · rcases sound.basic_or_introduced isName' with basic' | ⟨name', introduced', isText'⟩
      · rw [sound.nameText_basic basic'] at same
        exact absurd (same.symm.trans isText) (named.not_basic introduced basic')
      · rw [isText, isText'] at same
        exact named.apart introduced (String.toList_injective same ▸ introduced')

end TypeTable

end TreeCheck
