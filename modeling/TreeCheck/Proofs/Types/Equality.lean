/-
When types count as equal. Equality compares codes and labels. A code shows everything but
template arguments, a label shows those too, as far as it is legible. Where it is legible
inside of template arguments, equal types are the same type.

The codes are compared first, from the front. They tell everything apart except instances of
one class, and each part that they have in common is settled as soon as the labels are
compared too: between parts that look the same the labels go on in step, so the next
difference can only be in template arguments, and those are legible.
-/

import TreeCheck.Proofs.Types.Legibility

namespace TreeCheck

namespace TypeTable

variable {table : TypeTable} {id first second : TypeId}

/-! ### Legible template arguments -/

/-- The parts of a type outside of template arguments. -/
def outerParts (table : TypeTable) (id : TypeId) : List TypeId :=
  match table.form? id with
  | some (.list elem _) | some (.array elem _) => [elem]
  | _ => table.elems id

/-- Wherever an instance stands in a type, outside of template arguments, its own arguments are
legible in the label of the type, of which so many levels are shown. -/
inductive ArgsLegible (table : TypeTable) : Nat → TypeId → Prop where
  | arguments {levels id info} : table.classInfo? id = some info → info.args ≠ [] →
      (∀ arg ∈ info.args, table.Legible levels arg) → ArgsLegible table (levels + 1) id
  | parts {levels id} : (∀ info, table.classInfo? id = some info → info.args = []) →
      (∀ part ∈ table.outerParts id, ArgsLegible table (levels - 1) part) → ArgsLegible table levels id

namespace ArgsLegible

variable {levels : Nat}

/-- Outside of instances it is up to the parts. -/
theorem part (legible : table.ArgsLegible levels id) (notClass : table.classInfo? id = none)
    {other : TypeId} (isPart : other ∈ table.outerParts id) :
    table.ArgsLegible (levels - 1) other := by
  cases legible with
  | arguments isClass => nomatch notClass.symm.trans isClass
  | parts _ areLegible => exact areLegible other isPart

theorem element (legible : table.ArgsLegible levels id) {elem : TypeId} {dims : UInt8}
    (isForm : table.form? id = some (.list elem dims) ∨ table.form? id = some (.array elem dims)) :
    table.ArgsLegible (levels - 1) elem := by
  cases isForm with
  | inl isList => exact legible.part (by simp [classInfo?, isList]) (by simp [outerParts, isList])
  | inr isArray => exact legible.part (by simp [classInfo?, isArray]) (by simp [outerParts, isArray])

theorem members (legible : table.ArgsLegible levels id) {slot : Nat}
    (isForm : table.form? id = some (.tuple slot) ∨ table.form? id = some (.multi slot)) :
    ∀ member ∈ table.elems id, table.ArgsLegible (levels - 1) member := by
  intro member among
  cases isForm with
  | inl isTuple =>
    exact legible.part (by simp [classInfo?, isTuple]) (by simpa [outerParts, isTuple] using among)
  | inr isUnion =>
    exact legible.part (by simp [classInfo?, isUnion]) (by simpa [outerParts, isUnion] using among)

theorem args (legible : table.ArgsLegible levels id) {info : ClassInfo}
    (isClass : table.classInfo? id = some info) (given : info.args ≠ []) :
    ∃ fewer, levels = fewer + 1 ∧ ∀ arg ∈ info.args, table.Legible fewer arg := by
  cases legible with
  | arguments isClass' _ areLegible =>
    cases isClass.symm.trans isClass'
    exact ⟨_, rfl, areLegible⟩
  | parts none _ => exact absurd (none info isClass) given

end ArgsLegible

/-! ### Codes -/

/-- The code of a type as a list of characters. -/
def signatureText (table : TypeTable) (id : TypeId) : List Char := (table.signature id).toList

/-- Every code begins with the letter of its kind. -/
theorem signatureText_head (table : TypeTable) (id : TypeId) :
    ∃ tail, table.signatureText id = (table.kindOf id).code :: tail := by
  unfold signatureText signature signatureWithin kindOf
  cases table.form? id with
  | none => exact ⟨[], by simp [TypeKind.code]⟩
  | some form => cases form <;> simp

/-- No type has a code that begins like the end of one. -/
theorem signatureText_head_ne (table : TypeTable) (id : TypeId) (rest : List Char) :
    (table.signatureText id ++ rest).head? ≠ some '>' := by
  obtain ⟨tail, isText⟩ := table.signatureText_head id
  rw [isText, List.cons_append, List.head?_cons]
  cases table.kindOf id <;> decide

section Codes

variable (sound : table.Sound) {elem : TypeId} {dims : UInt8} {slot : Nat}

include sound

section

variable (there : There id table)

include there

theorem Sound.signature_part {part : TypeId} (older : part < id) :
    table.signatureWithin table.size part = table.signature part :=
  sound.canonical.signature_ends (Nat.lt_trans older there) (Nat.lt_trans older there)

theorem Sound.signatureText_list (isForm : table.form? id = some (.list elem dims)) :
    table.signatureText id =
      'L' :: (Nat.toDigits 10 dims.toNat ++ '<' :: (table.signatureText elem ++ ['>'])) := by
  have older := sound.part_lt_of_form? isForm elem (.head _)
  rw [signatureText, signature, signatureWithin, isForm]
  dsimp only
  rw [sound.signature_part there older]
  simp [signatureText, TypeForm.kind, TypeKind.code, Nat.toString_eq_repr]

theorem Sound.signatureText_array (isForm : table.form? id = some (.array elem dims)) :
    table.signatureText id =
      'A' :: (Nat.toDigits 10 dims.toNat ++ '<' :: (table.signatureText elem ++ ['>'])) := by
  have older := sound.part_lt_of_form? isForm elem (.head _)
  rw [signatureText, signature, signatureWithin, isForm]
  dsimp only
  rw [sound.signature_part there older]
  simp [signatureText, TypeForm.kind, TypeKind.code, Nat.toString_eq_repr]

theorem Sound.signature_elems :
    (table.elems id).map (table.signatureWithin table.size) =
      (table.elems id).map table.signature :=
  List.map_congr_left fun _ among => sound.signature_part there (sound.elem_lt among)

theorem Sound.signatureText_tuple (isForm : table.form? id = some (.tuple slot)) :
    table.signatureText id =
      'T' :: '<' :: ([','].intercalate ((table.elems id).map table.signatureText) ++ ['>']) := by
  rw [signatureText, signature, signatureWithin, isForm]
  dsimp only
  rw [sound.signature_elems there]
  have texts : String.toList ∘ table.signature = table.signatureText := rfl
  simp [toList_join, texts, TypeForm.kind, TypeKind.code]

theorem Sound.signatureText_union (isForm : table.form? id = some (.multi slot)) :
    table.signatureText id =
      'M' :: '<' :: (['|'].intercalate ((table.elems id).map table.signatureText) ++ ['>']) := by
  rw [signatureText, signature, signatureWithin, isForm]
  dsimp only
  rw [sound.signature_elems there]
  have texts : String.toList ∘ table.signature = table.signatureText := rfl
  simp [toList_join, texts, TypeForm.kind, TypeKind.code]

end

end Codes

theorem signatureText_class {info : ClassInfo} (isClass : table.classInfo? id = some info) :
    table.signatureText id = 'C' :: '<' :: (info.name.toList ++ ['>']) := by
  obtain ⟨slot, isForm, isInfo⟩ := classInfo?_eq_some isClass
  rw [signatureText, signature, signatureWithin, isForm]
  simp [isInfo, TypeForm.kind, TypeKind.code]

/-- Enums and template parameters have their name in the code. -/
theorem signatureText_introduced {name : String} (introduced : table.introduced? id = some name)
    (notClass : table.kindOf id ≠ .classType) : table.signatureText id =
      (table.kindOf id).code :: '<' :: (name.toList ++ ['>']) := by
  rw [signatureText, signature, signatureWithin, kindOf]
  rw [kindOf] at notClass
  rw [introduced?] at introduced
  cases isForm : table.form? id with
  | none => simp [isForm] at introduced
  | some form =>
    rw [isForm] at introduced notClass
    cases form with
    | enum slot =>
      obtain ⟨info, isInfo, rfl⟩ := Option.map_eq_some_iff.mp introduced
      simp [label, labelWithin, isForm, isInfo, TypeForm.kind]
    | param slot =>
      obtain ⟨info, isInfo, rfl⟩ := Option.map_eq_some_iff.mp introduced
      simp [label, labelWithin, isForm, isInfo, TypeForm.kind]
    | classType slot => exact absurd rfl notClass
    | _ => cases introduced

/-! ### Labels in step -/

/-- Two types are told apart by their labels, whatever follows them other than arguments, if
their arguments are legible. -/
def Settled (table : TypeTable) (first second : TypeId) : Prop :=
  ∀ {levels : Nat} {rest rest' : List Char},
    table.ArgsLegible levels first → table.ArgsLegible levels second →
    rest.head? ≠ some '<' → rest'.head? ≠ some '<' →
    table.labelText levels first ++ rest = table.labelText levels second ++ rest' → first = second

theorem labelText_zero (table : TypeTable) (id : TypeId) : table.labelText 0 id = ['.', '.', '.'] := by
  simp [labelText, labelWithin]

/-- Where nothing of a label is shown, types without arguments are settled already. -/
theorem Settled.eq_of_zero (settled : table.Settled first second)
    (legible : table.ArgsLegible 0 first) (legible' : table.ArgsLegible 0 second) :
    first = second :=
  settled legible legible' (by simp) (by simp)
    (congrArg (· ++ []) ((labelText_zero table first).trans (labelText_zero table second).symm))

/-- Members are settled one after the other. -/
theorem eq_of_settled {levels : Nat} {members members' : List TypeId} {mark : Char}
    {separator : List Char} (notOpened : mark ≠ '<')
    (settled : List.Forall₂ table.Settled members members')
    (legible : ∀ member ∈ members, table.ArgsLegible levels member)
    (legible' : ∀ member ∈ members', table.ArgsLegible levels member)
    {rest rest' : List Char} (ends : rest.head? ≠ some '<') (ends' : rest'.head? ≠ some '<')
    (equal : (mark :: separator).intercalate (members.map (table.labelText levels)) ++ rest =
      (mark :: separator).intercalate (members'.map (table.labelText levels)) ++ rest') :
    members = members' := by
  induction settled with
  | nil => rfl
  | @cons first first' others others' isSettled areSettled inductionHypothesis =>
    have isLegible := legible first (.head _)
    have isLegible' := legible' first' (.head _)
    cases areSettled with
    | nil =>
      simp only [List.map_cons, List.map_nil, List.intercalate_singleton] at equal
      rw [isSettled isLegible isLegible' ends ends' equal]
    | @cons second second' others others' isSettled' areSettled =>
      simp only [List.map_cons, List.intercalate_cons_cons, List.append_assoc,
        List.cons_append] at equal
      have goes (rest : List Char) : (mark :: rest).head? ≠ some '<' :=
        fun isOpened => notOpened (Option.some.inj isOpened)
      obtain rfl := isSettled isLegible isLegible' (goes _) (goes _) equal
      rw [inductionHypothesis (fun member among => legible member (.tail _ among))
        (fun member among => legible' member (.tail _ among))
        (List.append_cancel_left (List.cons.inj (List.append_cancel_left equal)).2)]

theorem eq_of_settled_zero {members members' : List TypeId}
    (settled : List.Forall₂ table.Settled members members')
    (legible : ∀ member ∈ members, table.ArgsLegible 0 member)
    (legible' : ∀ member ∈ members', table.ArgsLegible 0 member) : members = members' := by
  induction settled with
  | nil => rfl
  | @cons first first' others others' isSettled areSettled inductionHypothesis =>
    rw [isSettled.eq_of_zero (legible first (.head _)) (legible' first' (.head _)),
      inductionHypothesis (fun member among => legible member (.tail _ among))
        (fun member among => legible' member (.tail _ among))]

theorem head_replicate_ne {mark other : Char} (differs : mark ≠ other) (count : Nat)
    {rest : List Char} (ends : rest.head? ≠ some other) :
    (List.replicate count mark ++ rest).head? ≠ some other := by
  cases count with
  | zero => exact ends
  | succ count => exact fun same => differs (Option.some.inj same)

theorem head_brackets_ne (count : Nat) {rest : List Char} (ends : rest.head? ≠ some '<') :
    (Shape.brackets count ++ rest).head? ≠ some '<' := by
  cases count with
  | zero => exact ends
  | succ count =>
    rw [Shape.brackets_succ]
    exact nofun

section Settling

variable (sound : table.Sound) {elem elem' : TypeId} {dims : UInt8} {slot slot' : Nat}

include sound

theorem Sound.settled_list (isForm : table.form? first = some (.list elem dims))
    (isForm' : table.form? second = some (.list elem' dims)) (settled : table.Settled elem elem') :
    table.Settled first second := by
  intro levels rest rest' legible legible' ends ends' equal
  have inner := legible.element (.inl isForm)
  have inner' := legible'.element (.inl isForm')
  suffices same : elem = elem' from sound.eq_of_form? isForm (same ▸ isForm')
  cases levels with
  | zero => exact settled.eq_of_zero inner inner'
  | succ levels =>
    rw [labelText_list isForm, labelText_list isForm'] at equal
    simp only [List.append_assoc] at equal
    exact settled inner inner' (head_replicate_ne (by decide) _ ends)
      (head_replicate_ne (by decide) _ ends') (List.append_cancel_left equal)

theorem Sound.settled_array (isForm : table.form? first = some (.array elem dims))
    (isForm' : table.form? second = some (.array elem' dims)) (settled : table.Settled elem elem') :
    table.Settled first second := by
  intro levels rest rest' legible legible' ends ends' equal
  have inner := legible.element (.inr isForm)
  have inner' := legible'.element (.inr isForm')
  suffices same : elem = elem' from sound.eq_of_form? isForm (same ▸ isForm')
  cases levels with
  | zero => exact settled.eq_of_zero inner inner'
  | succ levels =>
    rw [labelText_array isForm, labelText_array isForm'] at equal
    simp only [List.append_assoc] at equal
    exact settled inner inner' (head_brackets_ne _ ends) (head_brackets_ne _ ends') equal

theorem Sound.settled_tuple (isForm : table.form? first = some (.tuple slot))
    (isForm' : table.form? second = some (.tuple slot'))
    (settled : List.Forall₂ table.Settled (table.elems first) (table.elems second)) :
    table.Settled first second := by
  intro levels rest rest' legible legible' ends ends' equal
  have inner := legible.members (.inl isForm)
  have inner' := legible'.members (.inl isForm')
  suffices same : table.elems first = table.elems second by
    rw [elems_of_tuple isForm, elems_of_tuple isForm'] at same
    exact sound.canonical.structural isForm isForm' rfl (by simp [TypeForm.kind]) rfl same
  cases levels with
  | zero => exact eq_of_settled_zero settled inner inner'
  | succ levels =>
    rw [labelText_tuple isForm, labelText_tuple isForm'] at equal
    simp only [List.cons_append, List.append_assoc, List.nil_append] at equal
    exact eq_of_settled (by decide) settled inner inner' (by simp) (by simp) (List.cons.inj equal).2

theorem Sound.settled_union (isForm : table.form? first = some (.multi slot))
    (isForm' : table.form? second = some (.multi slot'))
    (settled : List.Forall₂ table.Settled (table.elems first) (table.elems second)) :
    table.Settled first second := by
  intro levels rest rest' legible legible' ends ends' equal
  have inner := legible.members (.inr isForm)
  have inner' := legible'.members (.inr isForm')
  suffices same : table.elems first = table.elems second by
    rw [elems_of_multi isForm, elems_of_multi isForm'] at same
    exact sound.canonical.structural isForm isForm' rfl (by simp [TypeForm.kind]) rfl same
  cases levels with
  | zero => exact eq_of_settled_zero settled inner inner'
  | succ levels =>
    rw [labelText_union isForm, labelText_union isForm'] at equal
    exact eq_of_settled (by decide) settled inner inner' ends ends' equal

/-- Legible arguments with the same labels are the same. -/
theorem Sound.eq_of_args (named : table.WellNamed) {levels : Nat} {args args' : List TypeId}
    (there : AllThere args table) (there' : AllThere args' table)
    (legible : ∀ arg ∈ args, table.Legible levels arg)
    (legible' : ∀ arg ∈ args', table.Legible levels arg) {rest rest' : List Char}
    (equal : [',', ' '].intercalate (args.map (table.labelText levels)) ++ '>' :: rest =
      [',', ' '].intercalate (args'.map (table.labelText levels)) ++ '>' :: rest') :
    args = args' := by
  have shapes {ids : List TypeId} (there : AllThere ids table) : ids.map (table.labelText levels) =
      (ids.map (table.shapeWithin levels)).map (Shape.shown table.nameText levels) := by
    rw [List.map_map]
    exact List.map_congr_left fun id among => (sound.shown_shapeWithin (there id among)).symm
  have areLegible {ids : List TypeId} (there : AllThere ids table)
      (legible : ∀ id ∈ ids, table.Legible levels id) :
      ∀ shape ∈ ids.map (table.shapeWithin levels), shape.Legible table.IsName levels := by
    intro shape among
    obtain ⟨id, isId, rfl⟩ := List.mem_map.mp among
    exact sound.legible_shapeWithin (there id isId) (legible id isId)
  rw [shapes there, shapes there'] at equal
  have naming := named.naming sound
  obtain ⟨same, -⟩ := Shape.cancels_enclosed naming (by decide)
    (Shape.cancels naming (levels + levels)) (areLegible there legible) (areLegible there' legible')
    equal
  exact eq_of_map (fun arg among arg' among' =>
    sound.eq_of_shape (legible arg among) (legible' arg' among')) same

theorem Sound.settled_class (named : table.WellNamed) {info info' : ClassInfo}
    (isClass : table.classInfo? first = some info) (isClass' : table.classInfo? second = some info')
    (name : info.name = info'.name) : table.Settled first second := by
  intro levels rest rest' legible legible' ends ends' equal
  obtain ⟨origin, isOrigin, top, sameName⟩ := sound.origin isClass
  obtain ⟨origin', isOrigin', top', sameName'⟩ := sound.origin isClass'
  have introduced := introduced?_class isOrigin top
  have introduced' := introduced?_class isOrigin' top'
  rw [sameName, name, ← sameName'] at introduced
  have sameOrigin := named.apart introduced introduced'
  have args_there {id : TypeId} {info : ClassInfo} (isClass : table.classInfo? id = some info) :
      AllThere info.args table := fun arg among =>
    Nat.lt_trans (sound.part_lt_of_classInfo? isClass arg (.tail _ among))
      (lt_size_of_classInfo isClass)
  by_cases given : info.args = []
  · by_cases given' : info'.args = []
    · rwa [if_pos (sound.top_of_args isClass given), if_pos (sound.top_of_args isClass' given')]
        at sameOrigin
    · obtain ⟨levels, rfl, -⟩ := legible'.args isClass' given'
      rw [labelText_class isClass, if_pos given, labelText_class isClass', if_neg given', name,
        List.append_assoc] at equal
      exact absurd (congrArg List.head? (List.append_cancel_left equal)) ends
  · obtain ⟨levels, rfl, areLegible⟩ := legible.args isClass given
    by_cases given' : info'.args = []
    · rw [labelText_class isClass, if_neg given, labelText_class isClass', if_pos given', name,
        List.append_assoc] at equal
      exact absurd (congrArg List.head? (List.append_cancel_left equal)).symm ends'
    · obtain ⟨_, isLevels, areLegible'⟩ := legible'.args isClass' given'
      cases isLevels
      rw [labelText_class isClass, if_neg given, labelText_class isClass', if_neg given', name]
        at equal
      simp only [List.append_assoc, List.cons_append, List.nil_append] at equal
      have same := sound.eq_of_args named (args_there isClass) (args_there isClass') areLegible
        areLegible' (List.cons.inj (List.append_cancel_left equal)).2
      rw [if_neg (sound.generic_ne_zero isClass given),
        if_neg (sound.generic_ne_zero isClass' given')] at sameOrigin
      exact sound.canonical.instances isClass isClass' (sound.generic_ne_zero isClass given)
        sameOrigin same

end Settling

/-! ### Codes in step -/

theorem code_injective : ∀ kind other : TypeKind, kind.code = other.code → kind = other := by
  intro kind other
  cases kind <;> cases other <;> decide

theorem cancel_digits {count count' : Nat} {rest rest' : List Char}
    (equal : Nat.toDigits 10 count ++ '<' :: rest = Nat.toDigits 10 count' ++ '<' :: rest') :
    count = count' ∧ rest = rest' := by
  have digits (count : Nat) : ∀ letter ∈ Nat.toDigits 10 count, letter.isDigit = true :=
    fun letter among => Nat.isDigit_of_mem_toDigits (by decide) (by decide) among
  have ends (rest : List Char) : ∀ letter ∈ ('<' :: rest).head?, ¬letter.isDigit = true := by
    rintro letter isFirst
    rw [← Option.some.inj isFirst]
    decide
  obtain ⟨same, isRest⟩ :=
    Shape.cancel_word (digits count) (digits count') (ends rest) (ends rest') equal
  refine ⟨?_, (List.cons.inj isRest).2⟩
  have read := Nat.ofDigitChars_ten_toDigits (n := count)
  rw [same, Nat.ofDigitChars_ten_toDigits] at read
  exact read.symm

/-- No class, enum or template parameter has an angle bracket in its name. -/
def PlainNames (table : TypeTable) : Prop :=
  ∀ {id name}, table.introduced? id = some name → '<' ∉ name.toList ∧ '>' ∉ name.toList

theorem WellNamed.plainNames (named : table.WellNamed) : table.PlainNames := fun introduced =>
  ⟨fun among => named.plain introduced _ among (by decide),
    fun among => named.plain introduced _ among (by decide)⟩

/-- Names end where a bracket closes. -/
theorem PlainNames.cancel (plain : table.PlainNames) {name name' : String}
    (introduced : table.introduced? first = some name)
    (introduced' : table.introduced? second = some name') {rest rest' : List Char}
    (equal : name.toList ++ '>' :: rest = name'.toList ++ '>' :: rest') :
    name = name' ∧ rest = rest' := by
  have ends (rest : List Char) : ∀ letter ∈ ('>' :: rest).head?, ¬letter ≠ '>' := by
    rintro letter isFirst
    rw [← Option.some.inj isFirst]
    exact fun differs => differs rfl
  have words {id : TypeId} {name : String} (introduced : table.introduced? id = some name) :
      ∀ letter ∈ name.toList, letter ≠ '>' := by
    rintro letter among rfl
    exact (plain introduced).2 among
  obtain ⟨same, isRest⟩ :=
    Shape.cancel_word (words introduced) (words introduced') (ends rest) (ends rest') equal
  exact ⟨String.toList_injective same, (List.cons.inj isRest).2⟩

theorem basic_kinds_apart : ∀ first < 8, ∀ second < 8,
    ({} : TypeTable).kindOf first = ({} : TypeTable).kindOf second → first = second := by
  decide

theorem Sound.eq_of_basic (sound : table.Sound) (basic : first < 8) (basic' : second < 8)
    (same : table.kindOf first = table.kindOf second) : first = second := by
  have kindOf_basic {id : TypeId} (basic : id < 8) : table.kindOf id = ({} : TypeTable).kindOf id := by
    rw [kindOf, kindOf, sound.grows_empty.form?_eq basic]
  rw [kindOf_basic basic, kindOf_basic basic'] at same
  exact basic_kinds_apart first basic second basic' same

/-- A relation between types that follows from their codes: it holds where nothing differs, where
names are the same, and where it holds between all parts. Of instances it has to hold whatever
their arguments are. -/
structure Alike (table : TypeTable) (related : TypeId → TypeId → Prop) : Prop where
  self : ∀ id, related id id
  named : ∀ {first second name}, table.kindOf first = table.kindOf second →
    table.kindOf first ≠ .classType → table.introduced? first = some name →
    table.introduced? second = some name → related first second
  list : ∀ {first second elem elem' dims}, table.form? first = some (.list elem dims) →
    table.form? second = some (.list elem' dims) → related elem elem' → related first second
  array : ∀ {first second elem elem' dims}, table.form? first = some (.array elem dims) →
    table.form? second = some (.array elem' dims) → related elem elem' → related first second
  tuple : ∀ {first second slot slot'}, table.form? first = some (.tuple slot) →
    table.form? second = some (.tuple slot') →
    List.Forall₂ related (table.elems first) (table.elems second) → related first second
  union : ∀ {first second slot slot'}, table.form? first = some (.multi slot) →
    table.form? second = some (.multi slot') →
    List.Forall₂ related (table.elems first) (table.elems second) → related first second
  classes : ∀ {first second info info'}, table.classInfo? first = some info →
    table.classInfo? second = some info' → info.name = info'.name → related first second

/-- Codes end where they end, and what follows from codes holds of types with the same one. -/
theorem Sound.related_of_codes (sound : table.Sound) (plain : table.PlainNames)
    {related : TypeId → TypeId → Prop} (alike : table.Alike related) {first second : TypeId}
    (there : There first table) (there' : There second table) {rest rest' : List Char}
    (equal : table.signatureText first ++ rest = table.signatureText second ++ rest') :
    related first second ∧ rest = rest' := by
  induction first using Nat.strongRecOn generalizing second rest rest' with
  | _ first inductionHypothesis =>
    have sameKind : table.kindOf first = table.kindOf second := by
      obtain ⟨tail, isText⟩ := table.signatureText_head first
      obtain ⟨tail', isText'⟩ := table.signatureText_head second
      rw [isText, isText'] at equal
      exact code_injective _ _ (List.cons.inj equal).1
    have members {mark : Char} (fresh : mark ≠ '>')
        (equal : [mark].intercalate ((table.elems first).map table.signatureText) ++ '>' :: rest =
          [mark].intercalate ((table.elems second).map table.signatureText) ++ '>' :: rest') :
        List.Forall₂ related (table.elems first) (table.elems second) ∧ rest = rest' :=
      Shape.cancel_enclosed related fresh
        (fun member among member' among' _ _ _ _ equal =>
          inductionHypothesis member (sound.elem_lt among) (Nat.lt_trans (sound.elem_lt among) there)
            (Nat.lt_trans (sound.elem_lt among') there') equal)
        (fun member _ => table.signatureText_head_ne member)
        (fun member _ => table.signatureText_head_ne member) equal
    have introduced (notClass : table.kindOf first ≠ .classType) :
        (∃ name, table.introduced? first = some name ∧ table.nameText first = name.toList) →
        (∃ name, table.introduced? second = some name ∧ table.nameText second = name.toList) →
        related first second ∧ rest = rest' := by
      rintro ⟨name, isFirst, -⟩ ⟨name', isSecond, -⟩
      rw [signatureText_introduced isFirst notClass,
        signatureText_introduced isSecond (sameKind ▸ notClass)] at equal
      simp only [List.cons_append, List.append_assoc, List.nil_append] at equal
      obtain ⟨rfl, isRest⟩ :=
        plain.cancel isFirst isSecond (List.cons.inj (List.cons.inj equal).2).2
      exact ⟨alike.named sameKind notClass isFirst isSecond, isRest⟩
    have spec := sound.kindOf_spec there
    have spec' := sound.kindOf_spec there'
    rw [← sameKind] at spec'
    cases isKind : table.kindOf first with
    | list =>
      rw [isKind] at spec spec'
      obtain ⟨elem, dims, isForm⟩ := spec
      obtain ⟨elem', dims', isForm'⟩ := spec'
      have older := sound.part_lt_of_form? isForm elem (.head _)
      have older' := sound.part_lt_of_form? isForm' elem' (List.mem_singleton_self elem')
      rw [sound.signatureText_list there isForm, sound.signatureText_list there' isForm'] at equal
      simp only [List.cons_append, List.append_assoc, List.nil_append] at equal
      obtain ⟨isDims, inside⟩ := cancel_digits (List.cons.inj equal).2
      obtain rfl := UInt8.toNat_inj.mp isDims
      obtain ⟨isRelated, isRest⟩ := inductionHypothesis elem older (Nat.lt_trans older there)
        (Nat.lt_trans older' there') inside
      exact ⟨alike.list isForm isForm' isRelated, (List.cons.inj isRest).2⟩
    | array =>
      rw [isKind] at spec spec'
      obtain ⟨elem, dims, isForm⟩ := spec
      obtain ⟨elem', dims', isForm'⟩ := spec'
      have older := sound.part_lt_of_form? isForm elem (.head _)
      have older' := sound.part_lt_of_form? isForm' elem' (List.mem_singleton_self elem')
      rw [sound.signatureText_array there isForm, sound.signatureText_array there' isForm'] at equal
      simp only [List.cons_append, List.append_assoc, List.nil_append] at equal
      obtain ⟨isDims, inside⟩ := cancel_digits (List.cons.inj equal).2
      obtain rfl := UInt8.toNat_inj.mp isDims
      obtain ⟨isRelated, isRest⟩ := inductionHypothesis elem older (Nat.lt_trans older there)
        (Nat.lt_trans older' there') inside
      exact ⟨alike.array isForm isForm' isRelated, (List.cons.inj isRest).2⟩
    | tuple =>
      rw [isKind] at spec spec'
      obtain ⟨slot, isForm⟩ := spec
      obtain ⟨slot', isForm'⟩ := spec'
      rw [sound.signatureText_tuple there isForm, sound.signatureText_tuple there' isForm'] at equal
      simp only [List.cons_append, List.append_assoc, List.nil_append] at equal
      obtain ⟨areRelated, isRest⟩ := members (by decide) (List.cons.inj (List.cons.inj equal).2).2
      exact ⟨alike.tuple isForm isForm' areRelated, isRest⟩
    | multi =>
      rw [isKind] at spec spec'
      obtain ⟨slot, isForm⟩ := spec
      obtain ⟨slot', isForm'⟩ := spec'
      rw [sound.signatureText_union there isForm, sound.signatureText_union there' isForm'] at equal
      simp only [List.cons_append, List.append_assoc, List.nil_append] at equal
      obtain ⟨areRelated, isRest⟩ := members (by decide) (List.cons.inj (List.cons.inj equal).2).2
      exact ⟨alike.union isForm isForm' areRelated, isRest⟩
    | classType =>
      rw [isKind] at spec spec'
      obtain ⟨info, isClass⟩ := spec
      obtain ⟨info', isClass'⟩ := spec'
      obtain ⟨origin, isOrigin, top, name⟩ := sound.origin isClass
      obtain ⟨origin', isOrigin', top', name'⟩ := sound.origin isClass'
      rw [signatureText_class isClass, signatureText_class isClass', ← name, ← name'] at equal
      simp only [List.cons_append, List.append_assoc, List.nil_append] at equal
      obtain ⟨same, isRest⟩ := plain.cancel (introduced?_class isOrigin top)
        (introduced?_class isOrigin' top') (List.cons.inj (List.cons.inj equal).2).2
      exact ⟨alike.classes isClass isClass' (name.symm.trans (same.trans name')), isRest⟩
    | enum =>
      rw [isKind] at spec spec'
      exact introduced (by rw [isKind]; nofun) spec spec'
    | param =>
      rw [isKind] at spec spec'
      exact introduced (by rw [isKind]; nofun) spec spec'
    | _ =>
      rw [isKind] at spec spec'
      obtain rfl := sound.eq_of_basic spec spec' sameKind
      exact ⟨alike.self first, List.append_cancel_left equal⟩

theorem settled_self (table : TypeTable) (id : TypeId) : table.Settled id id :=
  fun _ _ _ _ _ => rfl

/-- Types with the same code are settled. -/
theorem Sound.alike_settled (sound : table.Sound) (named : table.WellNamed) :
    table.Alike table.Settled where
  self := table.settled_self
  named _ _ isFirst isSecond := named.apart isFirst isSecond ▸ table.settled_self _
  list := sound.settled_list
  array := sound.settled_array
  tuple := sound.settled_tuple
  union := sound.settled_union
  classes := sound.settled_class named

/-! ### Equal types -/

/-- Equal types are the same type, wherever names tell types apart and template arguments are
legible. -/
theorem equal_iff_same (asked : Asked {} table) (named : table.WellNamed)
    (there : There first table) (there' : There second table)
    (legible : table.ArgsLegible (labelDepth + 1) first)
    (legible' : table.ArgsLegible (labelDepth + 1) second) :
    table.equal first second = true ↔ first = second := by
  have sound : table.Sound := (asked.served sound_empty).sound sound_empty
  refine ⟨fun equal => ?_, fun same => by simp [equal, same]⟩
  unfold TypeTable.equal at equal
  split at equal
  · assumption
  · split at equal
    · simp only [Bool.and_eq_true, decide_eq_true_eq] at equal
      obtain ⟨⟨-, sameCode⟩, sameLabel⟩ := equal
      have codes : table.signatureText first ++ [] = table.signatureText second ++ [] :=
        congrArg (String.toList · ++ []) sameCode
      have labels : table.labelText (labelDepth + 1) first ++ [] =
          table.labelText (labelDepth + 1) second ++ [] :=
        congrArg (String.toList · ++ []) sameLabel
      exact (sound.related_of_codes named.plainNames (sound.alike_settled named) there there'
        codes).1 legible legible' (by simp) (by simp) labels
    · nomatch equal

/-- An instance for a pair and one for a union. -/
def choiceRequests : List Request := pairRequests ++ [.instantiate 8 [13]]

theorem choiceRequests_allocated : AllocatedAll {} choiceRequests := by
  with_unfolding_all decide

theorem equal_iff_same_choice :
    (performAll {} choiceRequests).label 12 = "A<(T, [T])>" ∧
      (performAll {} choiceRequests).label 14 = "A<Int | Char>" ∧
      ((performAll {} choiceRequests).equal 12 14 = true ↔ 12 = 14) := by
  have asked : Asked {} (performAll {} choiceRequests) :=
    Asked.start.all choiceRequests_allocated
  have named : (performAll {} choiceRequests).WellNamed :=
    wellNamed_of_alpha (by decide +kernel) (by decide +kernel)
  have isPair : (performAll {} choiceRequests).classInfo? 12 =
      some { name := "A", decl := 1, params := [9], generic := 8, args := [11] } := by decide +kernel
  have isChoice : (performAll {} choiceRequests).classInfo? 14 =
      some { name := "A", decl := 1, params := [9], generic := 8, args := [13] } := by decide +kernel
  exact ⟨by decide +kernel, by decide +kernel,
    equal_iff_same asked named (by decide +kernel) (by decide +kernel)
    (.arguments isPair (by rintro ⟨⟩) (by decide +kernel))
      (.arguments isChoice (by rintro ⟨⟩) (by decide +kernel))⟩

/-- Instances of one class for arguments that go by the same label: a union in a union, a list in
a list, a union in an array, a list without brackets, and a class by the name of a primitive
type. -/
def homonymRequests : List Request :=
  [.registerClass "A" 1,
    .makeMulti [2, 3], .makeMulti [9, 4], .makeMulti [3, 4], .makeMulti [2, 11],
    .instantiate 8 [10], .instantiate 8 [12],
    .intern (.list 2 1), .intern (.list 15 1), .intern (.list 2 2),
    .instantiate 8 [16], .instantiate 8 [17],
    .intern (.array 9 1), .intern (.array 3 1), .makeMulti [2, 21],
    .instantiate 8 [20], .instantiate 8 [22],
    .intern (.list 2 0), .instantiate 8 [25], .instantiate 8 [2],
    .registerClass "Int" 2, .instantiate 8 [28]]

def homonyms : List (TypeId × TypeId) := [(13, 14), (18, 19), (23, 24), (26, 27), (27, 29)]

theorem homonymRequests_allocated : AllocatedAll {} homonymRequests := by
  with_unfolding_all decide

/-- Different names of letters only do not make equal types the same. -/
theorem homonyms_equal :
    Asked {} (performAll {} homonymRequests) ∧
      (∀ id < (performAll {} homonymRequests).size,
        ∀ name ∈ (performAll {} homonymRequests).introduced? id,
          name ≠ "" ∧ name.toList.all Char.isAlpha = true) ∧
      (∀ first < (performAll {} homonymRequests).size,
        ∀ second < (performAll {} homonymRequests).size,
        ∀ name ∈ (performAll {} homonymRequests).introduced? first,
          (performAll {} homonymRequests).introduced? second = some name → first = second) ∧
      ∀ pair ∈ homonyms, pair.1 < (performAll {} homonymRequests).size ∧
        pair.2 < (performAll {} homonymRequests).size ∧
        (performAll {} homonymRequests).equal pair.1 pair.2 = true ∧ pair.1 ≠ pair.2 :=
  ⟨Asked.start.all homonymRequests_allocated, by decide +kernel, by decide +kernel,
    by decide +kernel⟩

end TypeTable

end TreeCheck
