/-
Labels of equal types. Equal types have the same code and the same label, and the labels of two
types with the same code go on in step: names are the same, brackets and marks stand in the same
places, and the arguments of an instance end where its angle bracket closes, if there are none in
names. So the parts of equal types have the same labels too, as long as no label is cut off
inside of template arguments, and the members of equal unions are equal in pairs.
-/

import TreeCheck.Proofs.Types.Equality

namespace TreeCheck

variable {more slot : Nat} {α β : Type} {compose : List (List Char) → List Char}
  {parts parts' : List TypeId} {elem : TypeId} {dims : UInt8} {info : ClassInfo}
  {separator rest rest' text : List Char}

namespace TypeTable

variable {table : TypeTable} {id first second : TypeId}
variable {items : List α} {items' : List β} {related : α → β → Prop}

/-! ### Labels that show all template arguments -/

/-- The parts of a type that its label shows. -/
def shownParts (table : TypeTable) (id : TypeId) : List TypeId :=
  match table.classInfo? id with
  | some info => info.args
  | none => table.outerParts id

/-- Nothing is cut off of the label of a type within so many levels. -/
def Shown (table : TypeTable) : Nat → TypeId → Prop
  | 0, _ => False
  | levels + 1, id => ∀ part ∈ table.shownParts id, table.Shown levels part

/-- Wherever an instance stands in a type, outside of template arguments, nothing is cut off of
its own arguments in the label of the type, of which so many levels are shown. -/
inductive ArgsShown (table : TypeTable) : Nat → TypeId → Prop where
  | arguments {levels : Nat} {id info} : table.classInfo? id = some info → info.args ≠ [] →
      (∀ arg ∈ info.args, table.Shown levels arg) → ArgsShown table (levels + 1) id
  | parts {levels : Nat} {id} : (∀ info, table.classInfo? id = some info → info.args = []) →
      (∀ part ∈ table.outerParts id, ArgsShown table (levels - 1) part) → ArgsShown table levels id

variable {levels : Nat}

theorem Shown.mono (shown : table.Shown levels id) (enough : levels ≤ more) :
    table.Shown more id := by
  induction levels generalizing more id with
  | zero => exact shown.elim
  | succ levels inductionHypothesis =>
    obtain ⟨more, rfl⟩ := Nat.exists_eq_add_one_of_ne_zero (Nat.ne_of_gt (Nat.zero_lt_of_lt enough))
    exact fun part among => inductionHypothesis (shown part among) (Nat.le_of_succ_le_succ enough)

namespace ArgsShown

theorem mono (shown : table.ArgsShown levels id) (enough : levels ≤ more) :
    table.ArgsShown more id := by
  induction shown generalizing more with
  | arguments isClass given areShown =>
    obtain ⟨more, rfl⟩ := Nat.exists_eq_add_one_of_ne_zero (Nat.ne_of_gt (Nat.zero_lt_of_lt enough))
    exact .arguments isClass given fun arg among =>
      (areShown arg among).mono (Nat.le_of_succ_le_succ enough)
  | parts none _ inductionHypothesis =>
    exact .parts none fun part among => inductionHypothesis part among (Nat.sub_le_sub_right enough 1)

/-- Outside of instances it is up to the parts. -/
theorem part (shown : table.ArgsShown levels id) (notClass : table.classInfo? id = none)
    {other : TypeId} (isPart : other ∈ table.outerParts id) :
    table.ArgsShown (levels - 1) other := by
  cases shown with
  | arguments isClass => nomatch notClass.symm.trans isClass
  | parts _ areShown => exact areShown other isPart

theorem args (shown : table.ArgsShown levels id) (isClass : table.classInfo? id = some info)
    (given : info.args ≠ []) :
    ∃ fewer, levels = fewer + 1 ∧ ∀ arg ∈ info.args, table.Shown fewer arg := by
  cases shown with
  | arguments isClass' _ areShown =>
    cases isClass.symm.trans isClass'
    exact ⟨_, rfl, areShown⟩
  | parts none _ => exact absurd (none info isClass) given

end ArgsShown

instance decidableShown (table : TypeTable) :
    ∀ (levels : Nat) (id : TypeId), Decidable (table.Shown levels id)
  | 0, _ => .isFalse not_false
  | levels + 1, id =>
    have : DecidablePred (table.Shown levels) := decidableShown table levels
    inferInstanceAs (Decidable (∀ part ∈ table.shownParts id, table.Shown levels part))

/-! ### Labels as they are put together -/

/-- Types whose labels are the same, if so many levels or more are shown. -/
def Agree (table : TypeTable) (levels : Nat) (first second : TypeId) : Prop :=
  ∀ more, levels ≤ more → table.labelText more first = table.labelText more second

theorem map_eq_of_forall₂ {read : α → β} {items' : List α}
    (same : List.Forall₂ (fun item item' => read item = read item') items items') :
    items.map read = items'.map read := by
  induction same with
  | nil => rfl
  | cons isSame _ inductionHypothesis => rw [List.map_cons, List.map_cons, isSame, inductionHypothesis]

/-- The label of a type is put together from the labels of some parts. -/
def PutTogether (table : TypeTable) (compose : List (List Char) → List Char) (parts : List TypeId)
    (id : TypeId) : Prop :=
  ∀ levels, table.labelText (levels + 1) id = compose (parts.map (table.labelText levels))

/-- Labels agree if they are put together in the same way and those of the parts agree. -/
theorem agree_of_parts (made : table.PutTogether compose parts first)
    (made' : table.PutTogether compose parts' second)
    (each : List.Forall₂ (table.Agree (levels - 1)) parts parts') :
    table.Agree levels first second := by
  intro more enough
  cases more with
  | zero => rw [labelText_zero, labelText_zero]
  | succ more =>
    rw [made more, made' more]
    exact congrArg compose (map_eq_of_forall₂ (each.imp fun part part' agree => agree more (by omega)))

theorem IsName.shownParts (isName : table.IsName id) : table.shownParts id = [] := by
  unfold TypeTable.shownParts
  split
  · next isClass => exact isName.top isClass
  · unfold outerParts elems
    cases isForm : table.form? id with
    | none => rfl
    | some form =>
      have plain := isName.plain isForm
      cases form with
      | list => simp [TypeForm.kind] at plain
      | array => simp [TypeForm.kind] at plain
      | tuple => simp [TypeForm.kind] at plain
      | multi => simp [TypeForm.kind] at plain
      | _ => rfl

/-- What stands behind the bracket that closes so many open ones. -/
def behindClose : Nat → List Char → Option (List Char)
  | _, [] => none
  | opened, '<' :: rest => behindClose (opened + 1) rest
  | 0, '>' :: rest => some rest
  | opened + 1, '>' :: rest => behindClose opened rest
  | opened, _ :: rest => behindClose opened rest

/-- Text that closes the brackets it opens, and no others. -/
def Balanced (text : List Char) : Prop :=
  ∀ opened rest, behindClose opened (text ++ rest) = behindClose opened rest

namespace Balanced

theorem nil : Balanced [] := fun _ _ => rfl

theorem append {other : List Char} (balanced : Balanced text) (balanced' : Balanced other) :
    Balanced (text ++ other) := fun opened rest => by
  rw [List.append_assoc, balanced, balanced']

theorem cons {letter : Char} (noOpen : letter ≠ '<') (noClose : letter ≠ '>')
    (balanced : Balanced text) : Balanced (letter :: text) := fun opened rest => by
  rw [List.cons_append, behindClose, balanced]
  · exact noOpen
  · exact fun _ => noClose
  · exact fun _ _ => noClose

theorem of_plain (noOpen : '<' ∉ text) (noClose : '>' ∉ text) : Balanced text := by
  induction text with
  | nil => exact .nil
  | cons letter rest inductionHypothesis =>
    simp only [List.mem_cons, not_or] at noOpen noClose
    exact .cons (Ne.symm noOpen.1) (Ne.symm noClose.1) (inductionHypothesis noOpen.2 noClose.2)

theorem enclosed (balanced : Balanced text) : Balanced ('<' :: (text ++ ['>'])) :=
  fun opened rest => by
    rw [List.cons_append, behindClose, List.append_assoc, balanced]
    rfl

theorem intercalate {texts : List (List Char)} (between : Balanced separator)
    (each : ∀ text ∈ texts, Balanced text) : Balanced (separator.intercalate texts) := by
  induction texts with
  | nil => exact .nil
  | cons text rest inductionHypothesis =>
    have isFirst := each text (.head _)
    have areRest := inductionHypothesis fun other among => each other (.tail _ among)
    cases rest with
    | nil => rwa [List.intercalate_singleton]
    | cons second rest =>
      rw [List.intercalate_cons_cons]
      exact (isFirst.append between).append areRest

/-- What is balanced ends where the bracket around it closes. -/
theorem cancel {text' : List Char} (balanced : Balanced text) (balanced' : Balanced text')
    (equal : text ++ '>' :: rest = text' ++ '>' :: rest') : text = text' ∧ rest = rest' := by
  have same := congrArg (behindClose 0) equal
  rw [balanced, balanced'] at same
  obtain rfl : rest = rest' := Option.some.inj same
  exact ⟨List.append_cancel_right equal, rfl⟩

end Balanced

/-- Labels of two types that show all template arguments end where they end, and go on agreeing if
more is shown. -/
def InStep (table : TypeTable) (first second : TypeId) : Prop :=
  ∀ {levels : Nat} {rest rest' : List Char},
    table.ArgsShown levels first → table.ArgsShown levels second →
    rest.head? ≠ some '<' → rest'.head? ≠ some '<' →
    table.labelText levels first ++ rest = table.labelText levels second ++ rest' →
    rest = rest' ∧ table.Agree levels first second

/-- Where nothing of a label is shown, types without arguments agree already. -/
theorem InStep.agree_zero (inStep : table.InStep first second) (shown : table.ArgsShown 0 first)
    (shown' : table.ArgsShown 0 second) : table.Agree 0 first second :=
  (inStep shown shown' (by simp) (by simp)
    (congrArg (· ++ []) ((labelText_zero table first).trans (labelText_zero table second).symm))).2

theorem agree_zero_of_inStep (each : List.Forall₂ table.InStep parts parts')
    (shown : ∀ part ∈ parts, table.ArgsShown 0 part)
    (shown' : ∀ part ∈ parts', table.ArgsShown 0 part) :
    List.Forall₂ (table.Agree 0) parts parts' := by
  induction each with
  | nil => exact .nil
  | cons inStep _ inductionHypothesis =>
    exact .cons (inStep.agree_zero (shown _ (.head _)) (shown' _ (.head _)))
      (inductionHypothesis (fun part among => shown part (.tail _ among))
        fun part among => shown' part (.tail _ among))

/-- Types of the same sort are in step if their parts are, and if it can be told from their labels
where those of the parts end. -/
theorem InStep.of_parts (made : table.PutTogether compose parts first)
    (made' : table.PutTogether compose parts' second)
    (outer : table.classInfo? first = none ∧ table.outerParts first = parts)
    (outer' : table.classInfo? second = none ∧ table.outerParts second = parts')
    (each : List.Forall₂ table.InStep parts parts')
    (cancel : ∀ {levels rest rest'}, (∀ part ∈ parts, table.ArgsShown levels part) →
      (∀ part ∈ parts', table.ArgsShown levels part) →
      List.head? rest ≠ some '<' → List.head? rest' ≠ some '<' →
      compose (parts.map (table.labelText levels)) ++ rest =
        compose (parts'.map (table.labelText levels)) ++ rest' →
      rest = rest' ∧ List.Forall₂ (table.Agree levels) parts parts') :
    table.InStep first second := by
  intro levels rest rest' shown shown' ends ends' equal
  have areShown : ∀ part ∈ parts, table.ArgsShown (levels - 1) part :=
    fun part among => shown.part outer.1 (outer.2 ▸ among)
  have areShown' : ∀ part ∈ parts', table.ArgsShown (levels - 1) part :=
    fun part among => shown'.part outer'.1 (outer'.2 ▸ among)
  cases levels with
  | zero =>
    rw [labelText_zero, labelText_zero] at equal
    refine ⟨List.append_cancel_left equal, agree_of_parts made made' ?_⟩
    exact agree_zero_of_inStep each areShown areShown'
  | succ levels =>
    rw [made, made'] at equal
    obtain ⟨isRest, agree⟩ := cancel areShown areShown' ends ends' equal
    exact ⟨isRest, agree_of_parts made made' agree⟩

section InStep

variable {elem elem' : TypeId} {dims : UInt8} {slot slot' : Nat}

end InStep

/-- Types that nothing tells apart. -/
theorem equal_iff : table.equal first second = true ↔ first = second ∨
    (table.form? first).isSome ∧ (table.form? second).isSome ∧
      table.kindOf first = table.kindOf second ∧
      table.signatureText first = table.signatureText second ∧
      table.labelText (labelDepth + 1) first = table.labelText (labelDepth + 1) second := by
  unfold equal
  by_cases same : first = second
  · simp [same]
  · cases isForm : table.form? first with
    | none => simp [same]
    | some form =>
      cases isForm' : table.form? second with
      | none => simp [same]
      | some form' =>
        simp [same, kindOf, isForm, isForm', signatureText, labelText, label, String.toList_inj,
          and_assoc]
        exact fun _ _ => decide_eq_true_iff

theorem equal_self (table : TypeTable) (id : TypeId) : table.equal id id = true :=
  equal_iff.mpr (.inl rfl)

theorem exists_of_kindOf_multi (isUnion : table.kindOf id = .multi) :
    ∃ slot, table.form? id = some (.multi slot) := by
  unfold kindOf at isUnion
  split at isUnion
  · next form isForm =>
    cases form with
    | multi slot => exact ⟨slot, isForm⟩
    | _ => nomatch isUnion
  · nomatch isUnion

end TypeTable

end TreeCheck
