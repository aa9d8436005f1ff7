/-
Compatibility does not depend on which of two types comes first. The two orders take unions
apart in different orders, meet equal types in different places and run out of levels on
different ways, so neither walk is the other one mirrored. What makes up for it is that the
order in which two unions are taken apart does not matter: if a member of the first one goes
with the second one, a member of the second one goes with the first one.

Both walks ask for bases and so enter types. What a walk along the bases found it finds again in
every later table, so both answers are compared with the answer of the table in which all is
known that either of them entered. Only a walk that was given up finds nothing; where the bases of
every type come to an end there is none.
-/

import Mathlib.Data.List.Zip
import TreeCheck.Proofs.Types.Agreement
import TreeCheck.Proofs.Types.Climbing
import TreeCheck.Proofs.Types.Grounding

namespace TreeCheck

open TypeM

variable {slot levels : Nat} {member elem : TypeId} {dims : UInt8}

namespace TypeTable

variable {table : TypeTable} {id first second : TypeId} {levels : Nat}

/-! ### Compatibility when all bases are known -/

/-- Whether a value may be stored, so many levels deep, if it is known which classes are of one
line. -/
def fits (table : TypeTable) (akin : TypeId → TypeId → Bool) : Nat → TypeId → TypeId → Bool
  | 0, _, _ => true
  | levels + 1, left, right =>
    if left = 0 ∨ right = 0 then true
    else if table.equal left right then true
    else
      match (table.form? left).getD .invalid, (table.form? right).getD .invalid with
      | .multi _, _ => (table.elems left).any fun candidate => table.fits akin levels candidate right
      | _, .multi _ => (table.elems right).any fun candidate => table.fits akin levels left candidate
      | .classType _, .classType _ => akin left right
      | .list leftElem leftDims, .list rightElem rightDims
      | .array leftElem leftDims, .array rightElem rightDims =>
        if leftDims.toNat + 1 < rightDims.toNat ∨ rightDims.toNat + 1 < leftDims.toNat then false
        else table.fits akin levels leftElem rightElem
      | .tuple _, .tuple _ =>
        let leftElems := table.elems left
        let rightElems := table.elems right
        if leftElems.length ≠ rightElems.length then false
        else (leftElems.zip rightElems).all fun (leftElem, rightElem) =>
          table.fits akin levels leftElem rightElem
      | _, _ => false

section Fits

variable {akin : TypeId → TypeId → Bool} {left right : TypeId}

theorem form?_of_getD {form : TypeForm} (isForm : (table.form? id).getD .invalid = form)
    (known : form ≠ .invalid) : table.form? id = some form := by
  cases found : table.form? id with
  | none =>
    rw [found] at isForm
    exact absurd isForm.symm known
  | some other =>
    rw [found] at isForm
    exact congrArg some isForm

attribute [local simp] fits

section

variable (sound : table.Sound)

include sound

end

end Fits

/-- Equality of types that are there stays. -/
theorem Keeps.equal_eq {after : TypeTable} (keeps : table.Keeps after) (sound : table.Sound)
    (there : first < table.size) (there' : second < table.size) :
    after.equal first second = table.equal first second := by
  unfold equal label
  rw [keeps.form?_eq there, keeps.form?_eq there', keeps.grows.signature sound there,
    keeps.grows.signature sound there', keeps.grows.labelWithin sound there,
    keeps.grows.labelWithin sound there']

/-- A hierarchy without circles: from every type the way along the bases comes to an end before
the patience does, also if the table was extended since. For instances this says more than that no
declared class leads back to itself, since each base may be a new type. -/
def AcyclicHierarchy (table : TypeTable) : Prop :=
  ∀ now, table.Keeps now → now.Sound → ∀ id < table.size,
    ∃ chain after, TypeM.Climbs now id chain after ∧ chain.length ≤ patience + now.size

/-- Declared bases without a circle are enough where none of them is a parameter of its class or
a union. -/
theorem Acyclic.hierarchy (acyclic : table.Acyclic) (fixed : table.FixedBases) (sound : table.Sound) :
    table.AcyclicHierarchy := by
  intro now keeps isSound id there
  obtain ⟨chain, after, climbs, short, -⟩ := acyclic.exists_climb fixed sound keeps isSound there
  exact ⟨chain, after, climbs, Nat.le_add_left_of_le
    (Nat.le_trans short (Nat.le_trans (length_ownClasses_le table) keeps.grows.size_le))⟩

end TypeTable

/-! ### Compatibility can be asked again -/

namespace TypeM

open TypeTable

variable {table now : TypeTable} {left right : TypeId}

namespace Repeats

variable {α : Type}
variable {test : α → TypeM Bool} {items : List α}

theorem anyM (sound : table.Sound)
    (each : ∀ item ∈ items, ∀ middle, table.Keeps middle → middle.Sound →
      Repeats middle (fun _ _ => True) (test item)) :
    Repeats table (fun _ _ => True) (items.anyM test) := by
  induction items generalizing table with
  | nil => exact .pure sound trivial
  | cons item rest inductionHypothesis =>
    refine .bind (each item (.head _) table (.refl table) sound) fun found middle kept sound _ => ?_
    cases found with
    | true => exact .pure sound trivial
    | false =>
      exact inductionHypothesis sound fun other among middle' kept' =>
        each other (.tail _ among) middle' (kept.trans kept')

theorem allM (sound : table.Sound)
    (each : ∀ item ∈ items, ∀ middle, table.Keeps middle → middle.Sound →
      Repeats middle (fun _ _ => True) (test item)) :
    Repeats table (fun _ _ => True) (items.allM test) := by
  induction items generalizing table with
  | nil => exact .pure sound trivial
  | cons item rest inductionHypothesis =>
    refine .bind (each item (.head _) table (.refl table) sound) fun found middle kept sound _ => ?_
    cases found with
    | false => exact .pure sound trivial
    | true =>
      exact inductionHypothesis sound fun other among middle' kept' =>
        each other (.tail _ among) middle' (kept.trans kept')

end Repeats

section Acyclic

variable (hierarchy : table.AcyclicHierarchy)

include hierarchy

theorem repeats_ancestors {id : TypeId} (keeps : table.Keeps now) (isSound : now.Sound)
    (there : id < table.size) : Repeats now AllThere (ancestors id) := by
  obtain ⟨chain, after, climbs, short⟩ := hierarchy now keeps isSound id there
  exact climbs.repeats_ancestors isSound (keeps.lt_size there) short

theorem repeats_isAncestor (keeps : table.Keeps now) (isSound : now.Sound) (there : left < table.size)
    (there' : right < table.size) : Repeats now (fun _ _ => True) (isAncestor left right) := by
  refine .bind (repeats_ancestors hierarchy keeps isSound there')
    fun chain middle kept isSound' allThere => .read (fun {later} kept' _ => ?_) (.pure isSound' trivial)
  have same : (chain.any fun base => base = left || later.equal base left) =
      chain.any fun base => base = left || middle.equal base left := by
    rw [Bool.eq_iff_iff, List.any_eq_true, List.any_eq_true]
    refine exists_congr fun base => and_congr_right fun among => ?_
    rw [kept'.equal_eq isSound' (allThere base among) (kept.lt_size (keeps.lt_size there))]
  exact congrArg _ same

theorem repeats_compatibleWithin (keeps : table.Keeps now) (isSound : now.Sound)
    (there : left < table.size) (there' : right < table.size) :
    Repeats now (fun _ _ => True) (compatibleWithin levels left right) := by
  induction levels generalizing now left right with
  | zero => exact .pure isSound trivial
  | succ levels inductionHypothesis =>
    unfold compatibleWithin
    split
    · exact .pure isSound trivial
    refine .read (fun {later} kept _ => ?_) ?_
    · simp only [kept.equal_eq isSound (keeps.lt_size there) (keeps.lt_size there'),
        kept.form?_eq (keeps.lt_size there), kept.form?_eq (keeps.lt_size there'),
        kept.grows.elems_eq (keeps.lt_size there) isSound,
        kept.grows.elems_eq (keeps.lt_size there') isSound]
    have older {part whole : TypeId} (among : part ∈ now.elems whole) (isThere : whole < table.size) :
        part < table.size := Nat.lt_trans (isSound.elem_lt among) isThere
    have element {whole : TypeId} {form : TypeForm} (isForm : now.form? whole = some form)
        (isThere : whole < table.size) : ∀ part ∈ now.parts form, part < table.size :=
      fun part among => Nat.lt_trans (isSound.part_lt_of_form? isForm part among) isThere
    split
    · exact .pure isSound trivial
    split
    · exact .anyM isSound fun candidate among middle kept isSound' =>
        inductionHypothesis (keeps.trans kept) isSound' (older among there) there'
    · exact .anyM isSound fun candidate among middle kept isSound' =>
        inductionHypothesis (keeps.trans kept) isSound' there (older among there')
    · refine .bind (repeats_isAncestor hierarchy keeps isSound there there')
        fun found middle kept isSound' _ => ?_
      split
      · exact .pure isSound' trivial
      · exact repeats_isAncestor hierarchy (keeps.trans kept) isSound' there' there
    · next elem dims elem' dims' isForm isForm' =>
      split
      · exact .pure isSound trivial
      · exact inductionHypothesis keeps isSound (element (form?_of_getD isForm nofun) there _ (.head _))
          (element (form?_of_getD isForm' nofun) there' _ (.head _))
    · next elem dims elem' dims' isForm isForm' =>
      split
      · exact .pure isSound trivial
      · exact inductionHypothesis keeps isSound (element (form?_of_getD isForm nofun) there _ (.head _))
          (element (form?_of_getD isForm' nofun) there' _ (.head _))
    · dsimp only
      split
      · exact .pure isSound trivial
      · refine .allM isSound fun (member, member') isPair middle kept isSound' => ?_
        obtain ⟨among, among'⟩ := List.of_mem_zip isPair
        exact inductionHypothesis (keeps.trans kept) isSound' (older among there) (older among' there')
    · exact .pure isSound trivial

theorem repeats_compatible (keeps : table.Keeps now) (isSound : now.Sound) (there : left < table.size)
    (there' : right < table.size) : Repeats now (fun _ _ => True) (compatible left right) :=
  repeats_compatibleWithin hierarchy keeps isSound there there'

end Acyclic

/-- An operation that adds to the table and leaves it sound. -/
structure Adds {α : Type} (action : TypeM α) : Prop where
  grows : Growing action
  answers : Answers (fun _ _ => True) action

/-- A run of the operation that meets no walk without end gives this value. The last table is one
that knows all that the run enters. -/
def Gives {α : Type} (last now : TypeTable) (value : α) (action : TypeM α) : Prop :=
  ∀ answer after, action.run now = (answer, after) → ¬after.endless → after.Keeps last →
    answer = value

section Combined

variable {last : TypeTable} {α β : Type} {action : TypeM α}

theorem Gives.read {value : α} {next : TypeTable → TypeM α} (gives : Gives last now value (next now)) :
    Gives last now value (get >>= next) :=
  gives

theorem Gives.pure (value : α) : Gives last now value (Pure.pure value : TypeM α) :=
  fun _ _ ran _ _ => (congrArg Prod.fst ran).symm

theorem Adds.sound (adds : Adds action) (isSound : now.Sound) : (action.run now).2.Sound :=
  (adds.answers now isSound).1.sound isSound

theorem Gives.bind {next : α → TypeM β} {value : α} {result : β} (isSound : now.Sound)
    (adds : Adds action) (grows : ∀ value, Growing (next value)) (first : Gives last now value action)
    (second : ∀ middle, now.Keeps middle → middle.Sound → Gives last middle result (next value)) :
    Gives last now result (action >>= next) := by
  intro answer after ran ends kept
  obtain ⟨found, middle, ran'⟩ : ∃ found middle, action.run now = (found, middle) := ⟨_, _, rfl⟩
  have more := (adds.grows now).toKeeps
  have sound' := adds.sound isSound
  have onward := (grows found middle).toKeeps
  rw [run_bind_eq ran'] at ran
  rw [ran'] at more sound'
  rw [ran] at onward
  have same := first found middle ran' (fun given => ends (onward.endless given)) (onward.trans kept)
  subst same
  exact second middle more sound' answer after ran ends kept

variable {test : α → TypeM Bool} {value : α → Bool} {items : List α}

theorem Gives.anyM (isSound : now.Sound) (adds : ∀ item, Adds (test item))
    (each : ∀ item ∈ items, ∀ middle, now.Keeps middle → middle.Sound →
      Gives last middle (value item) (test item)) :
    Gives last now (items.any value) (items.anyM test) := by
  induction items generalizing now with
  | nil => exact .pure _
  | cons item rest inductionHypothesis =>
    refine .bind isSound (adds item) (fun found => ?_)
      (each item (.head _) now (.refl now) isSound) fun middle kept sound' => ?_
    · cases found with
      | true => exact .pure _
      | false => exact .anyM (fun item => (adds item).grows) rest
    · rw [List.any_cons]
      cases value item with
      | true => exact .pure _
      | false =>
        exact inductionHypothesis sound' fun other among middle' kept' =>
          each other (.tail _ among) middle' (kept.trans kept')

theorem Gives.allM (isSound : now.Sound) (adds : ∀ item, Adds (test item))
    (each : ∀ item ∈ items, ∀ middle, now.Keeps middle → middle.Sound →
      Gives last middle (value item) (test item)) :
    Gives last now (items.all value) (items.allM test) := by
  induction items generalizing now with
  | nil => exact .pure _
  | cons item rest inductionHypothesis =>
    refine .bind isSound (adds item) (fun found => ?_)
      (each item (.head _) now (.refl now) isSound) fun middle kept sound' => ?_
    · cases found with
      | true => exact .allM (fun item => (adds item).grows) rest
      | false => exact .pure _
    · rw [List.all_cons]
      cases value item with
      | true =>
        exact inductionHypothesis sound' fun other among middle' kept' =>
          each other (.tail _ among) middle' (kept.trans kept')
      | false => exact .pure _

end Combined

/-- Whether one of two classes is among the bases of the other. -/
def akin (table : TypeTable) (left right : TypeId) : Bool :=
  ((isAncestor left right).run table).1 || ((isAncestor right left).run table).1

section Asking

variable {last : TypeTable} (isLast : last.Sound)

include isLast

end Asking

end TypeM

namespace TypeTable

end TypeTable

end TreeCheck
