/-
Template arguments that can be inferred are inferred. Inference matches parameter types against
argument types, takes the first binding of a parameter, reports no conflicts and gives up where
the two differ. That is enough: if some choice of types makes the parameter types into the
argument types, the two have the same heads all the way down to the parameters, as far as no
union is in between, since a substitution changes nothing else. So inference comes past every
parameter and never meets anything there but the chosen type.

The choice itself need not be found. A parameter that occurs nowhere stays unbound, and one that
is chosen to be unknown is not bound either, which comes to the same.
-/

import TreeCheck.Proofs.Types.Composition

namespace TreeCheck

open TypeM

variable {α : Type} {levels index reach : Nat} {formals actuals : List TypeId} {elem elem' : TypeId}
  {dims : UInt8} {table : TypeTable} {action : AnalysisM α}

namespace TypeTable

variable {table before after : TypeTable} {params args args' : List TypeId} {id made : TypeId}

/-! ### What becomes of a type, in other tables and with other arguments -/

/-- A table that keeps everything says the same of what becomes of a type. -/
theorem Keeps.becomes_iff (keeps : before.Keeps after) (sound : before.Sound)
    (there : There id before) (there' : There made before) :
    after.Becomes params args levels id made ↔ before.Becomes params args levels id made := by
  induction levels generalizing id made with
  | zero => exact Iff.rfl
  | succ levels inductionHypothesis =>
    have both (same : TypeId → Prop) (first : same id) (second : same made) :
        ∀ type ∈ [id, made], same type := by simp [first, second]
    have partThere (part : TypeId) (isPart : part ∈ before.shownParts id) : There part before :=
      Nat.lt_trans (sound.shownPart_lt part isPart) there
    have valueThere (value : TypeId)
        (isValue : value = 0 ∨ value = made ∨ value ∈ before.shownParts made) : There value before := by
      rcases isValue with rfl | rfl | isPart
      · exact sound.positive
      · exact there'
      · exact Nat.lt_trans (sound.shownPart_lt value isPart) there'
    have kind := both (fun type => after.kindOf type = before.kindOf type)
      (keeps.kindOf_eq there) (keeps.kindOf_eq there')
    have head := both (fun type => after.head type = before.head type)
      (keeps.head_eq sound there) (keeps.head_eq sound there')
    have parts := both (fun type => after.shownParts type = before.shownParts type)
      (keeps.shownParts_eq sound there) (keeps.shownParts_eq sound there')
    rw [Becomes, Becomes, keeps.kindOf_eq there]
    by_cases isParam : before.kindOf id = .param
    · rw [if_pos isParam, if_pos isParam]
    rw [if_neg isParam, if_neg isParam]
    constructor <;> intro rebuilt
    · refine rebuilt.carry (fun type among => (kind type among).symm)
        (fun type among => (head type among).symm)
        (fun type among => (parts type among).symm) fun part isPart value isValue => ?_
      rw [keeps.shownParts_eq sound there] at isPart
      rw [keeps.shownParts_eq sound there'] at isValue
      exact (inductionHypothesis (partThere part isPart) (valueThere value isValue)).mp
    · exact rebuilt.carry kind head parts fun part isPart value isValue =>
        (inductionHypothesis (partThere part isPart) (valueThere value isValue)).mpr

/-- Only the arguments for parameters that occur matter. -/
theorem Becomes.congr (becomes : table.Becomes params args levels id made)
    (same : ∀ depth param, table.OccursAt depth param id → table.kindOf param = .param →
      argumentFor params args' param = argumentFor params args param) :
    table.Becomes params args' levels id made := by
  induction levels generalizing id made with
  | zero => exact becomes
  | succ levels inductionHypothesis =>
    rw [Becomes] at becomes ⊢
    split at becomes
    · next isParam =>
      rw [if_pos isParam, same 0 id rfl isParam]
      exact becomes
    · next noParam =>
      rw [if_neg noParam]
      exact becomes.imp fun part isPart value becomes => inductionHypothesis becomes
        fun depth param occurs => same (depth + 1) param ⟨part, isPart, occurs⟩

theorem head_of_param (isParam : table.kindOf id = .param) : table.head id = .whole id := by
  unfold kindOf at isParam
  split at isParam
  · next form isForm =>
    cases form with
    | param slot => simp [head, classInfo?, isForm, TypeForm.kind]
    | _ => cases isParam
  · cases isParam

theorem unionFree_of_parts (noUnion : table.kindOf id ≠ .multi)
    (each : ∀ part ∈ table.shownParts id, table.UnionFree part) : table.UnionFree id := by
  intro depth inner occurs
  cases depth with
  | zero =>
    obtain rfl : inner = id := occurs
    exact noUnion
  | succ depth =>
    obtain ⟨part, isPart, occurs⟩ := occurs
    exact each part isPart depth inner occurs

/-! ### Bindings on the way to a choice -/

/-- A binding on the way to a choice of types: a parameter stands for what was chosen, or is not
bound yet. -/
structure Toward (choice binding : List TypeId) : Prop where
  length : binding.length = choice.length
  each : ∀ index : Nat, binding[index]? = some 0 ∨ binding[index]? = choice[index]?

/-- Parameters that stood for what was chosen still do. -/
structure Advances (choice before after : List TypeId) : Prop extends Toward choice after where
  keeps : ∀ index : Nat, before[index]? = choice[index]? → after[index]? = choice[index]?

/-- The parameters that occur in a type stand for what was chosen. -/
def Settles (table : TypeTable) (params choice binding : List TypeId) (formal : TypeId) : Prop :=
  ∀ depth param index, table.OccursAt depth param formal → params.idxOf? param = some index →
    binding[index]? = choice[index]?

section Bindings

variable {choice binding middle later : List TypeId} {formal actual : TypeId} {index : Nat}

theorem Toward.stays (toward : Toward choice binding) : Advances choice binding binding :=
  ⟨toward, fun _ same => same⟩

theorem Advances.trans (early : Advances choice binding middle) (late : Advances choice middle later) :
    Advances choice binding later :=
  ⟨late.toToward, fun index same => late.keeps index (early.keeps index same)⟩

theorem Toward.there (toward : Toward choice binding) (sound : table.Sound)
    (chosen : AllThere choice table) :
    AllThere binding table := by
  intro type among
  obtain ⟨index, isType⟩ := List.mem_iff_getElem?.mp among
  rcases toward.each index with unbound | isChosen
  · cases isType.symm.trans unbound
    exact sound.positive
  · exact chosen type (List.mem_of_getElem? (isChosen.symm.trans isType))

theorem Settles.advance (settles : table.Settles params choice binding formal)
    (advances : Advances choice binding later) : table.Settles params choice later formal :=
  fun depth param index occurs found => advances.keeps index (settles depth param index occurs found)

/-- Binding a parameter to what was chosen for it goes on. -/
theorem Toward.set (toward : Toward choice binding) (chosen : choice[index]? = some actual) :
    Advances choice binding (binding.set index actual) := by
  have bound : index < binding.length := toward.length ▸ (List.getElem?_eq_some_iff.mp chosen).1
  have cases (other : Nat) : (binding.set index actual)[other]? = choice[other]? ∨
      (binding.set index actual)[other]? = binding[other]? := by
    by_cases same : index = other
    · subst same
      exact .inl ((List.getElem?_set_self bound).trans chosen.symm)
    · exact .inr (List.getElem?_set_ne same)
  refine ⟨⟨(List.length_set ..).trans toward.length, fun other => ?_⟩, fun other same => ?_⟩
  · rcases cases other with isChosen | isOld
    · exact .inr isChosen
    · exact isOld ▸ toward.each other
  · exact (cases other).elim id fun isOld => isOld.trans same

theorem chosen_of_argumentFor (sameLength : params.length = choice.length)
    (found : params.idxOf? formal = some index) :
    choice[index]? = some (argumentFor params choice formal) := by
  obtain ⟨bound, -⟩ := List.idxOf?_eq_some_iff.mp found
  simp [argumentFor, found, List.getElem?_eq_getElem (sameLength ▸ bound)]

end Bindings

end TypeTable

theorem Asks.of_ok {allowed : TypeTable → TypeForm → Prop} {state after : Analysis}
    {post : α → TypeTable → Prop} {value : α} (asks : Asks allowed state post action)
    (ran : action state = .ok value after) :
    Furthers allowed state after ∧ post value after.typing.types := by
  unfold Asks at asks
  rwa [ran] at asks

/-! ### Inference -/

namespace TypeCheck

open TypeTable

variable {value : α}

section Matching

variable {table : TypeTable} {params choice binding : List TypeId} {formal actual : TypeId}
  {levels : Nat}

/-- The parts of two types are matched one after the other. -/
def matchAll (params : List TypeId) (levels : Nat) (binding formals actuals : List TypeId) :
    TypeM (List TypeId) :=
  (formals.zip actuals).foldlM
    (fun binding (formal, actual) => matchWithin params levels binding formal actual) binding

theorem matchWithin_unknown :
    (matchWithin params (levels + 1) binding formal 0).run table = (binding, table) := by
  rw [matchWithin, if_pos rfl]
  rfl

theorem matchWithin_param (known : actual ≠ 0) (found : params.idxOf? formal = some index) :
    (matchWithin params (levels + 1) binding formal actual).run table =
      (if binding[index]? = some 0 then binding.set index actual else binding, table) := by
  rw [matchWithin, if_neg known, found]
  rfl

section Apart

variable (known : actual ≠ 0) (apart : params.idxOf? formal = none)

include known apart

/-- Where a type is known by its number the binding stays. -/
theorem matchWithin_whole (sound : table.Sound) (whole : table.head formal = .whole formal) :
    (matchWithin params (levels + 1) binding formal actual).run table = (binding, table) := by
  have notFormed {form : TypeForm} (isForm : table.form? formal = some form) :
      form.kind ∉ [.list, .array, .tuple, .multi] := fun isFormed => by
    rw [(head_formed isForm isFormed).1] at whole
    cases whole
  rw [matchWithin, if_neg known, apart]
  dsimp only
  rw [run_get_bind]
  split
  · next isForm _ => exact absurd (by simp [TypeForm.kind]) (notFormed isForm)
  · next isForm _ => exact absurd (by simp [TypeForm.kind]) (notFormed isForm)
  · next isForm _ => exact absurd (by simp [TypeForm.kind]) (notFormed isForm)
  · split
    · next formalInfo actualInfo isFormal isActual =>
      have own : formalInfo.generic = 0 := by
        by_contra isInstance
        rw [(head_applied isFormal (sound.args_ne_nil isFormal isInstance)).1] at whole
        cases whole
      rw [if_neg (fun fits => fits.1 own)]
      rfl
    · rfl
  · rfl

theorem matchWithin_list (isFormal : table.form? formal = some (.list elem dims))
    (isActual : table.form? actual = some (.list elem' dims)) :
    (matchWithin params (levels + 1) binding formal actual).run table =
      (matchWithin params levels binding elem elem').run table := by
  rw [matchWithin, if_neg known, apart]
  dsimp only
  rw [run_get_bind, isFormal, isActual]
  dsimp only
  rw [if_pos rfl]

theorem matchWithin_array (isFormal : table.form? formal = some (.array elem dims))
    (isActual : table.form? actual = some (.array elem' dims)) :
    (matchWithin params (levels + 1) binding formal actual).run table =
      (matchWithin params levels binding elem elem').run table := by
  rw [matchWithin, if_neg known, apart]
  dsimp only
  rw [run_get_bind, isFormal, isActual]
  dsimp only
  rw [if_pos rfl]

theorem matchWithin_tuple {slot slot' : Nat} (isFormal : table.form? formal = some (.tuple slot))
    (isActual : table.form? actual = some (.tuple slot'))
    (sameLength : (table.elems formal).length = (table.elems actual).length) :
    (matchWithin params (levels + 1) binding formal actual).run table =
      (matchAll params levels binding (table.elems formal) (table.elems actual)).run table := by
  rw [matchWithin, if_neg known, apart]
  dsimp only
  rw [run_get_bind, isFormal, isActual]
  dsimp only
  rw [if_pos sameLength]
  rfl

theorem matchWithin_instance {info info' : ClassInfo} (isFormal : table.classInfo? formal = some info)
    (isActual : table.classInfo? actual = some info') (isInstance : info.generic ≠ 0)
    (sameGeneric : info.generic = info'.generic) (sameLength : info.args.length = info'.args.length) :
    (matchWithin params (levels + 1) binding formal actual).run table =
      (matchAll params levels binding info.args info'.args).run table := by
  obtain ⟨slot, isForm, -⟩ := classInfo?_eq_some isFormal
  obtain ⟨slot', isForm', -⟩ := classInfo?_eq_some isActual
  rw [matchWithin, if_neg known, apart]
  dsimp only
  rw [run_get_bind, isForm, isForm', isFormal, isActual]
  dsimp only
  rw [if_pos ⟨isInstance, sameGeneric, sameLength⟩]
  rfl

end Apart

/-- Matching the two types comes past every parameter in the first one, from wherever it starts on
the way to a choice, and enters nothing. -/
def Meets (table : TypeTable) (params choice : List TypeId) (levels : Nat)
    (formal actual : TypeId) : Prop :=
  ∀ binding, Toward choice binding → ∃ later,
    (matchWithin params levels binding formal actual).run table = (later, table) ∧
      Advances choice binding later ∧ table.Settles params choice later formal

theorem matchAll_settles (each : List.Forall₂ (Meets table params choice levels) formals actuals)
    (toward : Toward choice binding) :
    ∃ later, (matchAll params levels binding formals actuals).run table = (later, table) ∧
      Advances choice binding later ∧ ∀ formal ∈ formals, table.Settles params choice later formal := by
  induction each generalizing binding with
  | nil => exact ⟨binding, rfl, toward.stays, nofun⟩
  | @cons formal actual formals actuals meets _ inductionHypothesis =>
    obtain ⟨middle, ran, advances, settles⟩ := meets binding toward
    obtain ⟨later, ran', advances', settles'⟩ := inductionHypothesis advances.toToward
    refine ⟨later, ?_, advances.trans advances',
      List.forall_mem_cons.mpr ⟨settles.advance advances', settles'⟩⟩
    rw [matchAll, List.zip_cons_cons, List.foldlM_cons, run_bind_eq ran]
    exact ran'

/-- A type that is no parameter is settled with its parts. -/
theorem settles_of_parts (apart : params.idxOf? formal = none)
    (each : ∀ part ∈ table.shownParts formal, table.Settles params choice binding part) :
    table.Settles params choice binding formal := by
  intro depth param index occurs found
  cases depth with
  | zero =>
    obtain rfl : param = formal := occurs
    nomatch apart.symm.trans found
  | succ depth =>
    obtain ⟨part, isPart, occurs⟩ := occurs
    exact each part isPart depth param index occurs found

theorem settles_of_param (isParam : table.kindOf formal = .param)
    (found : params.idxOf? formal = some index) (settled : binding[index]? = choice[index]?) :
    table.Settles params choice binding formal := by
  intro depth param index' occurs found'
  obtain rfl := occursAt_of_noParts (shownParts_of_param isParam) occurs
  cases found.symm.trans found'
  exact settled

section Met

variable (sound : table.Sound) (areParams : ∀ param ∈ params, table.kindOf param = .param)
  (sameLength : params.length = choice.length)

include areParams sameLength

theorem meets_param (known : actual ≠ 0) (found : params.idxOf? formal = some index)
    (becomes : table.Becomes params choice (reach + 1) formal actual) :
    Meets table params choice (levels + 1) formal actual := by
  obtain ⟨bound, same, -⟩ := List.idxOf?_eq_some_iff.mp found
  have isParam : table.kindOf formal = .param := areParams formal (same ▸ List.getElem_mem bound)
  rw [Becomes, if_pos isParam] at becomes
  have chosen : choice[index]? = some actual := becomes ▸ chosen_of_argumentFor sameLength found
  refine fun binding toward => ⟨_, matchWithin_param known found, ?_⟩
  split
  · exact ⟨toward.set chosen, settles_of_param isParam found
      ((List.getElem?_set_self (toward.length ▸ sameLength ▸ bound)).trans chosen.symm)⟩
  · next isBound => exact ⟨toward.stays,
      settles_of_param isParam found ((toward.each index).resolve_left isBound)⟩

include sound

/-- An argument that is not known leaves the parameter unbound that was chosen to be unknown. -/
theorem meets_unknown (unionFree : table.UnionFree formal)
    (becomes : table.Becomes params choice (reach + 1) formal 0) :
    Meets table params choice (levels + 1) formal 0 := by
  refine fun binding toward => ⟨binding, matchWithin_unknown, toward.stays, ?_⟩
  rw [Becomes] at becomes
  split at becomes
  · next isParam =>
    cases found : params.idxOf? formal with
    | none => exact settles_of_parts found (by simp [shownParts_of_param isParam])
    | some index =>
      have chosen : choice[index]? = some 0 := becomes ▸ chosen_of_argumentFor sameLength found
      refine settles_of_param isParam found ?_
      exact (toward.each index).elim (fun unbound => unbound.trans chosen.symm) id
  · next noParam =>
    cases becomes with
    | union _ isUnion => exact absurd isUnion (unionFree 0 formal rfl)
    | other _ sameHead _ =>
      have headed := sound.headed formal
      rw [← sameHead] at headed
      refine settles_of_parts
        (List.idxOf?_eq_none_iff.mpr fun among => noParam (areParams formal among)) ?_
      simp [headed.2]

/-- A choice that makes a parameter type into an argument type is met by matching the two. The
induction is on the levels that are left; the heads of the two types agree at each of them. -/
theorem meets_of_becomes (within : levels ≤ reach) (shown : table.Shown levels formal)
    (unionFree : table.UnionFree formal)
    (becomes : table.Becomes params choice reach formal actual) :
    Meets table params choice levels formal actual := by
  induction levels generalizing reach formal actual with
  | zero => exact shown.elim
  | succ levels inductionHypothesis =>
    obtain ⟨reach, rfl⟩ := Nat.exists_eq_add_one_of_ne_zero (Nat.ne_of_gt (Nat.zero_lt_of_lt within))
    by_cases known : actual = 0
    · subst known
      exact meets_unknown sound areParams sameLength unionFree becomes
    cases found : params.idxOf? formal with
    | some index => exact meets_param areParams sameLength known found becomes
    | none =>
      have alone (whole : table.head formal = .whole formal) (noParts : table.shownParts formal = []) :
          Meets table params choice (levels + 1) formal actual := fun binding toward =>
        ⟨binding, matchWithin_whole known found sound whole, toward.stays,
          settles_of_parts found (by simp [noParts])⟩
      have headed := sound.headed formal
      rw [Becomes] at becomes
      split at becomes
      · next isParam => exact alone (head_of_param isParam) (shownParts_of_param isParam)
      cases becomes with
      | union _ isUnion => exact absurd isUnion (unionFree 0 formal rfl)
      | other noUnion sameHead each =>
        have headed' := sound.headed actual
        rw [sameHead] at headed'
        have parts : List.Forall₂ (Meets table params choice levels) (table.shownParts formal)
            (table.shownParts actual) :=
          (forall₂_with_mem each).imp fun part value paired =>
            inductionHypothesis (Nat.le_of_succ_le_succ within) (shown part paired.1)
              (unionFree.part paired.1) paired.2.2
        have single {elem elem' : TypeId} (elems : table.shownParts formal = [elem])
            (elems' : table.shownParts actual = [elem'])
            (runs : ∀ binding, (matchWithin params (levels + 1) binding formal actual).run table =
              (matchWithin params levels binding elem elem').run table) :
            Meets table params choice (levels + 1) formal actual := by
          rw [elems, elems', List.forall₂_cons] at parts
          intro binding toward
          obtain ⟨later, ran, advances, settles⟩ := parts.1 binding toward
          exact ⟨later, (runs binding).trans ran, advances,
            settles_of_parts found (by simpa [elems] using settles)⟩
        have several
            (runs : ∀ binding, (matchWithin params (levels + 1) binding formal actual).run table =
              (matchAll params levels binding (table.shownParts formal)
                (table.shownParts actual)).run table) :
            Meets table params choice (levels + 1) formal actual := by
          intro binding toward
          obtain ⟨later, ran, advances, settles⟩ := matchAll_settles parts toward
          exact ⟨later, (runs binding).trans ran, advances, settles_of_parts found settles⟩
        cases isHead : table.head formal with
        | whole other =>
          rw [isHead] at headed
          obtain ⟨rfl, noParts⟩ := headed
          exact alone isHead noParts
        | formed kind dims =>
          rw [isHead] at headed headed'
          obtain ⟨form, isForm, rfl, rfl, isFormed, elems⟩ := headed
          obtain ⟨form', isForm', sameKind, sameDims, -, elems'⟩ := headed'
          cases form with
          | list elem dims =>
            cases form' with
            | list elem' dims' =>
              obtain rfl : dims' = dims := sameDims
              exact single elems elems' fun _ => matchWithin_list known found isForm isForm'
            | _ => cases sameKind
          | array elem dims =>
            cases form' with
            | array elem' dims' =>
              obtain rfl : dims' = dims := sameDims
              exact single elems elems' fun _ => matchWithin_array known found isForm isForm'
            | _ => cases sameKind
          | tuple slot =>
            cases form' with
            | tuple slot' =>
              have isElems := (elems_of_tuple isForm).trans elems.symm
              have isElems' := (elems_of_tuple isForm').trans elems'.symm
              rw [← isElems, ← isElems'] at several parts
              exact several fun _ => matchWithin_tuple known found isForm isForm' parts.length_eq
            | _ => cases sameKind
          | multi slot => exact absurd (kindOf_of_form? isForm) noUnion
          | _ => simp [TypeForm.kind] at isFormed
        | applied generic =>
          rw [isHead] at headed headed'
          obtain ⟨info, isClass, given, rfl, args⟩ := headed
          obtain ⟨info', isClass', -, sameGeneric, args'⟩ := headed'
          rw [args, args'] at several parts
          exact several fun _ => matchWithin_instance known found isClass isClass'
            (sound.generic_ne_zero isClass given) sameGeneric.symm parts.length_eq

end Met

/-! ### Inference and the check behind it -/

theorem toward_unbound (sameLength : params.length = choice.length) :
    Toward choice (params.map fun _ => 0) := by
  refine ⟨by simpa using sameLength, fun index => ?_⟩
  by_cases bound : index < params.length
  · exact .inl (by simp [bound])
  · refine .inr ?_
    rw [List.getElem?_eq_none (by simpa using bound), List.getElem?_eq_none (by omega)]

/-- Inference finds what was chosen for every parameter that occurs. -/
theorem infer_settles (sameLength : params.length = choice.length)
    (each : List.Forall₂ (Meets table params choice (inferenceDepth + 1)) formals actuals) :
    ∃ later, (infer params formals actuals).run table = (later, table) ∧
      Toward choice later ∧ ∀ formal ∈ formals, table.Settles params choice later formal := by
  obtain ⟨later, ran, advances, settles⟩ := matchAll_settles each (toward_unbound sameLength)
  exact ⟨later, ran, advances.toToward, settles⟩

/-- A binding that makes each parameter type into the argument type passes the check of the
arguments, in whatever table. -/
theorem exactArgs_of_becomes (overload : Overload) {pairs : List (TypeId × TypeId)} (sound : table.Sound)
    (bound : AllThere overload.binding table)
    (sameLength : overload.params.length = overload.binding.length)
    (each : ∀ pair ∈ pairs, There pair.1 table ∧ There pair.2 table ∧
      table.Becomes overload.params overload.binding (substitutionDepth + 1) pair.1 pair.2) :
    ∃ after, (exactArgs overload pairs).run table = (true, after) := by
  induction pairs generalizing table with
  | nil => exact ⟨table, rfl⟩
  | cons pair rest inductionHypothesis =>
    obtain ⟨formal, actual⟩ := pair
    obtain ⟨⟨there, there', becomes⟩, others⟩ := List.forall_mem_cons.mp each
    unfold exactArgs
    split
    · exact inductionHypothesis sound bound others
    · obtain ⟨made, middle, ran⟩ : ∃ made middle,
          (substitute overload.params overload.binding formal).run table = (made, middle) := ⟨_, _, rfl⟩
      obtain ⟨sound', keeps, -, becomes'⟩ := sound.becomes_substitute bound there sameLength ran
      obtain rfl : made = actual :=
        becomes'.unique sound' ((keeps.becomes_iff sound there there').mpr becomes)
      obtain ⟨after, ran'⟩ := inductionHypothesis sound' (keeps.all_lt_size bound) fun pair among => by
        obtain ⟨there, there', becomes⟩ := others pair among
        exact ⟨keeps.lt_size there, keeps.lt_size there',
          (keeps.becomes_iff sound there there').mpr becomes⟩
      refine ⟨after, ?_⟩
      rw [run_bind_eq ran, run_get_bind, if_pos (equal_self middle made)]
      exact ran'

/-- What is chosen for the parameters that occur is all that matters. -/
theorem becomes_of_settles {later : List TypeId} (sameLength : params.length = choice.length)
    (length : later.length = choice.length) (settles : table.Settles params choice later formal)
    (becomes : table.Becomes params choice reach formal actual) :
    table.Becomes params later reach formal actual := by
  refine becomes.congr fun depth param occurs _ => ?_
  cases found : params.idxOf? param with
  | none => simp [argumentFor, found]
  | some index =>
    have settled := settles depth param index occurs found
    rw [chosen_of_argumentFor (sameLength.trans length.symm) found,
      chosen_of_argumentFor sameLength found] at settled
    exact Option.some.inj settled

/-- If some choice makes the parameter types into the argument types, inference finds a binding that
does, and it enters nothing. -/
theorem infer_fits (sound : table.Sound) (areParams : ∀ param ∈ params, table.kindOf param = .param)
    (sameLength : params.length = choice.length) (chosen : AllThere choice table)
    (areThere : AllThere formals table) (areThere' : AllThere actuals table)
    (unionFree : ∀ formal ∈ formals, table.UnionFree formal)
    (nests : ∀ formal ∈ formals, table.Nests inferenceDepth formal)
    (makes : List.Forall₂ (fun formal actual => ((substitute params choice formal).run table).1 = actual)
      formals actuals) (id : DeclId) :
    ∃ binding after, binding.length = params.length ∧
      (infer params formals actuals).run table = (binding, table) ∧
      (exactArgs ⟨id, params, binding⟩ (formals.zip actuals)).run table = (true, after) := by
  have becomes : List.Forall₂ (fun formal actual => formal ∈ formals ∧ actual ∈ actuals ∧
      table.Becomes params choice (substitutionDepth + 1) formal actual) formals actuals := by
    refine (forall₂_with_mem makes).imp fun formal actual ⟨among, among', made⟩ => ⟨among, among', ?_⟩
    obtain ⟨made', middle, ran⟩ : ∃ made' middle,
        (substitute params choice formal).run table = (made', middle) := ⟨_, _, rfl⟩
    rw [ran] at made
    subst made
    obtain ⟨-, keeps, -, becomes⟩ :=
      sound.becomes_substitute chosen (areThere formal among) sameLength ran
    exact (keeps.becomes_iff sound (areThere formal among) (areThere' _ among')).mp becomes
  obtain ⟨later, ran, toward, settles⟩ := infer_settles sameLength (becomes.imp
    fun formal actual ⟨among, _, becomes⟩ => meets_of_becomes sound areParams sameLength
      (by decide) (nests formal among).shown (unionFree formal among) becomes)
  have length : params.length = later.length := sameLength.trans toward.length.symm
  obtain ⟨after, ran'⟩ :=
    exactArgs_of_becomes ⟨id, params, later⟩ sound (toward.there sound chosen) length
    fun (formal, actual) isPair =>
      have ⟨among, among', becomes⟩ := List.forall₂_zip becomes isPair
      ⟨areThere formal among, areThere' actual among',
        becomes_of_settles sameLength toward.length (settles formal among) becomes⟩
  exact ⟨later, after, length.symm, ran, ran'⟩

end Matching

/-! ### Candidates -/

open AnalysisM

section Candidates

variable {tree : Tree} {state middle after : Analysis} {args params formals choice : List TypeId}
  {receiver : TypeId} {id : DeclId} {callable : Callable}

/-- The template parameters of a callable and the types of its parameters as seen through a
receiver. -/
def signatureOf (tree : Tree) (id : DeclId) (callable : Callable) (receiver : TypeId) :
    AnalysisM (List TypeId × List TypeId) := do
  let params ← callable.typeParams.mapM (nominal tree)
  let formals ← callable.params.mapM fun param => do
    throughReceiver tree (← declType tree param) id receiver
  return (params, formals)

theorem length_of_mapM {action : α → AnalysisM TypeId} {items : List α} {values : List TypeId}
    (ran : items.mapM action state = .ok values after) : values.length = items.length := by
  induction items generalizing state after values with
  | nil =>
    cases ran
    rfl
  | cons item rest inductionHypothesis =>
    rw [List.mapM_cons] at ran
    obtain ⟨first, _, -, ran⟩ := bind_eq_ok ran
    obtain ⟨others, _, later, ends⟩ := bind_eq_ok ran
    cases ends
    rw [List.length_cons, List.length_cons, inductionHypothesis later]

theorem asks_signatureOf (grounded : Grounded state.typing) :
    Asks Folds state (fun seen => AllThere seen.2) (signatureOf tree id callable receiver) := by
  refine .bind
    (.mapM grounded fun param _ _ onward => asks_nominal permits_folds tree onward.grounded param)
    fun params _ onward _ => .bind (.mapM onward.grounded fun param _ _ onward =>
      .bind (asks_declType permits_folds tree onward.grounded param) fun _ _ onward there =>
        asks_throughReceiver permits_folds tree onward.grounded there ..)
      fun formals _ onward areThere => .pure onward.grounded areThere

theorem run_bind {β : Type} {next : α → AnalysisM β} (ran : action state = .ok value middle) :
    (action >>= next) state = next value middle := by
  show EStateM.bind action next state = _
  rw [EStateM.bind, ran]

theorem run_inTypes {action : TypeM α} (ran : action.run state.typing.types = (value, table)) :
    inTypes action state = .ok value { state with typing := { state.typing with types := table } } := by
  have value' : (action.run state.typing.types).1 = value := congrArg Prod.fst ran
  have table' : (action.run state.typing.types).2 = table := congrArg Prod.snd ran
  subst value' table'
  rfl

/-- A candidate fits if the binding that is inferred for its signature passes the check of the
arguments. -/
theorem tryCandidate_fits {binding : List TypeId} (isCallable : tree.callable? id = some callable)
    (asMany : callable.params.length = args.length)
    (seen : signatureOf tree id callable receiver state = .ok (params, formals) after)
    (length : binding.length = params.length)
    (inferred : (infer params formals args).run after.typing.types = (binding, after.typing.types))
    (fits : (exactArgs ⟨id, params, binding⟩ (formals.zip args)).run after.typing.types =
      (true, table)) :
    tryCandidate tree args [] receiver id state =
      .ok (.fits ⟨id, params, binding⟩) { after with typing :=
        { after.typing with types := table } } := by
  obtain ⟨params', middle, ran, seen⟩ := bind_eq_ok seen
  obtain ⟨formals', middle', ran', ends⟩ := bind_eq_ok seen
  obtain ⟨same, rfl⟩ := EStateM.Result.ok.inj ends
  obtain ⟨rfl, rfl⟩ := Prod.mk.inj same
  unfold tryCandidate
  rw [isCallable]
  dsimp only
  rw [if_neg (not_not.mpr asMany), run_bind ran, run_bind ran', if_neg (by simp), if_neg (by simp)]
  cases params' with
  | nil =>
    obtain rfl := List.length_eq_zero_iff.mp length
    rw [if_neg (by simp), pure_bind]
    exact run_bind (run_inTypes fits)
  | cons param rest =>
    rw [if_pos (by simp), run_bind (run_inTypes inferred)]
    exact run_bind (run_inTypes fits)

theorem pick_append {explicit : List TypeId} (miscounted : Bool) (front back : List DeclId) :
    pick tree args explicit receiver miscounted (front ++ back) = (do
      match ← pick tree args explicit receiver miscounted front with
      | .ok overload => return .ok overload
      | .error miscounted => pick tree args explicit receiver miscounted back) := by
  induction front generalizing miscounted with
  | nil => rfl
  | cons first rest inductionHypothesis =>
    rw [List.cons_append, pick, pick, bind_assoc]
    refine bind_congr fun fit => ?_
    cases fit with
    | fits overload => rfl
    | misfit => exact inductionHypothesis miscounted
    | wrongCount => exact inductionHypothesis true

/-- Template arguments that can be chosen are found. Where trying the candidates before it comes to an
end, a call finds a callable whose parameter types, as seen through the receiver, some choice makes
into the types of the arguments; what candidates come behind does not matter. It is this callable,
unless an earlier one fits. Arguments may be unknown here: they fit anyway. -/
theorem inference_complete {miscounted : Bool} {front back : List DeclId} {passed : Except Bool Overload}
    (grounded : Grounded state.typing) (argsThere : AllThere args state.typing.types)
    (tried : pick tree args [] receiver miscounted front state = .ok passed middle)
    (isCallable : tree.callable? id = some callable)
    (seen : signatureOf tree id callable receiver middle = .ok (params, formals) after)
    (areParams : ∀ param ∈ params, after.typing.types.kindOf param = .param)
    (unionFree : ∀ formal ∈ formals, after.typing.types.UnionFree formal)
    (nests : ∀ formal ∈ formals, after.typing.types.Nests 8 formal)
    (sameLength : params.length = choice.length) (chosen : AllThere choice after.typing.types)
    (makes : List.Forall₂ (fun formal arg =>
      ((substitute params choice formal).run after.typing.types).1 = arg) formals args) :
    ∃ overload later,
      pick tree args [] receiver miscounted (front ++ id :: back) state = .ok (.ok overload) later ∧
        (passed = .ok overload ∨ overload.decl = id) := by
  rw [pick_append, run_bind tried]
  cases passed with
  | ok overload => exact ⟨overload, middle, rfl, .inl rfl⟩
  | error miscounted =>
    obtain ⟨onward, -⟩ := (asks_pick permits_folds tree grounded argsThere
      (List.forall_mem_nil _) receiver _ front).of_ok tried
    obtain ⟨onward', areThere⟩ := (asks_signatureOf onward.grounded).of_ok seen
    obtain ⟨binding, table, length, inferred, fits⟩ :=
      infer_fits onward'.grounded.sound areParams sameLength
      chosen areThere (onward'.all_lt_size (onward.all_lt_size argsThere)) unionFree nests makes id
    have asMany : callable.params.length = args.length := by
      obtain ⟨_, _, -, seen⟩ := bind_eq_ok seen
      obtain ⟨_, _, ran, ends⟩ := bind_eq_ok seen
      obtain ⟨same, -⟩ := EStateM.Result.ok.inj ends
      rw [← length_of_mapM ran, ← makes.length_eq, ← (Prod.mk.inj same).2]
    have fit := tryCandidate_fits isCallable asMany seen length inferred fits
    exact ⟨⟨id, params, binding⟩, _, run_bind fit, .inr rfl⟩

end Candidates

/-- A function of two integers, and one of a pair whose second half is a list of what the second
argument is. -/
def pairing : Tree :=
  let named (name : String) : Option Doc.TypeExpr := some { kind := "named", name }
  let listed : Option Doc.TypeExpr := some { kind := "list", base := named "U" }
  let pair : Option Doc.TypeExpr := some { kind := "tuple", elems := [named "T", listed] }
  let param (name : String) (type : Option Doc.TypeExpr) : Option Doc.Variable := some { name, type }
  let document : Doc.Document :=
    { version := 1
      units := [some
        { path := "main"
          functions :=
            [some { name := "f", params := [param "x" (named "Int"), param "y" (named "Int")] },
              some
                { name := "f"
                  typeParams := [some { name := "T" }, some { name := "U" }]
                  params := [param "p" pair, param "x" (named "U")] }] }] }
  (Loader.behind (Loader.load document {})).tree

/-- Names are resolved, and there is a pair of a character and a list of integers. -/
def pairingState : Analysis where
  names := (Acts.behind (Resolve.program pairing 1 true {})).names
  typing := { types :=
    TypeTable.performAll {} [.intern (.list TypeId.int 1), .makeTuple [TypeId.char, 8]] }

/-- What an action gives, if it ends well. -/
def given? {α : Type} : EStateM.Result Abort Analysis α → Option α
  | .ok value _ => some value
  | .error .. => none

theorem eq_ok_of_given {result : EStateM.Result Abort Analysis α}
    (given : given? result = some value) : result = .ok value (Acts.behind result) := by
  cases result with
  | ok found after => rw [Option.some.inj given]; rfl
  | error abort after => nomatch given

/-- The first function was tried. -/
def pairingTried : EStateM.Result Abort Analysis (Except Bool Overload) :=
  pick pairing [9, TypeId.int] [] 0 false [3] pairingState

/-- The second function as the state behind that sees it. -/
def pairingSeen : EStateM.Result Abort Analysis (List TypeId × List TypeId) :=
  signatureOf pairing 6 ((pairing.callable? 6).getD default) 0 (Acts.behind pairingTried)

theorem pairing_seen :
    (given? pairingTried).map (Except.map Overload.decl) = some (.error false) ∧
      (pairing.callable? 6).isSome ∧ given? pairingSeen = some ([10, 11], [13, 11]) := by
  simp only [pairingSeen, pairingTried, pairingState, pairing, Loader.load_eq_loadWithin]
  decide +kernel

theorem pairing_types :
    let table := (Acts.behind pairingSeen).typing.types
    table.size = 14 ∧ [10, 11, 12, 13].map table.kindOf = [.param, .param, .list, .tuple] ∧
      [10, 11, 12, 13].map table.shownParts = [[], [], [11], [10, 12]] ∧
      ([13, 11].map fun formal =>
        ((substitute [10, 11] [TypeId.char, TypeId.int] formal).run table).1) = [9, TypeId.int] := by
  simp only [pairingSeen, pairingTried, pairingState, pairing, Loader.load_eq_loadWithin]
  decide +kernel

theorem pairing_grounded : Grounded pairingState.typing := by
  refine ⟨?_, by simp [pairingState], by simp [pairingState], by simp [pairingState],
    by simp [pairingState]⟩
  refine ((Asked.start.all ?_).served sound_empty).sound sound_empty
  with_unfolding_all decide

/-- What half of a pair is and what a list is of are found. -/
theorem inference_complete_pair :
    Grounded pairingState.typing ∧ ∃ overload later,
      pick pairing [9, TypeId.int] [] 0 false [3, 6] pairingState = .ok (.ok overload) later ∧
        overload.decl = 6 := by
  obtain ⟨refused, isSome, seen⟩ := pairing_seen
  have tried : given? pairingTried = some (.error false) := by
    obtain ⟨result, isGiven, isRefusal⟩ := Option.map_eq_some_iff.mp refused
    rw [isGiven]
    cases result with
    | error miscounted => rw [Except.error.inj isRefusal]
    | ok overload => cases isRefusal
  have types := pairing_types
  simp only [List.map_cons, List.map_nil, List.cons.injEq, and_true] at types
  obtain ⟨size, ⟨isFirst, isSecond, isList, isPair⟩, ⟨none, none', elem, halves⟩, made, made'⟩ := types
  have isCallable : pairing.callable? 6 = some ((pairing.callable? 6).getD default) := by
    obtain ⟨callable, isSome⟩ := Option.isSome_iff_exists.mp isSome
    rw [isSome, Option.getD_some]
  have areParams : ∀ param ∈ [10, 11], (Acts.behind pairingSeen).typing.types.kindOf param = .param := by
    simp [isFirst, isSecond]
  have unionFree : ∀ formal ∈ [13, 11], (Acts.behind pairingSeen).typing.types.UnionFree formal := by
    have free (id : TypeId) := @unionFree_of_parts (Acts.behind pairingSeen).typing.types id
    have first := free 10 (by simp [isFirst]) (by simp [none])
    have second := free 11 (by simp [isSecond]) (by simp [none'])
    have list := free 12 (by simp [isList]) (by simp [elem, second])
    have pair := free 13 (by simp [isPair]) (by simp [halves, first, list])
    simp [pair, second]
  have nests : ∀ formal ∈ [13, 11], (Acts.behind pairingSeen).typing.types.Nests 8 formal := by
    have shown : ∀ formal ∈ [13, 11], (Acts.behind pairingSeen).typing.types.Shown 3 formal := by
      simp [Shown, none, none', elem, halves]
    exact fun formal among => (shown formal among).nests (by decide)
  have chosen : AllThere [TypeId.char, TypeId.int] (Acts.behind pairingSeen).typing.types := by
    simp only [AllThere, size]
    decide
  obtain ⟨overload, later, ran, isPassed | isSecond⟩ :=
    @inference_complete pairing pairingState _ _ [9, TypeId.int] [10, 11] [13, 11]
      [TypeId.char, TypeId.int]
      0 6 _ false [3] [] _ pairing_grounded (by with_unfolding_all decide) (eq_ok_of_given tried)
      isCallable (eq_ok_of_given seen) areParams unionFree nests rfl chosen
      (.cons made (.cons made' .nil))
  · cases isPassed
  · exact ⟨pairing_grounded, overload, later, ran, isSecond⟩

end TypeCheck

end TreeCheck
