/-
Lists in lists. A list of lists is one list of more dimensions, and so for arrays, wherever
type checking makes one. A substitution does not look what it puts in the place of an element:
it makes a list of what it has, and where that is a list the two are not folded into one.

What can be put there is a matter of the element. Only a template parameter is replaced by
anything at all, and only a union that mentions one may become one of its members; every other
type keeps its kind, and one that mentions no parameter is not replaced. So where no list stands
around such a type no list stands around a list.
-/

import TreeCheck.Proofs.Types.Conversion
import TreeCheck.Proofs.Types.Recorded

namespace TreeCheck

variable {form : TypeForm} {info : ClassInfo} {levels : Nat} {id : TypeId} {args : List TypeId}

namespace TypeTable

variable {table before after : TypeTable} {id : TypeId}

/-! ### Types that a substitution leaves alone -/

/-- A template parameter occurs in a type. -/
inductive Mentions (table : TypeTable) : TypeId → Prop where
  | param {id slot} : table.form? id = some (.param slot) → Mentions table id
  | part {id form part} : table.form? id = some form → part ∈ table.parts form →
      Mentions table part → Mentions table id

theorem Grows.form?_of_some (grows : before.Grows after) (isForm : before.form? id = some form) :
    after.form? id = some form :=
  form?_eq_some.mpr ⟨(form?_eq_some.mp isForm).1, grows.form (form?_eq_some.mp isForm).2⟩

theorem Mentions.grow (mentions : before.Mentions id) (sound : before.Sound)
    (grows : before.Grows after) : after.Mentions id := by
  induction mentions with
  | param isForm => exact .param (grows.form?_of_some isForm)
  | part isForm isPart _ inductionHypothesis =>
    refine .part (grows.form?_of_some isForm) ?_ inductionHypothesis
    rwa [grows.parts (sound.holds (form?_eq_some.mp isForm).2)]

/-- What stands for a parameter: the argument at its place. -/
def argumentFor (params args : List TypeId) (param : TypeId) : TypeId :=
  ((params.idxOf? param).bind (args[·]?)).getD param

/-- A union that is there is not made again. -/
theorem Sound.makeMulti_elems (sound : table.Sound) {slot : Nat}
    (isForm : table.form? id = some (.multi slot)) :
    table.makeMulti (table.elems id) = (id, table) := by
  obtain ⟨members, found⟩ := sound.holds (form?_eq_some.mp isForm).2
  have isElems : table.elems id = members := by
    rw [elems_of_multi isForm, parts, found]
    rfl
  obtain ⟨nodup, known, several⟩ := (sound.group_fits found).union rfl
  rw [isElems, TypeTable.makeMulti, distinct_members nodup known]
  split
  · cases several
  · exact absurd several (by simp)
  · rw [sound.group_eq found]
    exact sound.intern_eq isForm

/-- An instance that is there is not made again. -/
theorem Sound.instantiate_args (sound : table.Sound) (isClass : table.classInfo? id = some info)
    (known : info.generic ≠ 0) :
    (TypeM.instantiate info.generic info.args).run table = (id, table) := by
  obtain ⟨slot, -, isInfo⟩ := classInfo?_eq_some isClass
  obtain ⟨origin, isOrigin, top, -⟩ := sound.origin isClass
  rw [if_neg known] at isOrigin
  have given : info.args ≠ [] := by
    rcases sound.class_fits isInfo with ⟨top, -⟩ | ⟨given, -⟩
    · exact absurd top known
    · exact given
  unfold TypeM.instantiate
  rw [TypeM.run_get_bind, isOrigin]
  dsimp only
  rw [if_neg (by simpa using given), TypeM.run_get_bind, if_pos top, isOrigin]
  dsimp only
  rw [TypeM.run_get_bind]
  split
  · next found =>
    obtain ⟨other, isOther, generic, args⟩ := sound.classInfo?_of_findInstance? found
    rw [sound.canonical.instances isClass isOther known generic.symm args.symm]
    rfl
  · next absent => exact absurd absent (sound.findInstance?_ne_none isInfo)

end TypeTable

namespace TypeM

open TypeTable

variable {table : TypeTable} {params args : List TypeId}

theorem run_mapM_self {action : TypeId → TypeM TypeId} {ids : List TypeId}
    (each : ∀ id ∈ ids, (action id).run table = (id, table)) :
    (ids.mapM action).run table = (ids, table) := by
  induction ids with
  | nil => rfl
  | cons id rest inductionHypothesis =>
    rw [List.mapM_cons, StateT.run_bind, each id (.head _)]
    show (((rest.mapM action) >>= fun others => pure (id :: others)).run table) = _
    rw [StateT.run_bind, inductionHypothesis fun other among => each other (.tail _ among)]
    rfl

/-- Where every parameter stands for itself nothing changes. -/
theorem substituteWithin_stays (sound : table.Sound) {stays : TypeId → Prop}
    (param : ∀ {id slot}, stays id → table.form? id = some (.param slot) →
      argumentFor params args id = id)
    (part : ∀ {id form part}, stays id → table.form? id = some form → part ∈ table.parts form →
      stays part)
    (isStaying : stays id) : (substituteWithin params args levels id).run table = (id, table) := by
  induction levels generalizing id with
  | zero => rfl
  | succ levels inductionHypothesis =>
    have inPart {form : TypeForm} (isForm : table.form? id = some form) {inner : TypeId}
        (isPart : inner ∈ table.parts form) :
        (substituteWithin params args levels inner).run table = (inner, table) :=
      inductionHypothesis (part isStaying isForm isPart)
    rw [substituteWithin, run_get_bind]
    split
    · next isForm =>
      have same : argumentFor params args id = id := param isStaying isForm
      unfold argumentFor at same
      split
      · next index found =>
        rw [found] at same
        exact congrArg (·, table) same
      · rfl
    · next elem dims isForm =>
      rw [StateT.run_bind, inPart isForm (.head _)]
      show (if elem = elem then pure id else TypeM.intern (.list elem dims) : TypeM TypeId).run table = _
      rw [if_pos rfl]
      rfl
    · next elem dims isForm =>
      rw [StateT.run_bind, inPart isForm (.head _)]
      show (if elem = elem then pure id else TypeM.intern (.array elem dims) : TypeM TypeId).run
        table = _
      rw [if_pos rfl]
      rfl
    · next slot isForm =>
      rw [run_get_bind, StateT.run_bind, run_mapM_self fun member among =>
        inPart isForm (elems_of_tuple isForm ▸ among)]
      exact sound.canonical.makeTuple_elems (by rw [TypeTable.kindOf, isForm]; rfl)
    · next slot isForm =>
      rw [run_get_bind, StateT.run_bind, run_mapM_self fun member among =>
        inPart isForm (elems_of_multi isForm ▸ among)]
      exact sound.makeMulti_elems isForm
    · next slot isForm =>
      rw [run_get_bind]
      split
      · next info isClass =>
        split
        · rfl
        · next known =>
          rw [StateT.run_bind, run_mapM_self fun arg among => inPart isForm (by
            obtain ⟨slot', isForm', isInfo⟩ := classInfo?_eq_some isClass
            obtain rfl := TypeForm.classType.inj (Option.some.inj (isForm'.symm.trans isForm))
            rw [parts, isInfo]
            exact .tail _ among)]
          exact sound.instantiate_args isClass known
      · rfl
    · rfl

/-- Where no parameter occurs there is nothing to replace. -/
theorem substituteWithin_self (sound : table.Sound) (ground : ¬table.Mentions id) :
    (substituteWithin params args levels id).run table = (id, table) :=
  substituteWithin_stays sound (fun ground isForm => absurd (.param isForm) ground)
    (fun ground isForm isPart mentions => ground (.part isForm isPart mentions)) ground

end TypeM

/-! ### Types that keep their kind -/

namespace TypeTable

variable {table before after : TypeTable} {id : TypeId}

/-- A substitution may make a type of another kind of it. -/
def Pliable (table : TypeTable) (id : TypeId) : Prop :=
  table.kindOf id = .param ∨ table.kindOf id = .multi ∧ table.Mentions id

theorem Grows.kindOf (grows : before.Grows after) (there : id < before.size) :
    after.kindOf id = before.kindOf id := by
  rw [TypeTable.kindOf, TypeTable.kindOf, grows.form?_eq there]

theorem Pliable.grow (pliable : before.Pliable id) (sound : before.Sound)
    (grows : before.Grows after) (there : id < before.size) : after.Pliable id := by
  rw [Pliable, grows.kindOf there]
  exact pliable.imp_right fun ⟨isUnion, mentions⟩ => ⟨isUnion, mentions.grow sound grows⟩

theorem kindOf_of_form? (isForm : table.form? id = some form) : table.kindOf id = form.kind := by
  rw [TypeTable.kindOf, isForm]

theorem kindOf_of_classInfo? (isClass : table.classInfo? id = some info) :
    table.kindOf id = .classType := by
  obtain ⟨slot, isForm, -⟩ := classInfo?_eq_some isClass
  exact kindOf_of_form? isForm

theorem Sound.kindOf_intern (sound : table.Sound) (held : table.Holds form)
    (known : form ≠ .invalid) : (table.intern form).2.kindOf (table.intern form).1 = form.kind :=
  kindOf_of_form? ((sound.intern held).form?_of_forms (forms_intern table known) known)

/-- What is made an instance of is a class, and so is what is made. -/
theorem Sound.kindOf_instantiate (sound : table.Sound) {generic : TypeId}
    (isClass : table.classInfo? generic = some info) (there : AllThere args table) :
    ((TypeM.instantiate generic args).run table).2.kindOf
      ((TypeM.instantiate generic args).run table).1 = .classType := by
  by_cases given : args = []
  · subst given
    unfold TypeM.instantiate
    rw [TypeM.run_get_bind, isClass]
    exact kindOf_of_classInfo? isClass
  · obtain ⟨-, made, isMade, -⟩ := sound.instance_spec isClass given there
    exact kindOf_of_classInfo? isMade

end TypeTable

namespace TypeM

open TypeTable

variable {table : TypeTable} {params args : List TypeId}

theorem makes_kindOf_substituteWithin (sound : table.Sound) (given : AllThere args table)
    (there : id < table.size) (firm : ¬table.Pliable id) :
    Makes (fun _ _ => True) table (fun replaced after => after.kindOf replaced = table.kindOf id)
      (substituteWithin params args levels id) := by
  by_cases mentions : table.Mentions id
  case neg =>
    have self : (substituteWithin params args levels id).run table = (id, table) :=
      substituteWithin_self sound mentions
    exact ⟨by rw [self]; exact .refl, by rw [self]⟩
  cases levels with
  | zero => exact .pure rfl
  | succ levels =>
    have older {form : TypeForm} (isForm : table.form? id = some form) :
        AllThere (table.parts form) table := fun part among =>
      Nat.lt_trans (sound.older (form?_eq_some.mp isForm).2 part among) there
    have inner {part : TypeId} (isThere : part < table.size) :
        Makes (fun _ _ => True) table There (substituteWithin params args levels part) :=
      makes_substituteWithin (rebuilds_any params args) sound given isThere
    have each {ids : List TypeId} (areThere : AllThere ids table) :
        Makes (fun _ _ => True) table AllThere (ids.mapM (substituteWithin params args levels)) :=
      .mapM fun part among middle served =>
        makes_substituteWithin (rebuilds_any params args) (served.sound sound)
          (served.all_lt_size given) (served.lt_size (areThere part among))
    refine .read ?_
    split
    · next isForm => exact absurd (.inl (kindOf_of_form? isForm)) firm
    · next elem dims isForm =>
      refine .bind (inner (older isForm elem (.head _)))
        fun replaced after _ served isThere => ?_
      split
      · exact .pure (served.grows.kindOf there)
      · have held : after.Holds (.list replaced dims) := isThere
        refine ⟨.single (.intern held trivial), ?_⟩
        rw [kindOf_of_form? isForm]
        exact (served.sound sound).kindOf_intern held nofun
    · next elem dims isForm =>
      refine .bind (inner (older isForm elem (.head _)))
        fun replaced after _ served isThere => ?_
      split
      · exact .pure (served.grows.kindOf there)
      · have held : after.Holds (.array replaced dims) := isThere
        refine ⟨.single (.intern held trivial), ?_⟩
        rw [kindOf_of_form? isForm]
        exact (served.sound sound).kindOf_intern held nofun
    · next slot isForm =>
      refine .read (.bind
        (each (elems_of_tuple isForm ▸ older isForm)) fun replaced after _ served areThere => ?_)
      refine ⟨.single (.makeTuple areThere), ?_⟩
      rw [kindOf_of_form? isForm]
      exact ((served.sound sound).elems_makeTuple areThere).1
    · next slot isForm => exact absurd (.inr ⟨kindOf_of_form? isForm, mentions⟩) firm
    · next slot isForm =>
      refine .read ?_
      split
      · next info isClass =>
        split
        · exact .pure rfl
        · next known =>
          have younger := sound.part_lt_of_classInfo? isClass
          obtain ⟨origin, isOrigin, -⟩ := sound.origin isClass
          rw [if_neg known] at isOrigin
          refine .bind (each fun arg among => Nat.lt_trans
            (younger arg (.tail _ among)) there) fun replaced after _ served areThere => ?_
          refine ⟨.single (.instantiate _ areThere), ?_⟩
          obtain ⟨later, isLater, -⟩ := served.grows.classInfo?_info isOrigin
          rw [kindOf_of_classInfo? isClass]
          exact (served.sound sound).kindOf_instantiate isLater areThere
      · exact .pure rfl
    · exact .pure rfl

end TypeM

/-! ### Folded tables -/

/-- Lists and arrays. -/
def TypeForm.IsSequence (form : TypeForm) : Prop := form.kind = .list ∨ form.kind = .array

namespace TypeTable

variable {table before after : TypeTable} {id : TypeId}

/-- No list stands directly in a list, and no array in an array. -/
def Folded (table : TypeTable) : Prop :=
  ∀ ⦃id form⦄, table.form? id = some form → form.IsSequence → table.kindOf form.elem ≠ form.kind

/-- No list or array stands around a type that a substitution may make a list or array. -/
def Firm (table : TypeTable) : Prop :=
  ∀ ⦃id form⦄, table.form? id = some form → form.IsSequence → ¬table.Pliable form.elem

/-- A list or an array stands around a parameter or a union. -/
def aroundLoose (table : TypeTable) (id : TypeId) : Bool :=
  match table.form? id with
  | some form =>
    (form.kind = .list || form.kind = .array) &&
      (table.kindOf form.elem = .param || table.kindOf form.elem = .multi)
  | none => false

/-- That a table is firm can often be seen by looking at the elements alone. -/
theorem firm_of_all (tight : (List.range table.size).any table.aroundLoose = false) :
    table.Firm := by
  intro id form isForm isSequence pliable
  refine absurd (List.any_eq_false.mp tight id ?_) (not_not_intro ?_)
  · exact List.mem_range.mpr (lt_size_of_form (form?_eq_some.mp isForm).2)
  · unfold aroundLoose
    rw [isForm]
    rcases isSequence with isKind | isKind <;> rcases pliable with isElem | ⟨isElem, -⟩ <;>
      simp [isKind, isElem]

/-- A list is entered around a list only where one stands around a list already, or around a type
that could become one; and so for arrays. -/
def Folds (table : TypeTable) (form : TypeForm) : Prop :=
  form.IsSequence → table.kindOf form.elem = form.kind →
    ∃ id old, table.form? id = some old ∧ old.kind = form.kind ∧
      (table.Pliable old.elem ∨ table.kindOf old.elem = old.kind)

theorem parts_of_isSequence (isSequence : form.IsSequence) : table.parts form = [form.elem] := by
  cases form with
  | list elem dims => rfl
  | array elem dims => rfl
  | _ => simp [TypeForm.IsSequence, TypeForm.kind] at isSequence

theorem elem_lt_of_held (held : table.Holds form) (isSequence : form.IsSequence) :
    form.elem < table.size := by
  cases form with
  | list elem dims => exact held
  | array elem dims => exact held
  | _ => simp [TypeForm.IsSequence, TypeForm.kind] at isSequence

/-- Whatever a substitution makes of an element, a list of it is entered rightly. -/
theorem Sound.folds_substituted (sound : before.Sound) {params : List TypeId} {old : TypeForm}
    {replaced : TypeId} (given : AllThere args before) (isForm : before.form? id = some old)
    (sameKind : old.kind = form.kind) (isElem : form.elem = replaced)
    (ran : (TypeM.substituteWithin params args levels old.elem).run before = (replaced, after)) :
    after.Folds form := by
  intro _ isInner
  have there := sound.elem_lt_size isForm
  have makes : TypeM.Makes (fun _ _ => True) before There
      (TypeM.substituteWithin params args levels old.elem) :=
    TypeM.makes_substituteWithin (TypeM.rebuilds_any params args) sound given there
  have grows : before.Grows after := by
    have served := makes.1
    rw [ran] at served
    exact served.grows
  refine ⟨id, old, grows.form?_of_some isForm, sameKind, ?_⟩
  by_cases pliable : before.Pliable old.elem
  · exact .inl (pliable.grow sound grows there)
  · have keeps : TypeM.Makes (fun _ _ => True) before
        (fun replaced after => after.kindOf replaced = before.kindOf old.elem)
        (TypeM.substituteWithin params args levels old.elem) :=
      TypeM.makes_kindOf_substituteWithin sound given there pliable
    have kept := keeps.2
    rw [ran] at kept
    rw [isElem, kept] at isInner
    exact .inr ((grows.kindOf there).trans (isInner.trans sameKind.symm))

theorem rebuilds_folds (params args : List TypeId) : TypeM.Rebuilds Folds params args where
  list sound given isForm ran := sound.folds_substituted given isForm rfl rfl ran
  array sound given isForm ran := sound.folds_substituted given isForm rfl rfl ran

theorem forms_intern_cases {found : TypeForm}
    (isForm : (table.intern form).2.forms[id]? = some found) :
    table.forms[id]? = some found ∨ found = form := by
  unfold TypeTable.intern at isForm
  split at isForm
  · exact .inl isForm
  · split at isForm
    · exact .inl isForm
    · exact (forms_push_cases isForm).imp_right And.right

theorem forms_group (table : TypeTable) (kind : GroupKind) (members : List TypeId) :
    (table.group kind members).2.forms = table.forms := by
  unfold TypeTable.group
  split <;> rfl

theorem forms_modifyClass (table : TypeTable) (id : TypeId) (change : ClassInfo → ClassInfo) :
    (table.modifyClass id change).forms = table.forms := by
  unfold TypeTable.modifyClass
  split <;> rfl

/-- What a single request enters is what it was for, or it is neither list nor array. -/
theorem Serves.form_cases {allowed : TypeTable → TypeForm → Prop}
    (serves : Serves allowed before after) (isForm : after.forms[id]? = some form) :
    before.forms[id]? = some form ∨ (before.Holds form ∧ allowed before form) ∨ ¬form.IsSequence := by
  have other {entered : TypeForm} (same : form = entered) (notSequence : ¬entered.IsSequence) :
      before.forms[id]? = some form ∨ (before.Holds form ∧ allowed before form) ∨ ¬form.IsSequence :=
    .inr (.inr (same ▸ notSequence))
  cases serves with
  | intern held allows =>
    rcases forms_intern_cases isForm with old | rfl
    · exact .inl old
    · exact .inr (.inl ⟨held, allows⟩)
  | @makeTuple elems _ =>
    rcases forms_intern_cases isForm with old | same
    · rw [← forms_group before .tuple elems]
      exact .inl old
    · exact other same (by simp [TypeForm.IsSequence, TypeForm.kind])
  | @makeMulti candidates _ =>
    unfold TypeTable.makeMulti at isForm
    split at isForm
    · exact .inl isForm
    · exact .inl isForm
    · rcases forms_intern_cases isForm with old | same
      · rw [← forms_group before .multi (distinct candidates)]
        exact .inl old
      · exact other same (by simp [TypeForm.IsSequence, TypeForm.kind])
  | registerClass name decl =>
    rcases forms_push_cases isForm with old | ⟨-, same⟩
    · exact .inl old
    · exact other same (by simp [TypeForm.IsSequence, TypeForm.kind])
  | registerEnum name decl =>
    rcases forms_push_cases isForm with old | ⟨-, same⟩
    · exact .inl old
    · exact other same (by simp [TypeForm.IsSequence, TypeForm.kind])
  | registerParam name decl constraint =>
    rcases forms_push_cases isForm with old | ⟨-, same⟩
    · exact .inl old
    · exact other same (by simp [TypeForm.IsSequence, TypeForm.kind])
  | setBase id _ =>
    unfold TypeTable.setBase at isForm
    split at isForm
    · exact .inl isForm
    · rw [forms_modifyClass] at isForm
      exact .inl isForm
  | setParams id params =>
    rw [TypeTable.setParams, forms_modifyClass] at isForm
    exact .inl isForm
  | instantiate generic _ =>
    unfold TypeM.instantiate at isForm
    rw [TypeM.run_get_bind] at isForm
    split at isForm
    · exact .inl isForm
    · split at isForm
      · exact .inl isForm
      · rw [TypeM.run_get_bind] at isForm
        split at isForm
        · exact .inl isForm
        · rw [TypeM.run_get_bind] at isForm
          split at isForm
          · exact .inl isForm
          · rcases forms_push_cases isForm with old | ⟨-, same⟩
            · exact .inl old
            · exact other same (by simp [TypeForm.IsSequence, TypeForm.kind])
  | giveUp => exact .inl isForm

/-- Firm tables were firm before. -/
theorem Firm.of_grows (firm : after.Firm) (sound : before.Sound) (grows : before.Grows after) :
    before.Firm := fun _ _ isForm isSequence pliable =>
  firm (grows.form?_of_some isForm) isSequence
    (pliable.grow sound grows (sound.elem_lt_size isForm))

theorem Serves.folded (serves : Serves Folds before after) (sound : before.Sound)
    (firm : before.Firm) (folded : before.Folded) : after.Folded := by
  intro id form isForm isSequence
  obtain ⟨known, found⟩ := form?_eq_some.mp isForm
  have kept (there : form.elem < before.size) : after.kindOf form.elem = before.kindOf form.elem :=
    serves.grows.kindOf there
  rcases serves.form_cases found with old | ⟨held, folds⟩ | notSequence
  · have isForm := form?_eq_some.mpr ⟨known, old⟩
    rw [kept (sound.elem_lt_size isForm)]
    exact folded isForm isSequence
  · rw [kept (elem_lt_of_held held isSequence)]
    intro isInner
    obtain ⟨id, old, isOld, sameKind, either⟩ := folds isSequence isInner
    have isSequence' : old.IsSequence := by rwa [TypeForm.IsSequence, sameKind]
    exact either.elim (firm isOld isSequence') (folded isOld isSequence')
  · exact absurd isSequence notSequence

/-- As long as no list stands around anything pliable, all lists are folded. -/
theorem Served.folded (served : Served Folds before after) (sound : before.Sound)
    (folded : before.Folded) (firm : after.Firm) : after.Folded := by
  induction served with
  | refl => exact folded
  | tail requests serves inductionHypothesis =>
    have isSound := Served.sound requests sound
    have isFirm := firm.of_grows isSound serves.grows
    exact serves.folded isSound isFirm (inductionHypothesis isFirm)

/-- Wherever a list or an array is entered it is entered rightly. -/
theorem permits_folds : Permits Folds where
  rebuilds := rebuilds_folds
  fresh apart _ isInner := absurd isInner apart
  inner isForm sameKind sameElem _ isInner :=
    ⟨_, _, isForm, sameKind, .inr (sameElem ▸ isInner.trans sameKind.symm)⟩

theorem folded_empty : ({} : TypeTable).Folded := by
  intro id form isForm isSequence
  have among : form ∈ ({} : TypeTable).forms := Array.mem_of_getElem? (form?_eq_some.mp isForm).2
  simp only [List.mem_toArray, List.mem_cons, List.not_mem_nil, or_false] at among
  rcases among with rfl | rfl | rfl | rfl | rfl | rfl | rfl | rfl <;>
    simp [TypeForm.IsSequence, TypeForm.kind] at isSequence

/-! ### Brackets -/

/-- The brackets of a kind around a type, so many levels deep, and what stands inside. -/
def stripWithin (table : TypeTable) (kind : TypeKind) : Nat → TypeId → Nat × TypeId
  | 0, id => (0, id)
  | levels + 1, id =>
    match (table.form? id).filter (·.kind = kind) with
    | none => (0, id)
    | some form =>
      let (count, inside) := table.stripWithin kind levels form.elem
      (form.dims.toNat + count, inside)

/-- How many brackets stand around what a list or an array is of in the end, and what that is.
Elements are older, so there are no more levels than older types. -/
def strip (table : TypeTable) (id : TypeId) : Nat × TypeId :=
  table.stripWithin (table.kindOf id) (id + 1) id

theorem Folded.strip_eq (folded : table.Folded) (isForm : table.form? id = some form)
    (isSequence : form.IsSequence) : table.strip id = (form.dims.toNat, form.elem) := by
  have apart : table.kindOf form.elem ≠ form.kind := folded isForm isSequence
  have bare (levels : Nat) : table.stripWithin form.kind levels form.elem = (0, form.elem) := by
    cases levels with
    | zero => rfl
    | succ levels =>
      have none : (table.form? form.elem).filter (·.kind = form.kind) = none := by
        refine Option.filter_eq_none_iff.mpr fun inner isInner same => apart ?_
        rw [kindOf_of_form? isInner]
        exact of_decide_eq_true same
      rw [stripWithin, none]
  have some : (table.form? id).filter (·.kind = form.kind) = some form :=
    Option.filter_eq_some_iff.mpr ⟨isForm, decide_eq_true rfl⟩
  rw [strip, kindOf_of_form? isForm, stripWithin, some]
  dsimp only
  rw [bare]
  rfl

/-- Where all lists are folded, those with as many brackets around the same are the same. -/
theorem Folded.strip_inj (folded : table.Folded) (sound : table.Sound) {left right : TypeId}
    {other : TypeForm} (isLeft : table.form? left = some form)
    (isRight : table.form? right = some other) (isSequence : form.IsSequence)
    (sameKind : form.kind = other.kind) (sameStrip : table.strip left = table.strip right) :
    left = right := by
  have isSequence' : other.IsSequence := by rwa [TypeForm.IsSequence, ← sameKind]
  rw [folded.strip_eq isLeft isSequence, folded.strip_eq isRight isSequence', Prod.mk.injEq,
    UInt8.toNat_inj] at sameStrip
  obtain ⟨sameDims, sameElem⟩ := sameStrip
  refine sound.canonical.structural isLeft isRight sameKind ?_ sameDims ?_
  · rcases isSequence with isList | isArray
    · simp [isList]
    · simp [isArray]
  · rw [parts_of_isSequence isSequence, parts_of_isSequence isSequence', sameElem]

end TypeTable

namespace TypeCheck

open TypeTable

/-- Where a program was checked, also if a report ended that, what was recorded is there. If no
list stands around a type that a substitution may make a list, then none stands directly in
another, and lists with as many brackets around the same are one and the same type; and so for
arrays. -/
theorem lists_stay_folded {tree : Tree} {root : UnitId} {checked : Bool} {resolved : Analysis}
    (resolves : Resolve.program tree root checked {} = .ok () resolved) (sink : Sink)
    (trace : Trace.Recorder) (span : Nat) {typing : Typing}
    (checks : (Acts.behind (program tree span { resolved with sink, trace })).typing = typing)
    (firm : typing.types.Firm) :
    (∀ (id : ExprId) type, typing.exprTypes[id]? = some type → There type typing.types) ∧
      (∀ (id : DeclId) type, typing.declTypes[id]? = some type → There type typing.types) ∧
      typing.types.Folded ∧
      ∀ left right form other, typing.types.form? left = some form →
        typing.types.form? right = some other → form.IsSequence → form.kind = other.kind →
        typing.types.strip left = typing.types.strip right → left = right := by
  have untyped : resolved.typing = {} := Resolve.typing_program resolves
  have onward : Furthers Folds { resolved with sink, trace }
      (Acts.behind (program tree span { resolved with sink, trace })) :=
    (asks_program permits_folds tree (untyped ▸ grounded_empty) span).behind
  have grounded : Grounded typing := checks ▸ onward.grounded
  have folded : typing.types.Folded := by
    have served := onward.served
    rw [checks] at served
    refine served.folded ?_ ?_ firm
    · rw [untyped]; exact sound_empty
    · rw [untyped]; exact folded_empty
  exact ⟨fun _ _ => grounded.exprTypes, fun _ _ => grounded.declTypes, folded,
    fun _ _ _ _ isLeft isRight isSequence sameKind =>
      folded.strip_inj grounded.sound isLeft isRight isSequence sameKind⟩

/-- A variable for lists of lists of integers, with an initial value, among classes. -/
def gridOf (init : Doc.Expr) (classes : List (Option Doc.Class)) : Loader :=
  let written (base : Doc.TypeExpr) : Doc.TypeExpr := { kind := "list", base := some base }
  let type := written (written { kind := "named", name := "Int" })
  let document : Doc.Document :=
    { version := 1
      units := [some
        { path := "main", classes, globals :=
          [some { name := "g", type := some type, init := some init }] }] }
  Loader.behind (Loader.load document {})

/-- The value is a list of a list. -/
def literalGrid : Loader :=
  gridOf
    { kind := "list"
      elems := [some { kind := "list", elems := [some { kind := "lit", lit := "int", value := "1" }] }] }
    []

/-- The value is that of a field, which holds a list of the template argument of its class, and
the argument is a list. -/
def fieldGrid : Loader :=
  let list (name : String) : Option Doc.TypeExpr :=
    some { kind := "list", base := some { kind := "named", name } }
  gridOf
    { kind := "field", name := "f"
      receiver := some
        { kind := "new", type := some { kind := "named", name := "A", args := [list "Int"] } } }
    [some
      { name := "A", typeParams := [some { name := "T" }]
        fields := [some { name := "f", type := list "T", mods := ["public"] }] }]

def literalGridResolved : Analysis := Acts.behind (Resolve.program literalGrid.tree 1 true {})

def literalGridTyping : Typing :=
  (Acts.behind (program literalGrid.tree 0 literalGridResolved)).typing

def fieldGridTyping : Typing :=
  (Acts.behind
    (program fieldGrid.tree 0 (Acts.behind (Resolve.program fieldGrid.tree 1 true {})))).typing

theorem grids_run :
    Acts.ended (Resolve.program literalGrid.tree 1 true {}) ∧
      (List.range literalGridTyping.types.size).any literalGridTyping.types.aroundLoose = false ∧
      literalGridTyping.exprTypes[3]? = literalGridTyping.declTypes[1]? ∧
      fieldGridTyping.exprTypes[2]? = some 14 ∧
      fieldGridTyping.types.form? 14 = some (.list 8 1) ∧
      fieldGridTyping.types.form? 8 = some (.list 2 1) ∧
      fieldGridTyping.types.form? 13 = some (.list 11 1) ∧
      fieldGridTyping.types.form? 11 = some (.param 1) := by
  simp only [literalGridTyping, literalGridResolved, literalGrid, fieldGridTyping, fieldGrid, gridOf,
    Loader.load_eq_loadWithin]
  decide +kernel

/-- The literal has the type that is written, and what the field holds is a list in a list. -/
theorem lists_stay_folded_grids :
    literalGridTyping.types.Folded ∧ literalGridTyping.exprTypes[3]? = literalGridTyping.declTypes[1]? ∧
      fieldGridTyping.exprTypes[2]? = some 14 ∧ ¬fieldGridTyping.types.Folded ∧
      ¬fieldGridTyping.types.Firm := by
  obtain ⟨resolves, tight, same, isField, outer, inner, inClass, isParam⟩ := grids_run
  obtain ⟨-, -, folded, -⟩ := lists_stay_folded (Acts.eq_ok_behind resolves)
    literalGridResolved.sink literalGridResolved.trace 0 rfl (firm_of_all tight)
  have isList : fieldGridTyping.types.kindOf 8 = .list := kindOf_of_form? inner
  have isLoose : fieldGridTyping.types.kindOf 11 = .param := kindOf_of_form? isParam
  exact ⟨folded, same, isField, fun folded => folded outer (.inl rfl) isList,
    fun firm => firm inClass (.inl rfl) (.inl isLoose)⟩

end TypeCheck

end TreeCheck
