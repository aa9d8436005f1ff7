/-
Substitutions one after the other. The second one applied to what the first one gave is a single
substitution, with the second one applied to the arguments of the first. Nothing is said about
the order in which the types on the two sides are entered: what was asked for once is given
again, so all of it can be compared in the table that came last.

Unions are where the two sides could part. A union whose members become equal collapses, on the
one side before the second substitution and on the other side after it. That comes to the same
unless a member becomes unknown, since the union of nothing known is the type without values.
-/

import TreeCheck.Proofs.Types.Substitution

namespace TreeCheck

open TypeM

variable {α β : Type} {info own : ClassInfo} {requests : List Request}

namespace TypeTable

variable {table last : TypeTable} {params args args' others given : List TypeId}
  {id made first left right : TypeId} {levels reach : Nat}
variable {related : α → β → Prop} {items : List α} {values : List β}

/-! ### Levels do not matter where nothing lies too deep -/

theorem Becomes.more (becomes : table.Becomes params args levels id made)
    (shown : table.Shown levels id) {more : Nat} (enough : levels ≤ more) :
    table.Becomes params args more id made := by
  induction levels generalizing more id made with
  | zero => exact shown.elim
  | succ levels inductionHypothesis =>
    obtain ⟨more, rfl⟩ := Nat.exists_eq_add_one_of_ne_zero (Nat.ne_of_gt (Nat.zero_lt_of_lt enough))
    rw [Becomes] at becomes ⊢
    split at becomes
    · next isParam => rwa [if_pos isParam]
    · next noParam =>
      rw [if_neg noParam]
      exact becomes.imp fun part isPart value becomes =>
        inductionHypothesis becomes (shown part isPart) (Nat.le_of_succ_le_succ enough)

/-! ### What becomes of a type is determined -/

theorem eq_of_forall₂_forall₂ {also : α → β → Prop} {values' : List β}
    (each : List.Forall₂ related items values) (each' : List.Forall₂ also items values')
    (same : ∀ item ∈ items, ∀ value value', related item value → also item value' → value = value') :
    values = values' := by
  induction each generalizing values' with
  | nil => exact (List.forall₂_nil_left_iff.mp each').symm
  | cons holds _ inductionHypothesis =>
    cases each' with
    | cons holds' each' =>
      rw [same _ (.head _) _ _ holds holds',
        inductionHypothesis each' fun item among => same item (.tail _ among)]

theorem head_of_multi (isUnion : table.kindOf id = .multi) : table.head id = .formed .multi 0 := by
  obtain ⟨slot, isForm⟩ := exists_of_kindOf_multi isUnion
  exact (head_formed isForm (by simp [TypeForm.kind])).1

/-- A union is known by those of its members that are known, each once. -/
theorem Sound.eq_of_unites (sound : table.Sound) {members members' : List TypeId}
    (unites : table.Unites members left) (unites' : table.Unites members' right)
    (same : distinct members = distinct members') : left = right := by
  unfold Unites at unites unites'
  rw [same] at unites
  generalize distinct members' = several at unites unites'
  match several with
  | [] => exact unites.trans unites'.symm
  | [one] => exact unites.trans unites'.symm
  | _ :: _ :: _ =>
    refine sound.eq_of_head ?_ (unites.2.trans unites'.2.symm)
    rw [head_of_multi unites.1, head_of_multi unites'.1]

theorem Becomes.unique (sound : table.Sound) (becomes : table.Becomes params args levels id left)
    (becomes' : table.Becomes params args levels id right) : left = right := by
  induction levels generalizing id left right with
  | zero => exact Eq.trans becomes (Eq.symm becomes')
  | succ levels inductionHypothesis =>
    rw [Becomes] at becomes becomes'
    split at becomes
    · next isParam =>
      rw [if_pos isParam] at becomes'
      exact becomes.trans becomes'.symm
    · next noParam =>
      rw [if_neg noParam] at becomes'
      have same {values values' : List TypeId}
          (each : List.Forall₂ (table.Becomes params args levels) (table.shownParts id) values)
          (each' : List.Forall₂ (table.Becomes params args levels) (table.shownParts id) values') :
          values = values' :=
        eq_of_forall₂_forall₂ each each' fun _ _ _ _ => inductionHypothesis
      cases becomes with
      | union members isUnion each unites =>
        cases becomes' with
        | union members' _ each' unites' =>
          exact sound.eq_of_unites unites unites' (same each each' ▸ rfl)
        | other noUnion => exact absurd isUnion noUnion
      | other noUnion sameHead each =>
        cases becomes' with
        | union _ isUnion => exact absurd isUnion noUnion
        | other _ sameHead' each' =>
          exact sound.eq_of_head (sameHead.trans sameHead'.symm) (same each each')

/-- With known arguments no type becomes unknown. -/
theorem Becomes.known (sound : table.Sound) (areKnown : 0 ∉ args) (isKnown : id ≠ 0)
    (becomes : table.Becomes params args levels id made) : made ≠ 0 := by
  cases levels with
  | zero => exact fun unknown => isKnown (becomes.symm.trans unknown)
  | succ levels =>
    rw [Becomes] at becomes
    split at becomes
    · rw [becomes]
      rcases argumentFor_mem_or params args id with isArg | same
      · exact fun unknown => areKnown (unknown ▸ isArg)
      · rwa [same]
    · cases becomes with
      | union members isUnion each unites =>
        obtain ⟨-, rfl⟩ | ⟨-, known, -⟩ | ⟨isUnion', -⟩ := unites.cases
        · rintro ⟨⟩
        · exact known
        · rintro rfl
          cases isUnion'
      | other noUnion sameHead each =>
        rintro rfl
        have headed := sound.headed id
        rw [← sameHead] at headed
        exact isKnown headed.1.symm

/-- A type without parts that is no parameter stays. -/
theorem becomes_self (noParam : table.kindOf id ≠ .param) (noUnion : table.kindOf id ≠ .multi)
    (noParts : table.shownParts id = []) : table.Becomes params args levels id id := by
  cases levels with
  | zero => rfl
  | succ levels =>
    rw [Becomes, if_neg noParam]
    exact rebuilt_self noUnion noParts

theorem becomes_zero : table.Becomes params args levels 0 0 :=
  becomes_self nofun nofun rfl

theorem Sound.becomes_void (sound : table.Sound) :
    table.Becomes params args levels TypeId.void TypeId.void := by
  have isVoid : table.kindOf TypeId.void = .void := kindOf_of_form? sound.form?_void
  exact becomes_self (by rw [isVoid]; nofun) (by rw [isVoid]; nofun) sound.shownParts_void

theorem shown_zero (table : TypeTable) : table.Shown 1 0 := by
  simp [Shown, shownParts_zero]

/-! ### Unions whose members become others -/

theorem distinct_concat (front : List TypeId) (member : TypeId) :
    distinct (front ++ [member]) =
      if member = 0 ∨ member ∈ front then distinct front else distinct front ++ [member] := by
  rw [distinct_append]
  refine if_congr ?_ rfl rfl
  rw [mem_distinct]
  tauto

/-- It does not matter whether members are told apart before or after they become others. -/
theorem distinct_map_distinct {image : TypeId → TypeId} (zero : image 0 = 0) (members : List TypeId) :
    distinct ((distinct members).map image) = distinct (members.map image) := by
  induction members using List.reverseRecOn with
  | nil => rfl
  | append_singleton front member inductionHypothesis =>
    rw [distinct_concat, List.map_append, List.map_singleton, distinct_concat]
    by_cases among : member = 0 ∨ member ∈ front
    · have among' : image member = 0 ∨ image member ∈ front.map image :=
        among.imp (fun unknown => (congrArg image unknown).trans zero) List.mem_map_of_mem
      rw [if_pos among, if_pos among', inductionHypothesis]
    · rw [if_neg among, List.map_append, List.map_singleton, distinct_concat, inductionHypothesis]
      refine if_congr ?_ rfl rfl
      simp only [List.mem_map, mem_distinct]
      constructor
      · rintro (unknown | ⟨other, ⟨isMember, -⟩, same⟩)
        · exact .inl unknown
        · exact .inr ⟨other, isMember, same⟩
      · rintro (unknown | ⟨other, isMember, same⟩)
        · exact .inl unknown
        · by_cases unknown : other = 0
          · rw [← same, unknown]
            exact .inl zero
          · exact .inr ⟨other, ⟨isMember, unknown⟩, same⟩

theorem eq_map_of_forall₂ {image : TypeId → TypeId} {items values : List TypeId}
    (each : List.Forall₂ (fun item value => image item = value) items values) :
    values = items.map image :=
  eq_of_forall₂_forall₂ each (List.forall₂_map_right_iff.mpr (List.forall₂_same.mpr fun _ _ => rfl))
    fun _ _ _ _ same same' => same.symm.trans same'

/-- Where members become others, it does not matter whether they are told apart before. -/
theorem distinct_of_images {becomes : TypeId → TypeId → Prop}
    (zero : ∀ image, becomes 0 image ↔ image = 0) {members members' images : List TypeId}
    (each : List.Forall₂ (fun member member' => ∀ image, becomes member image → image = member')
      members members')
    (areImages : List.Forall₂ becomes (distinct members) images) : distinct images =
      distinct members' := by
  have exists_image (member : TypeId) :
      ∃ image, member = 0 ∨ member ∈ members → becomes member image := by
    by_cases unknown : member = 0
    · exact ⟨0, fun _ => unknown ▸ (zero 0).mpr rfl⟩
    · by_cases among : member ∈ members
      · obtain ⟨image, -, isImage⟩ :=
          exists_right_of_forall₂ areImages (mem_distinct.mpr ⟨among, unknown⟩)
        exact ⟨image, fun _ => isImage⟩
      · exact ⟨0, fun either => (either.elim unknown among).elim⟩
  choose image isImage using exists_image
  have isMap' : members' = members.map image :=
    eq_map_of_forall₂ (((List.forall₂_and_left _ _).mpr ⟨fun _ among => among, each⟩).imp
      fun member member' ⟨among, same⟩ => same _ (isImage member (.inr among)))
  have isMap : images = (distinct members).map image := by
    refine eq_map_of_forall₂ (((List.forall₂_and_left _ _).mpr ⟨fun _ among => among, areImages⟩).imp
      fun member value ⟨among, becomes⟩ => ?_)
    obtain ⟨member', -, same⟩ := exists_right_of_forall₂ each (mem_distinct.mp among).1
    exact (same _ (isImage member (.inr (mem_distinct.mp among).1))).trans (same _ becomes).symm
  rw [isMap, isMap', distinct_map_distinct ((zero _).mp (isImage 0 (.inl rfl)))]

/-! ### One substitution after the other -/

/-- Types in which no template parameters occur but some given ones. -/
def Over (table : TypeTable) (params : List TypeId) (id : TypeId) : Prop :=
  ∀ depth inner, table.OccursAt depth inner id → table.kindOf inner = .param → inner ∈ params

/-- Types in which no union occurs. -/
def UnionFree (table : TypeTable) (id : TypeId) : Prop :=
  ∀ depth inner, table.OccursAt depth inner id → table.kindOf inner ≠ .multi

theorem Over.part (covered : table.Over params id) {part : TypeId}
    (isPart : part ∈ table.shownParts id) :
    table.Over params part :=
  fun depth inner occurs => covered (depth + 1) inner ⟨part, isPart, occurs⟩

theorem UnionFree.part (unionFree : table.UnionFree id) {part : TypeId}
    (isPart : part ∈ table.shownParts id) : table.UnionFree part :=
  fun depth inner occurs => unionFree (depth + 1) inner ⟨part, isPart, occurs⟩

theorem argumentFor_of_forall₂ {related : TypeId → TypeId → Prop}
    (sameLength : params.length = args.length) (each : List.Forall₂ related args args')
    (among : id ∈ params) : related (argumentFor params args id) (argumentFor params args' id) := by
  obtain ⟨index, found⟩ := Option.isSome_iff_exists.mp (List.isSome_idxOf?.mpr among)
  obtain ⟨bound, -⟩ := List.idxOf?_eq_some_iff.mp found
  have bound' : index < args.length := sameLength ▸ bound
  have bound'' : index < args'.length := each.length_eq ▸ bound'
  simp only [argumentFor, found, Option.bind_some, List.getElem?_eq_getElem bound',
    List.getElem?_eq_getElem bound'', Option.getD_some]
  exact each.get bound' bound''

theorem forall₂_of_common {γ : Type} {also : α → γ → Prop} {values' : List γ}
    (each : List.Forall₂ related items values) (each' : List.Forall₂ also items values') :
    List.Forall₂ (fun value value' => ∃ item ∈ items, value ∈ values ∧ related item value ∧
      also item value')
      values values' := by
  induction each generalizing values' with
  | nil =>
    obtain rfl := List.forall₂_nil_left_iff.mp each'
    exact .nil
  | cons holds _ inductionHypothesis =>
    cases each' with
    | cons holds' each' =>
      refine .cons ⟨_, .head _, .head _, holds, holds'⟩ ?_
      exact (inductionHypothesis each').imp fun value value' ⟨item, among, isValue, both⟩ =>
        ⟨item, .tail _ among, .tail _ isValue, both⟩

theorem eq_of_chain {γ : Type} {one : α → β → Prop} {two : β → γ → Prop} {direct : α → γ → Prop}
    {middle : List β} {left right : List γ} (first : List.Forall₂ one items middle)
    (second : List.Forall₂ two middle left) (straight : List.Forall₂ direct items right)
    (same : ∀ item ∈ items, ∀ part ∈ middle, ∀ value value', one item part → two part value →
      direct item value' → value = value') : left = right := by
  induction first generalizing left right with
  | nil =>
    rw [List.forall₂_nil_left_iff.mp second, List.forall₂_nil_left_iff.mp straight]
  | cons holds _ inductionHypothesis =>
    cases second with
    | cons holds' second =>
      cases straight with
      | cons holds'' straight =>
        rw [same _ (.head _) _ (.head _) _ _ holds holds' holds'',
          inductionHypothesis second straight fun item among part among' =>
            same item (.tail _ among) part (.tail _ among')]

/-- What a substitution makes of a union is the union of what it makes of the members that are left.
That the union may have a single member is why none must become unknown. -/
theorem Unites.images (sound : table.Sound) {members : List TypeId} {fewer : Nat}
    (unites : table.Unites members first) (areKnown : 0 ∉ given)
    (shown : table.Shown (fewer + 1) first)
      (becomes : table.Becomes others given (fewer + 1) first left) :
    ∃ reach ≤ fewer + 1, ∃ images,
      List.Forall₂ (table.Becomes others given reach) (distinct members) images ∧
        table.Unites images left ∧ ∀ member ∈ distinct members, table.Shown reach member := by
  unfold Unites at unites
  split at unites
  · next none =>
    subst unites
    exact ⟨fewer + 1, Nat.le_refl _, [], by rw [none]; exact .nil,
      becomes.unique sound sound.becomes_void,
      by simp [none]⟩
  · next one single =>
    subst unites
    have isKnown : first ≠ 0 := (mem_distinct.mp (single ▸ List.mem_singleton_self first)).2
    have isKnown' : left ≠ 0 := becomes.known sound areKnown isKnown
    refine ⟨fewer + 1, Nat.le_refl _, [left], single ▸ .cons becomes .nil,
      ?_, by simpa [single] using shown⟩
    simp [Unites, distinct, isKnown']
  · obtain ⟨isUnion, parts⟩ := unites
    rw [Becomes, if_neg (by rw [isUnion]; rintro ⟨⟩)] at becomes
    cases becomes with
    | union images _ each unites =>
      exact ⟨fewer, Nat.le_succ _, images, parts ▸ each, unites, parts ▸ shown⟩
    | other noUnion => exact absurd isUnion noUnion

/-- What the second substitution makes of what the first one gave is what a single one gives, with
the second one applied to the arguments. The induction is on the levels of the first one. -/
theorem Becomes.compose (sound : table.Sound) (sameLength : params.length = args.length)
    {bound : Nat} (each : List.Forall₂ (table.Becomes others given bound) args args')
    (within : reach ≤ bound) (shown : table.Shown levels id) (shown' : table.Shown reach first)
    (covered : table.Over params id) (known : 0 ∉ given ∨ table.UnionFree id)
    (one : table.Becomes params args levels id first) (two : table.Becomes others given reach first left)
    (direct : table.Becomes params args' levels id right) : left = right := by
  induction levels generalizing id first left right reach with
  | zero => exact shown.elim
  | succ levels inductionHypothesis =>
    obtain ⟨fewer, rfl⟩ : ∃ fewer, reach = fewer + 1 := by
      cases reach with
      | zero => exact shown'.elim
      | succ fewer => exact ⟨fewer, rfl⟩
    have inPart {part middle value value' : TypeId} {reach : Nat} (isPart : part ∈ table.shownParts id)
        (within : reach ≤ bound) (shown' : table.Shown reach middle)
        (one : table.Becomes params args levels part middle)
        (two : table.Becomes others given reach middle value)
        (direct : table.Becomes params args' levels part value') : value = value' :=
      inductionHypothesis within (shown part isPart) shown' (covered.part isPart)
        (known.imp_right (·.part isPart)) one two direct
    rw [Becomes] at one direct
    split at one
    · next isParam =>
      rw [if_pos isParam] at direct
      subst one direct
      exact (two.more shown' within).unique sound
        (argumentFor_of_forall₂ sameLength each (covered 0 id rfl isParam))
    · next noParam =>
      rw [if_neg noParam] at direct
      cases one with
      | union members isUnion each₁ unites₁ =>
        cases direct with
        | other noUnion => exact absurd isUnion noUnion
        | union members' _ each' unites' =>
          have areKnown : 0 ∉ given := known.resolve_right fun unionFree => unionFree 0 id rfl isUnion
          obtain ⟨reach, within', images, areImages, unites'', shown''⟩ :=
            unites₁.images sound areKnown shown' two
          refine sound.eq_of_unites unites'' unites' (distinct_of_images ?_ ?_ areImages)
          · exact fun image => ⟨fun becomes => becomes.unique sound becomes_zero,
              fun unknown => by rw [unknown]; exact becomes_zero⟩
          · refine (forall₂_of_common each₁ each').imp fun member member' common image two => ?_
            obtain ⟨part, isPart, isMember, one, direct⟩ := common
            by_cases unknown : member = 0
            · subst unknown
              rw [two.unique sound becomes_zero]
              exact inPart isPart (Nat.le_trans (Nat.succ_le_succ (Nat.zero_le fewer)) within)
                table.shown_zero one becomes_zero direct
            · exact inPart isPart (Nat.le_trans within' within)
                (shown'' member (mem_distinct.mpr ⟨isMember, unknown⟩)) one two direct
      | other noUnion sameHead each₁ =>
        cases direct with
        | union _ isUnion => exact absurd isUnion noUnion
        | other _ sameHead' each' =>
          rw [Becomes, if_neg (sound.kindOf_eq_of_head sameHead ▸ noParam)] at two
          cases two with
          | union _ isUnion => exact absurd (sound.kindOf_eq_of_head sameHead ▸ isUnion) noUnion
          | other _ sameHead'' each'' =>
            refine sound.eq_of_head (sameHead''.trans (sameHead.trans sameHead'.symm)) ?_
            exact eq_of_chain each₁ each'' each' fun part isPart middle isMiddle value value' one
              two direct =>
              inPart isPart (Nat.le_of_succ_le within) (shown' middle isMiddle) one two direct

/-! ### What was asked for on the way -/

/-- On the way to a table a substitution was asked for, and this is what it gave. -/
def Substituted (last : TypeTable) (params args : List TypeId) (id made : TypeId) : Prop :=
  ∃ before after, Asked {} before ∧ (Request.substitute params args id).Allocated before ∧
    (substitute params args id).run before = (made, after) ∧ Continued after last

/-- On the way to a table the base of a type was asked for, and this is what it was. -/
def Based (last : TypeTable) (id base : TypeId) : Prop :=
  ∃ before after, Asked {} before ∧ (Request.baseOf id).Allocated before ∧
    (baseOf id).run before = (base, after) ∧ Continued after last

/-- Asked for again it is the same, and nothing is entered. -/
theorem Substituted.again (substituted : Substituted last params args id made) :
    last.Sound ∧ AllThere args last ∧ There id last ∧
      (substitute params args id).run last = (made, last) := by
  obtain ⟨before, after, asked, ⟨-, given, there⟩, ran, onward⟩ := substituted
  have sound : before.Sound := (asked.served sound_empty).sound sound_empty
  obtain ⟨sound', keeps, -, -, again⟩ := @repeats_substitute id params args before sound given there
  rw [ran] at sound' keeps again
  have keeps' : before.Keeps last := keeps.trans onward.keeps
  have isSound : last.Sound := onward.sound sound'
  exact ⟨isSound, keeps'.all_lt_size given, keeps'.lt_size there, again onward.keeps isSound⟩

theorem Based.again (based : Based last id made) :
    last.Sound ∧ There id last ∧ (baseOf id).run last = (made, last) := by
  obtain ⟨before, after, asked, there, ran, onward⟩ := based
  have sound : before.Sound := (asked.served sound_empty).sound sound_empty
  obtain ⟨sound', keeps, -, -, again⟩ := repeats_baseOf sound there
  rw [ran] at sound' keeps again
  have isSound : last.Sound := onward.sound sound'
  exact ⟨isSound, (keeps.trans onward.keeps).lt_size there, again onward.keeps isSound⟩

theorem Substituted.becomes (substituted : Substituted last params args id made)
    (sameLength : params.length = args.length) :
    last.Becomes params args (substitutionDepth + 1) id made := by
  obtain ⟨sound, given, there, ran⟩ := substituted.again
  exact (sound.becomes_substitute given there sameLength ran).2.2.2

/-- What is substituted makes something of each type, also where the arguments are not as many as the
parameters and nothing is replaced. -/
theorem Substituted.exists_becomes (others given : List TypeId) :
    ∃ others' given', (0 ∉ given → 0 ∉ given') ∧ ∀ {last : TypeTable} {id made},
      Substituted last others given id made →
        last.Becomes others' given' (substitutionDepth + 1) id made := by
  by_cases sameLength : others.length = given.length
  · exact ⟨others, given, id, fun substituted => substituted.becomes sameLength⟩
  · refine ⟨[], [], fun _ => nofun, fun {last id made} substituted => ?_⟩
    obtain ⟨sound, -, there, ran⟩ := substituted.again
    rw [substitute, if_pos (.inr sameLength)] at ran
    obtain rfl : id = made := congrArg Prod.fst ran
    exact sound.becomes_refl there

/-- A type in which nothing lies deeper. -/
def Nests (table : TypeTable) (depth : Nat) (id : TypeId) : Prop :=
  ∀ deep inner, table.OccursAt deep inner id → deep ≤ depth

theorem Nests.shown (nests : table.Nests levels id) : table.Shown (levels + 1) id := by
  have shown {levels : Nat} {id : TypeId}
      (bounded : ∀ deep inner, table.OccursAt deep inner id → deep < levels) : table.Shown levels
        id := by
    induction levels generalizing id with
    | zero => exact Nat.not_lt_zero _ (bounded 0 id rfl)
    | succ levels inductionHypothesis =>
      exact fun part isPart => inductionHypothesis fun deep inner occurs =>
        Nat.lt_of_succ_lt_succ (bounded (deep + 1) inner ⟨part, isPart, occurs⟩)
  exact shown fun deep inner occurs => Nat.lt_succ_of_le (nests deep inner occurs)

/-! ### Bases -/

/-- The base of an instance is the base of its class with the arguments in place of the
parameters. -/
theorem baseOf_instance (isClass : table.classInfo? id = some info) (isInstance : info.generic ≠ 0)
    (isOwn : table.classInfo? info.generic = some own) :
    (baseOf id).run table =
      if own.base = 0 then (0, table) else (substitute own.params info.args own.base).run table := by
  unfold baseOf
  rw [run_get_bind, isClass]
  dsimp only
  rw [if_neg isInstance, run_get_bind, isOwn]
  dsimp only
  split <;> rfl

/-- What a substitution makes of an instance is an instance of the same class. -/
theorem Becomes.instance (sound : table.Sound) (isClass : table.classInfo? id = some info)
    (isInstance : info.generic ≠ 0) (becomes : table.Becomes params args (levels + 1) id made) :
    ∃ info', table.classInfo? made = some info' ∧ info'.generic = info.generic ∧
      List.Forall₂ (table.Becomes params args levels) info.args info'.args := by
  have isKind : table.kindOf id = .classType := kindOf_of_classInfo? isClass
  obtain ⟨isHead, parts⟩ := head_applied isClass (sound.args_ne_nil isClass isInstance)
  rw [Becomes, if_neg (by rw [isKind]; rintro ⟨⟩)] at becomes
  cases becomes with
  | union _ isUnion => cases isKind.symm.trans isUnion
  | other _ sameHead each =>
    have headed := sound.headed made
    rw [sameHead, isHead] at headed
    obtain ⟨info', isClass', -, sameGeneric, parts'⟩ := headed
    exact ⟨info', isClass', sameGeneric, parts ▸ parts' ▸ each⟩

/-! ### The laws -/

theorem argumentFor_self (params : List TypeId) (id : TypeId) : argumentFor params params id = id := by
  unfold argumentFor
  cases found : params.idxOf? id with
  | none => rfl
  | some index =>
    obtain ⟨bound, same, -⟩ := List.idxOf?_eq_some_iff.mp found
    rw [Option.bind_some, List.getElem?_eq_getElem bound]
    exact same

theorem Sound.substitute_params (sound : table.Sound) (params : List TypeId) (id : TypeId) :
    (substitute params params id).run table = (id, table) := by
  unfold substitute
  split
  · rfl
  · exact substituteWithin_stays sound (fun {id _} _ _ => argumentFor_self params id)
      (fun _ _ _ => trivial) trivial

theorem Substituted.compose (sameLength : params.length = args.length) (covered : last.Over params id)
    (known : 0 ∉ given ∨ last.UnionFree id) (nests : last.Nests substitutionDepth id)
    (nests' : last.Nests substitutionDepth first) (one : Substituted last params args id first)
    (two : Substituted last others given first left)
    (each : List.Forall₂ (Substituted last others given) args args')
    (direct : Substituted last params args' id right) : left = right := by
  obtain ⟨sound, -⟩ := one.again
  obtain ⟨others', given', known', becomes⟩ := Substituted.exists_becomes others given
  exact Becomes.compose sound sameLength (each.imp fun _ _ => becomes) (Nat.le_refl _) nests.shown
    nests'.shown covered (known.imp_left known') (one.becomes sameLength) (becomes two)
    (direct.becomes (sameLength.trans each.length_eq))

theorem Based.substitute {id' base : TypeId} (isClass : last.classInfo? id = some info)
    (isInstance : info.generic ≠ 0) (isOwn : last.classInfo? info.generic = some own)
    (sameLength : own.params.length = info.args.length) (covered : last.Over own.params own.base)
    (known : 0 ∉ given ∨ last.UnionFree own.base) (nests : last.Nests substitutionDepth id)
    (nests' : last.Nests substitutionDepth own.base)
    (nests'' : last.Nests substitutionDepth base) (based : Based last id base)
    (one : Substituted last others given id id') (based' : Based last id' left)
    (two : Substituted last others given base right) : left = right := by
  obtain ⟨sound, there, ran⟩ := based.again
  obtain ⟨-, there', ran'⟩ := based'.again
  obtain ⟨others', given', known', becomes⟩ := Substituted.exists_becomes others given
  obtain ⟨info', isClass', sameGeneric, each⟩ := (becomes one).instance sound isClass isInstance
  rw [baseOf_instance isClass isInstance isOwn] at ran
  rw [baseOf_instance isClass' (sameGeneric ▸ isInstance) (sameGeneric ▸ isOwn)] at ran'
  split at ran
  · next none =>
    rw [if_pos none] at ran'
    obtain rfl : 0 = base := congrArg Prod.fst ran
    obtain rfl : 0 = left := congrArg Prod.fst ran'
    exact ((becomes two).unique sound becomes_zero).symm
  · next hasBase =>
    rw [if_neg hasBase] at ran'
    have isGiven : info.args ≠ [] := sound.args_ne_nil isClass isInstance
    have argsThere {id : TypeId} {info : ClassInfo} (isClass : last.classInfo? id = some info)
        (there : There id last) : AllThere info.args last := fun arg isArg =>
      Nat.lt_trans (sound.part_lt_of_classInfo? isClass arg (.tail _ isArg)) there
    obtain ⟨slot, -, isInfo⟩ := classInfo?_eq_some isOwn
    have each' : List.Forall₂
        (last.Becomes others' given' (substitutionDepth + 1)) info.args info'.args := by
      refine ((List.forall₂_and_left _ _).mpr ⟨fun _ isArg => isArg, each⟩).imp
        fun arg value ⟨isArg, becomes⟩ => becomes.more (nests.shown arg ?_) (Nat.le_succ _)
      rw [(head_applied isClass isGiven).2]
      exact isArg
    exact (Becomes.compose sound sameLength each' (Nat.le_refl _) nests'.shown nests''.shown covered
      (known.imp_left known')
      (sound.becomes_substitute (argsThere isClass there) (sound.base_there isInfo) sameLength ran).2.2.2
      (becomes two)
      (sound.becomes_substitute (argsThere isClass' there') (sound.base_there isInfo)
        (sameLength.trans each.length_eq) ran').2.2.2).symm

/-- Substitutions and the search for bases commute, wherever and in whatever order types are
entered. A substitution by the parameters themselves enters nothing. -/
theorem substitutions_compose :
    (∀ {table params id}, Asked {} table →
      (substitute params params id).run table = (id, table)) ∧
    (∀ {last params args args' others given id first left right},
      params.length = args.length → last.Over params id → (0 ∉ given ∨ last.UnionFree id) →
      last.Nests substitutionDepth id → last.Nests substitutionDepth first →
      Substituted last params args id first → Substituted last others given first left →
      List.Forall₂ (Substituted last others given) args args' →
      Substituted last params args' id right → left = right) ∧
    ∀ {last others given id info own base id' left right},
      last.classInfo? id = some info → info.generic ≠ 0 → last.classInfo? info.generic = some own →
      own.params.length = info.args.length → last.Over own.params own.base →
      (0 ∉ given ∨ last.UnionFree own.base) →
      last.Nests substitutionDepth id → last.Nests substitutionDepth own.base →
      last.Nests substitutionDepth base →
      Based last id base → Substituted last others given id id' → Based last id' left →
      Substituted last others given base right → left = right := by
  refine ⟨fun {table params id} asked => ?_, Substituted.compose, Based.substitute⟩
  exact ((asked.served sound_empty).sound sound_empty).substitute_params params id

/-! ### Questions among requests -/

theorem performAll_append (table : TypeTable) (front back : List Request) :
    performAll table (front ++ back) = performAll (performAll table front) back := by
  induction front generalizing table with
  | nil => rfl
  | cons request rest inductionHypothesis => exact inductionHypothesis (request.perform table)

theorem allocatedAll_append {front back : List Request} :
    AllocatedAll table (front ++ back) ↔
      AllocatedAll table front ∧ AllocatedAll (performAll table front) back := by
  induction front generalizing table with
  | nil => simp [AllocatedAll, performAll]
  | cons request rest inductionHypothesis =>
    rw [List.cons_append, AllocatedAll, inductionHypothesis, ← and_assoc]
    rfl

theorem Continued.all {before : TypeTable} (onward : Continued before table)
    (allocated : AllocatedAll table requests) (apart : ∀ request ∈ requests, ¬request.Redefines) :
    Continued before (performAll table requests) := by
  induction requests generalizing table with
  | nil => exact onward
  | cons request rest inductionHypothesis =>
    exact inductionHypothesis (onward.next request allocated.1 (apart request (.head _)))
      allocated.2 fun other among => apart other (.tail _ among)

/-- What comes before and behind one of some requests. -/
theorem among_requests {request : Request} (index : Nat)
    (isRequest : requests[index]? = some request) (allocated : AllocatedAll {} requests)
    (apart : ∀ request ∈ requests.drop (index + 1), ¬request.Redefines) :
    Asked {} (performAll {} (requests.take index)) ∧
      request.Allocated (performAll {} (requests.take index)) ∧
      Continued (request.perform (performAll {} (requests.take index))) (performAll {} requests) := by
  obtain ⟨bound, rfl⟩ := List.getElem?_eq_some_iff.mp isRequest
  have isSplit : requests.take index ++ requests[index] :: requests.drop (index + 1) = requests := by
    rw [List.getElem_cons_drop, List.take_append_drop]
  rw [← isSplit, allocatedAll_append] at allocated
  obtain ⟨allocated, isAllocated, allocated'⟩ := allocated
  refine ⟨Asked.start.all allocated, isAllocated, ?_⟩
  conv => rhs; rw [← isSplit, performAll_append]
  exact Continued.start.all allocated' apart

section Among

variable {requests : List Request} (index : Nat) (allocated : AllocatedAll {} requests)
  (apart : ∀ request ∈ requests.drop (index + 1), ¬request.Redefines)

include allocated apart

theorem Substituted.among (isRequest : requests[index]? = some (.substitute params args id))
    (isMade : ((substitute params args id).run (performAll {} (requests.take index))).1 = made) :
    Substituted (performAll {} requests) params args id made := by
  obtain ⟨asked, isAllocated, onward⟩ := among_requests index isRequest allocated apart
  exact ⟨_, _, asked, isAllocated, Prod.ext isMade rfl, onward⟩

theorem Based.among (isRequest : requests[index]? = some (.baseOf id))
    (isMade : ((baseOf id).run (performAll {} (requests.take index))).1 = made) :
    Based (performAll {} requests) id made := by
  obtain ⟨asked, isAllocated, onward⟩ := among_requests index isRequest allocated apart
  exact ⟨_, _, asked, isAllocated, Prod.ext isMade rfl, onward⟩

end Among

theorem Shown.nests (shown : table.Shown levels id) {depth : Nat} (enough : levels ≤ depth + 1) :
    table.Nests depth id :=
  fun _ _ occurs => Nat.le_of_lt_succ (Nat.lt_of_lt_of_le (shown.occursAt_lt occurs) enough)

/-- Which parameters occur can be looked up level by level. -/
theorem Sound.covers (sound : table.Sound) (levels : Nat) (shown : table.Shown levels id)
    (there : There id table)
    (each : ∀ depth < levels, ∀ inner ∈ List.range table.size, table.OccursAt depth inner id →
      table.kindOf inner = .param → inner ∈ params) : table.Over params id :=
  fun depth inner occurs => each depth (shown.occursAt_lt occurs) inner
    (List.mem_range.mpr (occurs.there sound there)) occurs

/-- A class with a base over a union with its parameter, an instance of the class for another
parameter, and what that becomes for a character. -/
def boxRequests : List Request :=
  [.registerClass "G" 1, .registerClass "H" 2, .registerParam "T" 3 .any, .registerParam "V" 4 .any,
    .setParams 8 [10], .makeMulti [10, 3], .instantiate 9 [12], .setBase 8 13, .instantiate 8 [11],
    .substitute [10] [11] 13, .substitute [11] [3] 16, .substitute [11] [3] 11, .substitute [10] [3] 13,
    .baseOf 14, .substitute [11] [3] 14, .baseOf 18, .substitute [11] [3] 16]

def boxes : TypeTable := performAll {} boxRequests

theorem boxRequests_allocated : AllocatedAll {} boxRequests := by
  with_unfolding_all decide

/-- Behind the first nine requests no class is redefined. -/
theorem boxRequests_apart {count : Nat} (enough : 9 ≤ count) :
    ∀ request ∈ boxRequests.drop count, ¬request.Redefines := by
  have apart : ∀ request ∈ boxRequests.drop 9, ¬request.Redefines := by
    simp [boxRequests, Request.Redefines]
  exact fun request among => apart request (List.drop_subset_drop_left boxRequests enough among)

/-- A union collapses on one side before and on the other side after it was asked for, and so does
one in a base. -/
theorem substitutions_compose_boxes :
    Asked {} boxes ∧ (substitute [10] [10] 13).run boxes = (13, boxes) ∧
      boxes.label 16 = "H<V | Char>" ∧
      (∃ left right, Substituted boxes [11] [3] 16 left ∧ Substituted boxes [10] [3] 13 right ∧
        left = right) ∧
      ∃ left right, Based boxes 18 left ∧ Substituted boxes [11] [3] 16 right ∧ left = right := by
  have one : Substituted boxes [10] [11] 13 16 :=
    .among 9 boxRequests_allocated (boxRequests_apart (by decide)) rfl (by decide +kernel)
  have two : Substituted boxes [11] [3] 16 17 :=
    .among 10 boxRequests_allocated (boxRequests_apart (by decide)) rfl (by decide +kernel)
  have each : List.Forall₂ (Substituted boxes [11] [3]) [11] [3] :=
    .cons (.among 11 boxRequests_allocated (boxRequests_apart (by decide)) rfl (by decide +kernel)) .nil
  have direct : Substituted boxes [10] [3] 13 17 :=
    .among 12 boxRequests_allocated (boxRequests_apart (by decide)) rfl (by decide +kernel)
  have based : Based boxes 14 16 :=
    .among 13 boxRequests_allocated (boxRequests_apart (by decide)) rfl (by decide +kernel)
  have become : Substituted boxes [11] [3] 14 18 :=
    .among 14 boxRequests_allocated (boxRequests_apart (by decide)) rfl (by decide +kernel)
  have based' : Based boxes 18 17 :=
    .among 15 boxRequests_allocated (boxRequests_apart (by decide)) rfl (by decide +kernel)
  obtain ⟨sound, -, there, -⟩ := one.again
  have shown {id : TypeId} (shown : boxes.Shown 3 id) : boxes.Nests substitutionDepth id :=
    shown.nests (by decide)
  have covered : boxes.Over [10] 13 := sound.covers 3 (by decide +kernel) there (by decide +kernel)
  have asked : Asked {} boxes := Asked.start.all boxRequests_allocated
  obtain ⟨info, isClass⟩ : ∃ info, boxes.classInfo? 14 = some info :=
    Option.isSome_iff_exists.mp (by decide +kernel)
  obtain ⟨own, isOwn⟩ : ∃ own, boxes.classInfo? 8 = some own :=
    Option.isSome_iff_exists.mp (by decide +kernel)
  have isInfo : (boxes.classInfo? 14).map (fun info => (info.generic, info.args)) = some (8, [11]) := by
    decide +kernel
  have isOwn' : (boxes.classInfo? 8).map (fun own => (own.params, own.base)) = some ([10], 13) := by
    decide +kernel
  simp only [isClass, isOwn, Option.map_some, Option.some.injEq, Prod.mk.injEq] at isInfo isOwn'
  obtain ⟨isGeneric, isArgs⟩ := isInfo
  obtain ⟨isParams, isBase⟩ := isOwn'
  refine ⟨asked, substitutions_compose.1 asked, by decide +kernel, ⟨17, 17, two, direct, ?_⟩, 17,
    17, based', two, ?_⟩
  · exact substitutions_compose.2.1 (by decide) covered (.inl (by decide)) (shown (by decide +kernel))
      (shown (by decide +kernel)) one two each direct
  · exact substitutions_compose.2.2 isClass (by rw [isGeneric]; decide) (by rw [isGeneric]; exact isOwn)
      (by rw [isParams, isArgs]; rfl) (by rw [isParams, isBase]; exact covered) (.inl (by decide))
      (shown (by decide +kernel)) (by rw [isBase]; exact shown (by decide +kernel))
      (shown (by decide +kernel)) based become based' two

/-- Two parameters that become the same one, which becomes unknown. -/
def forgottenRequests : List Request :=
  [.registerParam "T" 1 .any, .registerParam "U" 2 .any, .registerParam "V" 3 .any, .makeMulti [8, 9],
    .substitute [8, 9] [10, 10] 11, .substitute [10] [0] 10, .substitute [8, 9] [0, 0] 11]

/-- An instance of a class with one parameter for two arguments, and what it becomes. -/
def surplusRequests : List Request :=
  [.registerClass "G" 1, .registerClass "H" 2, .registerParam "T" 3 .any, .setParams 8 [10],
    .instantiate 9 [10], .setBase 8 11, .instantiate 8 [10, 10], .substitute [10] [2] 12, .baseOf 12,
    .substitute [10] [2] 11, .baseOf 13]

theorem forgottenRequests_allocated : AllocatedAll {} forgottenRequests := by
  with_unfolding_all decide

theorem surplusRequests_allocated : AllocatedAll {} surplusRequests := by
  with_unfolding_all decide

/-- The two sides part where a member of a union becomes unknown: the union that collapsed is
unknown, and the one that did not is the type without values. They also part at the base of an
instance with too many arguments, in which nothing is replaced. -/
theorem compositions_part :
    ((performAll {} forgottenRequests).Over [8, 9] 11 ∧
      (∀ id ∈ [11, 10, 0, 1], (performAll {} forgottenRequests).Nests substitutionDepth id) ∧
      Substituted (performAll {} forgottenRequests) [8, 9] [10, 10] 11 10 ∧
      List.Forall₂ (Substituted (performAll {} forgottenRequests) [10] [0]) [10, 10] [0, 0] ∧
      ∃ left right, Substituted (performAll {} forgottenRequests) [10] [0] 10 left ∧
        Substituted (performAll {} forgottenRequests) [8, 9] [0, 0] 11 right ∧ left ≠ right) ∧
    (performAll {} surplusRequests).Over [10] 11 ∧
      (∀ id ∈ [11, 12, 13, 14], (performAll {} surplusRequests).Nests substitutionDepth id) ∧
      Based (performAll {} surplusRequests) 12 11 ∧
      Substituted (performAll {} surplusRequests) [10] [2] 12 13 ∧
      ∃ left right, Based (performAll {} surplusRequests) 13 left ∧
        Substituted (performAll {} surplusRequests) [10] [2] 11 right ∧ left ≠ right := by
  have sound : (performAll {} forgottenRequests).Sound :=
    ((Asked.start.all forgottenRequests_allocated).served sound_empty).sound sound_empty
  have sound' : (performAll {} surplusRequests).Sound :=
    ((Asked.start.all surplusRequests_allocated).served sound_empty).sound sound_empty
  have shown : ∀ id ∈ [11, 10, 0, 1], (performAll {} forgottenRequests).Shown 2 id := by decide +kernel
  have shown' : ∀ id ∈ [11, 12, 13, 14], (performAll {} surplusRequests).Shown 2 id := by decide +kernel
  have apart (count : Nat) : ∀ request ∈ forgottenRequests.drop count, ¬request.Redefines := by
    have none : ∀ request ∈ forgottenRequests, ¬request.Redefines := by
      simp [forgottenRequests, Request.Redefines]
    exact fun request among => none request (List.drop_subset _ _ among)
  have apart' (count : Nat) : ∀ request ∈ surplusRequests.drop (6 + count), ¬request.Redefines := by
    have none : ∀ request ∈ surplusRequests.drop 6, ¬request.Redefines := by
      simp [surplusRequests, Request.Redefines]
    exact fun request among =>
      none request (List.drop_subset_drop_left _ (Nat.le_add_right 6 count) among)
  have forgotten : Substituted (performAll {} forgottenRequests) [10] [0] 10 0 :=
    .among 5 forgottenRequests_allocated (apart 6) rfl (by decide +kernel)
  refine ⟨⟨sound.covers 2 (by decide +kernel) (by decide +kernel) (by decide +kernel),
      fun id among => (shown id among).nests (by decide),
      .among 4 forgottenRequests_allocated (apart 5) rfl (by decide +kernel),
      .cons forgotten (.cons forgotten .nil), 0, 1, forgotten,
      .among 6 forgottenRequests_allocated (apart 7) rfl (by decide +kernel), by decide⟩,
    sound'.covers 2 (by decide +kernel) (by decide +kernel) (by decide +kernel),
    fun id among => (shown' id among).nests (by decide), ?_, ?_, 11, 14, ?_, ?_, by decide⟩
  · exact .among 8 surplusRequests_allocated (apart' 3) rfl (by decide +kernel)
  · exact .among 7 surplusRequests_allocated (apart' 2) rfl (by decide +kernel)
  · exact .among 10 surplusRequests_allocated (apart' 5) rfl (by decide +kernel)
  · exact .among 9 surplusRequests_allocated (apart' 4) rfl (by decide +kernel)

end TypeTable

end TreeCheck
