/-
What type checking records is there. An expression, a statement or a declaration is checked by
asking the table for types, so after every run the table is sound and every type that the run
recorded is in it.
-/

import TreeCheck.Proofs.Types.Grounding

namespace TreeCheck

open TypeTable TypeM

variable {allowed : TypeTable → TypeForm → Prop} {state : Analysis} {α : Type}
  {post : α → TypeTable → Prop}
variable {table : TypeTable} {operand type elem : TypeId} {args : List TypeId}
  {action : AnalysisM α} {check : α → AnalysisM Unit}

namespace TypeCheck

open AnalysisM

/-- If there is a member its type is in the table. -/
def MemberThere (found : Option (DeclId × TypeId)) (table : TypeTable) : Prop :=
  ∀ member ∈ found, There member.2 table

theorem literalType_lt (kind : LiteralKind) : kind.type < 8 := by
  cases kind <;> decide

theorem unaryType?_lt (sound : table.Sound) {op : UnaryOp} (there : There operand table)
    (isType : table.unaryType? op operand = some type) : There type table := by
  unfold unaryType? at isType
  split at isType
  · cases isType
    split
    · exact there
    · exact basic_lt sound (by decide)
  · nomatch isType

theorem form?_of_getD {id : TypeId} {form : TypeForm}
    (isForm : (table.form? id).getD .invalid = form) (known : form ≠ .invalid) :
    table.form? id = some form := by
  cases found : table.form? id with
  | none =>
    rw [found] at isForm
    exact absurd isForm.symm known
  | some other =>
    rw [found] at isForm
    exact congrArg some isForm

section Permitted

variable (permits : Permits allowed) (tree : Tree)

/-! ### Names and operators -/

section

variable (grounded : Grounded state.typing)

include grounded

theorem asks_basic (basic : type < 8) :
    Asks allowed state There (pure type) :=
  .pure grounded (basic_lt grounded.sound basic)

/-- After a complaint the type is unknown. -/
theorem asks_complain (diagnostic : Diagnostic) :
    Asks allowed state There (do report diagnostic; return 0) :=
  .bind (.report grounded _) fun _ _ onward _ => asks_zero onward.grounded

theorem asks_recordTarget (id : ExprId) (decl : DeclId) :
    Asks allowed state Anything (recordTarget id decl) :=
  .modifyTyping ⟨grounded.sound, grounded.exprTypes, grounded.declTypes, grounded.nominal,
    grounded.written⟩ rfl

theorem asks_unaryType (op : UnaryOp) (span : Span)
    (there : There operand state.typing.types) :
    Asks allowed state There (unaryType op span operand) := by
  unfold unaryType
  split
  · exact asks_zero grounded
  · refine .types ?_
    split
    · next type isType => exact .pure grounded (unaryType?_lt grounded.sound there isType)
    · exact .label (asks_complain grounded _)

end

include permits

theorem asks_nameType (grounded : Grounded state.typing) (id : ExprId) :
    Asks allowed state There (nameType tree id) := by
  refine .read ?_
  split
  · exact asks_zero grounded
  · split
    · exact asks_zero grounded
    · split
      · exact asks_declType permits tree grounded _
      · split
        · exact asks_nominal permits tree grounded _
        · exact asks_zero grounded

theorem asks_binaryType (grounded : Grounded state.typing) (op : BinaryOp) (span : Span)
    {left : TypeId} (isLeft : There left state.typing.types) (right : TypeId) :
    Asks allowed state There (binaryType op span left right) := by
  unfold binaryType
  split
  · exact asks_zero grounded
  · refine .bind (.inTypes grounded (makes_binaryType? permits op right grounded.sound isLeft))
      fun found after onward ifThere => ?_
    split
    · next type => exact .pure onward.grounded (ifThere type rfl)
    · refine .label (.label (.types ?_))
      dsimp only
      split
      · exact .label (asks_complain onward.grounded _)
      · exact asks_complain onward.grounded _

/-! ### Fields -/

theorem asks_field? (grounded : Grounded state.typing) (receiver : TypeId) (name : String) :
    Asks allowed state MemberThere (field? tree receiver name) := by
  refine .types ?_
  split
  · exact .pure grounded nofun
  · refine .read ?_
    split
    · exact .pure grounded nofun
    · exact .bind (asks_memberType permits tree grounded ..) fun _ _ onward there =>
        .pure onward.grounded fun member same => Option.some.inj same ▸ there

omit permits in
theorem asks_commonMember {look : TypeId → AnalysisM (Option (DeclId × TypeId))}
    (asks : ∀ type after, Furthers allowed state after → Asks allowed after MemberThere (look type))
    (candidates : List TypeId) {found : Option (DeclId × TypeId)} (grounded : Grounded state.typing)
    (there : MemberThere found state.typing.types) :
    Asks allowed state MemberThere (commonMember look candidates found) := by
  induction candidates generalizing state found with
  | nil => exact .pure grounded there
  | cons candidate rest inductionHypothesis =>
    refine .bind (asks candidate state (.refl grounded)) fun member after onward isThere => ?_
    have later {found : Option (DeclId × TypeId)} :=
      @inductionHypothesis after (fun type _ onward' => asks type _ (onward.trans onward')) found
    split
    · exact .pure onward.grounded nofun
    · split
      · exact later onward.grounded fun member same => isThere member same
      · refine .types ?_
        split
        · exact later onward.grounded fun member same => onward.lt_size (there member same)
        · exact .pure onward.grounded nofun

omit permits in
theorem asks_fieldNames (grounded : Grounded state.typing) (type : TypeId) :
    Asks allowed state Anything (fieldNames tree type) := by
  refine .types ?_
  split
  · exact .read (.pure grounded trivial)
  · exact .pure grounded trivial

theorem asks_fieldThroughType (grounded : Grounded state.typing) (id : ExprId) (span : Span)
    (receiver : TypeId) (name : String) :
    Asks allowed state There (fieldThroughType tree id span receiver name) := by
  refine .kindOf ?_
  split
  · refine .bind (asks_field? permits tree grounded ..) fun found after onward there => ?_
    split
    · exact .bind (asks_recordTarget onward.grounded ..) fun _ _ onward' _ =>
        .pure onward'.grounded (onward'.lt_size (there _ rfl))
    · exact .bind (asks_fieldNames tree onward.grounded _) fun _ _ onward _ =>
        .label (asks_complain onward.grounded _)
  · refine .types (.bind (asks_commonMember (fun candidate _ onward =>
      asks_field? permits tree onward.grounded candidate name) _ grounded nofun)
      fun found after onward there => ?_)
    split
    · exact .bind (asks_recordTarget onward.grounded ..) fun _ _ onward' _ =>
        .pure onward'.grounded (onward'.lt_size (there _ rfl))
    · exact .label (asks_complain onward.grounded _)
  · exact .label (asks_complain grounded _)

/-! ### Calls -/

section

variable (grounded : Grounded state.typing)

include grounded

omit permits in
theorem asks_recordCall (id : ExprId) (decl : DeclId) :
    Asks allowed state Anything (recordCall tree id decl) :=
  .bind (asks_recordTarget grounded ..) fun _ _ onward _ =>
    .read (.modifyTyping ⟨onward.grounded.sound, onward.grounded.exprTypes,
      onward.grounded.declTypes, onward.grounded.nominal, onward.grounded.written⟩ rfl)

theorem asks_callAmong (id : ExprId) (span : Span)
    (name : String) (candidates : List DeclId) {explicit : List TypeId}
    (areArgs : AllThere args state.typing.types)
    (areExplicit : AllThere explicit state.typing.types) (receiver : TypeId) :
    Asks allowed state There (callAmong tree id span name candidates args explicit receiver) := by
  refine .bind (asks_choose permits tree grounded name candidates areArgs areExplicit receiver span)
    fun chosen after onward there => ?_
  split
  · exact asks_zero onward.grounded
  · exact .bind (asks_recordCall tree onward.grounded ..) fun _ _ onward' _ =>
      asks_resultType permits tree onward'.grounded (onward'.all_lt_size (there _ rfl)) receiver

theorem asks_unionCall (id : ExprId) (span : Span)
    (name : String) (areArgs : AllThere args state.typing.types) (receiver : TypeId) :
    Asks allowed state There (unionCall tree id span name args receiver) := by
  refine .types (.bind (asks_commonMember (fun candidate middle earlier => ?_) _ grounded nofun)
    fun found after onward there => ?_)
  · refine .types ?_
    split
    · exact .pure earlier.grounded nofun
    · refine .read (.bind (asks_pick permits tree earlier.grounded (earlier.all_lt_size areArgs)
        (List.forall_mem_nil _) candidate false _) fun picked after onward there => ?_)
      split
      · exact .pure onward.grounded nofun
      · exact .bind (asks_resultType permits tree onward.grounded (there _ rfl) candidate)
          fun _ _ onward there => .pure onward.grounded fun member same => Option.some.inj same ▸ there
  · split
    · exact .bind (asks_recordCall tree onward.grounded ..) fun _ _ onward' _ =>
        .pure onward'.grounded (onward'.lt_size (there _ rfl))
    · exact .label (asks_complain onward.grounded _)

theorem asks_ownMethodCall (place : Place) (id : ExprId)
    (span : Span) (name : String) (areArgs : AllThere args state.typing.types) (receiver : TypeId) :
    Asks allowed state There (ownMethodCall tree place id span name args receiver) := by
  unfold ownMethodCall
  split
  · exact asks_zero grounded
  · refine .read ?_
    extract_lets candidates
    split
    · exact asks_zero grounded
    · exact asks_callAmong permits tree grounded id span name _ areArgs (List.forall_mem_nil _) receiver

end

/-! ### Indices and elements -/

omit permits in
theorem asks_tooManyIndices (grounded : Grounded state.typing) (span : Span) (target : TypeId)
    (most : Nat) : Asks allowed state There (tooManyIndices span target most) :=
  .label (asks_complain grounded _)

theorem asks_sequenceElement {make : TypeId → UInt8 → TypeForm} (surrounds : Surrounds make)
    (grounded : Grounded state.typing) (span : Span) {target : TypeId} {dims : UInt8}
    (isTarget : state.typing.types.form? target = some (make elem dims)) (count : Nat) :
    Asks allowed state There (sequenceElement make span target elem dims count) := by
  have there : There elem state.typing.types :=
    surrounds.elem elem dims ▸ grounded.sound.elem_lt_size isTarget
  unfold sequenceElement
  split
  · exact asks_tooManyIndices grounded ..
  · split
    · exact .pure grounded there
    · exact .inTypes grounded (.intern grounded.sound (surrounds.held there)
        (permits.inner isTarget (surrounds.kind ..)
          ((surrounds.elem ..).trans (surrounds.elem ..).symm)))

theorem asks_elementHint (grounded : Grounded state.typing) (expected : TypeId) :
    Asks allowed state There (elementHint expected) := by
  refine .types ?_
  split
  · next elem dims isForm =>
    have there := grounded.sound.elem_lt_size isForm
    split
    · exact .inTypes grounded (.intern grounded.sound there (permits.inner isForm rfl rfl))
    · exact .pure grounded there
  · exact asks_zero grounded

/-! ### Expressions with parts -/

/-- A way to find types of expressions, from whatever state it starts. -/
def Yields (allowed : TypeTable → TypeForm → Prop) (check : Checker) : Prop :=
  ∀ id expected (state : Analysis), Grounded state.typing → There expected state.typing.types →
    Asks allowed state There (check id expected)

section Parts

variable {check : Checker} (yields : Yields allowed check)

include yields

omit permits in
theorem Yields.unexpected (grounded : Grounded state.typing) (id : ExprId) :
    Asks allowed state There (check id 0) :=
  yields id 0 state grounded grounded.zero

omit permits in
theorem Yields.mapM (grounded : Grounded state.typing) (ids : List ExprId) :
    Asks allowed state AllThere (ids.mapM (check · 0)) :=
  .mapM grounded fun id _ _ onward => yields.unexpected onward.grounded id

theorem asks_castType (grounded : Grounded state.typing) (span : Span) (target : TypeExprId)
    (operand : ExprId) : Asks allowed state There (castType tree check span target operand) := by
  refine .bind (supplies_typeOf permits tree _ _ grounded) fun type after onward there =>
    .bind (yields.unexpected onward.grounded operand) fun source after onward' _ => .types ?_
  have there := onward'.lt_size there
  dsimp only
  split
  · exact .label (.label (.bind (.error onward'.grounded ..) fun _ _ onward _ =>
      .pure onward.grounded (onward.lt_size there)))
  · exact .pure onward'.grounded there

theorem asks_fieldType (grounded : Grounded state.typing) (id : ExprId) (span : Span)
    (receiver : ExprId) (name : String) :
    Asks allowed state There (fieldType tree check id span receiver name) := by
  refine .bind (yields.unexpected grounded receiver) fun type after onward there => .read ?_
  dsimp only
  split
  · refine .bind (asks_recordTarget onward.grounded ..) fun _ _ onward' _ => ?_
    split
    · exact asks_declType permits tree onward'.grounded _
    · exact asks_memberType permits tree onward'.grounded ..
  · split
    · exact asks_zero onward.grounded
    · split
      · exact asks_zero onward.grounded
      · exact asks_fieldThroughType permits tree onward.grounded ..

section

variable (grounded : Grounded state.typing)

include grounded

omit permits in
theorem asks_checkInt (code : Code) (id : ExprId) :
    Asks allowed state Anything (checkInt tree check code id) := by
  refine .bind (yields id _ _ grounded (basic_lt grounded.sound (by decide)))
    fun type _ onward _ => .kindOf ?_
  split
  · exact .label (.error onward.grounded ..)
  · exact .pure onward.grounded trivial

theorem asks_indexType (span : Span) (target : ExprId)
    (indices : List ExprId) :
    Asks allowed state There (indexType tree check span target indices) := by
  refine .bind (yields.unexpected grounded target) fun type after onward there =>
    .bind (.forM onward.grounded fun index _ _ onward =>
      asks_checkInt tree yields onward.grounded _ index) fun _ after onward' _ => ?_
  have grounded := onward'.grounded
  have older {form : TypeForm} (isForm : after.typing.types.form? type = some form) :
      AllThere (after.typing.types.parts form) after.typing.types := fun part among =>
    Nat.lt_trans (grounded.sound.part_lt_of_form? isForm part among)
      (onward'.lt_size there)
  split
  · exact asks_zero grounded
  · refine .types ?_
    split
    · next elem dims isForm =>
      exact asks_sequenceElement permits surrounds_list grounded span (form?_of_getD isForm nofun) _
    · next elem dims isForm =>
      exact asks_sequenceElement permits surrounds_array grounded span (form?_of_getD isForm nofun) _
    · next slot isForm =>
      have isForm := form?_of_getD isForm nofun
      have areThere : AllThere (after.typing.types.elems type) after.typing.types :=
        elems_of_tuple isForm ▸ older isForm
      dsimp only
      split
      · exact asks_tooManyIndices grounded ..
      · split
        · next elem isElem =>
          obtain ⟨index, -, isElem⟩ := Option.bind_eq_some_iff.mp isElem
          exact .pure grounded (areThere _ (List.mem_of_getElem? isElem))
        · exact .inTypes grounded (.makeMulti grounded.sound areThere)
    · split
      · exact asks_tooManyIndices grounded ..
      · exact asks_basic grounded (by decide)
    · split
      · exact asks_tooManyIndices grounded ..
      · exact asks_basic grounded (by decide)
    · exact .label (asks_complain grounded _)

theorem asks_checkInit (type : TypeId) (seen : List NameId)
    (init : FieldInit) : Asks allowed state Anything (checkInit tree check type seen init) := by
  unfold checkInit
  dsimp only
  split
  case' isTrue =>
    refine .bind (.error grounded ..) fun _ _ onward _ => ?_
    replace grounded := onward.grounded
  all_goals
    refine .types ?_
    split
    · exact .bind (yields.unexpected grounded _).discard fun _ _ onward _ =>
        .pure onward.grounded trivial
    · refine .bind (asks_field? permits tree grounded ..) fun found after onward there => ?_
      split
      · exact .bind (yields.unexpected onward.grounded _).discard fun _ _ onward _ =>
          .bind (asks_fieldNames tree onward.grounded _) fun _ _ onward _ =>
            .label (.bind (.report onward.grounded _) fun _ _ onward _ => .pure onward.grounded trivial)
      · refine .bind (yields _ _ _ onward.grounded (there _ rfl)) fun value _ onward _ =>
          .bind (asks_compatible permits onward.grounded ..) fun fits _ onward _ => ?_
        split
        · exact .label (.label (.bind (.report onward.grounded _) fun _ _ onward _ =>
            .pure onward.grounded trivial))
        · exact .pure onward.grounded trivial

theorem asks_createType (created : TypeExprId)
    (inits : List FieldInit) : Asks allowed state There (createType tree check created inits) := by
  refine .bind (supplies_typeOf permits tree _ _ grounded) fun type after onward there =>
    .bind (Asks.foldlM onward.grounded trivial fun init _ seen _ onward _ =>
      asks_checkInit permits tree yields onward.grounded type seen init).discard
      fun _ _ onward' _ => .types ?_
  split
  · exact .pure onward'.grounded (onward'.lt_size there)
  · exact asks_zero onward'.grounded

theorem asks_checkElement {hint : TypeId}
    (isHint : There hint state.typing.types) (isElem : There elem state.typing.types)
    (id : ExprId) :
    Asks allowed state There (checkElement tree check hint elem id) := by
  refine .bind (yields id hint state grounded isHint) fun type _ onward there => ?_
  have isElem := onward.lt_size isElem
  split
  · exact .pure onward.grounded there
  · refine .bind (asks_compatible permits onward.grounded ..) fun fits _ onward' _ => ?_
    have isElem := onward'.lt_size isElem
    dsimp only
    split
    · exact .label (.label (.bind (.error onward'.grounded ..) fun _ _ onward _ =>
        .pure onward.grounded (onward.lt_size isElem)))
    · exact .pure onward'.grounded isElem

theorem asks_listType (span : Span) {expected : TypeId}
    (there : There expected state.typing.types) (written : Option TypeExprId)
    (elems : List ExprId) :
    Asks allowed state There (listType tree check span expected written elems) := by
  refine .bind (supplies_typeOf permits tree _ _ grounded) fun elem after onward isElem => ?_
  have there := onward.lt_size there
  split
  · split
    · exact asks_listOf permits onward.grounded isElem _
    · refine .kindOf ?_
      split
      · exact .pure onward.grounded there
      · split
        · exact asks_zero onward.grounded
        · exact asks_complain onward.grounded _
  · have finish {hint : TypeId} {middle : Analysis} (onward' : Furthers allowed after middle)
        (isHint : There hint middle.typing.types) : Asks allowed middle There (do
          let elem ← elems.foldlM (checkElement tree check hint) elem
          listOf elem 1) :=
      .bind (.foldlM onward'.grounded (onward'.lt_size isElem) fun id _ elem _ onward isElem =>
        asks_checkElement permits tree yields onward.grounded (onward.lt_size isHint) isElem id)
        fun _ _ onward isElem => asks_listOf permits onward.grounded isElem _
    dsimp only
    split
    · exact .bind (asks_elementHint permits onward.grounded _) fun _ _ onward isHint =>
        finish onward isHint
    · exact finish (.refl onward.grounded) isElem

theorem asks_callType (place : Place) (id : ExprId) (span : Span)
    (name : String) (typeArgs : List (Option TypeExprId)) (args : List ExprId) :
    Asks allowed state There (callType tree place check id span name typeArgs args) := by
  refine .bind (yields.mapM grounded args) fun argTypes _ onward areArgs =>
    .bind (.mapM onward.grounded fun arg _ _ onward =>
      supplies_typeOf permits tree arg _ onward.grounded) fun explicit _ onward' areExplicit => .read ?_
  have areArgs := onward'.all_lt_size areArgs
  extract_lets candidates
  split
  · exact asks_zero onward'.grounded
  · split
    · exact .bind (asks_nominal permits tree onward'.grounded _) fun receiver _ onward _ =>
        asks_callAmong permits tree onward.grounded id span name _ (onward.all_lt_size areArgs)
          (onward.all_lt_size areExplicit) receiver
    · exact asks_callAmong permits tree onward'.grounded id span name _ areArgs areExplicit 0

theorem asks_methodCallType (place : Place) (id : ExprId)
    (span : Span) (receiver : ExprId) (name : String) (args : List ExprId) :
    Asks allowed state There (methodCallType tree place check id span receiver name args) := by
  refine .bind (yields.unexpected grounded receiver) fun type _ onward _ =>
    .bind (yields.mapM onward.grounded args) fun argTypes _ onward areArgs => ?_
  have grounded := onward.grounded
  split
  · exact asks_ownMethodCall permits tree grounded place id span name areArgs type
  · refine .kindOf ?_
    split
    · exact asks_zero grounded
    · refine .types (.read ?_)
      split
      · exact .label (asks_complain grounded _)
      · exact asks_callAmong permits tree grounded id span name _ areArgs (List.forall_mem_nil _) type
    · exact asks_unionCall permits tree grounded id span name areArgs type
    · exact .label (asks_complain grounded _)

end

end Parts

theorem yields_exprWithin (place : Place) (fuel : Nat) :
    Yields allowed (exprWithin tree place fuel) := by
  induction fuel with
  | zero => exact fun _ _ _ grounded _ => asks_zero grounded
  | succ fuel yields =>
    intro id expected state grounded there
    have record {state : Analysis} {action : AnalysisM TypeId} (asks : Asks allowed state There action) :
        Asks allowed state There (do
          let type ← action
          recordExpr id type
          return type) :=
      .bind asks fun type _ onward there => .bind (asks_recordExpr onward.grounded id there)
        fun _ _ onward' _ => .pure onward'.grounded (onward'.lt_size there)
    unfold exprWithin
    dsimp only
    split
    · exact record (asks_zero grounded)
    · split
      · exact record (asks_basic grounded (literalType_lt _))
      · exact record (asks_nameType permits tree grounded _)
      · split
        · exact record (asks_nominal permits tree grounded _)
        · exact record (asks_zero grounded)
      · exact record (asks_fieldType permits tree yields grounded ..)
      · exact record (asks_indexType permits tree yields grounded ..)
      · exact record (asks_callType permits tree yields grounded ..)
      · exact record (asks_methodCallType permits tree yields grounded ..)
      · exact .bind (yields.unexpected grounded _) fun left _ onward isLeft =>
          .bind (yields _ left _ onward.grounded isLeft) fun right _ onward' _ =>
            record (asks_binaryType permits onward'.grounded _ _ (onward'.lt_size isLeft) right)
      · exact .bind (yields.unexpected grounded _) fun operand _ onward isThere =>
          record (asks_unaryType onward.grounded _ _ isThere)
      · exact record (asks_castType permits tree yields grounded ..)
      · exact record (asks_createType permits tree yields grounded ..)
      · exact record (asks_listType permits tree yields grounded _ there ..)
      · exact .bind (yields.mapM grounded _) fun _ _ onward areThere =>
          record (.inTypes onward.grounded (.makeTuple areThere))

theorem yields_expr (place : Place) : Yields allowed (expr tree place) :=
  yields_exprWithin permits tree place _

/-! ### Variables and statements -/

omit permits in
theorem asks_within (grounded : Grounded state.typing) (scope : ScopeId)
    (asks : ∀ after, Furthers allowed state after → Asks allowed after post action) :
    Asks allowed state post (within scope action) :=
  .bind (.of_typing_eq grounded rfl) fun _ _ onward _ =>
    .bind (.of_typing_eq onward.grounded rfl) fun _ _ onward' _ =>
      .ensuring (fun _ => rfl) (asks _ (onward.trans onward'))

omit permits in
theorem asks_inScope (grounded : Grounded state.typing) (scope : Option ScopeId)
    (asks : ∀ after, Furthers allowed state after → Asks allowed after post action) :
    Asks allowed state post (inScope scope action) := by
  unfold inScope
  split
  · exact asks_within grounded _ asks
  · exact asks state (.refl grounded)

theorem asks_initializedType (grounded : Grounded state.typing) (place : Place) (decl : Decl)
    (init : ExprId) : Asks allowed state There (initializedType tree place decl init) := by
  refine .bind (supplies_typeOf permits tree _ _ grounded) fun declared _ onward isDeclared =>
    .bind (yields_expr permits tree place _ _ _ onward.grounded isDeclared)
      fun value _ onward' isValue => ?_
  have isDeclared := onward'.lt_size isDeclared
  split
  · exact .pure onward'.grounded isValue
  · refine .bind (asks_compatible permits onward'.grounded ..) fun fits _ onward _ => ?_
    have isDeclared := onward.lt_size isDeclared
    dsimp only
    split
    · exact .label (.label (.bind (.report onward.grounded _) fun _ _ onward _ =>
        .pure onward.grounded (onward.lt_size isDeclared)))
    · exact .pure onward.grounded isDeclared

/-- A way to check statements or declarations, from whatever state it starts. -/
def Proceeds (allowed : TypeTable → TypeForm → Prop) {α : Type} (check : α → AnalysisM Unit) : Prop :=
  ∀ id (state : Analysis), Grounded state.typing → Asks allowed state Anything (check id)

omit permits in
theorem Proceeds.inOwnScope {check : StmtId → AnalysisM Unit} (proceeds : Proceeds allowed check) :
    Proceeds allowed (inOwnScope tree check) := by
  intro id state grounded
  unfold TypeCheck.inOwnScope
  split
  · exact .pure grounded trivial
  · split
    · exact proceeds id state grounded
    · exact .read (asks_inScope grounded _ fun after onward => proceeds id after onward.grounded)

omit permits in
theorem Proceeds.forM (proceeds : Proceeds allowed check) (grounded : Grounded state.typing)
    (items : List α) : Asks allowed state Anything (items.forM check) :=
  .forM grounded fun item _ after onward => proceeds item after onward.grounded

omit permits in
theorem Proceeds.optionForM (proceeds : Proceeds allowed check) (grounded : Grounded state.typing)
    (item : Option α) : Asks allowed state Anything (item.forM check) :=
  .optionForM grounded fun item => proceeds item state grounded

theorem proceeds_checkVariable (place : Place) : Proceeds allowed (checkVariable tree place) := by
  intro id state grounded
  unfold checkVariable
  split
  · exact .pure grounded trivial
  · split
    · exact .bind (asks_initializedType permits tree grounded ..) fun _ _ onward there =>
        asks_recordDecl onward.grounded id there
    · exact .bind (supplies_typeOf permits tree _ _ grounded) fun _ _ onward there =>
        asks_recordDecl onward.grounded id there
    · exact .pure grounded trivial

theorem asks_checkCondition (grounded : Grounded state.typing) (place : Place) (cond : ExprId) :
    Asks allowed state Anything (checkCondition tree place cond) := by
  refine .bind (yields_expr permits tree place _ _ _ grounded (basic_lt grounded.sound (by decide)))
    fun type _ onward _ => .kindOf ?_
  split
  · exact .label (.error onward.grounded ..)
  · exact .pure onward.grounded trivial

section

variable (grounded : Grounded state.typing)

include grounded

omit permits in
theorem asks_assignable (id : ExprId) :
    Asks allowed state Anything (assignable tree id) := by
  unfold assignable
  split
  case h_1 | h_2 =>
    refine .read ?_
    split
    · exact .pure grounded trivial
    · exact .pure grounded trivial
  · exact .pure grounded trivial
  · exact .pure grounded trivial

theorem asks_checkAssign (place : Place) (target value : ExprId) :
    Asks allowed state Anything (checkAssign tree place target value) := by
  refine .bind ((yields_expr permits tree place).unexpected grounded _) fun targetType _ onward there =>
    .bind (yields_expr permits tree place _ _ _ onward.grounded there) fun valueType _ onward _ =>
      .bind (asks_assignable tree onward.grounded target) fun allowed _ onward _ => ?_
  split
  · exact .error onward.grounded ..
  · refine .bind (asks_compatible permits onward.grounded ..) fun fits _ onward _ => ?_
    split
    · exact .label (.label (.error onward.grounded ..))
    · exact .pure onward.grounded trivial

theorem asks_checkReturn (place : Place) (span : Span)
    (value : Option ExprId) : Asks allowed state Anything (checkReturn tree place span value) := by
  unfold checkReturn
  split
  · exact .optionForM grounded fun value =>
      ((yields_expr permits tree place).unexpected grounded value).discard
  · refine .bind (asks_declType permits tree grounded _) fun result _ onward isResult => .kindOf ?_
    dsimp only
    split
    · split
      · exact .label (.error onward.grounded ..)
      · exact .pure onward.grounded trivial
    · refine .bind (yields_expr permits tree place _ _ _ onward.grounded isResult)
        fun type _ onward _ => ?_
      split
      · exact .error onward.grounded ..
      · refine .bind (asks_compatible permits onward.grounded ..) fun fits _ onward _ => ?_
        split
        · exact .label (.label (.error onward.grounded ..))
        · exact .pure onward.grounded trivial

theorem asks_checkCaseValue (place : Place) {subject : TypeId}
    (there : There subject state.typing.types) (value : ExprId) :
    Asks allowed state Anything (checkCaseValue tree place subject value) := by
  refine .bind (yields_expr permits tree place _ _ _ grounded there) fun type _ onward _ =>
    .bind (asks_compatible permits onward.grounded ..) fun fits _ onward _ => ?_
  split
  · exact .label (.label (.error onward.grounded ..))
  · exact .pure onward.grounded trivial

theorem asks_checkCounter (place : Place) (counter : DeclId) :
    Asks allowed state Anything (checkCounter tree place counter) := by
  refine .bind (proceeds_checkVariable permits tree _ _ _ grounded) fun _ _ onward _ => .read ?_
  split
  · exact asks_recordDecl onward.grounded counter (basic_lt onward.grounded.sound (by decide))
  · exact .pure onward.grounded trivial

end

theorem proceeds_stmtWithin (place : Place) (fuel : Nat) : Proceeds allowed
    (stmtWithin tree place fuel) := by
  induction fuel with
  | zero => exact fun _ _ grounded => .pure grounded trivial
  | succ fuel inner =>
    intro id state grounded
    have own : Proceeds allowed (TypeCheck.inOwnScope tree (stmtWithin tree place fuel)) :=
      inner.inOwnScope tree
    have yields := yields_expr permits tree place
    unfold stmtWithin
    dsimp only
    split
    · exact .pure grounded trivial
    · split
      · refine .read (asks_inScope grounded _ fun after onward => .forM onward.grounded
          fun child _ after onward => ?_)
        split
        · exact inner _ _ onward.grounded
        · exact .pure onward.grounded trivial
      · exact proceeds_checkVariable permits tree _ _ _ grounded
      · exact (yields.unexpected grounded _).discard
      · exact asks_checkAssign permits tree grounded ..
      · exact .bind (asks_checkCondition permits tree grounded ..) fun _ _ onward _ =>
          .bind (own _ _ onward.grounded) fun _ _ onward _ => own.optionForM onward.grounded _
      · exact .bind (asks_checkCondition permits tree grounded ..) fun _ _ onward _ =>
          own _ _ onward.grounded
      · exact .bind (asks_checkInt tree yields grounded ..) fun _ _ onward _ =>
          .bind (asks_checkInt tree yields onward.grounded ..) fun _ _ onward _ =>
            .read (asks_inScope onward.grounded _ fun _ onward =>
              .bind (asks_checkCounter permits tree onward.grounded ..) fun _ _ onward _ =>
                own _ _ onward.grounded)
      · refine .bind (yields.unexpected grounded _) fun subject _ onward there =>
          .bind (.forM onward.grounded fun arm _ _ onward' => ?_) fun _ _ onward _ =>
            own.optionForM onward.grounded _
        exact .bind (.forM onward'.grounded fun value _ _ onward =>
          asks_checkCaseValue permits tree onward.grounded place
            (onward.lt_size (onward'.lt_size there)) value) fun _ _ onward _ => own _ _ onward.grounded
      · exact asks_checkReturn permits tree grounded ..

theorem proceeds_stmt (place : Place) : Proceeds allowed (stmt tree place) :=
  proceeds_stmtWithin permits tree place _

/-! ### Declarations, units and programs -/

theorem proceeds_checkEnum : Proceeds allowed (checkEnum tree) := by
  intro id state grounded
  refine .bind (asks_nominal permits tree grounded id).discard fun _ _ onward _ => ?_
  split
  · exact .forM onward.grounded fun const _ _ onward =>
      (asks_declType permits tree onward.grounded const).discard
  · exact .pure onward.grounded trivial

theorem asks_checkBody (grounded : Grounded state.typing) (place : Place)
    (stmts : List (Option StmtId)) : Asks allowed state Anything (checkBody tree place stmts) := by
  refine .foldlM grounded trivial fun child _ returned _ onward _ => ?_
  split
  · exact .pure onward.grounded trivial
  · exact .bind (proceeds_stmt permits tree place _ _ onward.grounded) fun _ _ onward _ =>
      .pure onward.grounded trivial

theorem proceeds_checkCallable (place : Place) : Proceeds allowed (checkCallable tree place) := by
  intro id state grounded
  unfold checkCallable
  split
  · refine .read (asks_inScope grounded _ fun _ onward => ?_)
    refine .bind (.forM onward.grounded fun param _ _ onward =>
      (asks_nominal permits tree onward.grounded param).discard) fun _ _ onward _ =>
        .bind ((proceeds_checkVariable permits tree _).forM onward.grounded _) fun _ _ onward _ =>
          .bind (asks_declType permits tree onward.grounded id) fun result _ onward _ => ?_
    split
    · exact .pure onward.grounded trivial
    · refine .bind (asks_checkBody permits tree onward.grounded ..) fun returned _ onward _ =>
        .bind (.modifyTyping ⟨onward.grounded.sound, onward.grounded.exprTypes,
          onward.grounded.declTypes, onward.grounded.nominal, onward.grounded.written⟩ rfl)
          fun _ _ onward _ => .kindOf ?_
      split
      · exact .label (.report onward.grounded _)
      · exact .pure onward.grounded trivial
  · exact .pure grounded trivial

omit permits in
theorem asks_spanned (grounded : Grounded state.typing) (grain : Trace.Grain) (name : String)
    (parent : Nat) (extra : Trace.Extra) {action : Nat → AnalysisM α}
    (asks : ∀ span after, Furthers allowed state after → Asks allowed after post (action span)) :
    Asks allowed state post (spanned grain name parent extra action) :=
  .bind (.of_typing_eq grounded rfl) fun _ after onward _ =>
    .ensuring (fun _ => rfl) (asks _ after onward)

theorem proceeds_checkClass (place : Place) : Proceeds allowed (checkClass tree place) := by
  intro id state grounded
  unfold checkClass
  split
  · exact .pure grounded trivial
  · refine .bind (asks_nominal permits tree grounded id).discard fun _ _ onward _ =>
      asks_spanned onward.grounded _ _ _ _ fun _ _ onward =>
        .read (asks_inScope onward.grounded _ fun _ onward => ?_)
    exact .bind ((proceeds_checkVariable permits tree _).forM onward.grounded _) fun _ _ onward _ =>
        .bind (.forM onward.grounded fun method _ _ onward =>
          (asks_declType permits tree onward.grounded method).discard) fun _ _ onward _ =>
            (proceeds_checkCallable permits tree _).forM onward.grounded _

theorem proceeds_unit (parent : Nat) : Proceeds allowed (unit tree parent) := by
  intro id state grounded
  unfold unit
  split
  · exact .pure grounded trivial
  · refine asks_spanned grounded _ _ _ _ fun _ _ onward =>
      .read (asks_inScope onward.grounded _ fun _ onward => ?_)
    exact .bind ((proceeds_checkEnum permits tree).forM onward.grounded _) fun _ _ onward _ =>
      .bind ((proceeds_checkVariable permits tree _).forM onward.grounded _) fun _ _ onward _ =>
        .read (.bind ((proceeds_checkClass permits tree _).forM onward.grounded _) fun _ _ onward _ =>
          .bind ((proceeds_checkCallable permits tree _).forM onward.grounded _) fun _ _ onward _ =>
            .bind ((proceeds_checkCallable permits tree _).optionForM onward.grounded _)
              fun _ _ onward _ => (proceeds_stmt permits tree _).forM onward.grounded _)

/-- Checking a program asks for types that are there and records such. -/
theorem asks_program (grounded : Grounded state.typing) (parent : Nat) :
    Asks allowed state Anything (program tree parent) :=
  .read ((proceeds_unit permits tree parent).forM grounded _)

end Permitted

end TypeCheck

end TreeCheck
