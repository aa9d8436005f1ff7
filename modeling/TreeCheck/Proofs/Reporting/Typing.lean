/-
Type checking is made of actions. It goes through scopes that are there and changes
nothing about names, makes the table of types grow, and never forgets that an expression or a
declaration was given a type. Only where a written type or a declaration is turned into a
type are classes entered into the table; whatever else it does adds instances at most, so
checking is made of such steps and of conversions.
-/

import TreeCheck.Proofs.Reporting.Actions
import TreeCheck.Proofs.Types.Growth
import TreeCheck.Typing.Units

namespace TreeCheck

variable {change : Analysis → Analysis} {id : ExprId} {written : TypeExpr}

/-- What is recorded about an expression: its type and what it reaches. -/
def Typing.record (typing : Typing) (id : ExprId) : Option TypeId × Option DeclId :=
  (typing.exprTypes[id]?, typing.targets[id]?)

/-- A change that type checking makes while it may record something about the expressions of an
area. -/
structure TypingChange (area : ExprId → Prop) (change : Analysis → Analysis) : Prop where
  sinkFree : SinkFree change
  names : ∀ state, (change state).names = state.names
  progress : ∀ state, (change state).progress = state.progress
  types : ∀ state : Analysis, state.typing.types.Grows (change state).typing.types
  exprTypes : ∀ (state : Analysis) id,
    id ∈ state.typing.exprTypes → id ∈ (change state).typing.exprTypes
  declTypes : ∀ (state : Analysis) id,
    id ∈ state.typing.declTypes → id ∈ (change state).typing.declTypes
  outside : ∀ (state : Analysis) id, ¬area id →
    (change state).typing.record id = state.typing.record id

/-- A change that type checking makes outside of conversions: no class is entered into the table
of types, and no conversion is recorded. -/
structure CheckingChange (area : ExprId → Prop) (change : Analysis → Analysis) : Prop
    extends TypingChange area change where
  extends_types : ∀ state : Analysis, state.typing.types.Extends (change state).typing.types
  nominal : ∀ state : Analysis, (change state).typing.nominal = state.typing.nominal
  written : ∀ state : Analysis, (change state).typing.written = state.typing.written
  /-- Where some expression is none of its business, it gives no declaration a type either. -/
  declared : (∃ id, ¬area id) → ∀ state : Analysis,
    (change state).typing.declTypes = state.typing.declTypes

variable {area : ExprId → Prop}

theorem CheckingChange.mono {wider : ExprId → Prop} (changes : CheckingChange area change)
    (more : ∀ id, area id → wider id) : CheckingChange wider change :=
  { changes with
    outside :=
      fun state id elsewhere => changes.outside state id fun inside => elsewhere (more id inside)
    declared := fun ⟨id, elsewhere⟩ => changes.declared ⟨id, fun inside => elsewhere (more id inside)⟩ }

/-- A change of neither names nor types. -/
theorem CheckingChange.of_same (sinkFree : SinkFree change)
    (names : ∀ state, (change state).names = state.names)
    (progress : ∀ state, (change state).progress = state.progress)
    (typing : ∀ state, (change state).typing = state.typing) : CheckingChange area change where
  sinkFree := sinkFree
  names := names
  progress := progress
  types state := typing state ▸ .refl _
  exprTypes state _ known := typing state ▸ known
  declTypes state _ known := typing state ▸ known
  outside state id _ := by rw [typing]
  extends_types state := typing state ▸ .refl _
  nominal state := by rw [typing]
  written state := by rw [typing]
  declared _ state := by rw [typing]

namespace TypeCheck

open AnalysisM TypeM

/-- Turning a written type or a declaration into a type. -/
inductive Conversion (tree : Tree) : (α : Type) → AnalysisM α → Prop where
  | typeOf (id : Option TypeExprId) : Conversion tree TypeId (typeOf tree id)
  | nominal (id : DeclId) : Conversion tree TypeId (nominal tree id)
  | declType (id : DeclId) : Conversion tree TypeId (declType tree id)

/-- Actions of type checking, in which conversions are not taken apart. -/
abbrev Checks (tree : Tree) (area : ExprId → Prop) {α : Type} (action : AnalysisM α) : Prop :=
  ActsOver (Conversion tree) (CheckingChange area) action

/-- The area of all expressions. -/
def everywhere (_ : ExprId) : Prop := True

/-- The area of no expression. -/
def nowhere (_ : ExprId) : Prop := False

/-- A change that a conversion makes: it gives no declaration a type, and it is no business of
expressions. -/
structure ConvertingChange
    (change : Analysis → Analysis) : Prop extends TypingChange nowhere change where
  declTypes_eq : ∀ state : Analysis, (change state).typing.declTypes = state.typing.declTypes

theorem ConvertingChange.typing (changes : ConvertingChange change) : TypingChange area change :=
  { changes.toTypingChange with outside := fun state id _ => changes.outside state id False.elim }

theorem ConvertingChange.of_checking
    (changes : CheckingChange nowhere change) : ConvertingChange change :=
  ⟨changes.toTypingChange, changes.declared ⟨0, id⟩⟩

/-- Conversions, and recording what an expression of an area reaches. -/
inductive Aiming (tree : Tree) (area : ExprId → Prop) : (α : Type) → AnalysisM α → Prop where
  | conversion {α : Type} {action : AnalysisM α} (conversion : Conversion tree α action) :
      Aiming tree area α action
  | target {id : ExprId} (inside : area id) (decl : DeclId) :
      Aiming tree area Unit (recordTarget id decl)

/-- Actions that record no type of an expression. What an expression reaches they may record, if
it is one of an area. -/
abbrev Aims (tree : Tree) (area : ExprId → Prop) {α : Type} (action : AnalysisM α) : Prop :=
  ActsOver (Aiming tree area) (CheckingChange nowhere) action

/-! ### Elementary actions -/

variable {block : (α : Type) → AnalysisM α → Prop} {allowed : (Analysis → Analysis) → Prop}
  {α : Type} {action : AnalysisM α}

/-- A table of types only grows, whatever it is asked for. -/
theorem acts_inTypes {α : Type} {action : TypeM α} (growing : Growing action) :
    ActsOver block (CheckingChange area) (inTypes action) :=
  .select (fun _ _ => rfl)
    { sinkFree := fun _ _ => rfl
      names := fun _ => rfl
      progress := fun _ => rfl
      types := fun state => (growing state.typing.types).grows
      exprTypes := fun _ _ known => known
      declTypes := fun _ _ known => known
      outside := fun _ _ _ => rfl
      extends_types := fun state => growing state.typing.types
      nominal := fun _ => rfl
      written := fun _ => rfl
      declared := fun _ _ => rfl }

/-- Notes that concern neither types nor declarations and take back of no expression that it has a
type. -/
theorem acts_modifyTyping {change : Typing → Typing}
    (types : ∀ typing, (change typing).types = typing.types)
    (nominal : ∀ typing, (change typing).nominal = typing.nominal)
    (written : ∀ typing, (change typing).written = typing.written)
    (exprTypes : ∀ typing id, id ∈ typing.exprTypes → id ∈ (change typing).exprTypes)
    (declTypes : ∀ typing, (change typing).declTypes = typing.declTypes)
    (outside : ∀ typing id, ¬area id → (change typing).record id = typing.record id) :
    ActsOver block (CheckingChange area) (modifyTyping change) := by
  have same (state : Analysis) : state.typing.types.Extends (change state.typing).types := by
    rw [types]
    exact .refl _
  exact .modify
    { sinkFree := fun _ _ => rfl
      names := fun _ => rfl
      progress := fun _ => rfl
      types := fun state => (same state).grows
      exprTypes := fun state => exprTypes state.typing
      declTypes := fun state _ known => (declTypes state.typing).symm ▸ known
      outside := fun state => outside state.typing
      extends_types := same
      nominal := fun state => nominal state.typing
      written := fun state => written state.typing
      declared := fun _ state => declTypes state.typing }

theorem acts_label (id : TypeId) : ActsOver block allowed (label id) :=
  .bind .types fun _ => .pure _

theorem acts_kindOf (id : TypeId) : ActsOver block allowed (kindOf id) :=
  .bind .types fun _ => .pure _

theorem acts_compatible (left right : TypeId) :
    ActsOver block (CheckingChange area) (compatible left right) :=
  acts_inTypes (growing_compatible left right)

theorem acts_sequenceOf (make : TypeId → UInt8 → TypeForm) (sameKind : TypeForm → Bool)
    (elem : TypeId) (dims : UInt8) :
    ActsOver block (CheckingChange area) (sequenceOf make sameKind elem dims) := by
  unfold sequenceOf
  split
  · exact .pure _
  · refine .bind .types fun table => ?_
    split
    · exact acts_inTypes (growing_intern _)
    · exact acts_inTypes (growing_intern _)

theorem acts_listOf (elem : TypeId) (dims : UInt8) :
    ActsOver block (CheckingChange area) (listOf elem dims) :=
  acts_sequenceOf ..

theorem acts_arrayOf (elem : TypeId) (dims : UInt8) :
    ActsOver block (CheckingChange area) (arrayOf elem dims) :=
  acts_sequenceOf ..

theorem acts_checkConstraint (tree : Tree) (param : DeclId) (arg : TypeId) (span : Span) :
    ActsOver block allowed (checkConstraint tree param arg span) := by
  unfold checkConstraint
  split
  · exact .pure _
  · refine .bind .types fun table => ?_
    split
    · exact .pure _
    · exact .bind (acts_label arg) fun _ => .error ..

variable (tree : Tree)

/-! ### Types of declarations and written types -/

/-- Giving up on a written type that leaves out one of its arguments. -/
inductive Lacks (tree : Tree) : (α : Type) → AnalysisM α → Prop where
  | giveUp {α : Type} {id : TypeExprId} {written : TypeExpr} {name : NameId}
      {args : List (Option TypeExprId)} {arg : Option TypeExprId} :
      tree.types.get? id = some written → written.form = .named name args → arg ∈ args →
      tree.typeAt? arg = none → Lacks tree α (throw .missingNode)

theorem Lacks.givesUp {tree : Tree} (lacks : Lacks tree α action) :
    GivesUp α action := by
  cases lacks with
  | giveUp => exact .giveUp

/-- Types are added, or what is known of classes is filled in. -/
theorem acts_growTypes {α : Type} {action : TypeM α}
    (grows : ∀ table : TypeTable, table.Grows (action.run table).2) :
    ActsOver block ConvertingChange (inTypes action) :=
  .select (fun _ _ =>
    rfl) ⟨⟨fun _ _ => rfl, fun _ => rfl, fun _ => rfl, fun state => grows state.typing.types,
    fun _ _ known => known, fun _ _ known => known, fun _ _ _ => rfl⟩, fun _ => rfl⟩

theorem acts_recordNominal (decl : DeclId) (id : TypeId) :
    ActsOver block ConvertingChange (recordNominal decl id) :=
  .modify ⟨⟨fun _ _ => rfl, fun _ => rfl, fun _ => rfl, fun _ => .refl _, fun _ _ known => known,
    fun _ _ known => known, fun _ _ _ => rfl⟩, fun _ => rfl⟩

theorem acts_simpleNominal (id : DeclId) :
    ActsOver block ConvertingChange (simpleNominal tree id) := by
  refine .read (fun state => ?_) fun _ _ => rfl
  split
  · exact .pure _
  · split
    · exact .bind (acts_growTypes fun table => (table.extends_registerEnum _ _).grows) fun _ =>
        .bind (acts_recordNominal ..) fun _ => .pure _
    · exact .bind (acts_growTypes fun table => (table.extends_registerParam _ _ _).grows) fun _ =>
        .bind (acts_recordNominal ..) fun _ => .pure _
    · exact .pure _

section Written

variable {typeOf : Option TypeExprId → AnalysisM TypeId}
  (acts : ∀ id, ActsOver (Lacks tree) ConvertingChange (typeOf id))

include acts

theorem acts_nominalUsing (id : DeclId) :
    ActsOver (Lacks tree) ConvertingChange (nominalUsing tree typeOf id) := by
  refine .read (fun state => ?_) fun _ _ => rfl
  split
  · exact .pure _
  · split
    · exact acts_simpleNominal tree id
    · next body _ =>
      refine .bind (acts_growTypes fun table => table.grows_registerClass _ _) fun type =>
        .bind (acts_recordNominal ..) fun _ => ?_
      have finish (_ : PUnit) : ActsOver (Lacks tree) ConvertingChange (do
          if (← get).names.bases.contains id then
            let base ← typeOf body.base
            if (← kindOf base) = .classType then inTypes (modify (·.setBase type base))
          return type) := by
        refine .read (fun state => ?_) fun _ _ => rfl
        dsimp only
        split
        · refine .bind (acts _) fun base => .bind (acts_kindOf base) fun kind => ?_
          split
          · exact .bind (acts_growTypes fun table => table.grows_setBase _ _) fun _ => .pure _
          · exact .pure _
        · exact .pure _
      dsimp only
      split
      · exact .bind (.mapM (acts_simpleNominal tree) _) fun _ =>
          .bind (acts_growTypes fun table => table.grows_setParams _ _) finish
      · exact finish ⟨⟩

theorem acts_instantiateWritten (span : Span) (decl : DeclId) (generic : TypeId) {id : TypeExprId}
    (isType : tree.types.get? id = some written) {name : NameId} {args : List (Option TypeExprId)}
    (form : written.form = .named name args) :
    ActsOver (Lacks tree) ConvertingChange (instantiateWritten tree typeOf span decl generic args) := by
  unfold instantiateWritten
  dsimp only
  split
  · exact .bind (.error ..) fun _ => .pure _
  · refine .bind (.mapM acts _) fun argTypes => .bind (.forM fun entry member => ?_) fun _ =>
      acts_growTypes fun table => (growing_instantiate _ _ table).grows
    obtain ⟨param, argType, arg⟩ := entry
    dsimp only
    split
    · exact acts_checkConstraint tree ..
    · next missing =>
      exact .block (.giveUp isType form (List.of_mem_zip (List.of_mem_zip member).2).2 missing)

/-- A conversion gives up where a part of the written type is missing, and nowhere else. -/
theorem acts_convertUsing {id : TypeExprId} (isType : tree.types.get? id = some written) :
    ActsOver (Lacks tree) ConvertingChange (convertUsing tree typeOf id written) := by
  unfold convertUsing
  split
  · next name args form =>
    split
    · exact .pure _
    · refine .read (fun state => ?_) fun _ _ => rfl
      split
      · exact .pure _
      · refine .bind (acts_nominalUsing tree acts _) fun type => .bind (acts_kindOf type) fun kind => ?_
        split
        · exact .pure _
        · exact acts_instantiateWritten tree acts _ _ _ isType form
  · exact .bind (acts _) fun _ => (acts_listOf ..).mono fun _ => .of_checking
  · exact .bind (acts _) fun _ => (acts_arrayOf ..).mono fun _ => .of_checking
  · exact .bind (.mapM acts _) fun _ => acts_growTypes fun table => (growing_makeTuple _ table).grows
  · exact .bind (.mapM acts _) fun _ => acts_growTypes fun table => (growing_makeMulti _ table).grows

end Written

/-- Whatever a written type turns out to be is kept. -/
theorem acts_typeWithin (fuel : Nat) (id : Option TypeExprId) :
    ActsOver (Lacks tree) ConvertingChange (typeWithin tree fuel id) := by
  induction fuel generalizing id with
  | zero => exact .pure _
  | succ fuel inductionHypothesis =>
    unfold typeWithin
    split
    · exact .pure _
    · have record (id : TypeExprId) (type : TypeId) : ActsOver (Lacks tree) ConvertingChange (do
          modifyTyping fun typing => { typing with written := typing.written.insert id type }
          return type) :=
        .bind (.modify
          ⟨⟨fun _ _ => rfl, fun _ => rfl, fun _ => rfl, fun _ => .refl _, fun _ _ known => known,
          fun _ _ known => known, fun _ _ _ => rfl⟩, fun _ => rfl⟩) fun _ => .pure _
      refine .read (fun state => ?_) fun _ _ => rfl
      split
      · exact .pure _
      · dsimp only
        split
        · next isType => exact .bind (acts_convertUsing tree inductionHypothesis isType) (record _)
        · exact .bind (.pure _) (record _)

theorem acts_typeOf (id : Option TypeExprId) :
    ActsOver (Lacks tree) ConvertingChange (typeOf tree id) :=
  acts_typeWithin tree ..

theorem acts_nominal (id : DeclId) :
    ActsOver (Lacks tree) ConvertingChange (nominal tree id) :=
  acts_nominalUsing tree (acts_typeOf tree) id

/-! ### Types of declarations -/

theorem acts_declaredType? (id : DeclId) (decl : Decl) :
    ActsOver (Lacks tree) ConvertingChange (declaredType? tree id decl) := by
  have written (type : Option TypeExprId) : ActsOver (Lacks tree) ConvertingChange (do
      return some (← typeOf tree type)) :=
    .bind (acts_typeOf tree type) fun _ => .pure _
  have introduced (owner : DeclId) : ActsOver (Lacks tree) ConvertingChange
      (do return some (← nominal tree owner)) :=
    .bind (acts_nominal tree owner) fun _ => .pure _
  unfold declaredType?
  split
  · split
    · exact .pure _
    · exact written _
  · split
    · exact .pure _
    · exact written _
  · split
    · exact .pure _
    · exact written _
  · split
    · exact .pure _
    · exact written _
  · dsimp only
    split
    · exact introduced _
    · exact .pure _
  · split
    · exact .pure _
    · exact written _
  · split
    · exact .pure _
    · exact written _
  · exact introduced _
  · exact introduced _
  · exact introduced _
  · exact .pure _

theorem grows_recordDecl (id : DeclId) (type : TypeId) :
    ActsOver block (TypingChange area) (recordDecl id type) :=
  .modify ⟨fun _ _ => rfl, fun _ => rfl, fun _ => rfl, fun _ => .refl _, fun _ _ known => known,
    fun _ _ known => Std.TreeMap.mem_insert.mpr (.inr known), fun _ _ _ => rfl⟩

/-- The type of a declaration is found once and kept. -/
theorem acts_declType (id : DeclId) :
    ActsOver (Lacks tree) (TypingChange area) (declType tree id) := by
  refine .read (fun state => ?_) fun _ _ => rfl
  split
  · exact .pure _
  · split
    · exact .pure _
    · refine .bind ((acts_declaredType? tree id _).mono fun _ => ConvertingChange.typing) fun found => ?_
      split
      · exact .pure _
      · exact .bind (grows_recordDecl id _) fun _ => .pure _

/-- Conversions are actions of type checking too. -/
theorem Checks.expand (checks : Checks tree area action) :
    ActsOver (Lacks tree) (TypingChange area) action := by
  refine ActsOver.expand checks (fun _ change => change.toTypingChange) fun conversion => ?_
  cases conversion with
  | typeOf id => exact (acts_typeOf tree id).mono fun _ => ConvertingChange.typing
  | nominal id => exact (acts_nominal tree id).mono fun _ => ConvertingChange.typing
  | declType id => exact acts_declType tree id

theorem Checks.acts (checks : Checks tree area action) :
    Acts (TypingChange area) action :=
  ActsOver.expand (checks.expand tree) (fun _ change => change) fun lacks => .block lacks.givesUp

/-- Where no written type leaves out an argument, type checking does not give up. -/
theorem Checks.steady (checks : Checks tree area action)
    (complete : ∀ id written name args, tree.types.get? id = some written →
      written.form = .named name args → ∀ arg ∈ args, tree.typeAt? arg ≠ none) :
    Steady (TypingChange area) action := by
  refine ActsOver.expand (checks.expand tree) (fun _ change => change) fun lacks => ?_
  cases lacks with
  | giveUp isType form member missing => exact absurd missing (complete _ _ _ _ isType form _ member)

theorem checks_typeOf (id : Option TypeExprId) : Checks tree area (typeOf tree id) := .block (.typeOf id)

theorem checks_nominal (id : DeclId) : Checks tree area (nominal tree id) := .block (.nominal id)

theorem checks_declType (id : DeclId) : Checks tree area (declType tree id) := .block (.declType id)

/-- A check of everything may give a declaration a type. -/
theorem acts_recordDecl (id : DeclId) (type : TypeId) :
    ActsOver block (CheckingChange everywhere) (recordDecl id type) :=
  .modify
    { sinkFree := fun _ _ => rfl
      names := fun _ => rfl
      progress := fun _ => rfl
      types := fun _ => .refl _
      exprTypes := fun _ _ known => known
      declTypes := fun _ _ known => Std.TreeMap.mem_insert.mpr (.inr known)
      outside := fun _ _ _ => rfl
      extends_types := fun _ => .refl _
      nominal := fun _ => rfl
      written := fun _ => rfl
      declared := fun ⟨_, outside⟩ => (outside trivial).elim }

/-! ### Members -/

theorem checks_throughReceiver (type : TypeId) (member : DeclId) (receiver : TypeId) :
    Checks tree area (throughReceiver tree type member receiver) := by
  unfold throughReceiver
  split
  · exact .pure _
  · refine .bind (acts_kindOf receiver) fun kind => ?_
    split
    · exact .pure _
    · refine .bind (acts_inTypes (growing_ancestors receiver)) fun chain =>
        .bind .types fun table => ?_
      split
      · exact .pure _
      · split
        · exact .pure _
        · split
          · exact .pure _
          · exact acts_inTypes (growing_substitute _ _ _)

theorem checks_memberType (member : DeclId) (receiver : TypeId) :
    Checks tree area (memberType tree member receiver) :=
  .bind (checks_declType tree member) fun _ => checks_throughReceiver tree ..

/-! ### Overloads -/

/-- A candidate that does not fit leaves nothing behind but types. -/
theorem checks_tryCandidate (args explicit : List TypeId) (receiver : TypeId) (id : DeclId) :
    Checks tree area (tryCandidate tree args explicit receiver id) := by
  unfold tryCandidate
  split
  · exact .pure _
  · split
    · exact .pure _
    · refine .bind (.mapM (checks_nominal tree) _) fun params =>
        .bind (.mapM (fun param => .bind (checks_declType tree param) fun _ =>
          checks_throughReceiver tree ..) _) fun formals => ?_
      have finish (binding : List TypeId) : Checks tree area (do
          let overload : Overload := { decl := id, params, binding }
          return if ← inTypes (exactArgs overload (formals.zip args)) then Fit.fits overload
            else Fit.misfit) := by
        refine .bind (acts_inTypes (growing_exactArgs _ _)) fun fits => ?_
        exact .pure _
      split
      · exact .pure _
      · dsimp only
        split
        · exact .bind (.pure _) finish
        · split
          · exact .bind (acts_inTypes (growing_infer _ _ _)) finish
          · exact .bind (.pure _) finish

theorem checks_pick (args explicit : List TypeId) (receiver : TypeId) (miscounted : Bool)
    (candidates : List DeclId) :
    Checks tree area (pick tree args explicit receiver miscounted candidates) := by
  induction candidates generalizing miscounted with
  | nil => exact .pure _
  | cons id rest inductionHypothesis =>
    refine .bind (checks_tryCandidate tree ..) fun fit => ?_
    split
    · exact .pure _
    · exact inductionHypothesis _
    · exact inductionHypothesis _

/-- What candidates there were is reported only when none fits. -/
theorem checks_choose (name : String) (candidates : List DeclId) (args explicit : List TypeId)
    (receiver : TypeId) (span : Span) :
    Checks tree area (choose tree name candidates args explicit receiver span) := by
  refine .bind (checks_pick tree ..) fun picked => ?_
  split
  · exact .bind (.forM fun entry _ => acts_checkConstraint tree ..) fun _ => .pure _
  · dsimp only
    split
    · exact .bind (.error ..) fun _ => .pure _
    · exact .bind (.mapM acts_label _) fun _ => .bind (.error ..) fun _ => .pure _

theorem checks_resultType (overload : Overload) (receiver : TypeId) :
    Checks tree area (TypeCheck.resultType tree overload receiver) := by
  refine .bind (checks_declType tree _) fun declared =>
    .bind (acts_inTypes (growing_substitute _ _ _)) fun type => ?_
  split
  · exact checks_throughReceiver tree ..
  · exact .pure _

/-! ### Names, operators and fields -/

theorem acts_recordTarget (inside : area id) (decl : DeclId) :
    ActsOver block (CheckingChange area) (recordTarget id decl) := by
  refine acts_modifyTyping (fun _ => rfl) (fun _ => rfl) (fun _ => rfl) (fun _ _ known => known)
    (fun _ => rfl) fun typing other elsewhere => ?_
  have apart : compare id other ≠ .eq := fun same =>
    elsewhere (Std.compare_eq_iff_eq.mp same ▸ inside)
  simp [Typing.record, Std.TreeMap.getElem?_insert, apart]

variable {tree} in
/-- Actions that record nothing about expressions. -/
theorem Checks.aims (checks : Checks tree nowhere action) :
    Aims tree area action :=
  ActsOver.expand checks (fun _ change => change) fun conversion => .block (.conversion conversion)

variable {tree} in
/-- What records only at expressions of an area is a check of that area. -/
theorem Aims.checks (aims : Aims tree area action) :
    Checks tree area action := by
  refine ActsOver.expand aims (fun _ change => change.mono fun _ never => never.elim) fun aiming => ?_
  cases aiming with
  | conversion conversion => exact .block conversion
  | target inside decl => exact acts_recordTarget inside decl

theorem aims_recordTarget (inside : area id) (decl : DeclId) :
    Aims tree area (recordTarget id decl) :=
  .block (.target inside decl)

theorem checks_nameType (id : ExprId) : Checks tree area (nameType tree id) := by
  refine .read (fun state => ?_) fun _ _ => rfl
  split
  · exact .pure _
  · split
    · exact .pure _
    · split
      · exact checks_declType tree _
      · split
        · exact checks_nominal tree _
        · exact .pure _

theorem acts_unaryType (op : UnaryOp) (span : Span) (operand : TypeId) :
    ActsOver block (CheckingChange area) (unaryType op span operand) := by
  unfold unaryType
  split
  · exact .pure _
  · refine .bind .types fun table => ?_
    split
    · exact .pure _
    · exact .bind (acts_label _) fun _ => .bind (.error ..) fun _ => .pure _

theorem acts_binaryType (op : BinaryOp) (span : Span) (left right : TypeId) :
    ActsOver block (CheckingChange area) (binaryType op span left right) := by
  unfold binaryType
  split
  · exact .pure _
  · refine .bind (acts_inTypes (growing_binaryType? _ _ _)) fun found => ?_
    split
    · exact .pure _
    · refine .bind (acts_label _) fun _ => .bind (acts_label _) fun _ => .bind .types fun table => ?_
      dsimp only
      split
      · exact .bind (acts_label _) fun _ => .bind (.report _) fun _ => .pure _
      · exact .bind (.report _) fun _ => .pure _

theorem checks_field? (receiver : TypeId) (name : String) :
    Checks tree area (field? tree receiver name) := by
  refine .bind .types fun table => ?_
  split
  · exact .pure _
  · refine .read (fun state => ?_) fun _ _ => rfl
    split
    · exact .pure _
    · exact .bind (checks_memberType tree ..) fun _ => .pure _

theorem acts_commonMember {look : TypeId → AnalysisM (Option (DeclId × TypeId))}
    (acts : ∀ type, ActsOver block (CheckingChange area) (look type)) (candidates : List TypeId)
    (found : Option (DeclId × TypeId)) :
    ActsOver block (CheckingChange area) (commonMember look candidates found) := by
  induction candidates generalizing found with
  | nil => exact .pure _
  | cons candidate rest inductionHypothesis =>
    refine .bind (acts candidate) fun member => ?_
    split
    · exact .pure _
    · split
      · exact inductionHypothesis _
      · refine .bind .types fun table => ?_
        split
        · exact inductionHypothesis _
        · exact .pure _

theorem checks_fieldNames (type : TypeId) : Checks tree area (fieldNames tree type) := by
  refine .bind .types fun table => ?_
  split
  · exact .read (fun _ => .pure _) fun _ _ => rfl
  · exact .pure _

/-- The member found is recorded at the access that asked for it. -/
theorem aims_fieldThroughType (inside : area id) (span : Span) (receiver : TypeId) (name : String) :
    Aims tree area (fieldThroughType tree id span receiver name) := by
  refine .bind (acts_kindOf receiver) fun kind => ?_
  split
  · refine .bind (checks_field? tree ..).aims fun found => ?_
    split
    · exact .bind (aims_recordTarget tree inside _) fun _ => .pure _
    · exact .bind (checks_fieldNames tree _).aims fun _ => .bind (acts_label _) fun _ =>
        .bind (.report _) fun _ => .pure _
  · refine .bind .types fun table => .bind
      (acts_commonMember (fun candidate => (checks_field? tree candidate name).aims) ..) fun found => ?_
    split
    · exact .bind (aims_recordTarget tree inside _) fun _ => .pure _
    · exact .bind (acts_label _) fun _ => .bind (.error ..) fun _ => .pure _
  · exact .bind (acts_label _) fun _ => .bind (.error ..) fun _ => .pure _

/-! ### Calls -/

theorem aims_recordCall (inside : area id) (decl : DeclId) :
    Aims tree area (recordCall tree id decl) :=
  .bind (aims_recordTarget tree inside _) fun _ => .read (fun _ =>
    acts_modifyTyping (fun _ => rfl) (fun _ => rfl) (fun _ => rfl) (fun _ _ known => known)
      (fun _ => rfl) fun _ _ _ => rfl) fun _ _ => rfl

theorem aims_callAmong (inside : area id) (span : Span) (name : String) (candidates : List DeclId)
    (args explicit : List TypeId) (receiver : TypeId) :
    Aims tree area (callAmong tree id span name candidates args explicit receiver) := by
  refine .bind (checks_choose tree ..).aims fun chosen => ?_
  split
  · exact .pure _
  · exact .bind (aims_recordCall tree inside _) fun _ => (checks_resultType tree ..).aims

theorem aims_unionCall (inside : area id) (span : Span) (name : String) (args : List TypeId)
    (receiver : TypeId) : Aims tree area (unionCall tree id span name args receiver) := by
  refine .bind .types fun table => .bind (acts_commonMember (fun candidate => ?_) ..) fun found => ?_
  · refine .bind .types fun table => ?_
    split
    · exact .pure _
    · refine .read (fun state => .bind (checks_pick tree ..).aims fun picked => ?_) fun _ _ => rfl
      split
      · exact .pure _
      · exact .bind (checks_resultType tree ..).aims fun _ => .pure _
  · split
    · exact .bind (aims_recordCall tree inside _) fun _ => .pure _
    · exact .bind (acts_label _) fun _ => .bind (.error ..) fun _ => .pure _

theorem aims_ownMethodCall (place : Place) (inside : area id) (span : Span) (name : String)
    (args : List TypeId) (receiver : TypeId) :
    Aims tree area (ownMethodCall tree place id span name args receiver) := by
  unfold ownMethodCall
  split
  · exact .pure _
  · refine .read (fun state => ?_) fun _ _ => rfl
    extract_lets candidates
    split
    · exact .pure _
    · exact aims_callAmong tree inside ..

/-! ### Expressions with parts -/

theorem acts_tooManyIndices (span : Span) (target : TypeId) (most : Nat) :
    ActsOver block (CheckingChange area) (tooManyIndices span target most) :=
  .bind (acts_label _) fun _ => .bind (.error ..) fun _ => .pure _

theorem acts_sequenceElement (make : TypeId → UInt8 → TypeForm) (span : Span)
    (target elem : TypeId) (dims : UInt8) (count : Nat) :
    ActsOver block (CheckingChange area) (sequenceElement make span target elem dims count) := by
  unfold sequenceElement
  split
  · exact acts_tooManyIndices ..
  · split
    · exact .pure _
    · exact acts_inTypes (growing_intern _)

theorem acts_elementHint (expected : TypeId) :
    ActsOver block (CheckingChange area) (elementHint expected) := by
  refine .bind .types fun table => ?_
  split
  · split
    · exact acts_inTypes (growing_intern _)
    · exact .pure _
  · exact .pure _

section Parts

variable {check : Checker} (acts : ∀ id expected, Checks tree area (check id expected))

include acts

theorem checks_castType (span : Span) (target : TypeExprId) (operand : ExprId) :
    Checks tree area (castType tree check span target operand) := by
  refine .bind (checks_typeOf tree _) fun type => .bind (acts operand 0) fun source =>
    .bind .types fun table => ?_
  dsimp only
  split
  · exact .bind (acts_label _) fun _ => .bind (acts_label _) fun _ =>
      .bind (.error ..) fun _ => .pure _
  · exact .pure _

theorem checks_fieldType {id : ExprId} (inside : area id) (span : Span) (receiver : ExprId)
    (name : String) :
    Checks tree area (fieldType tree check id span receiver name) := by
  refine .bind (acts receiver 0) fun type => .read (fun state => ?_) fun _ _ => rfl
  dsimp only
  split
  · refine .bind (acts_recordTarget inside _) fun _ => ?_
    split
    · exact checks_declType tree _
    · exact checks_memberType tree ..
  · split
    · exact .pure _
    · split
      · exact .pure _
      · exact (aims_fieldThroughType tree inside ..).checks

theorem checks_checkInt (code : Code) (id : ExprId) :
    Checks tree area (checkInt tree check code id) := by
  refine .bind (acts id _) fun type => .bind (acts_kindOf _) fun kind => ?_
  split
  · exact .bind (acts_label _) fun _ => .error ..
  · exact .pure _

theorem checks_indexType (span : Span) (target : ExprId) (indices : List ExprId) :
    Checks tree area (indexType tree check span target indices) := by
  refine .bind (acts target 0) fun type =>
    .bind (.forM fun index _ => checks_checkInt tree acts _ index) fun _ => ?_
  split
  · exact .pure _
  · refine .bind .types fun table => ?_
    split
    · exact acts_sequenceElement ..
    · exact acts_sequenceElement ..
    · dsimp only
      split
      · exact acts_tooManyIndices ..
      · split
        · exact .pure _
        · exact acts_inTypes (growing_makeMulti _)
    · split
      · exact acts_tooManyIndices ..
      · exact .pure _
    · split
      · exact acts_tooManyIndices ..
      · exact .pure _
    · exact .bind (acts_label _) fun _ => .bind (.error ..) fun _ => .pure _

theorem checks_checkInit (type : TypeId) (seen : List NameId) (init : FieldInit) :
    Checks tree area (checkInit tree check type seen init) := by
  unfold checkInit
  dsimp only
  split
  -- A field that is given twice is reported, and then checked like any other.
  case' isTrue => refine .bind (.error ..) fun _ => ?_
  all_goals
    refine .bind .types fun table => ?_
    split
    · exact .bind (acts _ _).discard fun _ => .pure _
    · refine .bind (checks_field? tree ..) fun found => ?_
      split
      · exact .bind (acts _ _).discard fun _ => .bind (checks_fieldNames tree _) fun _ =>
          .bind (acts_label _) fun _ => .bind (.report _) fun _ => .pure _
      · refine .bind (acts _ _) fun value => .bind (acts_compatible ..) fun fits => ?_
        split
        · exact .bind (acts_label _) fun _ => .bind (acts_label _) fun _ =>
            .bind (.report _) fun _ => .pure _
        · exact .pure _

theorem checks_createType (created : TypeExprId) (inits : List FieldInit) :
    Checks tree area (createType tree check created inits) :=
  .bind (checks_typeOf tree _) fun type =>
    .bind (ActsOver.foldlM (checks_checkInit tree acts type) _ _).discard fun _ =>
      .bind .types fun _ => .pure _

theorem checks_checkElement (hint elem : TypeId) (id : ExprId) :
    Checks tree area (checkElement tree check hint elem id) := by
  refine .bind (acts id hint) fun type => ?_
  split
  · exact .pure _
  · refine .bind (acts_compatible ..) fun fits => ?_
    dsimp only
    split
    · exact .bind (acts_label _) fun _ => .bind (acts_label _) fun _ =>
        .bind (.error ..) fun _ => .pure _
    · exact .pure _

theorem checks_listType (span : Span) (expected : TypeId) (written : Option TypeExprId)
    (elems : List ExprId) :
    Checks tree area (listType tree check span expected written elems) := by
  refine .bind (checks_typeOf tree _) fun elem => ?_
  split
  · split
    · exact acts_listOf ..
    · refine .bind (acts_kindOf _) fun kind => ?_
      split
      · exact .pure _
      · split
        · exact .pure _
        · exact .bind (.error ..) fun _ => .pure _
  · have finish (hint : TypeId) : Checks tree area (do
        let elem ← elems.foldlM (checkElement tree check hint) elem
        listOf elem 1) :=
      .bind (.foldlM (checks_checkElement tree acts hint) _ _) fun _ => acts_listOf ..
    dsimp only
    split
    · exact .bind (acts_elementHint _) finish
    · exact .bind (.pure _) finish

theorem checks_callType (place : Place) {id : ExprId} (inside : area id) (span : Span) (name : String)
    (typeArgs : List (Option TypeExprId)) (args : List ExprId) :
    Checks tree area (callType tree place check id span name typeArgs args) := by
  refine .bind (.mapM (fun arg => acts arg 0) _) fun argTypes =>
    .bind (.mapM (checks_typeOf tree) _) fun explicit => .read (fun state => ?_) fun _ _ => rfl
  extract_lets candidates
  split
  · exact .pure _
  · split
    · exact .bind (checks_nominal tree _) fun _ => (aims_callAmong tree inside ..).checks
    · exact .bind (.pure _) fun _ => (aims_callAmong tree inside ..).checks

theorem checks_methodCallType (place : Place) {id : ExprId} (inside : area id) (span : Span)
    (receiver : ExprId)
    (name : String) (args : List ExprId) :
    Checks tree area (methodCallType tree place check id span receiver name args) := by
  refine .bind (acts receiver 0) fun type => .bind (.mapM (fun arg => acts arg 0) _) fun argTypes => ?_
  split
  · exact (aims_ownMethodCall tree _ inside ..).checks
  · refine .bind (acts_kindOf _) fun kind => ?_
    split
    · exact .pure _
    · refine .bind .types fun table => .read (fun state => ?_) fun _ _ => rfl
      split
      · exact .bind (acts_label _) fun _ => .bind (.error ..) fun _ => .pure _
      · exact (aims_callAmong tree inside ..).checks
    · exact (aims_unionCall tree inside ..).checks
    · exact .bind (acts_label _) fun _ => .bind (.error ..) fun _ => .pure _

end Parts

theorem acts_recordExpr (inside : area id) (type : TypeId) :
    ActsOver block (CheckingChange area) (recordExpr id type) := by
  refine acts_modifyTyping (fun _ => rfl) (fun _ => rfl) (fun _ => rfl)
    (fun _ _ known => Std.TreeMap.mem_insert.mpr (.inr known)) (fun _ => rfl)
    fun typing other elsewhere => ?_
  have apart : compare id other ≠ .eq := fun same =>
    elsewhere (Std.compare_eq_iff_eq.mp same ▸ inside)
  simp [Typing.record, Std.TreeMap.getElem?_insert, apart]

/-- The parts of an expression are checked before it gets its own type. -/
theorem checks_exprWithin (place : Place) (fuel : Nat) (id : ExprId) (expected : TypeId) :
    Checks tree everywhere (exprWithin tree place fuel id expected) := by
  induction fuel generalizing id expected with
  | zero => exact .pure _
  | succ fuel inner =>
    have record (type : TypeId) : Checks tree everywhere (do recordExpr id type; return type) :=
      .bind (acts_recordExpr trivial _) fun _ => .pure _
    unfold exprWithin
    dsimp only
    split
    · exact .bind (.pure _) record
    · split
      · exact .bind (.pure _) record
      · exact .bind (checks_nameType tree _) record
      · split
        · exact .bind (checks_nominal tree _) record
        · exact .bind (.pure _) record
      · exact .bind (checks_fieldType tree inner trivial ..) record
      · exact .bind (checks_indexType tree inner ..) record
      · exact .bind (checks_callType tree inner place trivial ..) record
      · exact .bind (checks_methodCallType tree inner place trivial ..) record
      · exact .bind (inner _ _) fun _ => .bind (inner _ _) fun _ => .bind (acts_binaryType ..) record
      · exact .bind (inner _ _) fun _ => .bind (acts_unaryType ..) record
      · exact .bind (checks_castType tree inner ..) record
      · exact .bind (checks_createType tree inner ..) record
      · exact .bind (checks_listType tree inner ..) record
      · exact .bind (.mapM (fun elem => inner elem 0) _) fun _ =>
          .bind (acts_inTypes (growing_makeTuple _)) record

theorem checks_expr (place : Place) (id : ExprId) (expected : TypeId) :
    Checks tree everywhere (expr tree place id expected) :=
  checks_exprWithin tree ..

/-! ### Variables and statements -/

theorem acts_inScope (scope : Option ScopeId)
    (acts : ActsOver block (CheckingChange area) action) : ActsOver block (CheckingChange area)
      (inScope scope action) := by
  unfold inScope
  split
  · exact .within _ acts
  · exact acts

theorem checks_initializedType (place : Place) (decl : Decl) (init : ExprId) :
    Checks tree everywhere (initializedType tree place decl init) := by
  refine .bind (checks_typeOf tree _) fun declared => .bind (checks_expr tree ..) fun value => ?_
  split
  · exact .pure _
  · refine .bind (acts_compatible ..) fun fits => ?_
    dsimp only
    split
    · exact .bind (acts_label _) fun _ => .bind (acts_label _) fun _ =>
        .bind (.report _) fun _ => .pure _
    · exact .pure _

theorem checks_checkVariable (place : Place) (id : DeclId) :
    Checks tree everywhere (checkVariable tree place id) := by
  unfold checkVariable
  split
  · exact .pure _
  · split
    · exact .bind (checks_initializedType tree ..) fun _ => acts_recordDecl ..
    · exact .bind (checks_typeOf tree _) fun _ => acts_recordDecl ..
    · exact .pure _

theorem checks_checkCondition (place : Place) (cond : ExprId) :
    Checks tree everywhere (checkCondition tree place cond) := by
  refine .bind (checks_expr tree ..) fun type => .bind (acts_kindOf _) fun kind => ?_
  split
  · exact .bind (acts_label _) fun _ => .error ..
  · exact .pure _

theorem checks_assignable (id : ExprId) : Checks tree area (assignable tree id) := by
  unfold assignable
  split
  case h_1 | h_2 =>
    refine .read (fun state => ?_) fun _ _ => rfl
    split
    · exact .pure _
    · exact .pure _
  · exact .pure _
  · exact .pure _

theorem checks_checkAssign (place : Place) (target value : ExprId) :
    Checks tree everywhere (checkAssign tree place target value) := by
  refine .bind (checks_expr tree ..) fun targetType => .bind (checks_expr tree ..) fun valueType =>
    .bind (checks_assignable tree target) fun allowed => ?_
  split
  · exact .error ..
  · refine .bind (acts_compatible ..) fun fits => ?_
    split
    · exact .bind (acts_label _) fun _ => .bind (acts_label _) fun _ => .error ..
    · exact .pure _

theorem checks_checkReturn (place : Place) (span : Span) (value : Option ExprId) :
    Checks tree everywhere (checkReturn tree place span value) := by
  unfold checkReturn
  split
  · exact .optionForM (fun value => (checks_expr tree ..).discard) _
  · refine .bind (checks_declType tree _) fun result => .bind (acts_kindOf _) fun kind => ?_
    dsimp only
    split
    · split
      · exact .bind (acts_label _) fun _ => .error ..
      · exact .pure _
    · refine .bind (checks_expr tree ..) fun type => ?_
      split
      · exact .error ..
      · refine .bind (acts_compatible ..) fun fits => ?_
        split
        · exact .bind (acts_label _) fun _ => .bind (acts_label _) fun _ => .error ..
        · exact .pure _

theorem checks_checkCaseValue (place : Place) (subject : TypeId) (value : ExprId) :
    Checks tree everywhere (checkCaseValue tree place subject value) := by
  refine .bind (checks_expr tree ..) fun type => .bind (acts_compatible ..) fun fits => ?_
  split
  · exact .bind (acts_label _) fun _ => .bind (acts_label _) fun _ => .error ..
  · exact .pure _

theorem checks_checkCounter (place : Place) (counter : DeclId) :
    Checks tree everywhere (checkCounter tree place counter) := by
  refine .bind (checks_checkVariable tree ..) fun _ => .read (fun state => ?_) fun _ _ => rfl
  split
  · exact acts_recordDecl ..
  · exact .pure _

/-- The scope a statement opened when names were resolved is entered again, and left. -/
theorem checks_inOwnScope {check : StmtId → AnalysisM Unit}
    (acts : ∀ id, Checks tree everywhere (check id)) (id : StmtId) :
    Checks tree everywhere (inOwnScope tree check id) := by
  unfold inOwnScope
  split
  · exact .pure _
  · split
    · exact acts id
    · exact .read (fun _ => acts_inScope _ (acts id)) fun _ _ => rfl

theorem checks_stmtWithin (place : Place) (fuel : Nat) (id : StmtId) :
    Checks tree everywhere (stmtWithin tree place fuel id) := by
  induction fuel generalizing id with
  | zero => exact .pure _
  | succ fuel inner =>
    have own (id : StmtId) :
        Checks tree everywhere (inOwnScope tree (stmtWithin tree place fuel) id) :=
      checks_inOwnScope tree inner id
    unfold stmtWithin
    dsimp only
    split
    · exact .pure _
    · split
      · refine .read (fun state => acts_inScope _ (.forM fun child _ => ?_)) fun _ _ => rfl
        split
        · exact inner _
        · exact .pure _
      · exact checks_checkVariable tree ..
      · exact (checks_expr tree ..).discard
      · exact checks_checkAssign tree ..
      · exact .bind (checks_checkCondition tree ..) fun _ => .bind (own _) fun _ => .optionForM own _
      · exact .bind (checks_checkCondition tree ..) fun _ => own _
      · exact .bind (checks_checkInt tree (checks_expr tree place) ..) fun _ =>
          .bind (checks_checkInt tree (checks_expr tree place) ..) fun _ =>
            .read (fun _ => acts_inScope _ (.bind (checks_checkCounter tree ..) fun _ => own _))
              fun _ _ => rfl
      · exact .bind (checks_expr tree ..) fun _ => .bind
          (.forM fun arm _ => .bind (.forM fun value _ => checks_checkCaseValue tree ..) fun _ => own _)
          fun _ => .optionForM own _
      · exact checks_checkReturn tree ..

theorem checks_stmt (place : Place) (id : StmtId) : Checks tree everywhere (stmt tree place id) :=
  checks_stmtWithin tree ..

/-! ### Declarations, units and programs -/

theorem checks_checkEnum (id : DeclId) : Checks tree area (checkEnum tree id) := by
  refine .bind (checks_nominal tree id).discard fun _ => ?_
  split
  · exact .forM fun const _ => (checks_declType tree const).discard
  · exact .pure _

theorem checks_checkBody (place : Place) (stmts : List (Option StmtId)) :
    Checks tree everywhere (checkBody tree place stmts) := by
  refine .foldlM (fun returned child => ?_) _ _
  split
  · exact .pure _
  · exact .bind (checks_stmt tree ..) fun _ => .pure _

/-- Parameters come before the body, which is checked in the scope of the callable. -/
theorem checks_checkCallable (place : Place) (id : DeclId) :
    Checks tree everywhere (checkCallable tree place id) := by
  unfold checkCallable
  split
  · refine .read (fun state => acts_inScope _ ?_) fun _ _ => rfl
    refine .bind (.forM fun param _ => (checks_nominal tree param).discard) fun _ =>
      .bind (.forM fun param _ => checks_checkVariable tree _ param) fun _ =>
        .bind (checks_declType tree id) fun result => ?_
    split
    · exact .pure _
    · refine .bind (checks_checkBody tree ..) fun returned => .bind
        (acts_modifyTyping (fun _ => rfl) (fun _ => rfl) (fun _ => rfl) (fun _ _ known => known)
          (fun _ => rfl) fun _ _ _ => rfl) fun _ =>
          .bind (acts_kindOf _) fun kind => ?_
      split
      · exact .bind (acts_label _) fun _ => .report _
      · exact .pure _
  · exact .pure _

theorem acts_spanned {α : Type} (grain : Trace.Grain) (name : String) (parent : Nat)
    (extra : Trace.Extra) {action : Nat → AnalysisM α}
    (acts : ∀ span, ActsOver block (CheckingChange area) (action span)) :
    ActsOver block (CheckingChange area) (spanned grain name parent extra action) :=
  .bind (.select (fun _ _ => rfl)
    (.of_same (fun _ _ => rfl) (fun _ => rfl) (fun _ => rfl) fun _ => rfl)) fun _ =>
    .ensuring (.of_same (fun _ _ => rfl) (fun _ => rfl) (fun _ => rfl) fun _ => rfl) (acts _)

theorem checks_checkClass (place : Place) (id : DeclId) :
    Checks tree everywhere (checkClass tree place id) := by
  unfold checkClass
  split
  · exact .pure _
  · refine .bind (checks_nominal tree id).discard fun _ => acts_spanned _ _ _ _ fun _ =>
      .read (fun state => acts_inScope _ ?_) fun _ _ => rfl
    exact .bind (.forM fun field _ => checks_checkVariable tree _ field) fun _ =>
      .bind (.forM fun method _ => (checks_declType tree method).discard) fun _ =>
        .forM fun method _ => checks_checkCallable tree _ method

theorem checks_unit (parent : Nat) (id : UnitId) : Checks tree everywhere (unit tree parent id) := by
  unfold unit
  split
  · exact .pure _
  · refine acts_spanned _ _ _ _ fun _ => .read (fun state => acts_inScope _ ?_) fun _ _ => rfl
    exact .bind (.forM fun enum _ => checks_checkEnum tree enum) fun _ =>
      .bind (.forM fun global _ => checks_checkVariable tree _ global) fun _ =>
      .read (fun state => .bind (.forM fun decl _ => checks_checkClass tree _ decl) fun _ =>
        .bind (.forM fun function _ => checks_checkCallable tree _ function) fun _ =>
        .bind (.optionForM (checks_checkCallable tree _) _) fun _ =>
        .forM fun child _ => checks_stmt tree _ child) fun _ _ => rfl

theorem checks_program (parent : Nat) : Checks tree everywhere (program tree parent) :=
  .read (fun _ => .forM fun id _ => checks_unit tree parent id) fun _ _ => rfl

/-- A run of the checker does the same whatever its sink is. -/
theorem acts_program (parent : Nat) : Acts (TypingChange everywhere) (program tree parent) :=
  Checks.acts tree (checks_program tree parent)

theorem acts_submitDecl (unit : UnitId) (id : DeclId) :
    Acts (TypingChange everywhere) (submitDecl tree unit id) := by
  refine Checks.acts tree ?_
  refine .read (fun state => acts_inScope _ ?_) fun _ _ => rfl
  split
  · exact checks_checkEnum tree id
  · exact checks_checkVariable tree _ id
  · exact checks_checkClass tree _ id
  · exact checks_checkCallable tree _ id
  · exact .pure _

theorem acts_submitStmt (unit : UnitId) (id : StmtId) :
    Acts (TypingChange everywhere) (submitStmt tree unit id) :=
  Checks.acts tree <| .read (fun _ => acts_inScope _ (checks_stmt tree _ id)) fun _ _ => rfl

end TypeCheck

end TreeCheck
