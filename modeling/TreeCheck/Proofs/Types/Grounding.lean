/-
What type checking asks of the table of types. Every type that it finds, records or passes on
is one that the table gave it, so each request it makes is for types that are there, and the
table stays sound. The only forms it enters outright are lists and arrays: where it folds them,
where it takes brackets off one, and where a substitution makes another of one.

This is said of every function of type checking in the same way: whatever the state is, as long
as what was recorded before is there, what is recorded afterwards is there too, and so is what
the function gives. It holds of runs that a report ends as well.
-/

import TreeCheck.Proofs.Reporting.Typing
import TreeCheck.Proofs.Types.Canonicity

namespace TreeCheck

open TypeTable

variable {left elem id type : TypeId} {overload : Overload} {args explicit : List TypeId}

/-! ### Forms that are entered outright -/

/-- Lists and arrays may be entered around what is none, with other brackets than one that is
there, and by substitutions. -/
structure TypeTable.Permits (allowed : TypeTable → TypeForm → Prop) : Prop where
  rebuilds : ∀ params args, TypeM.Rebuilds allowed params args
  fresh : ∀ {table : TypeTable} {form : TypeForm}, table.kindOf form.elem ≠ form.kind →
    allowed table form
  inner : ∀ {table : TypeTable} {id} {old form : TypeForm}, table.form? id = some old →
    old.kind = form.kind → old.elem = form.elem → allowed table form

/-- Any list or array may be entered. -/
theorem permits_any : TypeTable.Permits fun _ _ => True :=
  ⟨TypeM.rebuilds_any, fun _ => trivial, fun _ _ _ => trivial⟩

/-- Lists, or arrays, around elements. -/
structure Surrounds (make : TypeId → UInt8 → TypeForm) : Prop where
  elem : ∀ elem dims, (make elem dims).elem = elem
  kind : ∀ elem dims elem' dims', (make elem dims).kind = (make elem' dims').kind
  known : ∀ elem dims, (make elem dims).kind ≠ .invalid
  held : ∀ {elem dims} {table : TypeTable}, elem < table.size → table.Holds (make elem dims)

theorem surrounds_list : Surrounds .list := ⟨fun _ _ => rfl, fun _ _ _ _ => rfl, nofun, id⟩

theorem surrounds_array : Surrounds .array := ⟨fun _ _ => rfl, fun _ _ _ _ => rfl, nofun, id⟩

theorem TypeTable.Sound.elem_lt_size {table : TypeTable} (sound : table.Sound)
    {form : TypeForm} (isForm : table.form? id = some form) : form.elem < table.size := by
  have held := sound.holds (form?_eq_some.mp isForm).2
  cases form with
  | list elem dims => exact held
  | array elem dims => exact held
  | _ => exact sound.positive

namespace TypeM

variable {α β : Type} {allowed : TypeTable → TypeForm → Prop} {table : TypeTable}
variable {test : α → TypeM Bool}

/-! ### Operations on the table -/

theorem Makes.foldlM {step : β → α → TypeM β} {items : List α} {start : β}
    {kept : β → TypeTable → Prop} (holds : kept start table)
    (each : ∀ item ∈ items, ∀ value middle, Served allowed table middle → kept value middle →
      Makes allowed middle kept (step value item)) :
    Makes allowed table kept (items.foldlM step start) := by
  induction items generalizing table start with
  | nil => exact .pure holds
  | cons item rest inductionHypothesis =>
    rw [List.foldlM_cons]
    exact .bind (each item (.head _) start table .refl holds) fun value _ _ served holds =>
      inductionHypothesis holds fun other among value middle served' =>
        each other (.tail _ among) value middle (served.trans served')

/-- Nothing is known of what an operation gives. -/
def Anything {α : Type} (_ : α) (_ : TypeTable) : Prop := True

section Permitted

variable (permits : Permits allowed)

include permits

theorem makes_ancestorsWithin (steps : Nat) (seen : List TypeId) (sound : table.Sound) :
    Makes allowed table AllThere (ancestorsWithin steps seen id) := by
  induction steps generalizing table seen id with
  | zero =>
    refine .bind (makes_baseOf permits.rebuilds sound id) fun base _ _ served isThere => ?_
    split
    · exact .pure nofun
    · exact .bind ⟨.single .giveUp, trivial⟩ fun _ _ _ _ (_ : True) => .pure nofun
  | succ steps inductionHypothesis =>
    refine .bind (makes_baseOf permits.rebuilds sound id) fun base _ _ served isThere => ?_
    split
    · exact .pure nofun
    · refine .bind (inductionHypothesis _ (served.sound sound)) fun rest _ _ served' areThere =>
        .pure fun other among => ?_
      rcases List.mem_cons.mp among with rfl | among
      · exact served'.lt_size isThere
      · exact areThere other among

theorem makes_ancestors (sound : table.Sound) (id : TypeId) :
    Makes allowed table AllThere (ancestors id) :=
  .read (makes_ancestorsWithin permits _ _ sound)

end Permitted

/-- An operation that may be run on any sound table, whatever it gives. -/
def Answers (allowed : TypeTable → TypeForm → Prop) (action : TypeM α) : Prop :=
  ∀ table : TypeTable, table.Sound → Makes allowed table Anything action

namespace Answers

theorem pure (value : α) : Answers allowed (Pure.pure value : TypeM α) := fun _ _ => .pure trivial

theorem bind {action : TypeM α} {next : α → TypeM β} (first : Answers allowed action)
    (second : ∀ value, Answers allowed (next value)) : Answers allowed (action >>= next) :=
  fun table sound => .bind (first table sound) fun value after _ served _ =>
    second value after (served.sound sound)

theorem read {next : TypeTable → TypeM α} (answers : ∀ table, Answers allowed (next table)) :
    Answers allowed (get >>= next) :=
  fun table sound => .read (answers table table sound)

theorem anyM (answers : ∀ item, Answers allowed (test item)) (items : List α) :
    Answers allowed (items.anyM test) := by
  induction items with
  | nil => exact .pure _
  | cons item rest inductionHypothesis =>
    refine .bind (answers item) fun found => ?_
    cases found with
    | true => exact .pure _
    | false => exact inductionHypothesis

theorem allM (answers : ∀ item, Answers allowed (test item)) (items : List α) :
    Answers allowed (items.allM test) := by
  induction items with
  | nil => exact .pure _
  | cons item rest inductionHypothesis =>
    refine .bind (answers item) fun found => ?_
    cases found with
    | true => exact inductionHypothesis
    | false => exact .pure _

end Answers

/-- The primitive types are in every table. -/
theorem basic_lt (sound : table.Sound) (basic : id < 8) : id < table.size :=
  Nat.lt_of_le_of_lt (Nat.le_of_lt_succ basic)
    (lt_size_of_form (sound.primitives (rfl : _[7]? = _)))

theorem builtin?_lt {name : String} (isType : builtin? name = some type) :
    type < 8 := by
  unfold builtin? at isType
  split at isType
  case h_8 => nomatch isType
  all_goals
    rw [← Option.some.inj isType]
    decide

theorem push_lt (table : TypeTable) (form : TypeForm) :
    (table.push form).1 < (table.push form).2.size := by
  simp [push, size]

theorem makes_registerClass (name : String) (decl : DeclId) :
    Makes allowed table There (modifyGet (·.registerClass name decl)) :=
  ⟨.single (.registerClass name decl), push_lt _ _⟩

theorem makes_registerEnum (name : String) (decl : DeclId) :
    Makes allowed table There (modifyGet (·.registerEnum name decl)) :=
  ⟨.single (.registerEnum name decl), push_lt _ _⟩

theorem makes_registerParam (name : String) (decl : DeclId) (constraint : Constraint) :
    Makes allowed table There (modifyGet (·.registerParam name decl constraint)) :=
  ⟨.single (.registerParam name decl constraint), push_lt _ _⟩

theorem resultType_lt {right : TypeId} (sound : table.Sound) (isLeft : left < table.size)
    (seen : TypeTable) (result : BinaryResult) :
    resultType seen result left right < table.size := by
  cases result with
  | left => exact isLeft
  | bool => exact basic_lt sound (by decide : TypeId.bool < 8)
  | concat =>
    show (if _ then _ else _) < _
    split
    · exact basic_lt sound (by decide)
    · exact basic_lt sound (by decide)

section Permitted

variable (permits : Permits allowed)

include permits

theorem answers_isAncestor (ancestor id : TypeId) : Answers allowed (isAncestor ancestor id) :=
  .bind (fun _ sound => (makes_ancestors permits sound id).weaken fun _ _ _ _ => trivial) fun _ =>
    .read fun _ => .pure _

theorem answers_compatibleWithin (levels : Nat) (left right : TypeId) :
    Answers allowed (compatibleWithin levels left right) := by
  induction levels generalizing left right with
  | zero => exact .pure _
  | succ levels inductionHypothesis =>
    unfold compatibleWithin
    split
    · exact .pure _
    · refine .read fun table => ?_
      split
      · exact .pure _
      · split
        · exact .anyM (fun candidate => inductionHypothesis candidate right) _
        · exact .anyM (fun candidate => inductionHypothesis left candidate) _
        · refine .bind (answers_isAncestor permits _ _) fun found => ?_
          split
          · exact .pure _
          · exact answers_isAncestor permits _ _
        · split
          · exact .pure _
          · exact inductionHypothesis _ _
        · split
          · exact .pure _
          · exact inductionHypothesis _ _
        · dsimp only
          split
          · exact .pure _
          · exact .allM (fun (pair : TypeId × TypeId) => inductionHypothesis pair.1 pair.2) _
        · exact .pure _

theorem answers_compatible (left right : TypeId) : Answers allowed (compatible left right) :=
  answers_compatibleWithin permits _ _ _

theorem answers_ruleFits (rule : BinaryRule) (left right : TypeId) :
    Answers allowed (ruleFits rule left right) := by
  refine .read fun table => ?_
  split
  · exact .pure _
  · split
    · exact .pure _
    · refine .bind (answers_compatible permits left right) fun found => ?_
      split
      · exact .pure _
      · exact answers_compatible permits right left

/-- If there is a type it is in the table. -/
def IfThere (found : Option TypeId) (table : TypeTable) : Prop := ∀ type ∈ found, There type table

theorem makes_binaryType? (op : BinaryOp) (right : TypeId) (sound : table.Sound)
    (isLeft : left < table.size) : Makes allowed table IfThere (binaryType? op left right) := by
  unfold binaryType?
  induction op.rules generalizing table with
  | nil => exact .pure nofun
  | cons rule rest inductionHypothesis =>
    refine .bind (answers_ruleFits permits rule left right table sound) fun fits middle _ served _ => ?_
    split
    · refine .read (.pure fun type isType => ?_)
      rw [← Option.some.inj isType]
      exact resultType_lt (served.sound sound) (served.lt_size isLeft) _ _
    · exact inductionHypothesis (served.sound sound) (served.lt_size isLeft)

end Permitted

end TypeM

/-! ### Inference -/

namespace TypeCheck

open TypeM

variable {allowed : TypeTable → TypeForm → Prop} {table : TypeTable} (permits : Permits allowed)

include permits

theorem makes_matchWithin (params : List TypeId) (levels : Nat) {binding : List TypeId}
    (formal : TypeId) {actual : TypeId} (sound : table.Sound) (bound : AllThere binding table)
    (there : actual < table.size) :
    Makes allowed table AllThere (matchWithin params levels binding formal actual) := by
  induction levels generalizing table binding formal actual with
  | zero => exact .pure bound
  | succ levels inductionHypothesis =>
    have pairwise (formals : List TypeId) {actuals : List TypeId} (areThere : AllThere actuals table) :
        Makes allowed table AllThere ((formals.zip actuals).foldlM
          (fun binding (pair : TypeId × TypeId) => matchWithin params levels binding pair.1 pair.2)
          binding) :=
      .foldlM bound fun pair among _ middle served bound' =>
        inductionHypothesis _ (served.sound sound) bound'
          (served.lt_size (areThere _ (List.of_mem_zip among).2))
    have elem {form : TypeForm} (isForm : table.form? actual = some form) {part : TypeId}
        (isPart : part ∈ table.parts form) : part < table.size :=
      Nat.lt_trans (sound.part_lt_of_form? isForm part isPart) there
    unfold matchWithin
    split
    · exact .pure bound
    · split
      · split
        · refine .pure fun id among => ?_
          rcases List.mem_or_eq_of_mem_set among with among | rfl
          · exact bound id among
          · exact there
        · exact .pure bound
      · refine .read ?_
        dsimp only
        split
        · next formalElem formalDims actualElem actualDims isFormal isActual =>
          have isThere := elem isActual (.head _)
          split
          · exact inductionHypothesis _ sound bound isThere
          · split
            · exact .bind (.intern sound isThere (permits.inner isActual rfl rfl)) fun rest _ _
                served isRest =>
                inductionHypothesis _ (served.sound sound) (served.all_lt_size bound) isRest
            · exact .pure bound
        · next formalElem formalDims actualElem actualDims isFormal isActual =>
          have isThere := elem isActual (.head _)
          split
          · exact inductionHypothesis _ sound bound isThere
          · split
            · exact .bind (.intern sound isThere (permits.inner isActual rfl rfl)) fun rest _ _
                served isRest =>
                inductionHypothesis _ (served.sound sound) (served.all_lt_size bound) isRest
            · exact .pure bound
        · next isFormal isActual =>
          split
          · exact pairwise _ fun part among => elem isActual (elems_of_tuple isActual ▸ among)
          · exact .pure bound
        · split
          · next formalInfo actualInfo isFormal isActual =>
            split
            · refine pairwise _ fun arg among => Nat.lt_trans ?_ there
              exact sound.part_lt_of_classInfo? isActual arg (.tail _ among)
            · exact .pure bound
          · exact .pure bound
        · exact .pure bound

theorem makes_infer (params formals : List TypeId) {actuals : List TypeId} (sound : table.Sound)
    (there : AllThere actuals table) :
    Makes allowed table AllThere (infer params formals actuals) := by
  refine .foldlM (fun id among => ?_) fun pair among _ middle served bound =>
    makes_matchWithin permits params _ _ (served.sound sound) bound
      (served.lt_size (there _ (List.of_mem_zip among).2))
  obtain ⟨param, -, rfl⟩ := List.mem_map.mp among
  exact sound.positive

theorem makes_exactArgs {pairs : List (TypeId × TypeId)} (sound : table.Sound)
    (bound : AllThere overload.binding table) (there : ∀ pair ∈ pairs, pair.1 < table.size) :
    Makes allowed table Anything (exactArgs overload pairs) := by
  induction pairs generalizing table with
  | nil => exact .pure trivial
  | cons pair rest inductionHypothesis =>
    have others : ∀ pair ∈ rest, pair.1 < table.size := fun other among =>
      there other (.tail _ among)
    unfold exactArgs
    split
    · exact inductionHypothesis sound bound others
    · refine .bind (makes_substitute (permits.rebuilds _ _) sound bound (there pair (.head _)))
        fun replaced _ _ served _ => .read ?_
      split
      · exact inductionHypothesis (served.sound sound) (served.all_lt_size bound)
          fun other among => served.lt_size (others other among)
      · exact .pure trivial

end TypeCheck

/-! ### Actions that ask for types -/

/-- The table is sound, and what is recorded is in it. -/
structure Grounded (typing : Typing) : Prop where
  sound : typing.types.Sound
  exprTypes : ∀ {id : ExprId} {type}, typing.exprTypes[id]? = some type → There type typing.types
  declTypes : ∀ {id : DeclId} {type}, typing.declTypes[id]? = some type → There type typing.types
  nominal : ∀ {id : DeclId} {type}, typing.nominal[id]? = some type → There type typing.types
  written : ∀ {id : TypeExprId} {type}, typing.written[id]? = some type → There type typing.types

/-- Nothing is recorded yet. -/
theorem grounded_empty : Grounded {} :=
  ⟨sound_empty, by simp, by simp, by simp, by simp⟩

/-- The unknown type is in every table. -/
theorem Grounded.zero {typing : Typing} (grounded : Grounded typing) : There 0 typing.types :=
  grounded.sound.positive

/-- The table was asked for types, and what is recorded since is in it. -/
structure Furthers (allowed : TypeTable → TypeForm → Prop) (before after : Analysis) : Prop where
  grounded : Grounded after.typing
  served : Served allowed before.typing.types after.typing.types

/-- From this state on an action asks for types and records types that are there; how it ends does
not matter. What it gives, if it does, satisfies a condition. -/
def Asks (allowed : TypeTable → TypeForm → Prop) (state : Analysis) {α : Type}
    (post : α → TypeTable → Prop) (action : AnalysisM α) : Prop :=
  match action state with
  | .ok value after => Furthers allowed state after ∧ post value after.typing.types
  | .error _ after => Furthers allowed state after

variable {allowed : TypeTable → TypeForm → Prop} {state middle after : Analysis} {α β : Type}
  {post : α → TypeTable → Prop}

namespace Furthers

theorem refl (grounded : Grounded state.typing) : Furthers allowed state state := ⟨grounded, .refl⟩

theorem trans (first : Furthers allowed state middle) (second : Furthers allowed middle after) :
    Furthers allowed state after :=
  ⟨second.grounded, first.served.trans second.served⟩

theorem of_typing_eq (grounded : Grounded state.typing) (same : after.typing = state.typing) :
    Furthers allowed state after :=
  ⟨same ▸ grounded, same ▸ .refl⟩

theorem lt_size (onward : Furthers allowed state after)
    (there : There type state.typing.types) : There type after.typing.types :=
  onward.served.lt_size there

theorem all_lt_size (onward : Furthers allowed state after) {types : List TypeId}
    (there : AllThere types state.typing.types) : AllThere types after.typing.types :=
  onward.served.all_lt_size there

end Furthers

namespace Asks

open AnalysisM

theorem pure (grounded : Grounded state.typing) {value : α} (holds : post value state.typing.types) :
    Asks allowed state post (Pure.pure value) :=
  ⟨.refl grounded, holds⟩

theorem bind {result : β → TypeTable → Prop} {action : AnalysisM α} {next : α → AnalysisM β}
    (first : Asks allowed state post action)
    (second : ∀ value after, Furthers allowed state after → post value after.typing.types →
      Asks allowed after result (next value)) : Asks allowed state result (action >>= next) := by
  unfold Asks at first ⊢
  show match EStateM.bind action next state with
    | .ok value after => Furthers allowed state after ∧ result value after.typing.types
    | .error _ after => Furthers allowed state after
  unfold EStateM.bind
  cases ran : action state with
  | ok value middle =>
    rw [ran] at first
    have goes := second value middle first.1 first.2
    unfold Asks at goes
    dsimp only
    cases ran' : next value middle with
    | ok found after =>
      rw [ran'] at goes
      exact ⟨first.1.trans goes.1, goes.2⟩
    | error abort after =>
      rw [ran'] at goes
      exact first.1.trans goes
  | error abort middle =>
    rw [ran] at first
    exact first

theorem discard {action : AnalysisM α} (asks : Asks allowed state post action) :
    Asks allowed state TypeM.Anything (Functor.discard action) :=
  asks.bind fun _ _ onward _ => .pure onward.grounded trivial

theorem read {next : Analysis → AnalysisM α} (asks : Asks allowed state post (next state)) :
    Asks allowed state post (get >>= next) :=
  asks

theorem types {next : TypeTable → AnalysisM α}
    (asks : Asks allowed state post (next state.typing.types)) :
    Asks allowed state post (AnalysisM.types >>= next) :=
  asks

theorem kindOf {next : TypeKind → AnalysisM α}
    (asks : Asks allowed state post (next (state.typing.types.kindOf id))) :
    Asks allowed state post (TypeCheck.kindOf id >>= next) :=
  asks

theorem label {next : String → AnalysisM α}
    (asks : Asks allowed state post (next (state.typing.types.label id))) :
    Asks allowed state post (TypeCheck.label id >>= next) :=
  asks

theorem behind {action : AnalysisM α} (asks : Asks allowed state post action) :
    Furthers allowed state (Acts.behind (action state)) := by
  unfold Asks at asks
  cases ran : action state with
  | ok value after =>
    rw [ran] at asks
    exact asks.1
  | error abort after =>
    rw [ran] at asks
    exact asks

section

variable (grounded : Grounded state.typing)

include grounded

/-- What does not touch the types asks for none. -/
theorem of_typing_eq {action : AnalysisM α} (same : (Acts.behind (action state)).typing = state.typing) :
    Asks allowed state TypeM.Anything action := by
  unfold Asks
  cases ran : action state with
  | ok value after =>
    rw [ran] at same
    exact ⟨.of_typing_eq grounded same, trivial⟩
  | error abort after =>
    rw [ran] at same
    exact .of_typing_eq grounded same

theorem report (diagnostic : Diagnostic) :
    Asks allowed state TypeM.Anything (AnalysisM.report diagnostic) := by
  refine .of_typing_eq grounded ?_
  unfold AnalysisM.report
  dsimp only
  cases (state.sink.report diagnostic).2 <;> rfl

theorem error (code : Code) (span : Span) (args : List String) :
    Asks allowed state TypeM.Anything (AnalysisM.error code span args) :=
  report grounded _

theorem inTypes {action : TypeM α}
    (makes : TypeM.Makes allowed state.typing.types post action) :
    Asks allowed state post (AnalysisM.inTypes action) := by
  obtain ⟨served, holds⟩ := makes
  exact ⟨⟨⟨served.sound grounded.sound, fun found => served.lt_size (grounded.exprTypes found),
    fun found => served.lt_size (grounded.declTypes found),
    fun found => served.lt_size (grounded.nominal found),
    fun found => served.lt_size (grounded.written found)⟩, served⟩, holds⟩

end

theorem modifyTyping {change : Typing → Typing} (grounded : Grounded (change state.typing))
    (types : (change state.typing).types = state.typing.types) :
    Asks allowed state TypeM.Anything (AnalysisM.modifyTyping change) :=
  ⟨⟨grounded, types ▸ .refl⟩, trivial⟩

section

variable (grounded : Grounded state.typing)

include grounded

theorem mapM {items : List α} {action : α → AnalysisM TypeId}
    (each : ∀ item ∈ items, ∀ after, Furthers allowed state after →
      Asks allowed after There (action item)) :
    Asks allowed state AllThere (items.mapM action) := by
  induction items generalizing state with
  | nil => exact .pure grounded nofun
  | cons item rest inductionHypothesis =>
    rw [List.mapM_cons]
    refine .bind (each item (.head _) state (.refl grounded)) fun first middle onward isFirst =>
      .bind (inductionHypothesis onward.grounded fun other among after onward' =>
        each other (.tail _ among) after (onward.trans onward')) fun others after onward' areThere =>
          .pure onward'.grounded fun type among => ?_
    rcases List.mem_cons.mp among with rfl | among
    · exact onward'.lt_size isFirst
    · exact areThere type among

theorem foldlM {step : β → α → AnalysisM β} {items : List α} {start : β}
    {kept : β → TypeTable → Prop} (holds : kept start state.typing.types)
    (each : ∀ item ∈ items, ∀ value after, Furthers allowed state after →
      kept value after.typing.types → Asks allowed after kept (step value item)) :
    Asks allowed state kept (items.foldlM step start) := by
  induction items generalizing state start with
  | nil => exact .pure grounded holds
  | cons item rest inductionHypothesis =>
    rw [List.foldlM_cons]
    exact .bind (each item (.head _) start state (.refl grounded) holds)
      fun value middle onward holds => inductionHypothesis onward.grounded holds
        fun other among value after onward' =>
          each other (.tail _ among) value after (onward.trans onward')

theorem forM {items : List α} {action : α → AnalysisM PUnit}
    (each : ∀ item ∈ items, ∀ after, Furthers allowed state after →
      Asks allowed after TypeM.Anything (action item)) :
    Asks allowed state TypeM.Anything (items.forM action) := by
  induction items generalizing state with
  | nil => exact .pure grounded trivial
  | cons item rest inductionHypothesis =>
    exact .bind (each item (.head _) state (.refl grounded)) fun _ middle onward _ =>
      inductionHypothesis onward.grounded fun other among after onward' =>
        each other (.tail _ among) after (onward.trans onward')

theorem optionForM {item : Option α} {action : α → AnalysisM PUnit}
    (each : ∀ item, Asks allowed state TypeM.Anything (action item)) :
    Asks allowed state TypeM.Anything (item.forM action) := by
  cases item with
  | none => exact .pure grounded trivial
  | some item => exact each item

end

theorem ensuring {action : AnalysisM α} {cleanup : Analysis → Analysis}
    (typing : ∀ state, (cleanup state).typing = state.typing)
    (asks : Asks allowed state post action) :
    Asks allowed state post (AnalysisM.ensuring cleanup action) := by
  have cleaned {after : Analysis} (onward : Furthers allowed state after) :
      Furthers allowed state (cleanup after) :=
    ⟨(typing after).symm ▸ onward.grounded, (typing after).symm ▸ onward.served⟩
  unfold Asks AnalysisM.ensuring at *
  cases ran : action state with
  | ok value after =>
    rw [ran] at asks
    exact ⟨cleaned asks.1, (typing after).symm ▸ asks.2⟩
  | error abort after =>
    rw [ran] at asks
    exact cleaned asks

end Asks

namespace TypeCheck

open AnalysisM TypeM

variable (permits : Permits allowed)

/-! ### Elementary actions -/

theorem getElem?_insert_cases {κ : Type} [Ord κ] [Std.TransOrd κ] [Std.LawfulEqOrd κ]
    {known : Std.TreeMap κ TypeId} {key other : κ} {type found : TypeId}
    (isFound : (known.insert key type)[other]? = some found) :
    found = type ∨ known[other]? = some found := by
  rw [Std.TreeMap.getElem?_insert] at isFound
  split at isFound
  · exact .inl (Option.some.inj isFound).symm
  · exact .inr isFound

section

variable (grounded : Grounded state.typing)

include grounded

theorem asks_recordNominal (decl : DeclId)
    (there : There type state.typing.types) :
    Asks allowed state Anything (recordNominal decl type) :=
  .modifyTyping ⟨grounded.sound, grounded.exprTypes, grounded.declTypes, fun found =>
    (getElem?_insert_cases found).elim (· ▸ there) grounded.nominal, grounded.written⟩ rfl

theorem asks_recordExpr (id : ExprId)
    (there : There type state.typing.types) : Asks allowed state Anything (recordExpr id type) :=
  .modifyTyping ⟨grounded.sound, fun found =>
    (getElem?_insert_cases found).elim (· ▸ there) grounded.exprTypes, grounded.declTypes,
    grounded.nominal, grounded.written⟩ rfl

theorem asks_recordDecl (id : DeclId)
    (there : There type state.typing.types) : Asks allowed state Anything (recordDecl id type) :=
  .modifyTyping ⟨grounded.sound, grounded.exprTypes, fun found =>
    (getElem?_insert_cases found).elim (· ▸ there) grounded.declTypes, grounded.nominal,
    grounded.written⟩ rfl

/-- A type that is unknown. -/
theorem asks_zero : Asks allowed state There (pure 0) :=
  .pure grounded grounded.zero

end

section Permitted

include permits

theorem asks_compatible (grounded : Grounded state.typing) (left right : TypeId) :
    Asks allowed state Anything (compatible left right) :=
  .inTypes grounded (answers_compatible permits left right _ grounded.sound)

theorem asks_sequenceOf {make : TypeId → UInt8 → TypeForm} (surrounds : Surrounds make)
    {sameKind : TypeForm → Bool}
    (isSame : ∀ form elem dims, sameKind form = true ↔ form.kind = (make elem dims).kind)
    (grounded : Grounded state.typing) (there : There elem state.typing.types) (dims : UInt8) :
    Asks allowed state There (sequenceOf make sameKind elem dims) := by
  unfold sequenceOf
  split
  · exact asks_zero grounded
  · refine .types ?_
    split
    · next inner isInner =>
      obtain ⟨isForm, same⟩ := Option.filter_eq_some_iff.mp isInner
      exact .inTypes grounded (.intern grounded.sound
        (surrounds.held (grounded.sound.elem_lt_size isForm))
        (permits.inner isForm ((isSame ..).mp same) (surrounds.elem ..).symm))
    · next other =>
      refine .inTypes grounded (.intern grounded.sound (surrounds.held there) (permits.fresh ?_))
      rw [surrounds.elem]
      intro isKind
      unfold TypeTable.kindOf at isKind
      split at isKind
      · next form isForm =>
        exact Option.filter_eq_none_iff.mp other form isForm ((isSame ..).mpr isKind)
      · exact surrounds.known _ _ isKind.symm

theorem asks_listOf (grounded : Grounded state.typing) (there : There elem state.typing.types)
    (dims : UInt8) : Asks allowed state There (listOf elem dims) :=
  asks_sequenceOf permits surrounds_list (fun _ _ _ => decide_eq_true_iff) grounded there dims

theorem asks_arrayOf (grounded : Grounded state.typing) (there : There elem state.typing.types)
    (dims : UInt8) : Asks allowed state There (arrayOf elem dims) :=
  asks_sequenceOf permits surrounds_array (fun _ _ _ => decide_eq_true_iff) grounded there dims

variable (tree : Tree)

omit permits in
theorem asks_checkConstraint (grounded : Grounded state.typing) (param : DeclId) (arg : TypeId)
    (span : Span) : Asks allowed state Anything (checkConstraint tree param arg span) := by
  unfold checkConstraint
  split
  · exact .pure grounded trivial
  · refine .types ?_
    split
    · exact .pure grounded trivial
    · exact .label (.error grounded ..)

omit permits in
theorem asks_labels (grounded : Grounded state.typing) (ids : List TypeId) :
    Asks allowed state Anything (ids.mapM label) := by
  induction ids with
  | nil => exact .pure grounded trivial
  | cons id rest inductionHypothesis =>
    rw [List.mapM_cons]
    exact .label (.bind inductionHypothesis fun _ _ onward _ => .pure onward.grounded trivial)

/-! ### Types of declarations and written types -/

omit permits in
theorem asks_simpleNominal (grounded : Grounded state.typing) (id : DeclId) :
    Asks allowed state There (simpleNominal tree id) := by
  have introduce {action : TypeM TypeId}
      (makes : Makes allowed state.typing.types There action) :
      Asks allowed state There (do
        let type ← inTypes action
        recordNominal id type
        return type) :=
    .bind (.inTypes grounded makes) fun type after onward there =>
      .bind (asks_recordNominal onward.grounded id there) fun _ after' onward' _ =>
        .pure onward'.grounded (onward'.lt_size there)
  refine .read ?_
  split
  · next known isKnown => exact .pure grounded (grounded.nominal isKnown)
  · split
    · exact introduce (makes_registerEnum ..)
    · exact introduce (makes_registerParam ..)
    · exact asks_zero grounded

/-- Conversions of written types, from whatever state they start. -/
def Supplies (allowed : TypeTable → TypeForm → Prop) (typeOf : Option TypeExprId → AnalysisM TypeId) :
    Prop :=
  ∀ id (state : Analysis), Grounded state.typing → Asks allowed state There (typeOf id)

section Written

variable {typeOf : Option TypeExprId → AnalysisM TypeId} (supplies : Supplies allowed typeOf)

include supplies

omit permits in
theorem asks_nominalUsing (grounded : Grounded state.typing) (id : DeclId) :
    Asks allowed state There (nominalUsing tree typeOf id) := by
  refine .read ?_
  split
  · next known isKnown => exact .pure grounded (grounded.nominal isKnown)
  · split
    · exact asks_simpleNominal tree grounded id
    · next body _ =>
      refine .bind (.inTypes grounded (makes_registerClass ..))
        fun type after onward there => .bind (asks_recordNominal onward.grounded id there)
          fun _ middle onward' _ => ?_
      have finish (_ : Unit) {middle : Analysis} (grounded : Grounded middle.typing)
          (there : There type middle.typing.types) : Asks allowed middle There (do
            if (← get).names.bases.contains id then
              let base ← typeOf body.base
              if (← kindOf base) = .classType then inTypes (modify (·.setBase type base))
            return type) := by
        refine .read ?_
        split
        · refine .bind (supplies _ _ grounded) fun base after onward isBase => .kindOf ?_
          split
          · exact .bind (.inTypes onward.grounded
              (⟨.single (.setBase type isBase), trivial⟩ : Makes allowed _ Anything _))
              fun _ _ onward' _ => .pure onward'.grounded (onward'.lt_size (onward.lt_size there))
          · exact .pure onward.grounded (onward.lt_size there)
        · exact .pure grounded there
      dsimp only
      have there := onward'.lt_size there
      split
      · exact .bind (.mapM onward'.grounded fun param _ after onward =>
          asks_simpleNominal tree onward.grounded param) fun params after onward _ =>
            .bind (.inTypes onward.grounded
              (⟨.single (.setParams ..), trivial⟩ : Makes allowed _ Anything _))
              fun _ _ onward' _ => finish ⟨⟩ onward'.grounded (onward'.lt_size (onward.lt_size there))
      · exact finish ⟨⟩ onward'.grounded there

omit permits in
theorem asks_instantiateWritten (grounded : Grounded state.typing) (span : Span) (decl : DeclId)
    {generic : TypeId} (there : There generic state.typing.types) (args : List (Option TypeExprId)) :
    Asks allowed state There (instantiateWritten tree typeOf span decl generic args) := by
  unfold instantiateWritten
  dsimp only
  split
  · exact .bind (.error grounded ..) fun _ _ onward _ => .pure onward.grounded (onward.lt_size there)
  · refine .bind (.mapM grounded fun arg _ _ onward => supplies arg _ onward.grounded)
      fun argTypes after onward areThere =>
        .bind (.forM onward.grounded fun entry _ middle onward' => ?_)
        fun _ middle onward' _ => .inTypes onward'.grounded
          (.instantiate onward'.grounded.sound generic (onward'.all_lt_size areThere))
    obtain ⟨param, argType, arg⟩ := entry
    dsimp only
    split
    · exact asks_checkConstraint tree onward'.grounded ..
    · exact .refl onward'.grounded

theorem asks_convertUsing (grounded : Grounded state.typing) (id : TypeExprId) (written : TypeExpr) :
    Asks allowed state There (convertUsing tree typeOf id written) := by
  unfold convertUsing
  split
  · split
    · next type isType =>
      exact .pure grounded (basic_lt grounded.sound (builtin?_lt isType))
    · refine .read ?_
      split
      · exact asks_zero grounded
      · refine .bind (asks_nominalUsing tree supplies grounded _) fun type after onward there =>
          .kindOf ?_
        split
        · exact .pure onward.grounded there
        · exact asks_instantiateWritten tree supplies onward.grounded _ _ there _
  · exact .bind (supplies _ _ grounded) fun _ _ onward there =>
      asks_listOf permits onward.grounded there _
  · exact .bind (supplies _ _ grounded) fun _ _ onward there =>
      asks_arrayOf permits onward.grounded there _
  · exact .bind (.mapM grounded fun member _ _ onward => supplies member _ onward.grounded)
      fun types _ onward areThere => .inTypes onward.grounded (.makeTuple areThere)
  · exact .bind (.mapM grounded fun member _ _ onward => supplies member _ onward.grounded)
      fun types _ onward areThere => .inTypes onward.grounded (.makeMulti onward.grounded.sound areThere)

end Written

theorem supplies_typeWithin (fuel : Nat) : Supplies allowed (typeWithin tree fuel) := by
  induction fuel with
  | zero => exact fun _ _ grounded => asks_zero grounded
  | succ fuel inductionHypothesis =>
    intro id state grounded
    unfold typeWithin
    split
    · exact asks_zero grounded
    · next id =>
      have record {after : Analysis} (type : TypeId) (grounded : Grounded after.typing)
          (there : There type after.typing.types) : Asks allowed after There (do
            modifyTyping fun typing => { typing with written := typing.written.insert id type }
            return type) :=
        .bind (.modifyTyping ⟨grounded.sound, grounded.exprTypes, grounded.declTypes,
          grounded.nominal, fun found =>
            (getElem?_insert_cases found).elim (· ▸ there) grounded.written⟩ rfl)
          fun _ _ onward _ => .pure onward.grounded (onward.lt_size there)
      refine .read ?_
      split
      · next known isKnown => exact .pure grounded (grounded.written isKnown)
      · dsimp only
        split
        · exact .bind (asks_convertUsing permits tree inductionHypothesis grounded _ _)
            fun type _ onward there => record type onward.grounded there
        · exact .bind (asks_zero grounded) fun type _ onward there => record type onward.grounded there

theorem supplies_typeOf : Supplies allowed (typeOf tree) := supplies_typeWithin permits tree _

theorem asks_nominal (grounded : Grounded state.typing) (id : DeclId) :
    Asks allowed state There (nominal tree id) :=
  asks_nominalUsing tree (supplies_typeOf permits tree) grounded id

theorem asks_declaredType? (grounded : Grounded state.typing) (id : DeclId) (decl : Decl) :
    Asks allowed state IfThere (declaredType? tree id decl) := by
  have found {action : AnalysisM TypeId} (asks : Asks allowed state There action) :
      Asks allowed state IfThere (do return some (← action)) :=
    .bind asks fun type _ onward there => .pure onward.grounded fun other same =>
      Option.some.inj same ▸ there
  have none : Asks allowed state IfThere (pure none) := .pure grounded nofun
  have written (type : Option TypeExprId) := found (supplies_typeOf permits tree type state grounded)
  have introduced (id : DeclId) := found (asks_nominal permits tree grounded id)
  unfold declaredType?
  split
  · split
    · exact none
    · exact written _
  · split
    · exact none
    · exact written _
  · split
    · exact none
    · exact written _
  · split
    · exact none
    · exact written _
  · dsimp only
    split
    · exact introduced _
    · exact found (asks_zero grounded)
  · split
    · exact .pure grounded fun type same =>
        Option.some.inj same ▸ basic_lt grounded.sound (by decide)
    · exact written _
  · split
    · exact .pure grounded fun type same =>
        Option.some.inj same ▸ basic_lt grounded.sound (by decide)
    · exact written _
  · exact introduced _
  · exact introduced _
  · exact introduced _
  · exact none

theorem asks_declType (grounded : Grounded state.typing) (id : DeclId) :
    Asks allowed state There (declType tree id) := by
  refine .read ?_
  split
  · next known isKnown => exact .pure grounded (grounded.declTypes isKnown)
  · split
    · exact asks_zero grounded
    · refine .bind (asks_declaredType? permits tree grounded id _) fun found after onward ifThere => ?_
      split
      · exact asks_zero onward.grounded
      · next type =>
        have there := ifThere type rfl
        exact .bind (asks_recordDecl onward.grounded id there) fun _ _ onward' _ =>
          .pure onward'.grounded (onward'.lt_size there)

/-! ### Members -/

theorem asks_throughReceiver (grounded : Grounded state.typing)
    (there : There type state.typing.types) (member : DeclId) (receiver : TypeId) :
    Asks allowed state There (throughReceiver tree type member receiver) := by
  unfold throughReceiver
  split
  · exact .pure grounded there
  · refine .kindOf ?_
    split
    · exact .pure grounded there
    · refine .bind (.inTypes grounded (makes_ancestors permits grounded.sound receiver))
        fun chain after onward _ => .types ?_
      have there := onward.lt_size there
      split
      · exact .pure onward.grounded there
      · split
        · exact .pure onward.grounded there
        · next info isClass =>
          split
          · exact .pure onward.grounded there
          · refine .inTypes onward.grounded (makes_substitute (permits.rebuilds _ _)
              onward.grounded.sound (fun arg among => ?_) there)
            exact Nat.lt_trans
              (onward.grounded.sound.part_lt_of_classInfo? isClass arg (.tail _ among))
              (lt_size_of_classInfo isClass)

theorem asks_memberType (grounded : Grounded state.typing) (member : DeclId) (receiver : TypeId) :
    Asks allowed state There (memberType tree member receiver) :=
  .bind (asks_declType permits tree grounded member) fun _ _ onward there =>
    asks_throughReceiver permits tree onward.grounded there ..

/-! ### Overloads -/

/-- What a fitting candidate binds its parameters to is there. -/
def FitThere (fit : Fit) (table : TypeTable) : Prop :=
  ∀ overload, fit = .fits overload → AllThere overload.binding table

def PickThere (picked : Except Bool Overload) (table : TypeTable) : Prop :=
  ∀ overload, picked = .ok overload → AllThere overload.binding table

def ChoiceThere (choice : Option Overload) (table : TypeTable) : Prop :=
  ∀ overload ∈ choice, AllThere overload.binding table

section

variable (grounded : Grounded state.typing)

include grounded

theorem asks_tryCandidate (areArgs : AllThere args state.typing.types)
    (areExplicit : AllThere explicit state.typing.types) (receiver : TypeId) (id : DeclId) :
    Asks allowed state FitThere (tryCandidate tree args explicit receiver id) := by
  have misfit {after : Analysis} (grounded : Grounded after.typing) :
      Asks allowed after FitThere (pure .misfit) := .pure grounded nofun
  unfold tryCandidate
  split
  · exact misfit grounded
  · split
    · exact misfit grounded
    · refine .bind
        (.mapM grounded fun param _ _ onward => asks_nominal permits tree onward.grounded param)
        fun params after onward _ => .bind (.mapM onward.grounded fun param _ _ onward =>
          .bind (asks_declType permits tree onward.grounded param) fun _ _ onward there =>
            asks_throughReceiver permits tree onward.grounded there ..)
          fun formals middle onward' areFormals => ?_
      have lifted := onward.trans onward'
      have finish {binding : List TypeId} {after : Analysis} (onward : Furthers allowed middle after)
          (bound : AllThere binding after.typing.types) : Asks allowed after FitThere (do
            let overload : Overload := { decl := id, params, binding }
            return if ← inTypes (exactArgs overload (formals.zip args)) then Fit.fits overload
              else Fit.misfit) := by
        refine .bind (.inTypes onward.grounded (makes_exactArgs permits onward.grounded.sound bound
          fun pair among => onward.lt_size (areFormals _ (List.of_mem_zip among).1)))
          fun fits after' onward' _ => .pure onward'.grounded fun overload same => ?_
        split at same
        · rw [← Fit.fits.inj same]
          exact onward'.all_lt_size bound
        · nomatch same
      split
      · exact .pure onward'.grounded nofun
      · dsimp only
        split
        · exact finish (.refl onward'.grounded) (lifted.all_lt_size areExplicit)
        · split
          · exact .bind (.inTypes onward'.grounded
              (makes_infer permits params formals onward'.grounded.sound (lifted.all_lt_size areArgs)))
              fun _ _ onward bound => finish onward bound
          · exact finish (.refl onward'.grounded) nofun

theorem asks_pick (areArgs : AllThere args state.typing.types)
    (areExplicit : AllThere explicit state.typing.types) (receiver : TypeId) (miscounted : Bool)
    (candidates : List DeclId) :
    Asks allowed state PickThere (pick tree args explicit receiver miscounted candidates) := by
  induction candidates generalizing state miscounted with
  | nil => exact .pure grounded nofun
  | cons id rest inductionHypothesis =>
    refine .bind (asks_tryCandidate permits tree grounded areArgs areExplicit receiver id)
      fun fit after onward fitThere => ?_
    have others (miscounted : Bool) := inductionHypothesis onward.grounded
      (onward.all_lt_size areArgs) (onward.all_lt_size areExplicit) miscounted
    split
    · next overload =>
      exact .pure onward.grounded fun other same => Except.ok.inj same ▸ fitThere overload rfl
    · exact others _
    · exact others _

theorem asks_choose (name : String) (candidates : List DeclId)
    (areArgs : AllThere args state.typing.types)
    (areExplicit : AllThere explicit state.typing.types) (receiver : TypeId) (span : Span) :
    Asks allowed state ChoiceThere (choose tree name candidates args explicit receiver span) := by
  refine .bind (asks_pick permits tree grounded areArgs areExplicit receiver false candidates)
    fun picked after onward pickThere => ?_
  split
  · next overload =>
    refine .bind (.forM onward.grounded fun entry _ _ onward =>
      asks_checkConstraint tree onward.grounded ..) fun _ after' onward' _ =>
        .pure onward'.grounded fun other same => ?_
    rw [← Option.some.inj same]
    exact onward'.all_lt_size (pickThere overload rfl)
  · dsimp only
    split
    · exact .bind (.error onward.grounded ..) fun _ _ onward _ => .pure onward.grounded nofun
    · exact .bind (asks_labels onward.grounded args) fun _ _ onward _ =>
        .bind (.error onward.grounded ..) fun _ _ onward _ => .pure onward.grounded nofun

theorem asks_resultType (bound : AllThere overload.binding state.typing.types) (receiver : TypeId) :
    Asks allowed state There (TypeCheck.resultType tree overload receiver) := by
  refine .bind (asks_declType permits tree grounded _) fun declared after onward there =>
    .bind (.inTypes onward.grounded (makes_substitute (permits.rebuilds _ _) onward.grounded.sound
      (onward.all_lt_size bound) there)) fun type after' onward' there' => ?_
  split
  · exact asks_throughReceiver permits tree onward'.grounded there' ..
  · exact .pure onward'.grounded there'

end

end Permitted

end TypeCheck

end TreeCheck
