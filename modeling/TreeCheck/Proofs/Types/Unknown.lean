/-
Where the unknown type comes from. Operators, literals, tuples and lists give a known type
for parts of known types, or else an error is reported. So in a program without errors an
expression of unknown type owes that to one at or below it whose type is looked up: that of
a declaration, of a written type or of a part of a type. Nothing else lets a type get lost.
-/

import TreeCheck.Proofs.Pipeline.Verdict

namespace TreeCheck

variable {table : TypeTable} {op : UnaryOp} {type left value : TypeId} {form : TypeForm}
  {span : Span} {middle : Analysis} {elems : List ExprId}

/-- Whether the type of an expression is that of a declaration, of a part of a type, or of what
is written there as a type. -/
def ExprForm.looksUp : ExprForm → Bool
  | .name _ | .this | .field .. | .index .. | .call .. | .methodCall .. | .cast .. | .create .. => true
  | .list written elems => written.isSome && elems.isEmpty
  | .literal .. | .binary .. | .unary .. | .tuple _ => false

/-! ### Types that are made are known -/

theorem TypeTable.unaryType?_ne_zero {operand : TypeId} (known : operand ≠ 0)
    (found : table.unaryType? op operand = some type) : type ≠ 0 := by
  unfold unaryType? at found
  split at found
  · cases found
    split
    · exact known
    · decide
  · nomatch found

namespace TypeM

theorem resultType_ne_zero (known : left ≠ 0) (result : BinaryResult) (right : TypeId) :
    resultType table result left right ≠ 0 := by
  cases result with
  | left => exact known
  | bool => exact nofun
  | concat =>
    unfold resultType
    dsimp only
    split <;> decide

theorem firstFitting_ne_zero (known : left ≠ 0) {right : TypeId} {rules : List BinaryRule}
    (found : ((firstFitting left right rules).run table).1 = some type) : type ≠ 0 := by
  induction rules generalizing table with
  | nil => nomatch found
  | cons rule rest inductionHypothesis =>
    rcases tried : (ruleFits rule left right).run table with ⟨fits, after⟩
    rw [firstFitting, run_bind_eq tried] at found
    cases fits with
    | true =>
      cases found
      exact resultType_ne_zero known _ _
    | false => exact inductionHypothesis found

end TypeM

namespace TypeCheck

open AnalysisM TypeM

variable {tree : Tree} {loose : List Node}

/-! ### Operators and lists -/

section Operators

variable {op : BinaryOp} {span : Span} {left right operand elem : TypeId} {before after : Analysis}

theorem unaryType_known {op : UnaryOp} (known : operand ≠ 0)
    (ran : unaryType op span operand before = .ok 0 after) : ¬after.sink.Spotless := by
  unfold unaryType at ran
  rw [if_neg known] at ran
  obtain ⟨_, _, isTable, ran⟩ := bind_eq_ok ran
  cases isTable
  cases found : before.typing.types.unaryType? op operand with
  | some type =>
    rw [found] at ran
    cases ran
    exact absurd rfl (TypeTable.unaryType?_ne_zero known found)
  | none =>
    rw [found] at ran
    obtain ⟨_, _, -, ran⟩ := bind_eq_ok ran
    obtain ⟨_, _, reported, ends⟩ := bind_eq_ok ran
    cases ends
    exact not_spotless_of_error rfl reported

theorem binaryType_known (known : left ≠ 0) (known' : right ≠ 0)
    (ran : binaryType op span left right before = .ok 0 after) : ¬after.sink.Spotless := by
  unfold binaryType at ran
  rw [if_neg (by simp [known, known'])] at ran
  obtain ⟨found, _, isType, ran⟩ := bind_eq_ok ran
  cases found with
  | some type =>
    cases ran
    obtain ⟨isType, -⟩ := EStateM.Result.ok.inj isType
    exact absurd rfl (firstFitting_ne_zero known isType)
  | none =>
    obtain ⟨_, _, -, ran⟩ := bind_eq_ok ran
    obtain ⟨_, _, -, ran⟩ := bind_eq_ok ran
    obtain ⟨_, _, -, ran⟩ := bind_eq_ok ran
    dsimp only at ran
    split at ran
    · obtain ⟨_, _, -, ran⟩ := bind_eq_ok ran
      obtain ⟨_, _, reported, ends⟩ := bind_eq_ok ran
      cases ends
      exact not_spotless_of_error rfl reported
    · obtain ⟨_, _, reported, ends⟩ := bind_eq_ok ran
      cases ends
      exact not_spotless_of_error rfl reported

theorem listOf_known (grown : ({} : TypeTable).Grows before.typing.types) {dims : UInt8}
    (known : elem ≠ 0) (ran : listOf elem dims before = .ok value after) : value ≠ 0 :=
  sequenceOf_ne_zero (grown.form rfl) (fun _ _ (same : TypeForm.list .. = _) => nomatch same) known ran

end Operators

/-! ### What a check records -/

/-- Where there are no errors, an expression of unknown type is one whose type is looked up, or a
part of it is of unknown type. -/
structure Accounts (tree : Tree) (state : Analysis) (id : ExprId) : Prop where
  unknown : state.sink.Spotless → state.typing.exprTypes[id]? = some 0 →
    ∃ expr, tree.exprs.get? id = some expr ∧ (expr.form.looksUp ∨
      ∃ part, .expr part ∈ expr.form.parts ∧ state.typing.exprTypes[part]? = some 0)

theorem lasting_accounts : Lasting tree (Accounts tree) := by
  refine fun {before after id} keeps accounts => ⟨fun clean unknown => ?_⟩
  rw [keeps.exprTypes .refl] at unknown
  obtain ⟨expr, isExpr, cause⟩ := accounts.unknown (keeps.spotless clean) unknown
  refine ⟨expr, isExpr, cause.imp_right ?_⟩
  rintro ⟨part, isPart, partUnknown⟩
  have below : tree.Reaches (.expr id) (.expr part) :=
      .single (by simpa [Tree.parts, isExpr] using isPart)
  exact ⟨part, isPart, (keeps.exprTypes below).trans partUnknown⟩

/-- The type of some part of an expression is recorded as unknown. -/
def UnknownPart (tree : Tree) (id : ExprId) (state : Analysis) : Prop :=
  ∃ part, .expr part ∈ tree.parts (.expr id) ∧ state.typing.exprTypes[part]? = some 0

section Checks

variable (forest : tree.Forest loose) {place : Place} {fuel id part : Nat} {expected value : TypeId}
  {before after : Analysis}
  (lower : ∀ {part : Nat}, .expr part ∈ tree.parts (.expr id) → part < fuel)

include lower

theorem recorded_of_check (isPart : .expr part ∈ tree.parts (.expr id))
    (ran : exprWithin tree place fuel part expected before = .ok value after) :
    after.typing.exprTypes[part]? = some value := by
  have enough := lower isPart
  obtain ⟨fuel, rfl⟩ : ∃ less, fuel = less + 1 := ⟨fuel - 1, by omega⟩
  exact (records_exprWithin ..).recorded ran

theorem unary_accounts {operand : Nat} (isOperand : .expr operand ∈ tree.parts (.expr id))
    (checked : exprWithin tree place fuel operand 0 before = .ok type middle)
    (ran : unaryType op span type middle = .ok 0 after) (clean : after.sink.Spotless) :
    UnknownPart tree id after := by
  have recorded := recorded_of_check lower isOperand checked
  rw [← @exprTypes_of_checks _ _ _ _ _ tree (acts_unaryType ..) ran] at recorded
  by_cases known : type = 0
  · exact ⟨operand, isOperand, known ▸ recorded⟩
  · exact absurd clean (unaryType_known known ran)

include forest

theorem keeps_of_check (isPart : .expr part ∈ tree.parts (.expr id))
    (ran : exprWithin tree place fuel part expected before = .ok value after) :
    before.Keeps (fun id => ¬tree.Reaches (.expr part) (.expr id)) after :=
  keeps_exprWithin forest (lower isPart) (forest.holds_part isPart) ran

variable (holds : tree.Holds (.expr id))

include holds

/-- A check of a part records nothing about the other parts. -/
theorem kept_by_check (isPart : .expr part ∈ tree.parts (.expr id)) {other : Nat}
    (isOther : .expr other ∈ tree.parts (.expr id)) (different : other ≠ part)
    (ran : exprWithin tree place fuel part expected before = .ok value after) :
    after.typing.exprTypes[other]? = before.typing.exprTypes[other]? := by
  refine (keeps_of_check forest lower isPart ran).exprTypes fun below => ?_
  exact different (Node.expr.inj (forest.parts_apart holds isOther isPart .refl below))

theorem binary_accounts {op : BinaryOp} {left right : Nat} (different : left ≠ right)
    (isLeft : .expr left ∈ tree.parts (.expr id)) (isRight : .expr right ∈ tree.parts (.expr id))
    {leftType rightType : TypeId} {last : Analysis}
    (checked : exprWithin tree place fuel left 0 before = .ok leftType middle)
    (checked' : exprWithin tree place fuel right leftType middle = .ok rightType last)
    (ran : binaryType op span leftType rightType last = .ok 0 after) (clean : after.sink.Spotless) :
    UnknownPart tree id after := by
  have leftRecorded := recorded_of_check lower isLeft checked
  rw [← kept_by_check forest lower holds isRight isLeft different checked'] at leftRecorded
  have rightRecorded := recorded_of_check lower isRight checked'
  have kept := @exprTypes_of_checks _ _ _ _ _ tree (acts_binaryType ..) ran
  rw [← kept] at leftRecorded rightRecorded
  by_cases known : leftType = 0
  · exact ⟨left, isLeft, known ▸ leftRecorded⟩
  · by_cases known' : rightType = 0
    · exact ⟨right, isRight, known' ▸ rightRecorded⟩
    · exact absurd clean (binaryType_known known known' ran)

/-- Elements are of a known type unless all of them are of unknown type. -/
theorem elements_account {hint elem : TypeId} (once : elems.Nodup)
    (areParts : ∀ elem ∈ elems, .expr elem ∈ tree.parts (.expr id))
    (ran : elems.foldlM (checkElement tree (exprWithin tree place fuel) hint) elem before =
      .ok 0 after) :
    elem = 0 ∧ (∀ first ∈ elems, after.typing.exprTypes[first]? = some 0) ∧
      ∀ other, .expr other ∈ tree.parts (.expr id) → other ∉ elems →
        after.typing.exprTypes[other]? = before.typing.exprTypes[other]? := by
  induction elems generalizing elem before with
  | nil =>
    cases ran
    exact ⟨rfl, by simp, fun _ _ _ => rfl⟩
  | cons first rest inductionHypothesis =>
    obtain ⟨notLater, once⟩ := List.nodup_cons.mp once
    have isFirst := areParts first (.head _)
    obtain ⟨found, middle, ran, goesOn⟩ := bind_eq_ok ran
    obtain ⟨rfl, unknown, kept⟩ := inductionHypothesis once
      (fun elem member => areParts elem (.tail _ member)) goesOn
    obtain ⟨type, _, checked, ran⟩ := bind_eq_ok ran
    split at ran
    · next start =>
      cases ran
      refine ⟨start, ?_, fun other isOther apart => ?_⟩
      · rintro elem (_ | ⟨_, member⟩)
        · rw [kept first isFirst notLater]
          exact recorded_of_check lower isFirst checked
        · exact unknown elem member
      · obtain ⟨different, apart⟩ := List.ne_and_not_mem_of_not_mem_cons apart
        rw [kept other isOther apart]
        exact kept_by_check forest lower holds isFirst isOther different checked
    · next start =>
      obtain ⟨fits, _, -, ran⟩ := bind_eq_ok ran
      dsimp only at ran
      split at ran
      · obtain ⟨_, _, -, ran⟩ := bind_eq_ok ran
        obtain ⟨_, _, -, ran⟩ := bind_eq_ok ran
        obtain ⟨_, _, -, ran⟩ := bind_eq_ok ran
        exact absurd (EStateM.Result.ok.inj ran).1 start
      · exact absurd (EStateM.Result.ok.inj ran).1 start

theorem list_accounts (grown : ({} : TypeTable).Grows before.typing.types)
    {written : Option TypeExprId} (once : elems.Nodup)
    (areParts : ∀ elem ∈ elems, .expr elem ∈ tree.parts (.expr id))
    (ran : listType tree (exprWithin tree place fuel) span expected written elems before = .ok 0 after)
    (clean : after.sink.Spotless) :
    (ExprForm.list written elems).looksUp ∨ UnknownPart tree id after := by
  obtain ⟨elem, middle, converted, ran⟩ := bind_eq_ok ran
  have grown := grown.trans (keeps_of_checks (@checks_typeOf nowhere tree _) converted).types
  cases elems with
  | nil =>
    rw [if_pos List.isEmpty_nil] at ran
    split at ran
    · next known => exact absurd rfl (listOf_known grown known ran)
    · obtain ⟨kind, _, isKind, ran⟩ := bind_eq_ok ran
      cases isKind
      split at ran
      · next isList =>
        cases ran
        nomatch isList
      · split at ran
        · next isWritten => exact .inl (by simpa [ExprForm.looksUp] using isWritten)
        · obtain ⟨_, _, reported, ends⟩ := bind_eq_ok ran
          cases ends
          exact absurd clean (not_spotless_of_error rfl reported)
  | cons first rest =>
    rw [if_neg (by simp)] at ran
    have finish {hint : TypeId} {middle : Analysis} (grown : ({} : TypeTable).Grows middle.typing.types)
        (ran : (do
          let elem ← (first :: rest).foldlM (checkElement tree (exprWithin tree place fuel) hint) elem
          listOf elem 1) middle = .ok 0 after) : UnknownPart tree id after := by
      obtain ⟨found, last, checked, ran⟩ := bind_eq_ok ran
      have keeps := keeps_of_checks (.foldlM
        (checks_checkElement tree (checks_exprWithin tree place fuel) hint) _ _) checked
      have unknown : found = 0 := by
        by_contra known
        exact listOf_known (grown.trans keeps.types) known ran rfl
      rw [unknown] at checked
      obtain ⟨-, all, -⟩ := elements_account forest lower holds once areParts checked
      refine ⟨first, areParts first (.head _), ?_⟩
      rw [@exprTypes_of_checks _ _ _ _ _ tree (acts_listOf ..) ran]
      exact all first (.head _)
    dsimp only at ran
    split at ran
    · obtain ⟨hint, later, hinted, ran⟩ := bind_eq_ok ran
      exact .inr (finish (grown.trans
        (@keeps_of_checks _ _ nowhere _ _ _ tree (acts_elementHint _) hinted).types) ran)
    · obtain ⟨hint, later, hinted, ran⟩ := bind_eq_ok ran
      cases hinted
      exact .inr (finish grown ran)

end Checks

theorem settling_accounts (forest : tree.Forest loose) : Settling tree (Accounts tree) := by
  refine fun {place fuel id expected value before after} enough holds grown fresh ran =>
    ⟨fun clean unknown => ?_⟩
  obtain ⟨expr, isExpr⟩ := Option.isSome_iff_exists.mp holds
  refine ⟨expr, isExpr, ?_⟩
  cases fuel with
  | zero => omega
  | succ fuel =>
    have parts := tree.parts_expr isExpr
    have lower {part : Nat} (isPart : .expr part ∈ tree.parts (.expr id)) : part < fuel := by
      have := forest.exprsBelow id expr isExpr part (parts ▸ isPart)
      omega
    have once := forest.nodup_parts (.expr id)
    rw [(records_exprWithin ..).recorded ran] at unknown
    cases unknown
    -- The type that was found is recorded last.
    have closes {found : TypeId} {middle : Analysis}
        (ends : (do recordExpr id found; return found) middle = .ok 0 after)
        (accounts : found = 0 → middle.sink.Spotless → expr.form.looksUp ∨ UnknownPart tree id middle) :
        expr.form.looksUp ∨
          ∃ part, .expr part ∈ expr.form.parts ∧ after.typing.exprTypes[part]? = some 0 := by
      obtain ⟨_, last, records, ends⟩ := bind_eq_ok ends
      cases ends
      have checks : Checks tree (Own (.expr id)) (recordExpr id 0) := acts_recordExpr (own id) _
      have keeps := keeps_of_checks checks records
      refine (accounts rfl (keeps.spotless clean)).imp_right ?_
      rintro ⟨part, isPart, partUnknown⟩
      refine ⟨part, parts ▸ isPart, (keeps.exprTypes ?_).trans partUnknown⟩
      intro same
      exact forest.not_reaches_whole holds isPart (Node.expr.inj same ▸ .refl)
    unfold exprWithin at ran
    simp only [isExpr] at ran
    cases form : expr.form with
    | literal kind text =>
      simp only [form] at ran closes
      obtain ⟨found, middle, ran, ends⟩ := bind_eq_ok ran
      refine closes ends fun unknown _ => ?_
      obtain ⟨isType, -⟩ := EStateM.Result.ok.inj ran
      cases kind <;> cases isType.trans unknown
    | binary op left right =>
      rw [parts, form] at once
      have different : left ≠ right := by simpa [ExprForm.parts] using once
      simp only [form] at ran parts closes
      obtain ⟨leftType, _, checked, ran⟩ := bind_eq_ok ran
      obtain ⟨rightType, _, checked', ran⟩ := bind_eq_ok ran
      obtain ⟨found, middle, ran, ends⟩ := bind_eq_ok ran
      refine closes ends fun unknown clean => .inr ?_
      exact binary_accounts forest lower holds different (by simp [parts, ExprForm.parts])
        (by simp [parts, ExprForm.parts]) checked checked' (unknown ▸ ran) clean
    | unary op operand =>
      simp only [form] at ran parts closes
      obtain ⟨type, _, checked, ran⟩ := bind_eq_ok ran
      obtain ⟨found, middle, ran, ends⟩ := bind_eq_ok ran
      refine closes ends fun unknown clean => .inr ?_
      exact unary_accounts lower (by simp [parts, ExprForm.parts]) checked (unknown ▸ ran) clean
    | list written elems =>
      rw [parts, form] at once
      have once : elems.Nodup := (List.nodup_append.mp once).2.1.of_map
      simp only [form] at ran parts closes
      obtain ⟨found, middle, ran, ends⟩ := bind_eq_ok ran
      refine closes ends fun unknown clean => ?_
      exact list_accounts forest lower holds grown once
        (fun elem member => by simp [parts, ExprForm.parts, member]) (unknown ▸ ran) clean
    | tuple elems =>
      simp only [form] at ran closes
      obtain ⟨types, last, checked, ran⟩ := bind_eq_ok ran
      obtain ⟨found, middle, ran, ends⟩ := bind_eq_ok ran
      refine closes ends fun unknown clean => ?_
      have keeps := keeps_of_checks (.mapM (checks_exprWithin tree place fuel · 0) _) checked
      obtain ⟨isType, -⟩ := EStateM.Result.ok.inj ran
      exact absurd (isType.trans unknown)
        (TypeTable.makeTuple_ne_zero ((grown.trans keeps.types).form rfl) types)
    | _ => exact .inl rfl

/-! ### Programs -/

/-- Where a run of all passes finds no errors, an expression of unknown type is one whose type is
looked up, or there is such an expression of unknown type below it. -/
theorem unknown_looked_up {loader : Loader} (loaded : loader.Reached) {root : UnitId}
    {options : BatchOptions} (unlimited : options.limit ≤ 0) {trace : Trace.Recorder} {parent : Nat}
    {outcome : BatchOutcome}
    (ran : Pipeline.full.run loader.tree root options trace parent = .ok outcome)
    (succeeded : outcome.succeeded) {id : ExprId}
    (unknown : outcome.analysis.typing.exprTypes[id]? = some 0) :
    ∃ origin expr, loader.tree.Reaches (.expr id) (.expr origin) ∧
      loader.tree.exprs.get? origin = some expr ∧ expr.form.looksUp ∧
      outcome.analysis.typing.exprTypes[origin]? = some 0 := by
  obtain ⟨resolved, typed, ruled, went, names, typing⟩ :=
    Pipeline.went_of_succeeded unlimited ran succeeded
  have keeps := went.keeps names typing
  obtain ⟨_, _, checks⟩ := went.checks
  induction id using Nat.strong_induction_on with
  | _ id inductionHypothesis =>
    have unknown' : typed.typing.exprTypes[id]? = some 0 := (keeps.exprTypes trivial).symm.trans unknown
    have accounts := went.sound loaded (settling_accounts loaded.forest) lasting_accounts fun blank =>
      nomatch (congrArg Prod.fst blank).symm.trans unknown'
    obtain ⟨expr, isExpr, here | ⟨part, isPart, partUnknown⟩⟩ :=
      accounts.unknown checks.spotless unknown'
    · exact ⟨id, expr, .refl, isExpr, here, unknown⟩
    · have lower := loaded.forest.exprsBelow id expr isExpr part isPart
      have below : .expr part ∈ loader.tree.parts
          (.expr id) := by simpa [Tree.parts, isExpr] using isPart
      obtain ⟨origin, found, reached, rest⟩ :=
        inductionHypothesis part lower ((keeps.exprTypes trivial).trans partUnknown)
      exact ⟨origin, found, .head below reached, rest⟩

/-- A class with a field that has an initial value and no written type, and a variable that is set
to the negation of the field before the class is checked. -/
def earlyAccess : Loader :=
  let named (name : String) : Option Doc.TypeExpr := some { kind := "named", name }
  let object : Doc.Expr := { kind := "new", type := named "A" }
  let access : Doc.Expr := { kind := "field", receiver := some object, name := "f" }
  let one : Doc.Expr := { kind := "lit", lit := "int", value := "1" }
  let document : Doc.Document :=
    { version := 1
      units := [some
        { path := "main"
          globals := [some { name := "g", init := some { kind := "unary", op := "-", operand := some access } }]
          classes := [some { name := "A", fields := [some { name := "f", init := some one, mods := ["public"] }] }] }] }
  Loader.behind (Loader.load document {})

/-- What a run over the program delivers. -/
def earlyAccessOutcome : BatchOutcome :=
  (Pipeline.full.run earlyAccess.tree 1 {} {} 0).toOption.getD ⟨[], {}⟩

theorem earlyAccess_runs :
    (Pipeline.full.run earlyAccess.tree 1 {} {} 0).isOk ∧
      earlyAccessOutcome.succeeded ∧ earlyAccessOutcome.analysis.typing.exprTypes[3]? = some 0 := by
  simp only [earlyAccessOutcome, earlyAccess, Loader.load_eq_loadWithin]
  decide +kernel

theorem earlyAccess_ran : Pipeline.full.run earlyAccess.tree 1 {} {} 0 = .ok earlyAccessOutcome :=
  Pipeline.eq_ok_of_isOk earlyAccess_runs.1 _

theorem unknown_looked_up_earlyAccess :
    earlyAccessOutcome.succeeded ∧
    ∃ origin expr, earlyAccess.tree.Reaches (.expr 3) (.expr origin) ∧
      earlyAccess.tree.exprs.get? origin = some expr ∧ expr.form.looksUp ∧
      earlyAccessOutcome.analysis.typing.exprTypes[origin]? = some 0 := by
  obtain ⟨-, succeeded, unknown⟩ := earlyAccess_runs
  have loaded : earlyAccess.Reached := .load _ (.fresh {})
  exact ⟨succeeded, unknown_looked_up loaded (by decide) earlyAccess_ran succeeded unknown⟩

end TypeCheck

end TreeCheck
