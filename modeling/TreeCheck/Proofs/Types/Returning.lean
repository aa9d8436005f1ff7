/-
Returns. Checks look at the statements of a body only one after the other, and at how they are nested
not at all, except that a block with a return in it returns for certain. This is compared with what a
body does when it runs, where whatever depends on a condition may or may not happen: without an error
a body with a result never comes to its end, and what it returns goes with the type of the result.
-/

import TreeCheck.Proofs.Types.Denoting
import TreeCheck.Proofs.Types.Moments
import TreeCheck.Proofs.Types.Symmetry

namespace TreeCheck

variable {tree : Tree} {loose : List Node} {bases : Std.TreeMap DeclId DeclId} {table : TypeTable}

/-! ### Where bases are those of a program -/

namespace TypeTable

/-- A class inherits in a table only from one that its declaration inherits from. -/
theorem Hierarchy.base_of_inherits (hierarchy : table.Hierarchy bases []) {derived base : TypeId}
    (inherits : table.Inherits derived base) :
    ∃ owner above, table.classDecl derived = some owner ∧ table.classDecl base = some above ∧
      bases[owner]? = some above := by
  obtain ⟨info, isClass, inherits⟩ := Option.bind_eq_some_iff.mp inherits
  split at inherits
  · next own =>
    obtain ⟨baseInfo, isBase, isOrigin⟩ := Option.map_eq_some_iff.mp inherits
    obtain ⟨_, there, -, hasBase⟩ := hierarchy.origin isClass
    rw [if_pos own, isClass, Option.some.injEq] at there
    obtain ⟨origin, there', same, -⟩ := hierarchy.origin isBase
    rw [isOrigin] at there'
    have isDecl : table.classDecl info.base = some origin.decl := by
      rw [classDecl, isBase, Option.map_some, same]
    refine ⟨info.decl, origin.decl, by rw [classDecl, isClass, Option.map_some],
      by rw [classDecl, there', Option.map_some], ?_⟩
    rw [← there, HasBase] at hasBase
    split at hasBase
    · rw [hasBase, classInfo?_zero] at isBase
      cases isBase
    · next above isAbove => rwa [isDecl, ← isAbove, eq_comm] at hasBase
  · cases inherits

/-- Where bases come to an end, no class inherits from itself, and no base changes its kind. -/
theorem Hierarchy.acyclicHierarchy (hierarchy : table.Hierarchy bases []) (sound : table.Sound)
    (ends : ∀ id : DeclId, ∃ chain, Lineage bases id chain) : table.AcyclicHierarchy := by
  refine Acyclic.hierarchy ?_ ?_ sound
  · intro id circle
    let declOf (type : TypeId) : DeclId := (table.classDecl type).getD 0
    have leads : Relation.TransGen (fun owner base => bases[owner]? = some base) (declOf id)
        (declOf id) := by
      refine Relation.TransGen.lift declOf (fun derived base inherits => ?_) _ _ circle
      obtain ⟨owner, above, isOwner, isAbove, isBase⟩ := hierarchy.base_of_inherits inherits
      show bases[(table.classDecl derived).getD 0]? = some ((table.classDecl base).getD 0)
      rwa [isOwner, isAbove]
    obtain ⟨chain, lineage⟩ := ends (declOf id)
    exact lineage.notMem (lineage.mem_of_transGen leads)
  · intro id info isClass own
    obtain ⟨_, there, -, hasBase⟩ := hierarchy.origin isClass
    rw [if_pos own, isClass, Option.some.injEq] at there
    rw [← there, HasBase] at hasBase
    have kind : table.kindOf info.base = .invalid ∨ table.kindOf info.base = .classType := by
      split at hasBase
      · exact .inl (hasBase ▸ rfl)
      · exact .inr (kindOf_of_classDecl hasBase)
    constructor <;> rcases kind with kind | kind <;> simp [kind]

end TypeTable

/-! ### What a body does -/

/-- The statements inside a branch, a loop or a case statement, which may run or not. -/
def StmtForm.branches : StmtForm → List StmtId
  | .branch _ thenBranch elseBranch => thenBranch :: elseBranch.toList
  | .whileLoop _ body | .forLoop _ _ _ body => [body]
  | .case _ arms default => arms.map CaseArm.body ++ default.toList
  | _ => []

def StmtForm.isLoop : StmtForm → Bool
  | .whileLoop _ _ | .forLoop _ _ _ _ => true
  | _ => false

/-- Whether a statement may be over without any statement in it. -/
def StmtForm.mayPass : StmtForm → Bool
  | .block _ | .ret _ => false
  | _ => true

/-- One step of a body, from the statements that are left to run to those that are left then. A
block runs its statements one after the other. Any part of a branch or a case statement may run, or
none, and the body of a loop any number of times. There is no step behind a return. -/
inductive Tree.Runs (tree : Tree) : List StmtId → List StmtId → Prop
  | pass {id : StmtId} {rest : List StmtId} :
      (∀ stmt, tree.stmts.get? id = some stmt → stmt.form.mayPass) → Runs tree (id :: rest) rest
  | block {id : StmtId} {stmt : Stmt} {stmts : List (Option StmtId)} {rest : List StmtId} :
      tree.stmts.get? id = some stmt → stmt.form = .block stmts →
      Runs tree (id :: rest) (stmts.reduceOption ++ rest)
  | enter {id : StmtId} {stmt : Stmt} {part : StmtId} {rest : List StmtId} :
      tree.stmts.get? id = some stmt → part ∈ stmt.form.branches →
      Runs tree (id :: rest) (part :: if stmt.form.isLoop then id :: rest else rest)

/-- What is left to run of a body at some time. -/
abbrev Tree.Leaves (tree : Tree) (body : StmtId) (left : List StmtId) : Prop :=
  Relation.ReflTransGen tree.Runs (Resolve.bodyStmts tree body).reduceOption left

theorem StmtForm.part_of_branches {form : StmtForm} {part : StmtId} (isBranch : part ∈ form.branches) :
    .stmt part ∈ form.parts := by
  cases form with
  | branch cond thenBranch elseBranch =>
    simpa [StmtForm.branches, StmtForm.parts] using isBranch
  | whileLoop cond body => simpa [StmtForm.branches, StmtForm.parts] using isBranch
  | forLoop counter first last body => simpa [StmtForm.branches, StmtForm.parts] using isBranch
  | case subject arms default =>
    simpa [StmtForm.branches, StmtForm.parts, CaseArm.parts, eq_comm] using isBranch
  | _ => nomatch isBranch

/-- What is left behind a step was left before, or is part of a statement that was. -/
theorem Tree.Runs.part {left later : List StmtId} (runs : tree.Runs left later) {part : StmtId}
    (member : part ∈ later) : part ∈ left ∨
      ∃ id ∈ left, ∃ stmt, tree.stmts.get? id = some stmt ∧ .stmt part ∈ stmt.form.parts := by
  cases runs with
  | pass _ => exact .inl (.tail _ member)
  | @block id stmt stmts rest isStmt form =>
    rcases List.mem_append.mp member with isChild | later
    · have isPart : .stmt part ∈ stmt.form.parts := by
        rw [form]
        exact List.mem_filterMap.mpr ⟨some part, List.reduceOption_mem_iff.mp isChild, rfl⟩
      exact .inr ⟨id, .head _, stmt, isStmt, isPart⟩
    · exact .inl (.tail _ later)
  | @enter id stmt first rest isStmt isBranch =>
    rcases List.mem_cons.mp member with rfl | later
    · exact .inr ⟨id, .head _, stmt, isStmt, StmtForm.part_of_branches isBranch⟩
    · split at later
      · exact .inl later
      · exact .inl (.tail _ later)

namespace TypeCheck

open AnalysisM

/-! ### Statements that return for certain -/

theorem returnsWithin_mono {fuel id : Nat} (returns : returnsWithin tree fuel id) :
    returnsWithin tree (fuel + 1) id := by
  induction fuel generalizing id with
  | zero => nomatch returns
  | succ fuel inductionHypothesis =>
    unfold returnsWithin at returns ⊢
    split at returns
    · rfl
    · next stmts _ =>
      obtain ⟨child, member, inside⟩ := List.any_eq_true.mp returns
      refine List.any_eq_true.mpr ⟨child, member, ?_⟩
      cases child with
      | none => nomatch inside
      | some child => exact inductionHypothesis inside
    · nomatch returns

/-- What returns for certain is a return, or a block with a statement that does. -/
theorem returns_cases {id : StmtId} (certain : returns tree id) :
    ∃ stmt, tree.stmts.get? id = some stmt ∧ ((∃ value, stmt.form = .ret value) ∨
      ∃ stmts child, stmt.form = .block stmts ∧ some child ∈ stmts ∧ returns tree child) := by
  unfold returns returnsWithin at certain
  cases isStmt : tree.stmts.get? id with
  | none => simp [isStmt] at certain
  | some stmt =>
    rw [isStmt, Option.map_some] at certain
    refine ⟨stmt, rfl, ?_⟩
    split at certain
    · next value form => exact .inl ⟨value, Option.some.inj form⟩
    · next stmts form =>
      obtain ⟨child, member, inside⟩ := List.any_eq_true.mp certain
      cases child with
      | none => nomatch inside
      | some child => exact .inr ⟨stmts, child, Option.some.inj form, member, returnsWithin_mono inside⟩
    · nomatch certain

/-- Where one of the statements that are left returns for certain, so does one that is left later. -/
theorem returns_of_runs {left later : List StmtId} (runs : tree.Runs left later)
    (certain : ∃ id ∈ left, returns tree id) : ∃ id ∈ later, returns tree id := by
  obtain ⟨id, member, certain⟩ := certain
  cases runs with
  | @pass first _ mayPass =>
    rcases List.mem_cons.mp member with rfl | later
    · obtain ⟨stmt, isStmt, ⟨_, form⟩ | ⟨_, _, form, -⟩⟩ := returns_cases certain <;>
        exact absurd (mayPass stmt isStmt) (by simp [form, StmtForm.mayPass])
    · exact ⟨id, later, certain⟩
  | @block first stmt stmts rest isStmt form =>
    rcases List.mem_cons.mp member with rfl | later
    · obtain ⟨_, isStmt', cases'⟩ := returns_cases certain
      cases isStmt.symm.trans isStmt'
      obtain ⟨_, form'⟩ | ⟨_, child, form', isChild, certain'⟩ := cases'
      · cases form.symm.trans form'
      · cases form.symm.trans form'
        exact ⟨child, List.mem_append_left _ (List.reduceOption_mem_iff.mpr isChild), certain'⟩
    · exact ⟨id, List.mem_append_right _ later, certain⟩
  | @enter first stmt part rest isStmt isBranch =>
    rcases List.mem_cons.mp member with rfl | later
    · obtain ⟨_, isStmt', ⟨_, form⟩ | ⟨_, _, form, -⟩⟩ := returns_cases certain <;>
        cases isStmt.symm.trans isStmt' <;> simp [form, StmtForm.branches] at isBranch
    · refine ⟨id, List.mem_cons_of_mem _ ?_, certain⟩
      split
      · exact .tail _ later
      · exact later

/-- A body in which a statement returns for certain never comes to its end. -/
theorem not_leaves_nil {body child : StmtId} (member : some child ∈ Resolve.bodyStmts tree body)
    (certain : returns tree child) : ¬tree.Leaves body [] := by
  intro leaves
  have stays : ∃ id ∈ ([] : List StmtId), returns tree id := by
    generalize [] = left at leaves
    induction leaves with
    | refl => exact ⟨child, List.reduceOption_mem_iff.mpr member, certain⟩
    | tail _ runs inductionHypothesis => exact returns_of_runs runs inductionHypothesis
  obtain ⟨_, never, -⟩ := stays
  nomatch never

/-! ### Statements that are left were checked -/

section Checked

variable {names : Resolution} {place : Place} {final : Analysis}

/-- Somewhere in the check of a program a statement was checked, in some place. -/
def CheckedIn (tree : Tree) (names : Resolution) (place : Place) (final : Analysis)
    (id : StmtId) : Prop :=
  ∃ floor fuel, id < fuel ∧
    Happens tree names floor (Beneath tree (.stmt id)) (stmtWithin tree place fuel id) () final

/-- Where a statement was checked, so were the statements in it, in the same place. -/
theorem CheckedIn.inner (forest : tree.Forest loose) {id part : StmtId} {stmt : Stmt}
    (checked : CheckedIn tree names place final id) (isStmt : tree.stmts.get? id = some stmt)
    (isPart : .stmt part ∈ stmt.form.parts) : CheckedIn tree names place final part := by
  obtain ⟨_, fuel, enough, happens⟩ := checked
  cases fuel with
  | zero => nomatch enough
  | succ fuel =>
    obtain ⟨floor, enough', happens⟩ := happens.inner forest isStmt isPart enough
    exact ⟨floor, fuel, enough', happens⟩

/-- Whatever is left to run of a body was checked. -/
theorem checked_of_leaves (forest : tree.Forest loose) {body : StmtId} {left : List StmtId}
    (checked : ∀ child, some child ∈ Resolve.bodyStmts tree body →
      CheckedIn tree names place final child)
    (leaves : tree.Leaves body left) : ∀ id ∈ left, CheckedIn tree names place final id := by
  induction leaves with
  | refl => exact fun id member => checked id (List.reduceOption_mem_iff.mp member)
  | tail _ runs inductionHypothesis =>
    intro part member
    obtain early | ⟨id, early, stmt, isStmt, isPart⟩ := runs.part member
    · exact inductionHypothesis part early
    · exact (inductionHypothesis id early).inner forest isStmt isPart

end Checked

/-! ### Returns -/

section Returns

variable (forest : tree.Forest loose) {names : Resolution} {place : Place}
  {before after final : Analysis} {id : DeclId} {decl : Decl}
  {result : TypeId} {value : Option ExprId} {ret : StmtId} {stmt : Stmt}

/-- What a return gives goes with the type of the result. Without a result it gives nothing. -/
structure Suits (final : Analysis) (result : TypeId) (value : Option ExprId) : Prop where
  nothing : final.typing.types.kindOf result = .void → value = none
  something : final.typing.types.kindOf result ≠ .void → ∃ given type, value = some given ∧
    final.typing.exprTypes[given]? = some type ∧
    ((TypeM.compatible result type).run final.typing.types).1 = true

include forest in
theorem passes_compatible {kept : ExprId → Prop} {floor : Nat} (left right : TypeId) :
    Passes tree names floor kept (compatible left right) :=
  .of_aims forest (acts_compatible left right) fun _ grounded _ =>
    ⟨_, asks_compatible permits_any grounded left right⟩

/-- Where types go with each other they do so ever after. -/
theorem compatible_later {left right : TypeId} (ready : Ready tree names 0 before)
    (there : left < before.typing.types.size) (there' : right < before.typing.types.size)
    (ran : compatible left right before = .ok true after)
      (later : after.typing.types.Keeps final.typing.types)
    (grounded : Grounded final.typing) :
    ((TypeM.compatible left right).run final.typing.types).1 = true := by
  have sound := ready.grounded.sound
  have hierarchy := ready.declares.introduces.hierarchy.acyclicHierarchy sound
    ready.declares.introduces.rooted.lineage
  obtain ⟨answered, rfl⟩ := EStateM.Result.ok.inj ran
  have again :=
      (TypeM.repeats_compatible hierarchy (.refl _) sound there there').again later grounded.sound
  exact (congrArg Prod.fst again).trans answered

include forest in
/-- Where a return is checked and no error is left, what it gives suits the result of the callable. -/
theorem suits_of_checkReturn {floor : Nat} {span : Span} (isDecl : tree.decls.get? id = some decl)
    (isCallable : decl.kind.isCallable) (ready : Ready tree names floor before)
    (holds : ∀ given ∈ value, tree.Holds (.expr given))
    (ran : checkReturn tree { place with callable := some id } span value before = .ok () after)
    (onward : Onward tree (fun given => given ∈ value) after final) (grounded : Grounded final.typing)
    (clean : final.sink.Spotless) (recorded : final.typing.declTypes[id]? = some result)
      (known : result ≠ 0) :
    Suits final result value := by
  have clean' : after.sink.Spotless := onward.spotless clean
  obtain ⟨declared, between, looks, ran⟩ := bind_eq_ok ran
  obtain ⟨_, _, isKind, ran⟩ := bind_eq_ok ran
  cases isKind
  have isResult := recorded_of_declType forest ready.declares isDecl isCallable looks
  have looking : Passes tree names floor (fun _ => False) (declType tree id) := passes_declType forest id
  obtain ⟨isNames, declares, fits, -⟩ := (looking.leads ready looks).1
  have there : declared < between.typing.types.size := fits.declTypes isResult
  have ready : Ready tree names between.typing.types.size between :=
      ⟨isNames, declares, fits, Nat.le_refl _⟩
  -- The type that was looked up is the one in the end, and of the same kind.
  have settle (onward : Onward tree (fun _ => False) between final) :
      declared = result ∧ final.typing.types.kindOf result = between.typing.types.kindOf declared := by
    have same : declared = result :=
      Option.some.inj ((onward.results isDecl isCallable isResult).symm.trans recorded)
    exact ⟨same, same ▸ onward.types.kindOf there⟩
  have onward' : Onward tree (fun _ => False) after final := onward.mono fun _ never => never.elim
  cases value with
  | none =>
    dsimp only at ran
    split at ran
    · obtain ⟨_, _, -, ran⟩ := bind_eq_ok ran
      exact absurd clean' (not_spotless_of_error rfl ran)
    · next isVoid =>
      cases ran
      obtain ⟨rfl, kind⟩ := settle onward'
      refine ⟨fun _ => rfl, fun notVoid => absurd ⟨known, ?_⟩ isVoid⟩
      rwa [← kind]
  | some given =>
    dsimp only at ran
    obtain ⟨type, checked, evaluates, ran⟩ := bind_eq_ok ran
    have evaluating : Passes tree names between.typing.types.size (fun _ => False)
        (expr tree { place with callable := some id } given declared) :=
      passes_expr forest (.inr there) (holds given rfl) (spares_none tree _)
    obtain ⟨ready', toChecked⟩ := evaluating.leads ready evaluates
    have isType : checked.typing.exprTypes[given]? = some type :=
        (records_exprWithin ..).recorded evaluates
    split at ran
    · exact absurd clean' (not_spotless_of_error rfl ran)
    next notVoid =>
    obtain ⟨fits, compared, compares, ran⟩ := bind_eq_ok ran
    cases fits with
    | false =>
      obtain ⟨_, _, -, ran⟩ := bind_eq_ok ran
      obtain ⟨_, _, -, ran⟩ := bind_eq_ok ran
      exact absurd clean' (not_spotless_of_error rfl ran)
    | true =>
      cases ran
      have comparing : Passes tree names between.typing.types.size (· = given)
          (compatible declared type) :=
        passes_compatible forest declared type
      obtain ⟨-, toCompared⟩ := comparing.leads ready' compares
      obtain ⟨same, kind⟩ :=
        settle (toChecked.trans ((toCompared.mono fun _ never => never.elim).trans onward'))
      refine ⟨fun isVoid => absurd (kind.symm.trans isVoid) notVoid, fun _ => ⟨given, type, rfl, ?_, ?_⟩⟩
      · have records := (onward.records given rfl).trans (toCompared.records given rfl)
        exact (congrArg Prod.fst records).trans isType
      · exact same ▸ compatible_later ready'.lower (Nat.lt_of_lt_of_le there toChecked.types.size_le)
          (ready'.grounded.exprTypes isType) compares onward.table grounded

include forest in
theorem CheckedIn.suits (isDecl : tree.decls.get? id = some decl)
    (isCallable : decl.kind.isCallable)
    (checked : CheckedIn tree names { place with callable := some id } final ret)
    (isStmt : tree.stmts.get? ret = some stmt) (form : stmt.form = .ret value)
    (grounded : Grounded final.typing) (clean : final.sink.Spotless)
    (recorded : final.typing.declTypes[id]? = some result) (known : result ≠ 0) :
    Suits final result value := by
  obtain ⟨floor, fuel, enough, before, after, ready, ran, ready', onward⟩ := checked
  obtain ⟨fuel, rfl⟩ :=
    Nat.exists_eq_succ_of_ne_zero (Nat.ne_of_gt (Nat.lt_of_le_of_lt (Nat.zero_le _) enough))
  unfold stmtWithin at ran
  simp only [isStmt, form] at ran
  have isPart {given : ExprId} (isGiven : given ∈ value) : .expr given ∈ tree.parts (.stmt ret) := by
    rw [Tree.parts, isStmt, Option.map_some, Option.getD_some, form]
    simp [StmtForm.parts, Option.mem_def.mp isGiven]
  exact suits_of_checkReturn forest isDecl isCallable ready
    (fun _ isGiven => forest.holds_part (isPart isGiven))
    ran (onward.mono fun _ isGiven => .single (isPart isGiven)) grounded clean recorded known

end Returns

/-! ### Programs -/

/-- Return checking is sound. Where a program is resolved and checked and there are no errors, the
type of the result of every callable with a body is known, and is that of the written type. Unless
there is no result, no run of the body comes to its end; and whatever return a run of it comes to
gives what goes with the result, or nothing where there is none. -/
theorem returns_suit {loader : Loader} (loaded : loader.Reached) {root : UnitId} {checked : Bool}
    {sink sink' : Sink} {trace trace' : Trace.Recorder} {resolved final : Analysis} {span : Nat}
    (resolves : Resolve.program loader.tree root checked { sink, trace } = .ok () resolved)
    (checks : program loader.tree span { resolved with sink := sink', trace := trace' } = .ok () final)
    (clean : resolved.sink.Spotless) (clean' : final.sink.Spotless) {unitId : UnitId}
      {unit : ProgramUnit}
    (done : unitId ∈ resolved.names.unitOrder) (isUnit : loader.tree.units.get? unitId = some unit)
    {id : DeclId} (member : id ∈ Resolve.callablesOf loader.tree unit) {decl : Decl}
      {callable : Callable}
    (isDecl : loader.tree.decls.get? id = some decl)
      (isCallable : loader.tree.callable? id = some callable)
    {body : StmtId} (hasBody : callable.body = some body) :
    ∃ result, final.typing.declTypes[id]? = some result ∧ result ≠ 0 ∧
      IsResult loader.tree final decl result ∧
      (final.typing.types.kindOf result ≠ .void → ¬loader.tree.Leaves body []) ∧
      ∀ ret rest stmt value, loader.tree.Leaves body (ret :: rest) →
        loader.tree.stmts.get? ret = some stmt → stmt.form = .ret value → Suits final result value := by
  have forest := loaded.forest
  have isKind : decl.kind.isCallable := by
    obtain ⟨kind, isKind, isCallable⟩ := Resolve.isCallable_of_callable? isCallable
    rw [Tree.kindOf?, isDecl] at isKind
    exact Option.some.inj isKind ▸ isCallable
  obtain ⟨kind, place, isKind', happens⟩ := checks_callable forest resolves checks done isUnit member
  rw [Tree.kindOf?, isDecl, Option.map_some, Option.some.injEq] at isKind'
  subst isKind'
  obtain ⟨stmts, result, recorded, certain⟩ := happens.ofCallable forest isDecl isCallable hasBody
  have ready := ready_checked forest resolves checks
  have isResult := ready.declares.results isDecl isKind recorded
  have known : result ≠ 0 := by
    refine isResult.ne_zero fun written isWritten => ?_
    have denoted :=
        Resolve.denoted_program forest resolves clean unitId done isUnit id member isDecl written
      isWritten
    have same : final.names.typeRefs = resolved.names.typeRefs := by
      show final.names.atRest.typeRefs = resolved.names.atRest.typeRefs
      rw [ready.names]
    exact denotes_of_typeRefs_eq same denoted
  have holds : ∀ child, some child ∈ Resolve.bodyStmts loader.tree body →
      CheckedIn loader.tree resolved.names.atRest { place with callable := some id } final child := by
    intro child isChild
    have isPart : .stmt body ∈ loader.tree.parts (.decl decl.kind id) :=
      Tree.mem_parts_of_callable? isCallable (by simp [Callable.parts, hasBody]) _
    obtain ⟨_, there⟩ :=
      Option.isSome_iff_exists.mp (body_stmt forest (forest.holds_part isPart) isChild).1
    exact ⟨0, _, Nat.lt_succ_of_le (Arena.get?_eq_some_le there).2, stmts child isChild⟩
  refine ⟨result, recorded, known, isResult, fun notVoid => ?_,
    fun ret rest stmt value leaves isStmt form => ?_⟩
  · obtain ⟨child, isChild, returns⟩ := certain clean' known notVoid
    exact not_leaves_nil isChild returns
  · exact (checked_of_leaves forest holds leaves ret (.head _)).suits forest isDecl isKind isStmt form
      ready.grounded clean' recorded known

/-- A function that returns from a loop, or behind it. -/
def loopReturn : Loader :=
  let literal (lit value : String) : Option Doc.Expr := some { kind := "lit", lit, value }
  let returning (value : String) : Option Doc.Stmt :=
    some { kind := "return", value := literal "int" value }
  let document : Doc.Document :=
    { version := 1
      units := [some
        { path := "main"
          functions := [some
            { name := "f", result := some { kind := "named", name := "Int" }
              body := [some { kind := "while", cond := literal "bool" "true", body := returning "1" },
                returning "2"] }] }] }
  Loader.behind (Loader.load document {})

/-- The program when it was resolved. -/
def loopReturnResolved : Analysis := Acts.behind (Resolve.program loopReturn.tree 1 true {})

/-- The program when it was checked. -/
def loopReturnChecked : Analysis :=
  Acts.behind (program loopReturn.tree 0 loopReturnResolved)

theorem loopReturn_runs :
    Acts.ended (Resolve.program loopReturn.tree 1 true {}) ∧
      Acts.ended (program loopReturn.tree 0 loopReturnResolved) ∧
      (loopReturnResolved.sink.stages.isEmpty ∧ loopReturnResolved.sink.bag.limit ≤ 0 ∧
        loopReturnResolved.sink.bag.items = []) ∧
      (loopReturnChecked.sink.stages.isEmpty ∧ loopReturnChecked.sink.bag.limit ≤ 0 ∧
        loopReturnChecked.sink.bag.items = []) ∧
      loopReturnResolved.names.unitOrder = [1] ∧ loopReturnChecked.typing.declTypes[1]? =
        some TypeId.int ∧
      loopReturnChecked.typing.types.kindOf TypeId.int ≠ .void := by
  simp only [loopReturnChecked, loopReturnResolved, loopReturn, Loader.load_eq_loadWithin]
  decide +kernel

theorem loopReturn_tree :
    (loopReturn.tree.units.get? 1).map ProgramUnit.functions = some [1] ∧
      (loopReturn.tree.decls.get? 1).isSome ∧
      (loopReturn.tree.callable? 1).map Callable.body = some (some 4) ∧
      Resolve.bodyStmts loopReturn.tree 4 = [some 2, some 3] ∧
      (loopReturn.tree.stmts.get? 2).map (fun stmt => (stmt.form.branches, stmt.form.isLoop)) =
        some ([1], true) ∧
      (loopReturn.tree.stmts.get? 1).map (fun stmt => stmt.form matches .ret (some 2)) = some true := by
  simp only [loopReturn, Loader.load_eq_loadWithin]
  decide +kernel

/-- The return in the loop is reached, and gives an integer. -/
theorem returns_suit_loopReturn :
    ¬loopReturn.tree.Leaves 4 [] ∧ loopReturn.tree.Leaves 4 [1, 2, 3] ∧
      Suits loopReturnChecked TypeId.int (some 2) := by
  obtain ⟨resolves, checks, ⟨stages, limit, items⟩, ⟨stages', limit', items'⟩, order, isInt, kind⟩ :=
    loopReturn_runs
  obtain ⟨functions, decl, callable, stmts, loop, ret⟩ := loopReturn_tree
  have clean : loopReturnResolved.sink.Spotless :=
    ⟨List.isEmpty_iff.mp stages, limit, items ▸ fun _ member => nomatch member⟩
  have clean' : loopReturnChecked.sink.Spotless :=
    ⟨List.isEmpty_iff.mp stages', limit', items' ▸ fun _ member => nomatch member⟩
  obtain ⟨unit, isUnit, functions⟩ := Option.map_eq_some_iff.mp functions
  obtain ⟨decl, isDecl⟩ := Option.isSome_iff_exists.mp decl
  obtain ⟨callable, isCallable, hasBody⟩ := Option.map_eq_some_iff.mp callable
  obtain ⟨loop, isLoop, parts⟩ := Option.map_eq_some_iff.mp loop
  obtain ⟨branches, loops⟩ := Prod.mk.inj parts
  obtain ⟨ret, isRet, form⟩ := Option.map_eq_some_iff.mp ret
  have form : ret.form = .ret (some 2) := by
    split at form
    · next form' => exact form'
    · nomatch form
  have start : loopReturn.tree.Runs (Resolve.bodyStmts loopReturn.tree 4).reduceOption [1, 2, 3] := by
    rw [stmts]
    have entered : loopReturn.tree.Runs [2, 3] (1 :: if loop.form.isLoop then [2, 3] else [3]) :=
      .enter isLoop (branches ▸ .head _)
    simpa [loops] using entered
  obtain ⟨result, recorded, -, -, certain, suits⟩ := returns_suit (.load _ (.fresh {}))
    (Acts.eq_ok_behind resolves) (Acts.eq_ok_behind checks) clean clean'
      (order ▸ .head _)
    isUnit (by simp [Resolve.callablesOf, functions]) isDecl isCallable hasBody
  obtain rfl : result = TypeId.int := Option.some.inj (recorded.symm.trans isInt)
  exact ⟨certain kind, .single start, suits 1 [2, 3] ret (some 2) (.single start) isRet form⟩

end TypeCheck

end TreeCheck
