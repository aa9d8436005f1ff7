/-
The type of the result of a callable. It is made of the written type when the declaration is
looked at first, and then recorded; checks give types to variables and to expressions, and never
another one to a callable. So every check of a return compares with the type that is recorded in
the end, and where the written type stands for one that type is known.
-/

import TreeCheck.Proofs.Types.Conversion
import TreeCheck.Proofs.Types.Recording

namespace TreeCheck.TypeCheck

open AnalysisM

variable {tree : Tree} {loose : List Node} {origin : TypeTable} {before middle after : Analysis}
  {id : DeclId} {decl : Decl} {type : TypeId} {kind : DeclKind}

/-- The type of the result of a callable is that of the written type. Without one there is no
result. -/
structure IsResult (tree : Tree) (state : Analysis) (decl : Decl) (type : TypeId) : Prop where
  unwritten : decl.type = none → type = TypeId.void
  written : ∀ {written}, decl.type = some written → Refers tree state written type

theorem IsResult.ne_zero (isResult : IsResult tree before decl type)
    (denotes : ∀ written ∈ decl.type, tree.Denotes before.names written) : type ≠ 0 := by
  cases isWritten : decl.type with
  | none => exact isResult.unwritten isWritten ▸ by decide
  | some written => exact (isResult.written isWritten).2 (denotes written isWritten)

theorem IsResult.grows (isResult : IsResult tree before decl type)
    (typeRefs : after.names.typeRefs = before.names.typeRefs)
    (more : before.typing.types.Grows after.typing.types) : IsResult tree after decl type :=
  ⟨isResult.unwritten, fun isWritten => (isResult.written isWritten).grows typeRefs more⟩

/-- Types are what the declarations they come from say, results included. -/
structure Declares (tree : Tree) (origin : TypeTable) (state : Analysis) : Prop where
  introduces : Introduces tree origin [] state
  results : ∀ {id decl type}, tree.decls.get? id = some decl → decl.kind.isCallable →
    state.typing.declTypes[id]? = some type → IsResult tree state decl type

/-- What was in the table is as it was, whatever was there before. -/
theorem Declares.rebase (declares : Declares tree origin before) :
    Declares tree before.typing.types before :=
  ⟨{ declares.introduces with since := .refl _, fresh := nofun }, declares.results⟩

/-- Callables keep the types of their results. -/
def KeepsResults (tree : Tree) (before after : Analysis) : Prop :=
  ∀ {id decl type}, tree.decls.get? id = some decl → decl.kind.isCallable →
    before.typing.declTypes[id]? = some type → after.typing.declTypes[id]? = some type

/-- Whatever was declared before is so afterwards, and callables keep the types of their results. -/
def Redeclares (tree : Tree) (origin : TypeTable) (before after : Analysis) : Prop :=
  Declares tree origin before → Declares tree origin after ∧ KeepsResults tree before after

namespace Redeclares

theorem refl (state : Analysis) : Redeclares tree origin state state :=
  fun declares => ⟨declares, fun _ _ known => known⟩

theorem trans (first : Redeclares tree origin before middle)
    (second : Redeclares tree origin middle after) : Redeclares tree origin before after := by
  intro declares
  obtain ⟨declares', keeps⟩ := first declares
  obtain ⟨declares'', keeps'⟩ := second declares'
  exact ⟨declares'', fun isDecl isCallable known =>
    keeps' isDecl isCallable (keeps isDecl isCallable known)⟩

/-- Nothing is recorded about declarations. -/
theorem of_converted
    (converted : Introduces tree origin [] before → Converted tree origin [] before after)
    (same : after.typing.declTypes = before.typing.declTypes) : Redeclares tree origin before after := by
  intro declares
  obtain ⟨introduces, types, -, -, typeRefs⟩ := converted declares.introduces
  refine ⟨⟨introduces, fun isDecl isCallable known => ?_⟩, fun _ _ known => same ▸ known⟩
  exact (declares.results isDecl isCallable (same ▸ known)).grows typeRefs types

/-- Nothing about types changes. -/
theorem of_same (bases : after.names.bases = before.names.bases)
    (typeRefs : after.names.typeRefs = before.names.typeRefs) (typing : after.typing = before.typing) :
    Redeclares tree origin before after := by
  refine of_converted (fun introduces => ?_) (congrArg Typing.declTypes typing)
  refine introduces.grows bases typeRefs (congrArg _ typing) (congrArg _ typing) ?_ ?_
    introduces.fresh ?_ <;> rw [typing]
  · exact .refl _
  · exact introduces.since
  · exact introduces.hierarchy

/-- A declaration gets its type, which is that of the result if it is a callable without one. -/
theorem of_insert (sameNames : after.names = before.names)
    (insert : after.typing = { before.typing with declTypes := before.typing.declTypes.insert id type })
    (fits : ∀ {decl}, tree.decls.get? id = some decl → decl.kind.isCallable →
      before.typing.declTypes[id]? = none ∧ IsResult tree before decl type) :
    Redeclares tree origin before after := by
  intro declares
  have grows : before.typing.types.Grows after.typing.types := insert ▸ .refl _
  have introduces : Introduces tree origin [] after := by
    refine (declares.introduces.grows (by rw [sameNames]) (by rw [sameNames]) (by rw [insert])
      (by rw [insert]) grows ?_ declares.introduces.fresh ?_).introduces <;> rw [insert]
    · exact declares.introduces.since
    · exact declares.introduces.hierarchy
  have look (other : DeclId) : after.typing.declTypes[other]? =
      if id = other then some type else before.typing.declTypes[other]? := by
    simp [insert, Std.TreeMap.getElem?_insert]
  refine ⟨⟨introduces, fun {other decl found} isDecl isCallable known => ?_⟩,
    fun {other decl found} isDecl isCallable known => ?_⟩
  · rw [look] at known
    split at known
    · next same =>
      subst same
      cases known
      exact (fits isDecl isCallable).2.grows (by rw [sameNames]) grows
    · exact (declares.results isDecl isCallable known).grows (by rw [sameNames]) grows
  · rw [look]
    split
    · next same =>
      subst same
      cases (fits isDecl isCallable).1.symm.trans known
    · exact known

end Redeclares

/-! ### Conversions -/

/-- A conversion that is no look at a declaration gives none a type. -/
theorem declTypes_of_converting {α : Type} {action : AnalysisM α} {value : α}
    (acts : ActsOver (Lacks tree) ConvertingChange action) (ran : action before = .ok value after) :
    after.typing.declTypes = before.typing.declTypes :=
  ActsOver.leads (fun before after => after.typing.declTypes = before.typing.declTypes) (fun _ => rfl)
    (fun first second => second.trans first) (fun _ change => change.declTypes_eq) (fun _ _ => rfl)
    (fun inner => inner) (fun lacks _ _ _ ran => absurd ran lacks.givesUp.not_ok) acts ran

theorem declaredType?_of_isCallable (isCallable : decl.kind.isCallable) :
    declaredType? tree id decl = decl.type.elim (return some TypeId.void) fun written =>
      do return some (← typeOf tree (some written)) := by
  unfold declaredType?
  cases kind : decl.kind with
  | function => cases decl.type <;> rfl
  | method => cases decl.type <;> rfl
  | _ => simp [kind, DeclKind.isCallable] at isCallable

/-- What is found of a callable without a look at its body is the type of its result. -/
theorem isResult_of_declaredType? (forest : tree.Forest loose)
    (introduces : Introduces tree origin [] before) (isCallable : decl.kind.isCallable)
    {found : Option TypeId} (ran : declaredType? tree id decl before = .ok found after) :
    ∃ type, found = some type ∧ IsResult tree after decl type := by
  rw [declaredType?_of_isCallable isCallable] at ran
  cases isWritten : decl.type with
  | none =>
    rw [isWritten] at ran
    cases ran
    exact ⟨_, rfl, fun _ => rfl, fun isOther => by cases isWritten.symm.trans isOther⟩
  | some written =>
    rw [isWritten] at ran
    obtain ⟨type, middle, ran, ends⟩ := bind_eq_ok ran
    cases ends
    refine ⟨type, rfl, fun unwritten => absurd (isWritten.symm.trans unwritten) (by simp),
      fun isOther => ?_⟩
    cases isWritten.symm.trans isOther
    exact (converts_typeOf forest introduces _ _ _ ran).2 written rfl

/-- A look at a declaration leaves everything as it is, or what it finds is recorded. -/
theorem declType_cases (ran : declType tree id before = .ok type after) :
    before = after ∧ before.typing.declTypes[id]? = some type ∨
      before.typing.declTypes[id]? = none ∧ (tree.decls.get? id = none ∧ before = after ∨
        ∃ decl found middle, tree.decls.get? id = some decl ∧
          declaredType? tree id decl before = .ok found middle ∧
          (found = none ∧ middle = after ∨
            found = some type ∧ recordDecl id type middle = .ok () after)) := by
  obtain ⟨_, _, reads, ran⟩ := bind_eq_ok ran
  cases reads
  cases known : before.typing.declTypes[id]? with
  | some found =>
    rw [known] at ran
    cases ran
    exact .inl ⟨rfl, rfl⟩
  | none =>
    rw [known] at ran
    cases isDecl : tree.decls.get? id with
    | none =>
      rw [isDecl] at ran
      cases ran
      exact .inr ⟨rfl, .inl ⟨rfl, rfl⟩⟩
    | some decl =>
      rw [isDecl] at ran
      obtain ⟨found, middle, declared, ran⟩ := bind_eq_ok ran
      refine .inr ⟨rfl, .inr ⟨decl, found, middle, rfl, declared, ?_⟩⟩
      cases found with
      | none =>
        cases ran
        exact .inl ⟨rfl, rfl⟩
      | some found =>
        obtain ⟨_, _, records, ends⟩ := bind_eq_ok ran
        cases ends
        exact .inr ⟨rfl, records⟩

/-- Looking at a declaration records its type, if it has none yet. -/
theorem redeclares_declType (forest : tree.Forest loose)
    (ran : declType tree id before = .ok type after) : Redeclares tree origin before after := by
  obtain ⟨rfl, -⟩ | ⟨unknown, ⟨-, rfl⟩ | ⟨decl, found, middle, isDecl, declared, ends⟩⟩ :=
    declType_cases ran
  · exact .refl _
  · exact .refl _
  · have same := declTypes_of_converting (acts_declaredType? tree id decl) declared
    have converted : Redeclares tree origin before middle := .of_converted
      (fun introduces => (converts_declaredType? forest introduces id decl _ _ declared).1) same
    obtain ⟨-, rfl⟩ | ⟨rfl, records⟩ := ends
    · exact converted
    · intro declares
      cases records
      refine converted.trans (.of_insert rfl rfl fun isDecl' isCallable => ?_) declares
      cases isDecl.symm.trans isDecl'
      obtain ⟨_, ⟨⟩, isResult⟩ :=
        isResult_of_declaredType? forest declares.introduces isCallable declared
      exact ⟨same ▸ unknown, isResult⟩

/-- Behind a look at a callable the type of its result is recorded. -/
theorem recorded_of_declType (forest : tree.Forest loose) (declares : Declares tree origin before)
    (isDecl : tree.decls.get? id = some decl) (isCallable : decl.kind.isCallable)
    (ran : declType tree id before = .ok type after) : after.typing.declTypes[id]? = some type := by
  obtain ⟨rfl, known⟩ | ⟨-, ⟨none, -⟩ | ⟨other, found, middle, isOther, declared, ends⟩⟩ :=
    declType_cases ran
  · exact known
  · cases none.symm.trans isDecl
  · cases isOther.symm.trans isDecl
    obtain ⟨_, rfl, -⟩ := isResult_of_declaredType? forest declares.introduces isCallable declared
    obtain ⟨⟨⟩, -⟩ | ⟨⟨⟩, records⟩ := ends
    cases records
    simp

/-! ### Checks -/

/-- Recording what an expression reaches, and conversions, keep the types of results. -/
theorem redeclares_aims (forest : tree.Forest loose) {area : ExprId → Prop} {α : Type}
    {action : AnalysisM α} (aims : Aims tree area action) {value : α}
    (ran : action before = .ok value after) : Redeclares tree origin before after := by
  refine ActsOver.leads (Redeclares tree origin) .refl .trans (fun change changes state => ?_)
    (fun _ _ => .of_same rfl rfl rfl) (fun {state scope after} inner => ?_)
    (fun aiming before value after ran => ?_) aims ran
  · exact .of_converted (.of_change changes) (changes.declared ⟨0, id⟩ state)
  · have entering : Redeclares tree origin state (state.entering scope) := .of_same rfl rfl rfl
    exact entering.trans (inner.trans (.of_same rfl rfl rfl))
  · cases aiming with
    | conversion conversion =>
      cases conversion with
      | typeOf id =>
        exact .of_converted (fun introduces => (converts_typeOf forest introduces id _ _ ran).1)
          (declTypes_of_converting (acts_typeOf tree id) ran)
      | nominal id =>
        exact .of_converted (fun introduces => (converts_nominal forest introduces id _ _ ran).1)
          (declTypes_of_converting (acts_nominal tree id) ran)
      | declType id => exact redeclares_declType forest ran
    | target _ decl =>
      cases ran
      exact .of_converted (fun introduces => introduces.grows rfl rfl rfl rfl (.refl _)
        introduces.since introduces.fresh introduces.hierarchy) rfl

/-- A walk gives types to variables only. -/
theorem Walks.redeclares (forest : tree.Forest loose) {names : Resolution} {scope : ScopeId}
    {whole : Node} {parts : List (Node × ScopeId)} {α : Type} {action : AnalysisM α}
    (walks : Walks tree names scope whole parts action) (isNames : before.names.atRest = names)
    {value : α} (ran : action before = .ok value after) : Redeclares tree origin before after := by
  induction walks generalizing before after with
  | aside aims => exact redeclares_aims forest aims ran
  | @declare _ _ kind id type isVariable holds =>
    cases ran
    refine .of_insert rfl rfl fun {decl} isDecl isCallable => ?_
    obtain rfl : decl.kind = kind := by simpa [Tree.Holds, Tree.kindOf?, isDecl] using holds
    cases isKind : decl.kind <;>
      simp [isKind, DeclKind.isVariable, DeclKind.isCallable] at isVariable isCallable
  | bind firstWalk _ first second =>
    obtain ⟨found, middle, ran, goesOn⟩ := bind_eq_ok ran
    exact (first isNames ran).trans
      (second found ((firstWalk.keeps isNames ran).names.trans isNames) goesOn)
  | read _ inductionHypothesis => exact inductionHypothesis before isNames isNames ran
  | ensuring names typing sink _ inductionHypothesis =>
    obtain ⟨middle, runs, rfl⟩ := ensuring_eq_ok ran
    exact (inductionHypothesis isNames runs).trans
      (.of_same (by rw [names]) (by rw [names]) (typing middle))
  | within inner _ inductionHypothesis =>
    rw [within_eq] at ran
    obtain ⟨middle, runs, rfl⟩ := ensuring_eq_ok ran
    have entering : Redeclares tree origin before (before.entering inner) := .of_same rfl rfl rfl
    have inside : Redeclares tree origin (before.entering inner) middle :=
        inductionHypothesis isNames runs
    exact entering.trans (inside.trans (.of_same rfl rfl rfl))
  | node _ _ _ _ _ inductionHypothesis => exact inductionHypothesis isNames ran
  | expr _ _ isCheck _ _ _ inductionHypothesis =>
    rw [isCheck] at ran
    obtain ⟨middle, finds, records⟩ := recordExpr_of_ok ran
    refine (inductionHypothesis isNames finds).trans ?_
    cases records
    exact .of_converted (fun introduces => introduces.grows rfl rfl rfl rfl (.refl _)
      introduces.since introduces.fresh introduces.hierarchy) rfl

end TreeCheck.TypeCheck
