/-
What an access through a union reaches. Type checking looks for the member of a name in
every candidate of the union, and wants one in each; what it records is the member of the
first candidate, and that one alone is held to the rule on members that are not public.
-/

import TreeCheck.Proofs.Pipeline.Verdict

namespace TreeCheck

variable {before after : Analysis} {type candidate value : TypeId} {kept : ExprId → Prop}
  {form : ExprForm} {look : TypeId → AnalysisM (Option (DeclId × TypeId))} {receiver : ExprId}
  {args explicit : List TypeId} {overload : Overload} {target : DeclId} {action : AnalysisM TypeId}

/-- The elements of a type that has some stay the same. -/
theorem TypeTable.Grows.elems {before after : TypeTable} (grows : before.Grows after)
    (listed : before.elems type ≠ []) : after.elems type = before.elems type := by
  cases known : before.form? type with
  | none => simp [TypeTable.elems, known] at listed
  | some form =>
    cases form with
    | tuple group | multi group =>
      simp only [TypeTable.elems, known, grows.form? known] at listed ⊢
      cases members : before.groups.get? group with
      | none => simp [members] at listed
      | some found => rw [grows.group members]
    | _ => simp [TypeTable.elems, known] at listed

/-- Which methods a class has does not depend on which scopes are open. -/
theorem Resolution.methodCandidates_atRest (names : Resolution) (owner : DeclId) (name : String) :
    names.atRest.methodCandidates owner name = names.methodCandidates owner name := by
  have first (seen : List Key) (ids : List DeclId) :
      names.atRest.firstOfKey seen ids = names.firstOfKey seen ids := by
    induction ids generalizing seen with
    | nil => rfl
    | cons id rest inductionHypothesis =>
      simp only [firstOfKey, inductionHypothesis]
      rfl
  exact first [] _

namespace TypeCheck

open AnalysisM

variable {tree : Tree} {loose : List Node}

/-! ### Members of candidates -/

/-- A class has a member that an access of some form may mean. -/
inductive Offers (tree : Tree) (state : Analysis) (candidate : TypeId)
    (member : DeclId) : ExprForm → Prop where
  | field {owner : DeclId} {receiver : ExprId} {name : NameId} :
      state.typing.types.classDecl candidate = some owner →
      state.names.member? owner (tree.text name) = some member → tree.kindOf? member = some .field →
      Offers tree state candidate member (.field receiver name)
  | method {owner : DeclId} {receiver : ExprId} {name : NameId} {args : List ExprId} :
      state.typing.types.classDecl candidate = some owner →
      member ∈ state.names.methodCandidates owner (tree.text name) →
      Offers tree state candidate member (.methodCall receiver name args)

theorem Offers.keeps (keeps : before.Keeps kept after) {member : DeclId}
    (offers : Offers tree before candidate member form) :
    Offers tree after candidate member form := by
  have members (owner : DeclId) (name : String) :
      after.names.member? owner name = before.names.member? owner name := by
    have same := congrArg (fun names : Resolution => names.member? owner name) keeps.names
    exact same
  have methods (owner : DeclId) (name : String) :
      after.names.methodCandidates owner name = before.names.methodCandidates owner name := by
    rw [← Resolution.methodCandidates_atRest, keeps.names, Resolution.methodCandidates_atRest]
  cases offers with
  | field isClass isMember isField =>
    exact .field (keeps.types.classDecl isClass) ((members ..).trans isMember) isField
  | method isClass isMember =>
    exact .method (keeps.types.classDecl isClass) (methods .. ▸ isMember)

/-- What is found for all candidates of a union is there for each of them; it is what was found
for the first one. -/
theorem commonMember_spec (checks : ∀ candidate, Checks tree nowhere (look candidate))
    (looks : ∀ {candidate before found after}, look candidate before = .ok (some found) after →
      Offers tree before candidate found.1 form) {candidates : List TypeId}
    {found : Option (DeclId × TypeId)} {decl : DeclId}
    (ran : commonMember look candidates found before = .ok (some (decl, type)) after) :
    ∃ members, List.Forall₂ (Offers tree after · · form) candidates members ∧
      (found.map Prod.fst).or members.head? = some decl := by
  induction candidates generalizing found before with
  | nil =>
    cases ran
    exact ⟨[], .nil, rfl⟩
  | cons candidate rest inductionHypothesis =>
    obtain ⟨here, middle, looked, goesOn⟩ := bind_eq_ok ran
    split at goesOn
    · nomatch goesOn
    · next decl' type' =>
      have offers {final : Analysis} (keeps : middle.Keeps (fun _ => True) final) :
          Offers tree final candidate decl' form :=
        ((looks looked).keeps (keeps_of_checks (checks candidate) looked)).keeps keeps
      have later {found : Option (DeclId × TypeId)}
          (ran : commonMember look rest found middle = .ok (some (decl, type)) after) :
          middle.Keeps (fun _ => True) after :=
        (keeps_of_checks (acts_commonMember checks rest found) ran).mono fun _ _ never => never
      split at goesOn
      · obtain ⟨members, all, isFirst⟩ := inductionHypothesis goesOn
        exact ⟨decl' :: members, .cons (offers (later goesOn)) all, by simpa using isFirst⟩
      · next first common =>
        obtain ⟨table, _, isTable, goesOn⟩ := bind_eq_ok goesOn
        cases isTable
        split at goesOn
        · obtain ⟨members, all, isFirst⟩ := inductionHypothesis goesOn
          exact ⟨decl' :: members, .cons (offers (later goesOn)) all, by simpa using isFirst⟩
        · nomatch goesOn

theorem field?_offers {name : NameId} {found : DeclId × TypeId}
    (ran : field? tree candidate (tree.text name) before = .ok (some found) after) :
    Offers tree before candidate found.1 (.field receiver name) := by
  obtain ⟨table, _, isTable, ran⟩ := bind_eq_ok ran
  cases isTable
  cases isClass : before.typing.types.classDecl candidate with
  | none =>
    rw [isClass] at ran
    nomatch ran
  | some owner =>
    rw [isClass] at ran
    obtain ⟨state, _, isState, ran⟩ := bind_eq_ok ran
    cases isState
    cases isMember : (before.names.member? owner (tree.text name)).filter
        fun decl => tree.kindOf? decl = some .field with
    | none =>
      rw [isMember] at ran
      nomatch ran
    | some decl =>
      rw [isMember] at ran
      obtain ⟨type, _, -, ends⟩ := bind_eq_ok ran
      obtain ⟨same, rfl⟩ := EStateM.Result.ok.inj ends
      cases same
      obtain ⟨isMember, isField⟩ := Option.filter_eq_some_iff.mp isMember
      exact .field isClass isMember (of_decide_eq_true isField)

/-- A candidate that fits stands for itself. -/
theorem tryCandidate_decl {receiver : TypeId} {id : DeclId}
    (ran : tryCandidate tree args explicit receiver id before = .ok (.fits overload) after) :
    overload.decl = id := by
  have judged {params binding : List TypeId} {pairs : List (TypeId × TypeId)} {before : Analysis}
      (ran : (inTypes (exactArgs ⟨id, params, binding⟩ pairs) >>= fun fits =>
        pure (if fits = true then Fit.fits ⟨id, params, binding⟩ else .misfit)) before =
          .ok (Fit.fits overload) after) : overload.decl = id := by
    obtain ⟨fits, _, -, ran⟩ := bind_eq_ok ran
    obtain ⟨same, -⟩ := EStateM.Result.ok.inj ran
    split at same
    · exact Fit.fits.inj same ▸ rfl
    · nomatch same
  unfold tryCandidate at ran
  cases isCallable : tree.callable? id with
  | none =>
    rw [isCallable] at ran
    nomatch ran
  | some callable =>
    rw [isCallable] at ran
    dsimp only at ran
    split at ran
    · nomatch ran
    · obtain ⟨params, _, -, ran⟩ := bind_eq_ok ran
      obtain ⟨formals, _, -, ran⟩ := bind_eq_ok ran
      split at ran
      · nomatch ran
      · split at ran
        · obtain ⟨binding, _, -, ran⟩ := bind_eq_ok ran
          exact judged ran
        · split at ran
          · obtain ⟨binding, _, -, ran⟩ := bind_eq_ok ran
            exact judged ran
          · obtain ⟨binding, _, -, ran⟩ := bind_eq_ok ran
            exact judged ran

theorem pick_mem {receiver : TypeId} {miscounted : Bool} {candidates : List DeclId}
    (ran : pick tree args explicit receiver miscounted candidates before = .ok (.ok overload) after) :
    overload.decl ∈ candidates := by
  induction candidates generalizing miscounted before with
  | nil => nomatch ran
  | cons id rest inductionHypothesis =>
    obtain ⟨fit, middle, tried, goesOn⟩ := bind_eq_ok ran
    split at goesOn
    · obtain ⟨same, -⟩ := EStateM.Result.ok.inj goesOn
      cases same
      exact tryCandidate_decl tried ▸ .head _
    · exact .tail _ (inductionHypothesis goesOn)
    · exact .tail _ (inductionHypothesis goesOn)

/-! ### What is recorded -/

/-- The type behind an access is known, and if it is a union, then a member was found in every
candidate, and the target is that of the first. -/
structure ReachesFirst (tree : Tree) (state : Analysis) (type : TypeId) (form : ExprForm)
    (target : DeclId) : Prop where
  known : (state.typing.types.form? type).isSome
  first : ∀ group, state.typing.types.form? type = some (.multi group) →
    ∃ others, List.Forall₂ (Offers tree state · · form) (state.typing.types.elems type)
      (target :: others)

theorem ReachesFirst.keeps (keeps : before.Keeps kept after)
    (reaches : ReachesFirst tree before type form target) :
    ReachesFirst tree after type form target := by
  obtain ⟨inner, isForm⟩ := Option.isSome_iff_exists.mp reaches.known
  have isForm' := keeps.types.form? isForm
  refine ⟨by rw [isForm']; rfl, fun group isMulti => ?_⟩
  cases isForm'.symm.trans isMulti
  obtain ⟨others, all⟩ := reaches.first group isForm
  rw [keeps.types.elems fun none => by rw [none] at all; cases all]
  exact ⟨others, all.imp fun _ _ offers => offers.keeps keeps⟩

/-- A target that was found for a union is that of its first candidate. -/
theorem reachesFirst_of_common (checks : ∀ candidate, Checks tree nowhere (look candidate))
    (looks : ∀ {candidate before found after}, look candidate before = .ok (some found) after →
      Offers tree before candidate found.1 form) {member : TypeId}
    (isMulti : before.typing.types.kindOf type = .multi)
    (ran : commonMember look (before.typing.types.elems type) none before =
      .ok (some (target, member)) after) : ReachesFirst tree after type form target := by
  have keeps := keeps_of_checks (acts_commonMember checks _ _) ran
  obtain ⟨members, all, isFirst⟩ := commonMember_spec checks looks ran
  obtain ⟨others, rfl⟩ : ∃ others, members = target :: others :=
    List.head?_eq_some_iff.mp isFirst
  cases isForm : before.typing.types.form? type with
  | none => simp [TypeTable.kindOf, isForm] at isMulti
  | some form =>
    refine ⟨by rw [keeps.types.form? isForm]; rfl, fun _ _ => ⟨others, ?_⟩⟩
    rw [keeps.types.elems fun none => by rw [none] at all; cases all]
    exact all

theorem reachesFirst_of_class {state : Analysis}
    (isClass : state.typing.types.kindOf type = .classType) (form : ExprForm) (target : DeclId) :
    ReachesFirst tree state type form target := by
  unfold TypeTable.kindOf at isClass
  cases known : state.typing.types.form? type with
  | none => simp [known] at isClass
  | some inner =>
    refine ⟨by rw [known]; rfl, fun group isMulti => ?_⟩
    rw [isMulti] at isClass
    nomatch isClass

/-- An action that records nothing leaves the targets alone. -/
theorem targets_of_checks {α : Type} {action : AnalysisM α} (checks : Checks tree nowhere action)
    {value : α} (ran : action before = .ok value after) (id : ExprId) :
    after.typing.targets[id]? = before.typing.targets[id]? :=
  (keeps_of_checks checks ran).targets fun never => never

section Targets

variable {id receiver : ExprId} {name : NameId} {span : Span} {type value : TypeId} {target : DeclId}
  {before after : Analysis} (blank : before.typing.targets[id]? = none)
  (reaches : after.typing.targets[id]? = some target)

include blank reaches

/-- Where a member that all candidates have is recorded, and nothing without one, the target is
the member of the first. -/
theorem recorded_reaches (checks : ∀ candidate, Checks tree nowhere (look candidate))
    (looks : ∀ {candidate before found after}, look candidate before = .ok (some found) after →
      Offers tree before candidate found.1 form) {record : DeclId → AnalysisM Unit}
    (records : ∀ {decl before after}, record decl before = .ok () after →
      before.Keeps (¬Own (.expr id) ·) after ∧ after.typing.targets[id]? = some decl)
    {complaint : AnalysisM TypeId} (complains : Checks tree nowhere complaint)
    (isMulti : before.typing.types.kindOf type = .multi)
    (ran : (commonMember look (before.typing.types.elems type) none >>= fun
      | some (decl, member) => do record decl; return member
      | none => complaint) before = .ok value after) :
    ReachesFirst tree after type form target := by
  obtain ⟨found, middle, looked, ran⟩ := bind_eq_ok ran
  cases found with
  | none =>
    rw [targets_of_checks complains ran, targets_of_checks (acts_commonMember checks _ _) looked, blank]
      at reaches
    nomatch reaches
  | some member =>
    obtain ⟨_, last, recorded, ends⟩ := bind_eq_ok ran
    cases ends
    obtain ⟨keeps, isTarget⟩ := records recorded
    cases isTarget.symm.trans reaches
    exact (reachesFirst_of_common checks looks isMulti looked).keeps keeps

theorem fieldThroughType_reaches
    (ran : fieldThroughType tree id span type (tree.text name) before = .ok value after) :
    ReachesFirst tree after type (.field receiver name) target := by
  have keeps := keeps_of_checks (aims_fieldThroughType tree (own id) ..).checks ran
  obtain ⟨_, _, isKind, ran⟩ := bind_eq_ok ran
  cases isKind
  have complains (code : Code) (args : String → List String) : Checks tree nowhere (do
      error code span (args (← label type))
      return 0 : AnalysisM TypeId) :=
    .bind (acts_label _) fun _ => .bind (.error ..) fun _ => .pure _
  cases isKind : before.typing.types.kindOf type with
  | classType => exact (reachesFirst_of_class isKind _ _).keeps keeps
  | multi =>
    rw [isKind] at ran
    obtain ⟨_, _, isTable, ran⟩ := bind_eq_ok ran
    cases isTable
    refine recorded_reaches blank reaches (checks_field? tree · _) field?_offers (fun recorded => ?_)
      (complains _ fun text => [tree.text name, text]) isKind ran
    refine ⟨@keeps_of_checks _ _ _ _ _ _ tree (acts_recordTarget (own id) _) recorded, ?_⟩
    cases recorded
    simp
  | _ =>
    rw [isKind] at ran
    rw [targets_of_checks (complains _ fun text => [text]) ran, blank] at reaches
    nomatch reaches

theorem unionCall_reaches {argIds : List ExprId}
    (isMulti : before.typing.types.kindOf type = .multi)
    (ran : unionCall tree id span (tree.text name) args type before = .ok value after) :
    ReachesFirst tree after type (.methodCall receiver name argIds) target := by
  obtain ⟨_, _, isTable, ran⟩ := bind_eq_ok ran
  cases isTable
  refine recorded_reaches blank reaches ?checks ?looks ?records ?complains isMulti ran
  case checks =>
    intro candidate
    refine .bind .types fun table => ?_
    split
    · exact .pure _
    · refine .read (fun state => .bind (checks_pick tree ..) fun picked => ?_) fun _ _ => rfl
      split
      · exact .pure _
      · exact .bind (checks_resultType tree ..) fun _ => .pure _
  case looks =>
    intro candidate before found after looked
    obtain ⟨_, _, isTable, looked⟩ := bind_eq_ok looked
    cases isTable
    cases isClass : before.typing.types.classDecl candidate with
    | none =>
      rw [isClass] at looked
      nomatch looked
    | some owner =>
      rw [isClass] at looked
      obtain ⟨_, _, isState, looked⟩ := bind_eq_ok looked
      cases isState
      obtain ⟨picked, _, picks, looked⟩ := bind_eq_ok looked
      cases picked with
      | error miscounted => nomatch looked
      | ok overload =>
        obtain ⟨_, _, -, ends⟩ := bind_eq_ok looked
        obtain ⟨same, -⟩ := EStateM.Result.ok.inj ends
        cases same
        exact .method isClass (pick_mem picks)
  case records =>
    intro decl before after recorded
    refine ⟨keeps_of_checks (aims_recordCall tree (own id) _).checks recorded, ?_⟩
    cases recorded
    simp
  case complains => exact .bind (acts_label _) fun _ => .bind (.error ..) fun _ => .pure _

end Targets

/-! ### Accesses -/

/-- An access that was left to types reaches what it reaches in the first candidate, if its
receiver is a union. -/
structure AccessReachesFirst (tree : Tree) (state : Analysis) (id : ExprId) : Prop where
  reaches : ∀ {expr : Expr} {receiver : ExprId} {type : TypeId} {target : DeclId},
    tree.exprs.get? id = some expr → expr.form.receiver? = some receiver → ¬tree.isThis receiver →
    state.names.uses[id]? = none → state.typing.exprTypes[receiver]? = some type →
    state.typing.targets[id]? = some target → ReachesFirst tree state type expr.form target

theorem receiver_mem_parts {id : ExprId} {expr : Expr} (isExpr : tree.exprs.get? id = some expr)
    (isReceiver : expr.form.receiver? = some receiver) :
    .expr receiver ∈ tree.parts (.expr id) := by
  simp only [Tree.parts, isExpr]
  cases form : expr.form with
  | field other name =>
    obtain rfl : other = receiver := by simpa [form, ExprForm.receiver?] using isReceiver
    simp [form, ExprForm.parts]
  | methodCall other name args =>
    obtain rfl : other = receiver := by simpa [form, ExprForm.receiver?] using isReceiver
    simp [form, ExprForm.parts]
  | _ => simp [form, ExprForm.receiver?] at isReceiver

theorem lasting_accessReachesFirst : Lasting tree (AccessReachesFirst tree) := by
  refine fun {before after id} keeps first => ⟨fun {expr receiver type target} isExpr isReceiver notThis
    unresolved isType isTarget => ?_⟩
  have below : tree.Reaches (.expr id) (.expr receiver) := .single (receiver_mem_parts isExpr isReceiver)
  rw [keeps.uses] at unresolved
  rw [keeps.exprTypes below] at isType
  rw [keeps.targets .refl] at isTarget
  exact (first.reaches isExpr isReceiver notThis unresolved isType isTarget).keeps keeps

/-- Behind the check of the receiver and the arguments of an access, what is recorded about the
receiver is its type, and nothing is recorded about the access. -/
structure AtAccess (id receiver : ExprId) (type : TypeId) (state : Analysis) : Prop where
  received : state.typing.exprTypes[receiver]? = some type
  blank : state.typing.targets[id]? = none

/-- Behind the check of an access, what is recorded about the receiver is its type, and a target
is that of the first candidate. -/
structure BehindAccess (tree : Tree) (id receiver : ExprId) (form : ExprForm) (state : Analysis) :
    Prop where
  reaches : ∃ type, state.typing.exprTypes[receiver]? = some type ∧
    ∀ {target}, state.typing.targets[id]? = some target → ReachesFirst tree state type form target

namespace AtAccess

variable {id receiver : ExprId} {type : TypeId} {form : ExprForm} {before after : Analysis}
  (reached : AtAccess id receiver type before)

include reached

theorem keeps {kept : ExprId → Prop} (keeps : before.Keeps kept after) (isKept : kept id)
    (isKept' : kept receiver) : AtAccess id receiver type after :=
  ⟨(keeps.exprTypes isKept').trans reached.received, (keeps.targets isKept).trans reached.blank⟩

/-- An action that records nothing finds no target. -/
theorem idle (checks : Checks tree nowhere action) (ran : action before = .ok value after) :
    BehindAccess tree id receiver form after := by
  have keeps := keeps_of_checks checks ran
  have same := reached.keeps keeps (fun never => never) fun never => never
  exact ⟨type, same.received, fun some => nomatch same.blank.symm.trans some⟩

/-- An action that records something about the access leaves what is known of the receiver. -/
theorem behind (different : receiver ≠ id) (checks : Checks tree (Own (.expr id)) action)
    (ran : action before = .ok value after)
    (first : before.Keeps (¬Own (.expr id) ·) after → ∀ {target},
      after.typing.targets[id]? = some target → ReachesFirst tree after type form target) :
    BehindAccess tree id receiver form after := by
  have apart : ¬Own (.expr id) receiver := fun same => different (Node.expr.inj same).symm
  have keeps := keeps_of_checks checks ran
  exact ⟨type, (keeps.exprTypes apart).trans reached.received, first keeps⟩

end AtAccess

section Accesses

variable (forest : tree.Forest loose) {place : Place} {fuel id receiver : Nat} {span : Span}
  {name : NameId} {value : TypeId} {before after : Analysis}
  (lower : ∀ {part : Nat}, .expr part ∈ tree.parts (.expr id) → part < fuel)
  (holds : tree.Holds (.expr id)) (isPart : .expr receiver ∈ tree.parts (.expr id))
  (fresh : Fresh tree (.expr id) before)

include forest lower holds isPart fresh

theorem atAccess_of_check (ran : exprWithin tree place fuel receiver 0 before = .ok type after) :
    AtAccess id receiver type after := by
  have enough := lower isPart
  have keeps := keeps_exprWithin forest enough (forest.holds_part isPart) ran
  obtain ⟨fuel, rfl⟩ : ∃ less, fuel = less + 1 := ⟨fuel - 1, by omega⟩
  refine ⟨(records_exprWithin ..).recorded ran, ?_⟩
  rw [keeps.targets (forest.not_reaches_whole holds isPart)]
  exact congrArg Prod.snd (fresh id .refl)

theorem fieldType_behind (different : receiver ≠ id) (unresolved : before.names.uses[id]? = none)
    (ran : fieldType tree (exprWithin tree place fuel) id span receiver (tree.text name) before =
      .ok value after) : BehindAccess tree id receiver (.field receiver name) after := by
  obtain ⟨type, access, checked, ran⟩ := bind_eq_ok ran
  have reached := atAccess_of_check forest lower holds isPart fresh checked
  have keeps := keeps_exprWithin forest (lower isPart) (forest.holds_part isPart) checked
  obtain ⟨_, _, isState, ran⟩ := bind_eq_ok ran
  cases isState
  dsimp only at ran
  rw [keeps.uses, unresolved] at ran
  dsimp only at ran
  split at ran
  · exact reached.idle (.pure _) ran
  · split at ran
    · exact reached.idle (.pure _) ran
    · exact reached.behind different (aims_fieldThroughType tree (own id) ..).checks ran
        fun _ _ some => fieldThroughType_reaches reached.blank some ran

theorem methodCallType_behind (different : receiver ≠ id) {args : List ExprId}
    (notThis : ¬tree.isThis receiver)
    (isArg : ∀ arg ∈ args, .expr arg ∈ tree.parts (.expr id)) (other : receiver ∉ args)
    (ran : methodCallType tree place (exprWithin tree place fuel) id span receiver (tree.text name) args
      before = .ok value after) :
    BehindAccess tree id receiver (.methodCall receiver name args) after := by
  obtain ⟨type, between, checked, ran⟩ := bind_eq_ok ran
  obtain ⟨argTypes, access, each, ran⟩ := bind_eq_ok ran
  have keeps : between.Keeps (fun other => ∀ arg ∈ args, ¬tree.Reaches (.expr arg) (.expr other))
      access := by
    refine .mapM (fun arg member before after value ran => ?_) each
    exact (keeps_exprWithin forest (lower (isArg arg member)) (forest.holds_part (isArg arg member))
      ran).mono fun _ never => never arg member
  have reached : AtAccess id receiver type access := by
    refine (atAccess_of_check forest lower holds isPart fresh checked).keeps keeps ?_ ?_
    · exact fun arg member => forest.not_reaches_whole holds (isArg arg member)
    · intro arg member below
      have same := forest.parts_apart holds (isArg arg member) isPart below .refl
      exact other (Node.expr.inj same ▸ member)
  have complains (code : Code) (args : String → List String) : Checks tree nowhere (do
      error code span (args (← label type))
      return 0 : AnalysisM TypeId) :=
    .bind (acts_label _) fun _ => .bind (.error ..) fun _ => .pure _
  rw [if_neg notThis] at ran
  obtain ⟨_, _, isKind, ran⟩ := bind_eq_ok ran
  cases isKind
  cases isKind : access.typing.types.kindOf type with
  | invalid =>
    rw [isKind] at ran
    exact reached.idle (.pure _) ran
  | classType =>
    rw [isKind] at ran
    refine reached.behind different (?_ : Checks tree (Own (.expr id)) _) ran
      fun keeps _ _ => (reachesFirst_of_class isKind _ _).keeps keeps
    refine .bind .types fun table => .read (fun state => ?_) fun _ _ => rfl
    split
    · exact .bind (acts_label _) fun _ => .bind (.error ..) fun _ => .pure _
    · exact (aims_callAmong tree (own id) ..).checks
  | multi =>
    rw [isKind] at ran
    exact reached.behind different (aims_unionCall tree (own id) ..).checks ran
      fun _ _ some => unionCall_reaches reached.blank some isKind ran
  | _ =>
    rw [isKind] at ran
    exact reached.idle (complains _ fun text => [text]) ran

end Accesses

theorem settling_accessReachesFirst (forest : tree.Forest loose) :
    Settling tree (AccessReachesFirst tree) := by
  refine fun {place fuel id expected value before after} enough holds grown fresh ran =>
    ⟨fun {expr receiver type target} isExpr isReceiver notThis unresolved isType isTarget => ?_⟩
  have isPart := receiver_mem_parts isExpr isReceiver
  have different : receiver ≠ id := by
    rintro rfl
    exact forest.not_reaches_whole holds isPart .refl
  rw [(keeps_exprWithin forest enough holds ran).uses] at unresolved
  cases fuel with
  | zero => omega
  | succ fuel =>
    have parts := tree.parts_expr isExpr
    have lower {part : Nat} (isPart : .expr part ∈ tree.parts (.expr id)) : part < fuel := by
      have := forest.exprsBelow id expr isExpr part (parts ▸ isPart)
      omega
    -- The type of the access is recorded last.
    have closes {middle : Analysis} {found : TypeId}
        (behind : BehindAccess tree id receiver expr.form middle)
        (ends : (do recordExpr id found; return found) middle = .ok value after) :
        ReachesFirst tree after type expr.form target := by
      obtain ⟨_, last, records, ends⟩ := bind_eq_ok ends
      obtain ⟨-, rfl⟩ := EStateM.Result.ok.inj ends
      have checks : Checks tree (Own (.expr id)) (recordExpr id found) := acts_recordExpr (own id) _
      have keeps := keeps_of_checks checks records
      obtain ⟨type', received, first⟩ := behind.reaches
      rw [keeps.exprTypes fun same => different (Node.expr.inj same).symm, received] at isType
      cases isType
      refine (first ?_).keeps keeps
      cases records
      exact isTarget
    unfold exprWithin at ran
    simp only [isExpr] at ran
    cases form : expr.form with
    | field other name =>
      obtain rfl : other = receiver := by simpa [form, ExprForm.receiver?] using isReceiver
      simp only [form] at ran closes ⊢
      obtain ⟨found, middle, ran, ends⟩ := bind_eq_ok ran
      exact closes (fieldType_behind forest lower holds isPart fresh different unresolved ran) ends
    | methodCall other name args =>
      obtain rfl : other = receiver := by simpa [form, ExprForm.receiver?] using isReceiver
      have once := forest.nodup_parts (.expr id)
      rw [parts, form] at once
      simp only [form] at ran closes ⊢
      obtain ⟨found, middle, ran, ends⟩ := bind_eq_ok ran
      refine closes (methodCallType_behind forest lower holds isPart fresh different notThis
        (fun arg member => ?_) (fun member => ?_) ran) ends
      · simp [parts, form, ExprForm.parts, member]
      · exact (List.nodup_cons.mp once).1 (List.mem_map_of_mem member)
    | _ => simp [form, ExprForm.receiver?] at isReceiver

end TypeCheck

namespace Rules

/-! ### Programs -/

/-- A field or method is public, or the class around a place declares it. -/
def Visible (tree : Tree) (place : Place) (member : DeclId) : Prop :=
  ∀ decl, tree.decls.get? member = some decl → decl.kind = .field ∨ decl.kind = .method →
    decl.mods.has .isPublic ∨ decl.owner = place.enclosing

/-- An access through a value of a union, of which the type is recorded; it was left to types. -/
structure UnionAccess (tree : Tree) (state : Analysis) (id : ExprId) (expr : Expr) (type : TypeId) :
    Prop where
  isExpr : tree.exprs.get? id = some expr
  receiver : ∃ receiver, expr.form.receiver? = some receiver ∧ ¬tree.isThis receiver ∧
    state.typing.exprTypes[receiver]? = some type
  isUnion : ∃ group, state.typing.types.form? type = some (.multi group)
  unresolved : state.names.uses[id]? = none

/-- Where a run of all passes finds no errors and an access through a union has a target, every
candidate of the union has a member that the access may mean; the target is the member of the
first candidate, and that one is visible from the access. -/
theorem first_candidate_visible {loader : Loader} (loaded : loader.Reached) {root : UnitId}
    {options : BatchOptions} (unlimited : options.limit ≤ 0) {trace : Trace.Recorder} {parent : Nat}
    {outcome : BatchOutcome}
    (ran : Pipeline.full.run loader.tree root options trace parent = .ok outcome)
    (succeeded : outcome.succeeded) {unit : UnitId} {id : ExprId}
    (processed : unit ∈ outcome.analysis.names.unitOrder)
    (below : loader.tree.Reaches (.unit unit) (.expr id)) {expr : Expr} {type : TypeId}
    (access : UnionAccess loader.tree outcome.analysis id expr type) {target : DeclId}
    (isTarget : outcome.analysis.typing.targets[id]? = some target) :
    (∃ others, List.Forall₂ (TypeCheck.Offers loader.tree outcome.analysis · · expr.form)
      (outcome.analysis.typing.types.elems type) (target :: others)) ∧
    ∀ place, loader.tree.Around (.expr id) place → Visible loader.tree place target := by
  obtain ⟨resolved, typed, ruled, went, names, typing⟩ :=
    Pipeline.went_of_succeeded unlimited ran succeeded
  obtain ⟨isExpr, ⟨receiver, isReceiver, notThis, isType⟩, ⟨group, isUnion⟩, unresolved⟩ := access
  have keeps := went.keeps names typing
  have isTarget' : typed.typing.targets[id]? = some target := (keeps.targets trivial).symm.trans isTarget
  constructor
  · have sound := went.sound loaded (TypeCheck.settling_accessReachesFirst loaded.forest)
      TypeCheck.lasting_accessReachesFirst fun blank =>
        nomatch (congrArg Prod.snd blank).symm.trans isTarget'
    have first := TypeCheck.lasting_accessReachesFirst (keeps.mono fun _ _ => trivial) sound
    exact (first.reaches isExpr isReceiver notThis unresolved isType isTarget).first group isUnion
  · intro place around decl isDecl isMember
    by_contra hidden
    obtain ⟨notPublic, apart⟩ := not_or.mp hidden
    have fault : Fault loader.tree typed (.expr id) _ :=
      .access isExpr isReceiver notThis
        (by simp [target?, isTarget']) isDecl isMember notPublic around apart
    have same : outcome.analysis.names.unitOrder = typed.names.unitOrder := by
      have atRest := congrArg Resolution.unitOrder keeps.names
      exact atRest
    exact went.not_isError loaded fault (same ▸ processed) below rfl

/-- Two classes with a field of one name, of which only the first is public, and a function that
reads it from a value of either class. -/
def twoCandidates : Loader :=
  let named (name : String) : Option Doc.TypeExpr := some { kind := "named", name }
  let either : Option Doc.TypeExpr := some { kind := "union", elems := [named "A", named "B"] }
  let field (mods : List String) : Option Doc.Variable := some { name := "x", type := named "Int", mods }
  let access : Doc.Expr :=
    { kind := "field", receiver := some { kind := "name", name := "u" }, name := "x" }
  let document : Doc.Document :=
    { version := 1
      units := [some
        { path := "main"
          classes :=
            [some { name := "A", fields := [field ["public"]] },
              some { name := "B", fields := [field []] }]
          functions := [some
            { name := "f"
              params := [some { name := "u", type := either }]
              body := [some { kind := "expr", expr := some access }] }] }] }
  Loader.behind (Loader.load document {})

/-- What a run over the program delivers. -/
def twoCandidatesOutcome : BatchOutcome :=
  (Pipeline.full.run twoCandidates.tree 1 {} {} 0).toOption.getD ⟨[], {}⟩

theorem twoCandidates_runs :
    (Pipeline.full.run twoCandidates.tree 1 {} {} 0).isOk ∧
      twoCandidatesOutcome.succeeded ∧ twoCandidatesOutcome.analysis.names.unitOrder = [1] ∧
      twoCandidatesOutcome.analysis.names.uses[2]? = none ∧
      twoCandidatesOutcome.analysis.typing.exprTypes[1]? = some 10 ∧
      twoCandidatesOutcome.analysis.typing.targets[2]? = some 1 ∧
      twoCandidatesOutcome.analysis.typing.types.form? 10 = some (.multi 1) := by
  simp only [twoCandidatesOutcome, twoCandidates, Loader.load_eq_loadWithin]
  decide +kernel

theorem twoCandidates_parts :
    Node.decl .function 6 ∈ twoCandidates.tree.parts (.unit 1) ∧
      Node.stmt 2 ∈ twoCandidates.tree.parts (.decl .function 6) ∧
      Node.stmt 1 ∈ twoCandidates.tree.parts (.stmt 2) ∧
      Node.expr 2 ∈ twoCandidates.tree.parts (.stmt 1) ∧
      twoCandidates.tree.isThis 1 = false ∧
      twoCandidates.tree.exprs.get? 2 = some ⟨.field 1 1, { file := 1 }⟩ := by
  simp only [twoCandidates, Loader.load_eq_loadWithin]
  decide +kernel

theorem twoCandidates_ran :
    Pipeline.full.run twoCandidates.tree 1 {} {} 0 = .ok twoCandidatesOutcome :=
  Pipeline.eq_ok_of_isOk twoCandidates_runs.1 _

theorem first_candidate_visible_twoCandidates :
    twoCandidatesOutcome.succeeded ∧
    (∃ others, List.Forall₂
      (TypeCheck.Offers twoCandidates.tree twoCandidatesOutcome.analysis · · (.field 1 1))
        (twoCandidatesOutcome.analysis.typing.types.elems 10) (1 :: others)) ∧
    ∀ place, twoCandidates.tree.Around (.expr 2) place → Visible twoCandidates.tree place 1 := by
  obtain ⟨-, succeeded, units, unresolved, isType, isTarget, isUnion⟩ := twoCandidates_runs
  obtain ⟨function, body, stmt, access, isThis, isExpr⟩ := twoCandidates_parts
  have below : twoCandidates.tree.Reaches (.unit 1) (.expr 2) := by
    exact .head function (.head body (.head stmt (.single access)))
  have notThis : ¬twoCandidates.tree.isThis 1 := by simp [isThis]
  have loaded : twoCandidates.Reached := .load _ (.fresh {})
  exact ⟨succeeded, first_candidate_visible loaded (by decide) twoCandidates_ran succeeded
    (units ▸ .head _) below
    ⟨isExpr, ⟨1, rfl, notThis, isType⟩, ⟨1, isUnion⟩, unresolved⟩ isTarget⟩

end Rules

end TreeCheck
