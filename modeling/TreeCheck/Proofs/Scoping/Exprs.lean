/-
Names in types and expressions. Resolving a written type touches nothing that names are
looked up in. Resolving an expression looks up every name in it, in the order in which
the walk through the expression comes by them.
-/

import TreeCheck.Proofs.Scoping.Simulation

namespace TreeCheck.Lexical

open AnalysisM Resolve

variable {tree : Tree}
variable {code missing : Code} {id : ExprId} {place : Place} {declaring : Option NameId}
  {entries : List Entry} {state : Analysis} {expr : Expr} {name : NameId}

/-! ### Types -/

theorem silent_suggesting (unlike : code ≠ .unresolved) (unlike' : code ≠ .selfReference)
    (name : String) (candidates : List String) (span : Span) (args : List String) :
    Silent tree (report (suggesting name candidates (.error code span args))) := by
  refine .report ?_
  unfold suggesting
  split <;> simp [Diagnostic.concernsName, Diagnostic.error, Diagnostic.withHint, unlike, unlike']

/-- The codes that an unknown name in a type is reported as. -/
def IsTypeCode (code : Code) : Prop := code = .undeclaredType ∨ code = .undeclaredClass

theorem IsTypeCode.unlike (isTypeCode : IsTypeCode code) :
    code ≠ .unresolved ∧ code ≠ .selfReference := by
  rcases isTypeCode with rfl | rfl <;> decide

theorem silent_complain (isTypeCode : IsTypeCode missing) (span : Span) (name : String) :
    Silent tree (referTo.complain tree span missing name) := by
  refine .bind (.bind .scopes fun _ => .bind .visibleNames fun _ => .pure _) fun _ => ?_
  exact .bind (silent_suggesting isTypeCode.unlike.1 isTypeCode.unlike.2 ..) fun _ => .pure _

theorem silent_typeRef (id : TypeExprId) (decl : DeclId) :
    Silent tree (modifyNames fun names => { names with typeRefs := names.typeRefs.insert id decl }) :=
  .modifyNames (fun _ => rfl) (fun _ => rfl) (fun _ => rfl) (fun _ => rfl) fun _ _ _ _ => rfl

theorem silent_referTo (id : TypeExprId) (span : Span) (isTypeCode : IsTypeCode missing)
    (name : String) : Silent tree (referTo tree id span missing name) := by
  unfold referTo
  split
  · exact .pure _
  · refine .bind (.find? _) fun found => ?_
    split
    · split
      · exact .bind (silent_typeRef ..) fun _ => .pure _
      · exact silent_complain isTypeCode ..
    · exact silent_complain isTypeCode ..

theorem silent_typeWithin (fuel : Nat) (isTypeCode : IsTypeCode missing) (id : Option TypeExprId) :
    Silent tree (typeWithin tree fuel missing id) := by
  induction fuel generalizing missing id with
  | zero => exact .pure _
  | succ fuel inductionHypothesis =>
    have inner (id : Option TypeExprId) :
        Silent tree (discard (typeWithin tree fuel .undeclaredType id)) :=
      (inductionHypothesis (.inl rfl) id).discard
    unfold typeWithin
    split
    · exact .pure _
    · split
      · exact .bind (.forM inner) fun _ => silent_referTo _ _ isTypeCode _
      · exact .bind (inner _) fun _ => .pure _
      · exact .bind (inner _) fun _ => .pure _
      · exact .bind (.forM inner) fun _ => .pure _
      · exact .bind (.forM inner) fun _ => .pure _

theorem silent_type (id : Option TypeExprId) : Silent tree (type tree id) :=
  silent_typeWithin _ (.inl rfl) id

theorem silent_classType (id : TypeExprId) : Silent tree (classType tree id) := by
  unfold classType
  refine .bind (silent_typeWithin _ (.inr rfl) _) fun found => ?_
  split
  · exact .pure _
  · split
    · exact .error .undeclaredClass (by decide) (by decide) ..
    · exact .pure _

theorem reads_referTo (env : Env) (id : TypeExprId) (span : Span) (isTypeCode : IsTypeCode missing)
    (name : String) :
    Reads tree env (referTo tree id span missing name)
      (if (TypeKind.ofBuiltin? name).isSome then none
      else (env.find? (.ofName name)).filter fun decl =>
        (tree.kindOf? decl).any DeclKind.isTypeName) := by
  have complains : Reads tree env (referTo.complain tree span missing name) none := by
    refine .silently (.bind .scopes fun _ => .bind .visibleNames fun _ => .pure _) fun _ => ?_
    exact .silently (silent_suggesting isTypeCode.unlike.1 isTypeCode.unlike.2 ..) fun _ => .pure _
  unfold referTo
  split
  · exact .pure _
  · refine .bind (.find? _) ?_
    cases env.find? (.ofName name) with
    | none => exact complains
    | some decl =>
      have same : (tree.kindOf? decl).any DeclKind.isTypeName =
          ((tree.kindOf? decl).map DeclKind.isTypeName).getD false := by
        cases tree.kindOf? decl <;> rfl
      rw [Option.filter_some, same]
      dsimp only
      by_cases isType : ((tree.kindOf? decl).map DeclKind.isTypeName).getD false = true
      · rw [if_pos isType, if_pos isType]
        exact .silently (silent_typeRef _ _) fun _ => .pure _
      · rw [if_neg isType, if_neg isType]
        exact complains

/-- A written type with a name of its own gives what the name means. -/
theorem reads_type (env : Env) (id : TypeExprId) :
    Reads tree env (type tree (some id)) (typeName? tree env id) := by
  unfold type typeWithin typeName?
  cases found : tree.types.get? id with
  | none =>
    simp only [Tree.typeAt?, Option.bind_some, found, Option.map_none]
    exact .pure none
  | some written =>
    simp only [Tree.typeAt?, Option.bind_some, found, Option.map_some]
    have inner (id : Option TypeExprId) :
        Silent tree (discard (typeWithin tree tree.types.size .undeclaredType id)) :=
      (silent_typeWithin _ (.inl rfl) id).discard
    cases written.form with
    | named name args => exact .silently (.forM inner) fun _ => reads_referTo env _ _ (.inl rfl) _
    | list base dims => exact .silently (inner _) fun _ => .pure none
    | array base dims => exact .silently (inner _) fun _ => .pure none
    | tuple elems => exact .silently (.forM inner) fun _ => .pure none
    | union members => exact .silently (.forM inner) fun _ => .pure none

/-! ### Uses and reports that are not about names -/

/-- An expression that is no name may be recorded freely. -/
theorem silent_use (unnamed : ∀ name, ¬ tree.IsName id name) (decl : DeclId) :
    Silent tree (use id decl) := by
  refine .modifyNames (fun _ => rfl) (fun _ => rfl) (fun _ => rfl) (fun _ => rfl) ?_
  intro names other name isName
  have different : id ≠ other := fun same => unnamed name (same ▸ isName)
  simp [Std.TreeMap.getElem?_insert, different]

theorem silent_unresolved (unlike : code ≠ .unresolved) (unlike' : code ≠ .selfReference)
    (span : Span) (name : String) (owner candidates : List String) :
    Silent tree (unresolved code span name owner candidates) :=
  silent_suggesting unlike unlike' ..

section

variable (unnamed : ∀ name, ¬ tree.IsName id name)

include unnamed

theorem silent_ownField (span : Span) (owner : DeclId)
    (name : String) : Silent tree (ownField tree id span owner name) := by
  refine .bind .get fun state => ?_
  dsimp only
  split
  · exact silent_use unnamed _
  · exact silent_unresolved (by decide) (by decide) ..

theorem silent_enumField (span : Span) (enum : DeclId)
    (name : String) : Silent tree (enumField tree id span enum name) := by
  unfold enumField
  split
  · exact .pure _
  · split
    · exact silent_use unnamed _
    · exact silent_unresolved (by decide) (by decide) ..

theorem silent_fieldUse (place : Place) (span : Span)
    (receiver : ExprId) (name : String) :
    Silent tree (fieldUse tree place id span receiver name) := by
  unfold fieldUse
  split
  · split
    · exact silent_ownField unnamed ..
    · exact .pure _
  · refine .bind .get fun state => ?_
    split
    · exact silent_enumField unnamed ..
    · exact .pure _
  · exact .pure _

theorem silent_callUse (place : Place) (span : Span)
    (name : String) : Silent tree (callUse place id span name) := by
  refine .bind .get fun state => ?_
  dsimp only
  split
  · exact .bind .visibleNames fun _ => silent_unresolved (by decide) (by decide) ..
  · exact silent_use unnamed _
  · exact .pure _

theorem silent_methodUse (place : Place) (span : Span)
    (receiver : ExprId) (name : String) :
    Silent tree (methodUse tree place id span receiver name) := by
  unfold methodUse
  split
  · exact .pure _
  · split
    · refine .bind .get fun state => ?_
      split
      · exact silent_unresolved (by decide) (by decide) ..
      · exact silent_use unnamed _
      · exact .pure _
    · exact .pure _

end

/-! ### Names -/

/-- The name of the variable whose initial value is walked, as a place has it. -/
structure Declares (place : Place) (declaring : Option NameId) : Prop where
  same : place.declaring = declaring.getD 0
  named : declaring ≠ some 0

theorem Declares.iff (declares : Declares place declaring) (name : NameId) :
    (place.declaring ≠ 0 ∧ name = place.declaring) ↔ declaring = some name := by
  rw [declares.same]
  cases declaring with
  | none => simp
  | some declared =>
    have nonzero : declared ≠ 0 := fun zero => declares.named (by rw [zero])
    simp [nonzero, eq_comm]

theorem Logged.report (logged : Logged tree entries state) (diagnostic : Diagnostic) (entry : Entry)
    (concerns : diagnostic.concernsName) (complaint : entry.complaint? tree = some diagnostic.plain)
    (noUse : (entry.outcome tree).decl? = none) :
    ∃ sink, AnalysisM.report diagnostic state = .ok () { state with sink } ∧
      Logged tree (entries ++ [entry]) { state with sink } := by
  obtain ⟨sink, reported, isOpen, items⟩ := logged.isOpen.report diagnostic
  refine ⟨sink, by simp [AnalysisM.report, reported], ?_, ?_, isOpen⟩
  · intro id name isName
    rw [recorded_append_singleton, noUse, Option.none_or, ite_self]
    exact logged.uses id name isName
  · simp [items, List.filter_append, concerns, logged.reports, List.filterMap_append, complaint]

theorem Logged.use (logged : Logged tree entries state) (other : declaring ≠ some (tree.nameAt id))
    (decl : DeclId) :
    Logged tree (entries ++ [⟨id, declaring, some decl⟩])
      { state with names := { state.names with uses := state.names.uses.insert id decl } } := by
  have outcome : Entry.outcome tree ⟨id, declaring, some decl⟩ = .refersTo decl := if_neg other
  refine ⟨?_, ?_, logged.isOpen⟩
  · intro expr name isName
    rw [recorded_append_singleton, Std.TreeMap.getElem?_insert, outcome]
    by_cases same : id = expr
    · simp [same, Outcome.decl?]
    · simp [same, logged.uses expr name isName]
  · simp [logged.reports, List.filterMap_append, Entry.complaint?, outcome]

theorem follows_nameUse (declares : Declares place declaring)
    (found : tree.exprs.get? id = some expr) (isName : expr.form = .name name) :
    Follows tree (nameUse tree place id expr.span name) fun env =>
      (env, [⟨id, declaring, env.find? (.ofName (tree.text name))⟩]) := by
  have named : tree.nameAt id = name := by simp [Tree.nameAt, found, isName]
  have span : tree.exprSpan id = expr.span := by simp [Tree.exprSpan, found]
  have reports (env : Env) {entries : List Entry} {state : Analysis}
      (stands : Stands tree env entries state) (diagnostic : Diagnostic) (entry : Entry)
      (concerns : diagnostic.concernsName)
      (complaint : entry.complaint? tree = some diagnostic.plain)
      (noUse : (entry.outcome tree).decl? = none) :
      ∃ after, AnalysisM.report diagnostic state = .ok () after ∧
        Stands tree env (entries ++ [entry]) after ∧ Kept tree state after := by
    obtain ⟨sink, reported, logged⟩ := stands.logged.report diagnostic _ concerns complaint noUse
    exact ⟨_, reported, ⟨stands.sound, stands.inside, stands.frames, logged⟩,
      ⟨rfl, .refl _ _, rfl, rfl, rfl, rfl, fun _ _ => rfl⟩⟩
  refine ⟨fun env entries state stands => ?_⟩
  unfold nameUse
  simp only [declares.iff]
  split
  · next same =>
    have outcome : Entry.outcome tree ⟨id, declaring, env.find? (.ofName (tree.text name))⟩ =
        .ownInitial := if_pos (by rw [named]; exact same)
    exact reports env stands _ _ rfl (by simp [Entry.complaint?, outcome, named, span]; rfl)
      (by rw [outcome]; rfl)
  · next different =>
    rw [← named] at different
    obtain ⟨middle, runs, untouched⟩ :=
      (Reads.find? (.ofName (tree.text name))).runs entries state stands
    rw [bind_eq runs]
    have stands' := untouched.stands stands
    cases meaning : env.find? (.ofName (tree.text name)) with
    | some decl =>
      refine ⟨_, rfl,
        ⟨stands'.sound, stands'.inside, stands'.frames, stands'.logged.use different decl⟩, ?_⟩
      exact untouched.kept.trans ⟨rfl, .refl _ _, rfl, rfl, rfl, rfl, fun _ _ => rfl⟩
    | none =>
      obtain ⟨names, middle', runs', untouched'⟩ :=
        Silent.visibleNames.runs middle untouched.isOpen
      have plain (candidates : List String) : (suggesting (tree.text name) candidates
          (.error .unresolved expr.span [tree.text name])).plain =
            .error .unresolved expr.span [tree.text name] := by
        unfold suggesting
        split <;> rfl
      have concerns (candidates : List String) : (suggesting (tree.text name) candidates
          (.error .unresolved expr.span [tree.text name])).concernsName := by
        unfold suggesting
        split <;> rfl
      have outcome : Entry.outcome tree ⟨id, declaring, none⟩ = .unknown := if_neg different
      obtain ⟨after, reported, ends, kept⟩ := reports env (untouched'.stands stands') _
        ⟨id, declaring, none⟩ (concerns names)
        (by simp [Entry.complaint?, outcome, named, span, plain]) (by rw [outcome]; rfl)
      exact ⟨after, (bind_eq runs').trans reported, ends,
        (untouched.kept.trans untouched'.kept).trans kept⟩

/-! ### Expressions -/

theorem Follows.congr {action : AnalysisM Unit} {walk other : Walk} (follows : Follows tree action walk)
    (same : ∀ env, other env = walk env) : Follows tree action other := by
  obtain rfl : other = walk := funext same
  exact follows

/-- The outcomes of a part of an expression; there are no names in a written type. -/
def partEntries (tree : Tree) (env : Env) (declaring : Option NameId) : Node → List Entry
  | .expr id => env.entries tree declaring id
  | _ => []

theorem each_names {α : Type} (items : List α) (view : α → ExprId) (declaring : Option NameId)
    (env : Env) :
    Walk.each items (fun item => Walk.names tree declaring (view item)) env =
      (env, (items.map fun item => .expr (view item)).flatMap (partEntries tree env declaring)) := by
  induction items with
  | nil => rfl
  | cons item rest inductionHypothesis =>
    rw [List.map_cons, List.flatMap_cons]
    show Walk.andThen _ (Walk.each rest _) env = _
    rw [Walk.andThen]
    simp only [Walk.names] at inductionHypothesis ⊢
    rw [inductionHypothesis]
    rfl

theorem partEntries_types (types : List (Option TypeExprId)) (env : Env)
    (declaring : Option NameId) :
    (types.filterMap fun type => type.map .type).flatMap (partEntries tree env declaring) = [] := by
  refine List.flatMap_eq_nil_iff.mpr fun part member => ?_
  obtain ⟨type, _, isType⟩ := List.mem_filterMap.mp member
  obtain ⟨id, _, rfl⟩ := Option.map_eq_some_iff.mp isType
  rfl

section

variable {loose : List Node} (forest : tree.Forest loose)

include forest

theorem entries_of_parts (found : tree.exprs.get? id = some expr)
    (unnamed : ∀ name, expr.form ≠ .name name) (env : Env) (declaring : Option NameId) :
    env.entries tree declaring id = expr.form.parts.flatMap (partEntries tree env declaring) := by
  have holds : tree.Holds (.expr id) := by simp [Tree.Holds, found]
  have parts : tree.parts (.expr id) = expr.form.parts := by simp [Tree.parts, found]
  have here : tree.nameHere (.expr id) = [] := by
    simp only [Tree.nameHere, found, Option.map_some]
    split
    · next name isName => exact absurd (Option.some.inj isName) (unnamed name)
    · rfl
  rw [Env.entries, forest.visit_eq declaring holds, here, parts, List.map_nil, List.nil_append,
    List.map_flatMap]
  refine List.flatMap_congr fun part member => ?_
  have isPart : part ∈ tree.parts (.expr id) := parts ▸ member
  obtain ⟨inner, rfl⟩ | ⟨inner, rfl⟩ := Tree.mem_exprParts member
  · rw [forest.visit_type (forest.holds_part isPart)]
    rfl
  · rfl

theorem entries_of_name (found : tree.exprs.get? id = some expr) (isName : expr.form = .name name)
    (env : Env) (declaring : Option NameId) :
    env.entries tree declaring id =
      [⟨id, declaring, env.find? (.ofName (tree.text name))⟩] := by
  have holds : tree.Holds (.expr id) := by simp [Tree.Holds, found]
  have parts : tree.parts (.expr id) = [] := by simp [Tree.parts, found, isName, ExprForm.parts]
  have here : tree.nameHere (.expr id) = [id] := by simp [Tree.nameHere, found, isName]
  rw [Env.entries, forest.visit_eq declaring holds, here, parts]
  simp [Tree.nameAt, found, isName]

theorem follows_exprWithin (declares : Declares place declaring) (fuel : Nat)
    (holds : tree.Holds (.expr id)) (enough : id < fuel) :
    Follows tree (exprWithin tree place fuel id) (Walk.names tree declaring id) := by
  induction fuel generalizing id with
  | zero => exact absurd enough (Nat.not_lt_zero _)
  | succ fuel inductionHypothesis =>
    obtain ⟨expr, found⟩ := Option.isSome_iff_exists.mp holds
    have inner {part : ExprId} (member : .expr part ∈ expr.form.parts) :
        Follows tree (exprWithin tree place fuel part) (Walk.names tree declaring part) := by
      have below := forest.exprsBelow id expr found part member
      have isPart : .expr part ∈ tree.parts (.expr id) := by simpa [Tree.parts, found] using member
      exact inductionHypothesis (forest.holds_part isPart) (by lia)
    have each {α : Type} {items : List α} (view : α → ExprId)
        (members : ∀ item ∈ items, .expr (view item) ∈ expr.form.parts) :
        Follows tree (items.forM fun item => exprWithin tree place fuel (view item))
          fun env => (env, (items.map fun item => .expr (view item)).flatMap
            (partEntries tree env declaring)) :=
      (Follows.each fun item member => inner (members item member)).congr fun env =>
        (each_names items view declaring env).symm
    unfold exprWithin
    simp only [found]
    by_cases isName : ∃ name, expr.form = .name name
    · obtain ⟨name, isName⟩ := isName
      rw [isName]
      exact (follows_nameUse declares found isName).congr fun env => by
        rw [Walk.names, entries_of_name forest found isName]
    have unnamed (name : NameId) : ¬ tree.IsName id name := by
      intro named
      simp only [Tree.IsName, found, Option.map_some, Option.some.injEq] at named
      exact isName ⟨name, named⟩
    -- Every other expression comes down to its parts, in order.
    have whole {action : AnalysisM Unit} {walk : Walk} (follows : Follows tree action walk)
        (same : ∀ env, walk env = (env, expr.form.parts.flatMap (partEntries tree env declaring))) :
        Follows tree action (Walk.names tree declaring id) :=
      follows.congr fun env => by
        rw [Walk.names, entries_of_parts forest found (not_exists.mp isName), same]
    cases form : expr.form with
    | name name => exact absurd form (not_exists.mp isName name)
    | literal kind value => exact whole .skip fun env => by simp [form, ExprForm.parts, Walk.skip]
    | this =>
      refine whole (.silent ?_) fun env => by simp [form, ExprForm.parts, Walk.skip]
      cases place.enclosing with
      | none => exact .error .thisOutsideClass (by decide) (by decide) ..
      | some owner => exact silent_use unnamed _
    | field receiver name =>
      refine whole (.andThen (inner (by simp [form, ExprForm.parts]))
        (.silent (silent_fieldUse unnamed ..))) fun env => ?_
      simp [form, ExprForm.parts, partEntries, Walk.andThen, Walk.names, Walk.skip]
    | index target indices =>
      refine whole (.andThen (inner (by simp [form, ExprForm.parts]))
        (each (fun index => index) (by simp +contextual [form, ExprForm.parts]))) fun env => ?_
      simp [form, ExprForm.parts, partEntries, Walk.andThen, Walk.names]
    | call name typeArgs args =>
      refine whole (.silently (.forM fun arg => (silent_type arg).discard) fun _ =>
        .andThen (each (fun arg => arg) (by simp +contextual [form, ExprForm.parts]))
          (.silent (silent_callUse unnamed ..))) fun env => ?_
      simp [form, ExprForm.parts, partEntries_types, Walk.andThen, Walk.skip]
    | methodCall receiver name args =>
      refine whole (.andThen (inner (by simp [form, ExprForm.parts]))
        (.andThen (each (fun arg => arg) (by simp +contextual [form, ExprForm.parts]))
          (.silent (silent_methodUse unnamed ..)))) fun env => ?_
      simp [form, ExprForm.parts, partEntries, Walk.andThen, Walk.skip, Walk.names]
    | binary op left right =>
      refine whole (.andThen (inner (by simp [form, ExprForm.parts]))
        (inner (by simp [form, ExprForm.parts]))) fun env => ?_
      simp [form, ExprForm.parts, partEntries, Walk.andThen, Walk.names]
    | unary op operand =>
      refine whole (inner (by simp [form, ExprForm.parts])) fun env => ?_
      simp [form, ExprForm.parts, partEntries, Walk.names]
    | cast target operand =>
      refine whole (.silently (silent_type _).discard fun _ =>
        inner (by simp [form, ExprForm.parts])) fun env => ?_
      simp [form, ExprForm.parts, partEntries, Walk.names]
    | create created inits =>
      refine whole (.silently (silent_classType _) fun _ =>
        each FieldInit.value fun init member => ?_) fun env => ?_
      · rw [form]
        exact .tail _ (List.mem_map.mpr ⟨init, member, rfl⟩)
      · simp [form, ExprForm.parts, partEntries]
    | list elem elems =>
      refine whole (.silently (silent_type _).discard fun _ =>
        each (fun elem => elem) (by simp +contextual [form, ExprForm.parts])) fun env => ?_
      have types : (elem.map Node.type).toList = [elem].filterMap fun type => type.map .type := by
        cases elem <;> rfl
      simp only [form, ExprForm.parts, types, List.flatMap_append, partEntries_types, List.nil_append]
    | tuple elems =>
      refine whole (each (fun elem => elem) (by simp +contextual [form, ExprForm.parts]))
        fun env => ?_
      simp [form, ExprForm.parts]

/-- Resolving an expression looks up the names in it. -/
theorem follows_expr (declares : Declares place declaring) (holds : tree.Holds (.expr id)) :
    Follows tree (Resolve.expr tree place id) (Walk.names tree declaring id) := by
  obtain ⟨expr, found⟩ := Option.isSome_iff_exists.mp holds
  exact follows_exprWithin forest declares _ holds
    (Nat.lt_succ_of_le (Arena.get?_eq_some_le found).2)

end

end TreeCheck.Lexical
