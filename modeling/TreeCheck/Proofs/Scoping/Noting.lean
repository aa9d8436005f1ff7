/-
Types and expressions: resolving them does nothing but note what names refer to, at the
nodes below them. What is noted is a declaration of the tree.
-/

import TreeCheck.Proofs.Scoping.Endings

namespace TreeCheck

variable {id : ExprId} {place : Place}

namespace Resolve

open AnalysisM

variable {tree : Tree} {loose : List Node} {touched : Node → Prop} {before : Analysis}

/-! ### Types -/

theorem notes_complain {post : Option DeclId → Analysis → Prop} (nothing : ∀ after, post none after)
    (span : Span) (missing : Code) (name : String) :
    Notes tree touched before post (referTo.complain tree span missing name) := by
  obtain ⟨names, reads⟩ : ∃ names, typeNames tree before = .ok names before := ⟨_, rfl⟩
  exact .read reads (.bind (.report _) fun _ after _ _ => .pure (nothing after))

theorem notes_referTo (inside : Inside tree before) {id : TypeExprId} (here : touched (.type id))
    (span : Span) (missing : Code) (name : String) :
    Notes tree touched before
      (fun found after => ∀ decl ∈ found, after.names.typeRefs[id]? = some decl ∧
        after.names.scopes.Binds decl)
      (referTo tree id span missing name) := by
  unfold referTo
  split
  · exact .pure nofun
  · refine .read rfl ?_
    cases means : before.names.scopes.meaning? (.ofName name) with
    | none => exact notes_complain (fun _ => nofun) ..
    | some decl =>
      dsimp only
      split
      · next isType =>
        have binds := inside.valid.binds_of_meaning? inside.isOpen means
        obtain ⟨kind, isKind, -⟩ := inside.valid.bindable_of_binds binds
        rw [isKind] at isType
        refine ⟨⟨rfl, fun _ => .inl rfl, fun other => ?_⟩, fun _ same => ?_⟩
        · by_cases same : other = id
          · subst same
            exact .inr ⟨here, decl, kind, by simp, isKind, isType⟩
          · exact .inl (by simp [Std.TreeMap.getElem?_insert, Ne.symm same])
        · obtain rfl := Option.mem_some.mp same
          exact ⟨by simp, binds⟩
      · exact notes_complain (fun _ => nofun) ..

theorem notes_typeWithin (closed : tree.Closed touched) (inside : Inside tree before) (fuel : Nat)
    (missing : Code) {id : Option TypeExprId} (here : ∀ type ∈ id, touched (.type type)) :
    Notes tree touched before
      (fun found after => ∀ decl ∈ found, ∃ type, id = some type ∧
        after.names.typeRefs[type]? = some decl ∧ after.names.scopes.Binds decl)
      (typeWithin tree fuel missing id) := by
  induction fuel generalizing missing id before with
  | zero => exact .pure nofun
  | succ fuel inductionHypothesis =>
    unfold typeWithin
    cases located : tree.typeAt? id with
    | none => exact .pure nofun
    | some entry =>
      obtain ⟨type, written⟩ := entry
      obtain ⟨rfl, found⟩ : id = some type ∧ tree.types.get? type = some written := by
        obtain ⟨type', rfl, located⟩ := Option.bind_eq_some_iff.mp located
        obtain ⟨written', found, same⟩ := Option.map_eq_some_iff.mp located
        cases same
        exact ⟨rfl, found⟩
      have inner (part : TypeExprId) (member : .type part ∈ written.form.parts) :
          touched (.type part) :=
        closed (.type type) _ (here type rfl) (by simp [Tree.parts, found, member])
      have each (parts : List (Option TypeExprId))
          (among : ∀ part, some part ∈ parts → .type part ∈ written.form.parts) :
          Notes tree touched before Any (parts.forM (fun part =>
            discard (typeWithin tree fuel .undeclaredType part))) :=
        .forM fun part member state noted => .discard <|
          inductionHypothesis (noted.inside inside) _ fun type same =>
            inner type (among type (by rw [← Option.mem_def.mp same]; exact member))
      dsimp only
      cases form : written.form with
      | named name args =>
        refine .bind (each args fun part member => ?_) fun _ after noted _ => ?_
        · simp [form, TypeExprForm.parts, member]
        · exact (notes_referTo (noted.inside inside) (here type rfl) written.span missing
            (tree.text name)).weaken fun found after refers decl same =>
              ⟨type, rfl, refers decl same⟩
      | list base dims =>
        refine .bind (.discard (inductionHypothesis inside _ fun part same => ?_))
          fun _ after _ _ => .pure nofun
        obtain rfl := Option.mem_some.mp same
        exact inner _ (by simp [form, TypeExprForm.parts])
      | array base dims =>
        refine .bind (.discard (inductionHypothesis inside _ fun part same => ?_))
          fun _ after _ _ => .pure nofun
        obtain rfl := Option.mem_some.mp same
        exact inner _ (by simp [form, TypeExprForm.parts])
      | tuple members =>
        exact .bind (each members fun part member => by simp [form, TypeExprForm.parts, member])
          fun _ after _ _ => .pure nofun
      | union members =>
        exact .bind (each members fun part member => by simp [form, TypeExprForm.parts, member])
          fun _ after _ _ => .pure nofun

theorem notes_type (closed : tree.Closed touched) (inside : Inside tree before)
    {id : Option TypeExprId} (here : ∀ type ∈ id, touched (.type type)) :
    Notes tree touched before
      (fun found after => ∀ decl ∈ found, ∃ type, id = some type ∧
        after.names.typeRefs[type]? = some decl ∧ after.names.scopes.Binds decl)
      (type tree id) :=
  notes_typeWithin closed inside _ _ here

theorem notes_classType (closed : tree.Closed touched) (inside : Inside tree before)
    {id : TypeExprId} (here : touched (.type id)) :
    Notes tree touched before Any (classType tree id) := by
  unfold classType
  refine .bind (notes_typeWithin closed inside _ _ fun type same => ?_) fun found after _ _ => ?_
  · exact Option.mem_some.mp same ▸ here
  · cases found with
    | none => exact .pure trivial
    | some decl =>
      dsimp only
      split
      · exact .error ..
      · exact .pure trivial

/-! ### Expressions -/

theorem notes_use (here : touched (.expr id)) {decl : DeclId}
    (known : (tree.decls.get? decl).isSome) : Notes tree touched before Any (use id decl) := by
  refine ⟨⟨rfl, fun other => ?_, fun _ => .inl rfl⟩, trivial⟩
  by_cases same : other = id
  · subst same
    exact .inr ⟨here, decl, by simp, known⟩
  · exact .inl (by simp [Std.TreeMap.getElem?_insert, Ne.symm same])

theorem notes_nameUse (inside : Inside tree before) (place : Place) (here : touched (.expr id))
    (span : Span) (name : NameId) :
    Notes tree touched before Any (nameUse tree place id span name) := by
  unfold nameUse
  dsimp only
  split
  · exact .error ..
  · refine .read rfl ?_
    cases means : before.names.scopes.meaning? (.ofName (tree.text name)) with
    | none => exact .read rfl (.report _)
    | some decl =>
      exact notes_use here (inside.valid.bindable_of_meaning? inside.isOpen means).isSome

theorem notes_ownField (inside : Inside tree before) (here : touched (.expr id)) (span : Span)
    (owner : DeclId) (name : String) :
    Notes tree touched before Any (ownField tree id span owner name) := by
  unfold ownField
  refine .read rfl ?_
  dsimp only
  split
  · next decl found =>
    obtain ⟨isMember, -⟩ := Option.filter_eq_some_iff.mp found
    exact notes_use here (inside.valid.bindable_of_member? isMember).isSome
  · exact .report _

theorem notes_enumField (forest : tree.Forest loose) (here : touched (.expr id)) (span : Span)
    (enum : DeclId) (name : String) :
    Notes tree touched before Any (enumField tree id span enum name) := by
  unfold enumField
  split
  · exact .pure trivial
  · next consts isEnum =>
    split
    · next const found =>
      obtain ⟨decl, there, form⟩ := Option.bind_eq_some_iff.mp isEnum
      refine notes_use here ?_
      have part : .decl .enumConst const ∈ tree.parts (.decl .enum enum) := by
        have member := List.mem_of_find?_eq_some found
        unfold Decl.consts? at form
        split at form
        · next consts' isForm =>
          cases form
          simp [Tree.parts, there, Decl.parts, isForm, DeclForm.parts, member]
        · cases form
      obtain ⟨item, known, -⟩ := Option.map_eq_some_iff.mp (forest.holds_part part)
      rw [known]
      rfl
    · exact .report _

theorem notes_fieldUse (forest : tree.Forest loose) (inside : Inside tree before) (place : Place)
    (here : touched (.expr id)) (span : Span) (receiver : ExprId) (name : String) :
    Notes tree touched before Any (fieldUse tree place id span receiver name) := by
  unfold fieldUse
  split
  · split
    · exact notes_ownField inside here ..
    · exact .pure trivial
  · refine .read rfl ?_
    split
    · exact notes_enumField forest here ..
    · exact .pure trivial
  · exact .pure trivial

theorem notes_callUse (inside : Inside tree before) (place : Place) (here : touched (.expr id))
    (span : Span) (name : String) : Notes tree touched before Any (callUse place id span name) := by
  unfold callUse
  refine .read rfl ?_
  dsimp only
  split
  · exact .read rfl (.report _)
  · next decl only =>
    have listed : decl ∈ before.names.callCandidates before.names.scopes.current place.enclosing
        name := by
      rw [only]
      exact .head _
    exact notes_use here (inside.valid.bindable_of_callCandidates inside.isOpen listed).isSome
  · exact .pure trivial

theorem notes_methodUse (inside : Inside tree before) (place : Place) (here : touched (.expr id))
    (span : Span) (receiver : ExprId) (name : String) :
    Notes tree touched before Any (methodUse tree place id span receiver name) := by
  unfold methodUse
  split
  · exact .pure trivial
  · next owner _ =>
    split
    · refine .read rfl ?_
      split
      · exact .report _
      · next decl only =>
        have listed : decl ∈ before.names.methodCandidates owner name := by
          rw [only]
          exact .head _
        exact notes_use here (inside.valid.bindable_of_methodCandidates listed).isSome
      · exact .pure trivial
    · exact .pure trivial

/-- The class around a place, if there is one, is a declaration of the tree. -/
def KnownPlace (tree : Tree) (place : Place) : Prop :=
  ∀ owner ∈ place.enclosing, (tree.decls.get? owner).isSome

theorem notes_exprWithin (forest : tree.Forest loose) (closed : tree.Closed touched)
    (inside : Inside tree before) (known : KnownPlace tree place) (fuel : Nat)
    (here : touched (.expr id)) :
    Notes tree touched before Any (exprWithin tree place fuel id) := by
  induction fuel generalizing id before with
  | zero => exact .pure trivial
  | succ fuel inductionHypothesis =>
    unfold exprWithin
    dsimp only
    cases found : tree.exprs.get? id with
    | none => exact .pure trivial
    | some expr =>
      have part {node : Node} (member : node ∈ expr.form.parts) : touched node :=
        closed (.expr id) _ here (by simp [Tree.parts, found, member])
      have each {state : Analysis} (inside : Inside tree state) (ids : List ExprId)
          (among : ∀ id ∈ ids, .expr id ∈ expr.form.parts) :
          Notes tree touched state Any (ids.forM (exprWithin tree place fuel)) :=
        .forM fun id member state' noted =>
          inductionHypothesis (noted.inside inside) (part (among id member))
      have types {state : Analysis} (inside : Inside tree state) (ids : List (Option TypeExprId))
          (among : ∀ id, some id ∈ ids → .type id ∈ expr.form.parts) :
          Notes tree touched state Any (ids.forM fun id => discard (type tree id)) :=
        .forM fun id member state' noted => .discard <|
          notes_type closed (noted.inside inside) fun type same =>
            part (among type (by rw [← Option.mem_def.mp same]; exact member))
      dsimp only
      cases form : expr.form with
      | literal kind value => exact .pure trivial
      | name name => exact notes_nameUse inside place here ..
      | this =>
        dsimp only
        split
        · exact .error ..
        · next owner isOwner => exact notes_use here (known owner isOwner)
      | field receiver name =>
        refine .bind (inductionHypothesis inside (part ?_)) fun _ after noted _ =>
          notes_fieldUse forest (noted.inside inside) place here ..
        simp [form, ExprForm.parts]
      | index target indices =>
        refine .bind (inductionHypothesis inside (part ?_)) fun _ after noted _ =>
          each (noted.inside inside) indices fun id member => ?_
        · simp [form, ExprForm.parts]
        · simp [form, ExprForm.parts, member]
      | call name typeArgs args =>
        refine .bind (types inside typeArgs fun id member => ?_) fun _ after noted _ =>
          .bind (each (noted.inside inside) args fun id member => ?_) fun _ after' noted' _ =>
            notes_callUse ((noted.trans noted').inside inside) place here ..
        · simp [form, ExprForm.parts, member]
        · simp [form, ExprForm.parts, member]
      | methodCall receiver name args =>
        refine .bind (inductionHypothesis inside (part ?_)) fun _ after noted _ =>
          .bind (each (noted.inside inside) args fun id member => ?_) fun _ after' noted' _ =>
            notes_methodUse ((noted.trans noted').inside inside) place here ..
        · simp [form, ExprForm.parts]
        · simp [form, ExprForm.parts, member]
      | binary op left right =>
        refine .bind (inductionHypothesis inside (part ?_)) fun _ after noted _ =>
          inductionHypothesis (noted.inside inside) (part ?_)
        · simp [form, ExprForm.parts]
        · simp [form, ExprForm.parts]
      | unary op operand =>
        exact inductionHypothesis inside (part (by simp [form, ExprForm.parts]))
      | cast target operand =>
        refine .bind (.discard (notes_type closed inside fun type same => part ?_))
          fun _ after noted _ => inductionHypothesis (noted.inside inside) (part ?_)
        · simp [form, ExprForm.parts, Option.mem_some.mp same]
        · simp [form, ExprForm.parts]
      | create created inits =>
        refine .bind (notes_classType closed inside (part ?_)) fun _ after noted _ =>
          .forM fun init member state noted' =>
            inductionHypothesis ((noted.trans noted').inside inside) (part ?_)
        · simp [form, ExprForm.parts]
        · simp only [form, ExprForm.parts, List.mem_cons, reduceCtorEq, List.mem_map, false_or]
          exact ⟨init, member, rfl⟩
      | list elem elems =>
        refine .bind (.discard (notes_type closed inside fun type same => part ?_))
          fun _ after noted _ => each (noted.inside inside) elems fun id member => ?_
        · simp [form, ExprForm.parts, Option.mem_def.mp same]
        · simp [form, ExprForm.parts, member]
      | tuple elems =>
        exact each inside elems fun id member => by simp [form, ExprForm.parts, member]

theorem notes_expr (forest : tree.Forest loose) (closed : tree.Closed touched)
    (inside : Inside tree before) (known : KnownPlace tree place) (here : touched (.expr id)) :
    Notes tree touched before Any (expr tree place id) :=
  notes_exprWithin forest closed inside known _ here

end Resolve

end TreeCheck
