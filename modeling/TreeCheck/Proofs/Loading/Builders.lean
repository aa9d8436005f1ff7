/-
The functions of the loader that build something inside a unit are plain. The cases follow
those of the functions; a gap that a function can crash at is a gap of what it builds.
-/

import TreeCheck.Proofs.Loading.Plain

namespace TreeCheck

open LoadM

namespace Build

variable (place : BuildPlace) {gap owners : Prop} {found : List Finding}

theorem plain_modifiers (subject : String) (extent : Doc.Extent) (mods : Modifiers)
    (words : List String) :
    Plain gap owners found [] (modifiers place subject extent mods words) fun _ => [] := by
  induction words generalizing mods with
  | nil => exact .pure fun _ => rfl
  | cons word rest inductionHypothesis =>
    unfold modifiers
    split
    · exact inductionHypothesis _
    · exact .fail ..

/-! ### Types -/

theorem filterMap_cons_option {α β : Type} (view : α → β) (item : Option α)
    (rest : List (Option α)) : (item :: rest).filterMap (·.map view) =
      (item.map view).toList ++ rest.filterMap (·.map view) := by
  cases item with
  | none => rfl
  | some value => rfl

mutual

theorem plain_typeExpr : (item : Doc.TypeExpr) →
    Plain gap owners found [] (typeExpr place item) fun id => [.type id]
  | ⟨kind, name, args, base, dims, elems, extent⟩ => by
    unfold typeExpr
    dsimp only
    split
    · split
      · exact .failThen ..
      · exact .andThen (.intern name) fun _ => .andThen (plain_typeExprs args) fun _ =>
          .newType fun _ => by simp [TypeExprForm.parts]
    · split
      · split
        · exact .fail ..
        · next base =>
          refine .andThen (plain_typeExpr base) fun _ => .newType ?_
          dsimp only
          split
          · simp [TypeExprForm.parts]
          · simp [TypeExprForm.parts]
      · split
        · exact .andThen (plain_typeExprs elems) fun _ => .newType fun _ => by simp [TypeExprForm.parts]
        · split
          · split
            · exact .failThen ..
            · exact .andThen (plain_typeExprs elems) fun _ =>
                .newType fun _ => by simp [TypeExprForm.parts]
          · exact .fail ..

theorem plain_optionalType : (item : Option Doc.TypeExpr) →
    Plain gap owners found [] (optionalType place item) fun id => (id.map .type).toList
  | none => by
    unfold optionalType
    exact .pure fun _ => rfl
  | some type => by
    unfold optionalType
    exact .andThen (plain_typeExpr type) fun _ => .pure fun _ => by grind

theorem plain_typeExprs : (items : List (Option Doc.TypeExpr)) →
    Plain gap owners found [] (typeExprs place items) fun ids => ids.filterMap (·.map .type)
  | [] => by
    unfold typeExprs
    exact .pure fun _ => rfl
  | type :: rest => by
    unfold typeExprs
    refine .andThen (plain_optionalType type) fun _ => .andThen (plain_typeExprs rest) fun _ =>
      .pure fun node => ?_
    rw [filterMap_cons_option]
    simp only [List.count_append, List.count_nil]
    omega

end

/-! ### Expressions -/

theorem plain_identifier (subject : String) (extent : Doc.Extent) (text : String) :
    Plain gap owners found [] (identifier place subject extent text) fun _ => [] := by
  unfold identifier
  split
  · exact .fail ..
  · exact .intern text

mutual

theorem plain_expr : (item : Doc.Expr) → (item.gap → gap) →
    Plain gap owners found [] (expr place item) fun id => [.expr id]
  | ⟨kind, lit, value, name, receiver, target, typeArgs, args, op, left, right, operand, type,
      inits, elems, extent⟩, isGap => by
    simp only [Doc.Expr.gap, Bool.or_eq_true] at isGap
    unfold expr
    dsimp only
    split
    · split
      · exact .newExpr fun _ => rfl
      · exact .fail ..
    · exact .andThen (plain_identifier place ..) fun _ => .newExpr fun _ => rfl
    · exact .newExpr fun _ => rfl
    · exact .andThen (plain_needed _ _ receiver (by tauto)) fun _ =>
        .andThen (plain_identifier place ..) fun _ => .newExpr fun _ => by grind [ExprForm.parts]
    · split
      · exact .failThen ..
      · exact .andThen (plain_needed _ _ target (by tauto)) fun _ =>
          .andThen (plain_elements args (by tauto)) fun _ => .newExpr fun _ => by grind [ExprForm.parts]
    · exact .andThen (plain_identifier place ..) fun _ =>
        .andThen (plain_typeExprs place typeArgs) fun _ =>
          .andThen (plain_elements args (by tauto)) fun _ => .newExpr fun _ => by grind [ExprForm.parts]
    · exact .andThen (plain_needed _ _ receiver (by tauto)) fun _ =>
        .andThen (plain_identifier place ..) fun _ =>
          .andThen (plain_elements args (by tauto)) fun _ => .newExpr fun _ => by grind [ExprForm.parts]
    · split
      · exact .fail ..
      · exact .andThen (plain_needed _ _ left (by tauto)) fun _ =>
          .andThen (plain_needed _ _ right (by tauto)) fun _ =>
            .newExpr fun _ => by grind [ExprForm.parts]
    · split
      · exact .fail ..
      · exact .andThen (plain_needed _ _ operand (by tauto)) fun _ =>
          .newExpr fun _ => by grind [ExprForm.parts]
    · split
      · exact .fail ..
      · exact .andThen (plain_typeExpr place _) fun _ =>
          .andThen (plain_needed _ _ operand (by tauto)) fun _ =>
            .newExpr fun _ => by grind [ExprForm.parts]
    · split
      · exact .fail ..
      · exact .andThen (plain_fieldInits inits (by tauto)) fun _ =>
          .andThen (plain_typeExpr place _) fun _ => .newExpr fun _ => by grind [ExprForm.parts]
    · exact .andThen (plain_optionalType place type) fun _ =>
        .andThen (plain_elements elems (by tauto)) fun _ => .newExpr fun _ => by grind [ExprForm.parts]
    · exact .andThen (plain_elements elems (by tauto)) fun _ =>
        .newExpr fun _ => by grind [ExprForm.parts]
    · exact .fail ..

theorem plain_needed (subject : String) (extent : Doc.Extent) : (item : Option Doc.Expr) →
    (Doc.Expr.linkGap item → gap) →
    Plain gap owners found [] (needed place subject extent item) fun id => [.expr id]
  | none, _ => by
    unfold needed
    exact .fail ..
  | some value, isGap => by
    unfold needed
    exact plain_expr value (by rwa [Doc.Expr.linkGap] at isGap)

theorem plain_elements : (items : List (Option Doc.Expr)) → (Doc.Expr.listGap items → gap) →
    Plain gap owners found [] (elements place items) fun ids => ids.map .expr
  | [], _ => by
    unfold elements
    exact .pure fun _ => rfl
  | element :: rest, isGap => by
    simp only [Doc.Expr.listGap, Bool.or_eq_true] at isGap
    unfold elements
    exact .andThen (plain_needed _ _ element (by tauto)) fun _ =>
      .andThen (plain_elements rest (by tauto)) fun _ => .pure fun _ => by grind

theorem plain_fieldInit : (item : Doc.Init) → (item.gap → gap) →
    Plain gap owners found [] (fieldInit place item) fun init => [.expr init.value]
  | ⟨field, value, extent⟩, isGap => by
    rw [Doc.Init.gap] at isGap
    unfold fieldInit
    exact .andThen (.intern field) fun _ => .andThen (plain_needed _ _ value isGap) fun _ =>
      .pure fun _ => by grind

theorem plain_optionalInit : (item : Option Doc.Init) → (Doc.Init.listGap [item] → gap) →
    Plain gap owners found [] (optionalInit place item) fun init => [.expr init.value]
  | none, isGap => by
    unfold optionalInit
    exact .crash (isGap (by rw [Doc.Init.listGap]))
  | some init, isGap => by
    simp only [Doc.Init.listGap, Bool.or_false] at isGap
    unfold optionalInit
    exact plain_fieldInit init isGap

theorem plain_fieldInits : (items : List (Option Doc.Init)) → (Doc.Init.listGap items → gap) →
    Plain gap owners found [] (fieldInits place items) fun inits => inits.map fun init =>
      .expr init.value
  | [], _ => by
    unfold fieldInits
    exact .pure fun _ => rfl
  | init :: rest, isGap => by
    unfold fieldInits
    have first (isGap' : Doc.Init.listGap [init]) : gap :=
      isGap (by cases init <;> simp_all [Doc.Init.listGap])
    have others (isGap' : Doc.Init.listGap rest) : gap :=
      isGap (by cases init <;> simp_all [Doc.Init.listGap])
    exact .andThen (plain_optionalInit init first) fun _ =>
      .andThen (plain_fieldInits rest others) fun _ => .pure fun _ => by grind

end

theorem plain_optionalExpr (item : Option Doc.Expr) (isGap : Doc.Expr.linkGap item → gap) :
    Plain gap owners found [] (optionalExpr place item) fun id => (id.map .expr).toList := by
  unfold optionalExpr
  split
  · exact .pure fun _ => rfl
  · exact .andThen (plain_expr place _ (by rwa [Doc.Expr.linkGap] at isGap)) fun _ =>
      .pure fun _ => by grind

/-! ### Variables -/

theorem plain_variableDecl (kind : VariableKind) (other : kind ≠ .enumConst) (item : Doc.Variable)
    (isGap : item.gap → gap) :
    Plain gap owners found [] (variableDecl place kind item) fun id => [.decl kind.declKind id] := by
  have isOther : kind.declKind ≠ .enumConst := by
    cases kind with
    | enumConst => exact absurd rfl other
    | _ => nofun
  rw [Doc.Variable.gap] at isGap
  unfold variableDecl
  dsimp only
  split
  · exact .failThen ..
  · next unnamed =>
    refine .name unnamed fun name => .andThen (plain_optionalType place _) fun type =>
      .andThen (plain_optionalExpr place _ isGap) fun init => .andThen (plain_modifiers place ..)
        fun mods => .newDecl (fun node => ?_)
          (fun _ => ⟨.head _, kind.isVariable_declKind, isOther⟩) (.inl rfl)
    simp only [Decl.parts, DeclForm.parts, List.count_append, List.count_nil]
    omega

theorem plain_optionalVariable (kind : VariableKind) (other : kind ≠ .enumConst)
    (item : Option Doc.Variable) (isGap : item.elim false Doc.Variable.gap = true → gap) :
    Plain gap owners found [] (optionalVariable place kind item)
      fun id => [.decl kind.declKind id] := by
  unfold optionalVariable
  split
  · exact .fail ..
  · exact plain_variableDecl place kind other _ isGap

theorem plain_variableDecls (kind : VariableKind) (other : kind ≠ .enumConst)
    (items : List (Option Doc.Variable)) (isGap : Doc.anyGap false Doc.Variable.gap items → gap) :
    Plain gap owners found [] (variableDecls place kind items)
      fun ids => ids.map (.decl kind.declKind) := by
  induction items with
  | nil => exact .pure fun _ => rfl
  | cons item rest inductionHypothesis =>
    simp only [Doc.anyGap, List.any_cons, Bool.or_eq_true] at isGap inductionHypothesis
    exact .andThen (plain_optionalVariable place kind other item (by tauto)) fun _ =>
      .andThen (inductionHypothesis (by tauto)) fun _ => .pure fun _ => by grind

/-! ### Statements -/

theorem plain_armValues (extent : Doc.Extent) (items : List (Option Doc.Expr))
    (isGap : Doc.Expr.listGap items → gap) :
    Plain gap owners found [] (armValues place extent items) fun ids => ids.map .expr := by
  induction items with
  | nil => exact .pure fun _ => rfl
  | cons value rest inductionHypothesis =>
    simp only [Doc.Expr.listGap, Bool.or_eq_true] at isGap
    exact .andThen (plain_needed place _ _ value (by tauto)) fun _ =>
      .andThen (inductionHypothesis (by tauto)) fun _ => .pure fun _ => by grind

mutual

theorem plain_stmt {found : List Finding} : (item : Doc.Stmt) → (item.gap → gap) →
    Plain gap owners found [] (stmt place item) fun id => [.stmt id]
  | ⟨kind, stmts, decl, value, target, assigned, cond, thenBranch, elseBranch, body, loopName,
      first, last, subject, arms, default, extent⟩, isGap => by
    simp only [Doc.Stmt.gap, Bool.or_eq_true] at isGap
    unfold stmt
    dsimp only
    split
    · exact .andThen (plain_stmtList stmts (by tauto)) fun _ =>
        .newStmt (fun _ => by grind [StmtForm.parts]) nofun
    · split
      · exact .fail ..
      · exact .andThen (plain_variableDecl place .localVar nofun _ (by simp_all)) fun _ =>
          .newStmt (fun _ => rfl) nofun
    · exact .andThen (plain_needed place _ _ value (by tauto)) fun _ =>
        .newStmt (fun _ => by grind [StmtForm.parts]) nofun
    · exact .andThen (plain_needed place _ _ target (by tauto)) fun _ =>
        .andThen (plain_needed place _ _ assigned (by tauto)) fun _ =>
          .newStmt (fun _ => by grind [StmtForm.parts]) nofun
    · match thenBranch with
      | none => exact .fail ..
      | some thenBranch =>
        rw [Doc.Stmt.linkGap] at isGap
        exact .andThen (plain_needed place _ _ cond (by tauto)) fun _ =>
          .andThen (plain_stmt thenBranch (by tauto)) fun _ =>
            .andThen (plain_optionalStmt elseBranch (by tauto)) fun _ =>
              .newStmt (fun _ => by grind [StmtForm.parts]) nofun
    · exact .andThen (plain_needed place _ _ cond (by tauto)) fun _ =>
        .andThen (plain_neededStmt _ _ body (by tauto)) fun _ =>
          .newStmt (fun _ => by grind [StmtForm.parts]) nofun
    · split
      · exact .failThen ..
      · exact .andThen (.intern _) fun _ => .andThen (.intern _) fun _ =>
          .andThen (.newType fun _ => rfl) fun _ =>
            .declare (fun _ => rfl) rfl rfl fun _ =>
              .andThen (plain_needed place _ _ first (by tauto)) fun _ =>
                .andThen (plain_needed place _ _ last (by tauto)) fun _ =>
                  .andThen (plain_neededStmt _ _ body (by tauto)) fun _ =>
                    .newStmt (fun _ => by grind [StmtForm.parts, Decl.kind, VariableKind.declKind])
                      fun _ _ _ _ isLoop => by
                        injection isLoop with isCounter
                        exact isCounter ▸ .head _
    · exact .andThen (plain_armList arms (by tauto)) fun _ =>
        .andThen (plain_needed place _ _ subject (by tauto)) fun _ =>
          .andThen (plain_optionalStmt default (by tauto)) fun _ =>
            .newStmt (fun _ => by grind [StmtForm.parts]) nofun
    · exact .andThen (plain_optionalExpr place assigned (by tauto)) fun _ =>
        .newStmt (fun _ => by grind [StmtForm.parts]) nofun
    · exact .fail ..

theorem plain_optionalStmt {found : List Finding} : (item : Option Doc.Stmt) →
    (Doc.Stmt.linkGap item → gap) →
    Plain gap owners found [] (optionalStmt place item) fun id => (id.map .stmt).toList
  | none, _ => by
    unfold optionalStmt
    exact .pure fun _ => rfl
  | some item, isGap => by
    rw [Doc.Stmt.linkGap] at isGap
    unfold optionalStmt
    exact .andThen (plain_stmt item isGap) fun _ => .pure fun _ => by grind

theorem plain_neededStmt {found : List Finding} (subject : String) (extent : Doc.Extent) :
    (item : Option Doc.Stmt) →
    (Doc.Stmt.linkGap item → gap) →
    Plain gap owners found [] (neededStmt place subject extent item) fun id => [.stmt id]
  | none, _ => by
    unfold neededStmt
    exact .fail ..
  | some item, isGap => by
    rw [Doc.Stmt.linkGap] at isGap
    unfold neededStmt
    exact plain_stmt item isGap

theorem plain_stmtList {found : List Finding} : (items : List (Option Doc.Stmt)) →
    (Doc.Stmt.listGap items → gap) →
    Plain gap owners found [] (stmtList place items) fun ids => ids.filterMap (·.map .stmt)
  | [], _ => by
    unfold stmtList
    exact .pure fun _ => rfl
  | item :: rest, isGap => by
    simp only [Doc.Stmt.listGap, Bool.or_eq_true] at isGap
    unfold stmtList
    refine .andThen (plain_optionalStmt item (by tauto)) fun _ =>
      .andThen (plain_stmtList rest (by tauto)) fun _ => .pure fun node => ?_
    rw [filterMap_cons_option]
    simp only [List.count_append, List.count_nil]
    omega

theorem plain_arm {found : List Finding} : (item : Doc.Arm) → (item.gap → gap) →
    Plain gap owners found [] (arm place item) CaseArm.parts
  | ⟨values, body, extent⟩, isGap => by
    simp only [Doc.Arm.gap, Bool.or_eq_true] at isGap
    unfold arm
    exact .andThen (plain_armValues place _ _ (by tauto)) fun _ =>
      .andThen (plain_neededStmt _ _ body (by tauto)) fun _ =>
        .pure fun _ => by grind [CaseArm.parts]

theorem plain_optionalArm {found : List Finding} : (item : Option Doc.Arm) →
    (Doc.Arm.listGap [item] → gap) →
    Plain gap owners found [] (optionalArm place item) CaseArm.parts
  | none, isGap => by
    unfold optionalArm
    exact .crash (isGap (by rw [Doc.Arm.listGap]))
  | some item, isGap => by
    simp only [Doc.Arm.listGap, Bool.or_false] at isGap
    unfold optionalArm
    exact plain_arm item isGap

theorem plain_armList {found : List Finding} : (items : List (Option Doc.Arm)) →
    (Doc.Arm.listGap items → gap) →
    Plain gap owners found [] (armList place items) fun arms => arms.flatMap CaseArm.parts
  | [], _ => by
    unfold armList
    exact .pure fun _ => rfl
  | item :: rest, isGap => by
    unfold armList
    have first (isGap' : Doc.Arm.listGap [item]) : gap :=
      isGap (by cases item <;> simp_all [Doc.Arm.listGap])
    have others (isGap' : Doc.Arm.listGap rest) : gap :=
      isGap (by cases item <;> simp_all [Doc.Arm.listGap])
    exact .andThen (plain_optionalArm item first) fun _ =>
      .andThen (plain_armList rest others) fun _ => .pure fun _ => by grind

end

/-! ### Other declarations -/

theorem plain_typeParam (param : Doc.TypeParam) :
    Plain gap owners found [] (typeParam place param) fun id => [.decl .templateParam id] := by
  unfold typeParam
  split
  · exact .fail ..
  · exact .andThen (.intern _) fun _ => .newDecl (fun _ => rfl) nofun (.inl rfl)

theorem plain_typeParams (params : List (Option Doc.TypeParam))
    (isGap : params.any (·.isNone) → gap) :
    Plain gap owners found [] (typeParams place params)
      fun ids => ids.map (.decl .templateParam) := by
  induction params with
  | nil => exact .pure fun _ => rfl
  | cons param rest inductionHypothesis =>
    cases param with
    | none => exact .crash (isGap rfl)
    | some param =>
      exact .andThen (plain_typeParam place param) fun _ => .andThen (inductionHypothesis isGap)
        fun _ => .pure fun _ => by grind

theorem plain_adopt (owner : DeclId) (children : List DeclId) :
    Plain gap True found [] (adopt owner children) fun _ => [] := by
  induction children with
  | nil => exact .pure fun _ => rfl
  | cons child rest inductionHypothesis =>
    exact .andThen (.modifyDecl child trivial (fun _ => rfl) (fun _ => rfl) (fun _ => rfl)
      (fun _ _ => Nat.le_refl _) (fun _ _ _ member => member) nofun) fun _ => inductionHypothesis

/-- Only template parameters are lost. -/
theorem mem_parts_withTypeParams (params : List DeclId) (decl : Decl) (node : Node)
    (inner : node.Inner) (member : node ∈ decl.parts) :
    node ∈ (decl.withTypeParams params).parts := by
  have other (id : DeclId) (kind : DeclKind) : Node.decl kind id ≠ node := by
    rintro rfl
    exact inner
  unfold Decl.withTypeParams
  cases form : decl.form <;>
    simp_all [Decl.parts, DeclForm.parts, Callable.parts, ClassBody.parts]

theorem plain_withTypeParams (owner : DeclId) (params : List DeclId) :
    Plain gap True found (params.map (.decl .templateParam))
      (modifyDecl owner (·.withTypeParams params)) fun _ => [] := by
  refine .modifyDecl owner trivial (fun decl => ?_) (fun decl => ?_) (fun decl => ?_)
    (fun decl node => ?_) (mem_parts_withTypeParams params) fun node member => ?_
  · cases form : decl.form <;> simp [Decl.withTypeParams, Decl.kind, form]
  · cases form : decl.form <;> simp [Decl.withTypeParams, form]
  · cases form : decl.form <;> simp [Decl.withTypeParams, form]
  · cases form : decl.form <;>
      simp only [Decl.withTypeParams, Decl.parts, DeclForm.parts, Callable.parts, ClassBody.parts,
        form, List.count_append] <;> omega
  · obtain ⟨_, -, rfl⟩ := List.mem_map.mp member
    exact id

theorem plain_attachTypeParams (owner : DeclId) (params : List (Option Doc.TypeParam))
    (isGap : params.any (·.isNone) → gap) :
    Plain gap True found [] (attachTypeParams place owner params) fun _ => [] := by
  unfold attachTypeParams
  refine .andThen (plain_typeParams place params isGap) fun ids => ?_
  split
  · next none =>
    obtain rfl := List.isEmpty_iff.mp none
    exact .pure fun _ => rfl
  · exact .bind (plain_withTypeParams owner ids) fun _ => plain_adopt owner ids

/-- The declaration of a function or a method takes its parameters and its body in. -/
theorem plain_callable (method : Bool) (item : Doc.Function)
    (isGap : item.typeParams.any (·.isNone) → gap) (params : List DeclId) (body : Option StmtId) :
    Plain gap True found ((body.map .stmt).toList ++ params.map (.decl .param)) (do
      let name ← intern item.name
      let type ← optionalType place item.result
      let mods ← modifiers place item.name item.span .none item.mods
      let form := if method then DeclForm.method { params, body }
        else DeclForm.function { params, body }
      let id ← newDecl { form, name, type, mods, span := place.span item.span }
      adopt id params
      attachTypeParams place id item.typeParams
      return id) fun id => [.decl (if method then .method else .function) id] := by
  refine .andThen (.intern _) fun _ => .andThen (plain_optionalType place _) fun _ =>
    .andThen (plain_modifiers place ..) fun _ => .takeAll (.newDecl (fun node => ?_) nofun
      (.inr trivial)) fun id => .andThen (plain_adopt ..) fun _ =>
    .andThen (plain_attachTypeParams place _ _ isGap) fun _ => .pure fun node => ?_
  · cases method <;> grind [Decl.parts, DeclForm.parts, Callable.parts]
  · cases method <;> rfl

theorem plain_function (method : Bool) (item : Doc.Function) (isGap : item.gap → gap) :
    Plain gap True found [] (function place method item)
      fun id => [.decl (if method then .method else .function) id] := by
  simp only [Doc.Function.gap, Bool.or_eq_true] at isGap
  have headed (params : List DeclId) (body : Option StmtId) : Plain gap True found _ _ _ :=
    plain_callable place method item (by tauto) params body
  unfold function
  refine .andThen (plain_variableDecls place .param nofun _ (by tauto)) fun params => ?_
  rw [List.append_nil]
  dsimp only
  split
  · exact headed params none
  · exact .andThen (plain_stmtList place _ (by tauto)) fun stmts =>
      .bind (.newStmt (fun _ => rfl) nofun) fun block => headed params (some block)

theorem plain_functions (method : Bool) (items : List (Option Doc.Function))
    (isGap : Doc.anyGap true Doc.Function.gap items → gap) :
    Plain gap True found [] (functions place method items)
      fun ids => ids.map (.decl (if method then .method else .function)) := by
  induction items with
  | nil => exact .pure fun _ => rfl
  | cons item rest inductionHypothesis =>
    cases item with
    | none => exact .crash (isGap rfl)
    | some item =>
      rw [Doc.anyGap, List.any_cons, Option.elim_some, Bool.or_eq_true, ← Doc.anyGap] at isGap
      exact .andThen (plain_function place method item (by tauto)) fun _ =>
        .andThen (inductionHypothesis (by tauto)) fun _ => .pure fun _ => by grind

theorem plain_classDecl (item : Doc.Class) (isGap : item.gap → gap) :
    Plain gap True found [] (classDecl place item) fun id => [.decl .classDecl id] := by
  simp only [Doc.Class.gap, Bool.or_eq_true] at isGap
  refine .andThen (plain_variableDecls place .field nofun _ (by tauto)) fun _ =>
    .andThen (plain_functions place true _ (by tauto)) fun _ => .andThen (.intern _) fun _ =>
    .andThen (plain_optionalType place _) fun _ => .andThen (plain_modifiers place ..) fun _ =>
    .takeAll (.newDecl (fun node => ?_) nofun (.inr trivial)) fun _ =>
    .andThen (plain_adopt ..) fun _ => .andThen (plain_adopt ..) fun _ =>
    .andThen (plain_attachTypeParams place _ _ (by tauto)) fun _ => .pure fun _ => rfl
  simp only [Decl.parts, DeclForm.parts, ClassBody.parts, VariableKind.declKind, if_true,
    List.count_append, List.count_nil, List.map_nil, Option.map_none, Option.toList_none]
  omega

theorem plain_enumConsts (items : List (Option Doc.Constant))
    (isGap : items.any (·.isNone) → gap) :
    Plain gap owners found [] (enumConsts place items) fun ids => ids.map (.decl .enumConst) := by
  induction items with
  | nil => exact .pure fun _ => rfl
  | cons item rest inductionHypothesis =>
    cases item with
    | none => exact .crash (isGap rfl)
    | some item =>
      exact .andThen (.intern _) fun _ => .andThen (.newDecl (fun _ => rfl) nofun (.inl rfl))
        fun _ => .andThen (inductionHypothesis isGap) fun _ =>
          .pure fun _ => by grind [Decl.kind, VariableKind.declKind]

theorem plain_enumDecl (item : Doc.Enumeration) (isGap : item.gap → gap) :
    Plain gap True found [] (enumDecl place item) fun id => [.decl .enum id] :=
  .andThen (plain_enumConsts place _ isGap) fun _ => .andThen (.intern _) fun _ =>
    .andThen (plain_modifiers place ..) fun _ =>
      .takeAll (.newDecl (fun _ => by simp [Decl.parts, DeclForm.parts]) nofun (.inr trivial))
        fun _ => .andThen (plain_adopt ..) fun _ => .pure fun _ => rfl

theorem plain_importDecl (item : Doc.Import) (target : Option UnitId) :
    Plain gap owners found [] (importDecl place item target) fun id => [.decl .importDecl id] :=
  .andThen (.intern _) fun _ => .newDecl (fun _ => rfl) nofun (.inl rfl)

end Build

end TreeCheck
