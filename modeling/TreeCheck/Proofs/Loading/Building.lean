/-
Every function of the loader builds alike in two loaders that are side by side. The cases
follow those of the functions: what a node is made of was built in both, so the node and
its twin are alike.
-/

import TreeCheck.Proofs.Loading.Twins

namespace TreeCheck

open LoadM

variable {owner owner' : DeclId} {unit : UnitId} {append : DeclId → ProgramUnit → ProgramUnit}

namespace Build

variable {origin : Origin} (place : BuildPlace)

theorem twins_modifiers (names : NamesPair) (subject : String) (extent : Doc.Extent)
    (mods : Modifiers) (words : List String) :
    Twins origin names (modifiers place subject extent mods words)
      (modifiers place subject extent mods words) fun _ mods twin => twin = mods := by
  induction words generalizing mods with
  | nil => exact .pure fun _ _ => rfl
  | cons word rest inductionHypothesis =>
    unfold modifiers
    split
    · exact inductionHypothesis _
    · exact .fail ..

/-! ### Types -/

mutual

theorem twins_typeExpr (names : NamesPair) : (item : Doc.TypeExpr) →
    Twins origin names (typeExpr place item) (typeExpr place item) fun _ => origin.TypeExpr
  | ⟨kind, name, args, base, dims, elems, extent⟩ => by
    unfold typeExpr
    dsimp only
    split
    · split
      · exact .failThen ..
      · exact .bind (.intern name) fun _ _ _ _ same => .bind (twins_typeExprs _ args)
          fun _ grown _ _ each => .newType _ (.named (same.mono grown) each)
    · split
      · split
        · exact .fail ..
        · next base =>
          refine .bind (twins_typeExpr _ base) fun _ _ _ _ moved => .newType _ ?_
          split
          · exact .list _ moved
          · exact .array _ moved
      · split
        · exact .bind (twins_typeExprs _ elems) fun _ _ _ _ each => .newType _ (.tuple each)
        · split
          · split
            · exact .failThen ..
            · exact .bind (twins_typeExprs _ elems) fun _ _ _ _ each => .newType _ (.union each)
          · exact .fail ..

theorem twins_optionalType (names : NamesPair) : (item : Option Doc.TypeExpr) →
    Twins origin names (optionalType place item) (optionalType place item)
      fun _ => Option.Rel origin.TypeExpr
  | none => by
    unfold optionalType
    exact .pure fun _ _ => .none
  | some type => by
    unfold optionalType
    exact .bind (twins_typeExpr _ type) fun _ _ _ _ moved => .pure fun _ _ => .some moved

theorem twins_typeExprs (names : NamesPair) : (items : List (Option Doc.TypeExpr)) →
    Twins origin names (typeExprs place items) (typeExprs place items)
      fun _ => List.Forall₂ (Option.Rel origin.TypeExpr)
  | [] => by
    unfold typeExprs
    exact .pure fun _ _ => .nil
  | type :: rest => by
    unfold typeExprs
    exact .bind (twins_optionalType _ type) fun _ _ _ _ moved => .bind (twins_typeExprs _ rest)
      fun _ _ _ _ each => .pure fun _ _ => .cons moved each

end

/-! ### Expressions -/

theorem twins_identifier (names : NamesPair) (subject : String) (extent : Doc.Extent)
    (text : String) :
    Twins origin names (identifier place subject extent text) (identifier place subject extent text)
      NamesPair.Same := by
  unfold identifier
  split
  · exact .fail ..
  · exact .intern text

mutual

theorem twins_expr (names : NamesPair) : (item : Doc.Expr) →
    Twins origin names (expr place item) (expr place item) fun _ => origin.Expr
  | ⟨kind, lit, value, name, receiver, target, typeArgs, args, op, left, right, operand, type,
      inits, elems, extent⟩ => by
    unfold expr
    dsimp only
    split
    · split
      · exact .newExpr _ (.literal _ _)
      · exact .fail ..
    · exact .bind (twins_identifier place ..) fun _ _ _ _ same => .newExpr _ (.name same)
    · exact .newExpr _ .this
    · exact .bind (twins_needed _ _ _ receiver) fun _ _ _ _ moved =>
        .bind (twins_identifier place ..) fun _ _ _ _ same => .newExpr _ (.field moved same)
    · split
      · exact .failThen ..
      · exact .bind (twins_needed _ _ _ target) fun _ _ _ _ moved =>
          .bind (twins_elements _ args) fun _ _ _ _ each => .newExpr _ (.index moved each)
    · exact .bind (twins_identifier place ..) fun _ _ _ _ same =>
        .bind (twins_typeExprs place _ typeArgs) fun _ grown _ _ types =>
          .bind (twins_elements _ args) fun _ grown' _ _ each =>
            .newExpr _ (.call (same.mono (grown.trans grown')) types each)
    · exact .bind (twins_needed _ _ _ receiver) fun _ _ _ _ moved =>
        .bind (twins_identifier place ..) fun _ _ _ _ same =>
          .bind (twins_elements _ args) fun _ grown _ _ each =>
            .newExpr _ (.methodCall moved (same.mono grown) each)
    · split
      · exact .fail ..
      · exact .bind (twins_needed _ _ _ left) fun _ _ _ _ moved =>
          .bind (twins_needed _ _ _ right) fun _ _ _ _ moved' =>
            .newExpr _ (.binary _ moved moved')
    · split
      · exact .fail ..
      · exact .bind (twins_needed _ _ _ operand) fun _ _ _ _ moved => .newExpr _ (.unary _ moved)
    · split
      · exact .fail ..
      · exact .bind (twins_typeExpr place _ _) fun _ _ _ _ moved =>
          .bind (twins_needed _ _ _ operand) fun _ _ _ _ moved' => .newExpr _ (.cast moved moved')
    · split
      · exact .fail ..
      · exact .bind (twins_fieldInits _ inits) fun _ _ _ _ each =>
          .bind (twins_typeExpr place _ _) fun _ grown _ _ moved =>
            .newExpr _ (.create moved (each.imp fun _ _ alike => alike.mono grown))
    · exact .bind (twins_optionalType place _ type) fun _ _ _ _ moved =>
        .bind (twins_elements _ elems) fun _ _ _ _ each => .newExpr _ (.list moved each)
    · exact .bind (twins_elements _ elems) fun _ _ _ _ each => .newExpr _ (.tuple each)
    · exact .fail ..

theorem twins_needed (names : NamesPair) (subject : String) (extent : Doc.Extent) :
    (item : Option Doc.Expr) →
    Twins origin names (needed place subject extent item) (needed place subject extent item)
      fun _ => origin.Expr
  | none => by
    unfold needed
    exact .fail ..
  | some value => by
    unfold needed
    exact twins_expr _ value

theorem twins_elements (names : NamesPair) : (items : List (Option Doc.Expr)) →
    Twins origin names (elements place items) (elements place items)
      fun _ => List.Forall₂ origin.Expr
  | [] => by
    unfold elements
    exact .pure fun _ _ => .nil
  | element :: rest => by
    unfold elements
    exact .bind (twins_needed _ _ _ element) fun _ _ _ _ moved => .bind (twins_elements _ rest)
      fun _ _ _ _ each => .pure fun _ _ => .cons moved each

theorem twins_fieldInit (names : NamesPair) : (item : Doc.Init) →
    Twins origin names (fieldInit place item) (fieldInit place item) (FieldInit.Alike origin)
  | ⟨field, value, extent⟩ => by
    unfold fieldInit
    exact .bind (.intern field) fun _ _ _ _ same => .bind (twins_needed _ _ _ value)
      fun _ grown _ _ moved => .pure fun _ grown' => ⟨same.mono (grown.trans grown'), moved, rfl⟩

theorem twins_optionalInit (names : NamesPair) : (item : Option Doc.Init) →
    Twins origin names (optionalInit place item) (optionalInit place item) (FieldInit.Alike origin)
  | none => by
    unfold optionalInit
    exact .throw _
  | some init => by
    unfold optionalInit
    exact twins_fieldInit _ init

theorem twins_fieldInits (names : NamesPair) : (items : List (Option Doc.Init)) →
    Twins origin names (fieldInits place items) (fieldInits place items)
      fun later => List.Forall₂ (FieldInit.Alike origin later)
  | [] => by
    unfold fieldInits
    exact .pure fun _ _ => .nil
  | init :: rest => by
    unfold fieldInits
    exact .bind (twins_optionalInit _ init) fun _ _ _ _ alike => .bind (twins_fieldInits _ rest)
      fun _ grown _ _ each => .pure fun _ grown' =>
        .cons (alike.mono (grown.trans grown')) (each.imp fun _ _ alike => alike.mono grown')

end

theorem twins_optionalExpr (names : NamesPair) (item : Option Doc.Expr) :
    Twins origin names (optionalExpr place item) (optionalExpr place item)
      fun _ => Option.Rel origin.Expr := by
  unfold optionalExpr
  split
  · exact .pure fun _ _ => .none
  · exact .bind (twins_expr place _ _) fun _ _ _ _ moved => .pure fun _ _ => .some moved

/-! ### Variables -/

theorem twins_variableDecl (names : NamesPair) (kind : VariableKind) (item : Doc.Variable) :
    Twins origin names (variableDecl place kind item) (variableDecl place kind item)
      fun _ => origin.Decl := by
  unfold variableDecl
  dsimp only
  split
  · exact .failThen ..
  · exact .bind (.intern _) fun _ _ _ _ same => .bind (twins_optionalType place _ _)
      fun _ grown _ _ type => .bind (twins_optionalExpr place _ _) fun _ grown' _ _ init =>
        .bind (twins_modifiers place ..) fun _ grown'' _ _ mods => .newDecl
          ⟨.variable kind, same.mono ((grown.trans grown').trans grown''), type, init, mods, .none, rfl⟩

theorem twins_optionalVariable (names : NamesPair) (kind : VariableKind)
    (item : Option Doc.Variable) :
    Twins origin names (optionalVariable place kind item) (optionalVariable place kind item)
      fun _ => origin.Decl := by
  unfold optionalVariable
  split
  · exact .fail ..
  · exact twins_variableDecl place _ kind _

theorem twins_variableDecls (names : NamesPair) (kind : VariableKind)
    (items : List (Option Doc.Variable)) :
    Twins origin names (variableDecls place kind items) (variableDecls place kind items)
      fun _ => List.Forall₂ origin.Decl := by
  induction items generalizing names with
  | nil => exact .pure fun _ _ => .nil
  | cons item rest inductionHypothesis =>
    exact .bind (twins_optionalVariable place _ kind item) fun _ _ _ _ moved =>
      .bind (inductionHypothesis _) fun _ _ _ _ each => .pure fun _ _ => .cons moved each

/-! ### Statements -/

theorem twins_armValues (names : NamesPair) (extent : Doc.Extent) (items : List (Option Doc.Expr)) :
    Twins origin names (armValues place extent items) (armValues place extent items)
      fun _ => List.Forall₂ origin.Expr := by
  induction items generalizing names with
  | nil => exact .pure fun _ _ => .nil
  | cons value rest inductionHypothesis =>
    exact .bind (twins_needed place _ _ _ value) fun _ _ _ _ moved =>
      .bind (inductionHypothesis _) fun _ _ _ _ each => .pure fun _ _ => .cons moved each

mutual

theorem twins_stmt (names : NamesPair) : (item : Doc.Stmt) →
    Twins origin names (stmt place item) (stmt place item) fun _ => origin.Stmt
  | ⟨kind, stmts, decl, value, target, assigned, cond, thenBranch, elseBranch, body, loopName,
      first, last, subject, arms, default, extent⟩ => by
    unfold stmt
    dsimp only
    split
    · exact .bind (twins_stmtList _ stmts) fun _ _ _ _ each => .newStmt _ (.block each)
    · split
      · exact .fail ..
      · exact .bind (twins_variableDecl place ..) fun _ _ _ _ moved => .newStmt _ (.decl moved)
    · exact .bind (twins_needed place ..) fun _ _ _ _ moved => .newStmt _ (.expr moved)
    · exact .bind (twins_needed place ..) fun _ _ _ _ moved =>
        .bind (twins_needed place ..) fun _ _ _ _ moved' => .newStmt _ (.assign moved moved')
    · match thenBranch with
      | none => exact .fail ..
      | some thenBranch =>
        exact .bind (twins_needed place ..) fun _ _ _ _ moved => .bind (twins_stmt _ thenBranch)
          fun _ _ _ _ thenMoved => .bind (twins_optionalStmt _ elseBranch)
            fun _ _ _ _ elseMoved => .newStmt _ (.branch moved thenMoved elseMoved)
    · exact .bind (twins_needed place ..) fun _ _ _ _ moved =>
        .bind (twins_neededStmt _ _ _ body) fun _ _ _ _ moved' => .newStmt _ (.whileLoop moved moved')
    · split
      · exact .failThen ..
      · exact .bind (.intern _) fun _ _ _ _ name => .bind (.intern _) fun _ grown _ _ int =>
          .bind (.newType _ (.named int .nil)) fun _ grown' _ _ type =>
            .bind (.newDecl ⟨.variable _, name.mono (grown.trans grown'), .some type, .none, rfl,
                .none, rfl⟩) fun _ _ _ _ counter =>
              .bind (twins_needed place ..) fun _ _ _ _ first =>
                .bind (twins_needed place ..) fun _ _ _ _ last =>
                  .bind (twins_neededStmt _ _ _ body) fun _ _ _ _ body =>
                    .newStmt _ (.forLoop counter first last body)
    · exact .bind (twins_armList _ arms) fun _ _ _ _ each => .bind (twins_needed place ..)
        fun _ _ _ _ moved => .bind (twins_optionalStmt _ default) fun _ _ _ _ defaultMoved =>
          .newStmt _ (.case moved each defaultMoved)
    · exact .bind (twins_optionalExpr place ..) fun _ _ _ _ moved => .newStmt _ (.ret moved)
    · exact .fail ..

theorem twins_optionalStmt (names : NamesPair) : (item : Option Doc.Stmt) →
    Twins origin names (optionalStmt place item) (optionalStmt place item)
      fun _ => Option.Rel origin.Stmt
  | none => by
    unfold optionalStmt
    exact .pure fun _ _ => .none
  | some item => by
    unfold optionalStmt
    exact .bind (twins_stmt _ item) fun _ _ _ _ moved => .pure fun _ _ => .some moved

theorem twins_neededStmt (names : NamesPair) (subject : String) (extent : Doc.Extent) :
    (item : Option Doc.Stmt) →
    Twins origin names (neededStmt place subject extent item)
      (neededStmt place subject extent item) fun _ => origin.Stmt
  | none => by
    unfold neededStmt
    exact .fail ..
  | some item => by
    unfold neededStmt
    exact twins_stmt _ item

theorem twins_stmtList (names : NamesPair) : (items : List (Option Doc.Stmt)) →
    Twins origin names (stmtList place items) (stmtList place items)
      fun _ => List.Forall₂ (Option.Rel origin.Stmt)
  | [] => by
    unfold stmtList
    exact .pure fun _ _ => .nil
  | item :: rest => by
    unfold stmtList
    exact .bind (twins_optionalStmt _ item) fun _ _ _ _ moved => .bind (twins_stmtList _ rest)
      fun _ _ _ _ each => .pure fun _ _ => .cons moved each

theorem twins_arm (names : NamesPair) : (item : Doc.Arm) →
    Twins origin names (arm place item) (arm place item) fun _ => CaseArm.Alike origin
  | ⟨values, body, extent⟩ => by
    unfold arm
    exact .bind (twins_armValues place ..) fun _ _ _ _ each =>
      .bind (twins_neededStmt _ _ _ body) fun _ _ _ _ moved => .pure fun _ _ => ⟨each, moved, rfl⟩

theorem twins_optionalArm (names : NamesPair) : (item : Option Doc.Arm) →
    Twins origin names (optionalArm place item) (optionalArm place item)
      fun _ => CaseArm.Alike origin
  | none => by
    unfold optionalArm
    exact .throw _
  | some item => by
    unfold optionalArm
    exact twins_arm _ item

theorem twins_armList (names : NamesPair) : (items : List (Option Doc.Arm)) →
    Twins origin names (armList place items) (armList place items)
      fun _ => List.Forall₂ (CaseArm.Alike origin)
  | [] => by
    unfold armList
    exact .pure fun _ _ => .nil
  | item :: rest => by
    unfold armList
    exact .bind (twins_optionalArm _ item) fun _ _ _ _ alike => .bind (twins_armList _ rest)
      fun _ _ _ _ each => .pure fun _ _ => .cons alike each

end

/-! ### Other declarations -/

theorem twins_typeParam (names : NamesPair) (param : Doc.TypeParam) :
    Twins origin names (typeParam place param) (typeParam place param) fun _ => origin.Decl := by
  unfold typeParam
  split
  · exact .fail ..
  · exact .bind (.intern _) fun _ _ _ _ same =>
      .newDecl ⟨.templateParam _, same, .none, .none, rfl, .none, rfl⟩

theorem twins_typeParams (names : NamesPair) (params : List (Option Doc.TypeParam)) :
    Twins origin names (typeParams place params) (typeParams place params)
      fun _ => List.Forall₂ origin.Decl := by
  induction params generalizing names with
  | nil => exact .pure fun _ _ => .nil
  | cons param rest inductionHypothesis =>
    cases param with
    | none => exact .throw _
    | some param =>
      exact .bind (twins_typeParam place _ param) fun _ _ _ _ moved =>
        .bind (inductionHypothesis _) fun _ _ _ _ each => .pure fun _ _ => .cons moved each

theorem twins_adopt (names : NamesPair) (moved : origin.Decl owner owner')
    {children children' : List DeclId} (each : List.Forall₂ origin.Decl children children') :
    Twins origin names (adopt owner children) (adopt owner' children') fun _ _ _ => True := by
  induction each generalizing names with
  | nil => exact .pure fun _ _ => trivial
  | cons child _ inductionHypothesis =>
    exact .bind (.modifyDecl child fun _ _ _ alike => { alike with owner := .some moved })
      fun _ _ _ _ _ => inductionHypothesis _

theorem alike_withTypeParams {names : NamesPair} {params params' : List DeclId}
    (each : List.Forall₂ origin.Decl params params') {decl twin : Decl}
    (alike : decl.Alike origin names twin) :
    (decl.withTypeParams params).Alike origin names (twin.withTypeParams params') := by
  unfold Decl.withTypeParams
  cases decl
  cases twin
  obtain ⟨form, name, type, init, mods, owner, span⟩ := alike
  dsimp only at form ⊢
  cases form with
  | function alike =>
    exact ⟨.function { alike with typeParams := each }, name, type, init, mods, owner, span⟩
  | method alike =>
    exact ⟨.method { alike with typeParams := each }, name, type, init, mods, owner, span⟩
  | classDecl alike =>
    exact ⟨.classDecl { alike with typeParams := each }, name, type, init, mods, owner, span⟩
  | «variable» kind => exact ⟨.variable kind, name, type, init, mods, owner, span⟩
  | enum each => exact ⟨.enum each, name, type, init, mods, owner, span⟩
  | templateParam constraint => exact ⟨.templateParam constraint, name, type, init, mods, owner, span⟩
  | importDecl path target => exact ⟨.importDecl path target, name, type, init, mods, owner, span⟩

theorem isEmpty_eq_of_forall₂ {α β : Type} {related : α → β → Prop} {first : List α}
    {second : List β} (each : List.Forall₂ related first second) :
    second.isEmpty = first.isEmpty := by
  cases each <;> rfl

section

variable (names : NamesPair)

include names

theorem twins_attachTypeParams (moved : origin.Decl owner owner')
    (params : List (Option Doc.TypeParam)) :
    Twins origin names (attachTypeParams place owner params)
      (attachTypeParams place owner' params) fun _ _ _ => True := by
  unfold attachTypeParams
  refine .bind (twins_typeParams place _ params) fun _ _ ids ids' each => ?_
  rw [isEmpty_eq_of_forall₂ each]
  split
  · exact .pure fun _ _ => trivial
  · exact .bind (.modifyDecl moved fun _ _ _ alike => alike_withTypeParams each alike) fun _ _ _ _ _ =>
      twins_adopt _ moved each

theorem twins_function (method : Bool) (item : Doc.Function) :
    Twins origin names (function place method item) (function place method item)
      fun _ => origin.Decl := by
  have headed (names : NamesPair) {params params' : List DeclId} {body body' : Option StmtId}
      (each : List.Forall₂ origin.Decl params params')
      (moved : Option.Rel origin.Stmt body body') :
      let rest (params : List DeclId) (body : Option StmtId) : LoadM DeclId := do
        let name ← intern item.name
        let type ← optionalType place item.result
        let mods ← modifiers place item.name item.span .none item.mods
        let form := if method then DeclForm.method { params, body }
          else DeclForm.function { params, body }
        let id ← newDecl { form, name, type, mods, span := place.span item.span }
        adopt id params
        attachTypeParams place id item.typeParams
        return id
      Twins origin names (rest params body) (rest params' body') fun _ => origin.Decl := by
    refine .bind (.intern _) fun _ _ _ _ same => .bind (twins_optionalType place ..)
      fun _ grown _ _ type => .bind (twins_modifiers place ..) fun _ grown' _ _ mods =>
        .bind (.newDecl ⟨?_, same.mono (grown.trans grown'), type, .none, mods, .none, rfl⟩)
          fun _ _ _ _ owner => .bind (twins_adopt _ owner each) fun _ _ _ _ _ =>
            .bind (twins_attachTypeParams place _ owner _) fun _ _ _ _ _ => .pure fun _ _ => owner
    cases method with
    | false => exact .function ⟨each, .nil, moved⟩
    | true => exact .method ⟨each, .nil, moved⟩
  unfold function
  refine .bind (twins_variableDecls place ..) fun _ _ _ _ params => ?_
  dsimp only
  split
  · exact headed _ params .none
  · exact .bind (twins_stmtList place ..) fun _ _ _ _ each =>
      .bind (.newStmt _ (.block each)) fun _ _ _ _ block => headed _ params (.some block)

theorem twins_functions (method : Bool) (items : List (Option Doc.Function)) :
    Twins origin names (functions place method items) (functions place method items)
      fun _ => List.Forall₂ origin.Decl := by
  induction items generalizing names with
  | nil => exact .pure fun _ _ => .nil
  | cons item rest inductionHypothesis =>
    cases item with
    | none => exact .throw _
    | some item =>
      exact .bind (twins_function place _ method item) fun _ _ _ _ moved =>
        .bind (inductionHypothesis _) fun _ _ _ _ each => .pure fun _ _ => .cons moved each

theorem twins_classDecl (item : Doc.Class) :
    Twins origin names (classDecl place item) (classDecl place item) fun _ => origin.Decl := by
  refine .bind (twins_variableDecls place ..) fun _ _ _ _ fields =>
    .bind (twins_functions place ..) fun _ _ _ _ methods => .bind (.intern _)
      fun _ _ _ _ same => .bind (twins_optionalType place ..) fun _ grown _ _ base =>
        .bind (twins_modifiers place ..) fun _ grown' _ _ mods =>
          .bind (.newDecl ⟨.classDecl ⟨base, .nil, fields, methods⟩,
            same.mono (grown.trans grown'), .none, .none, mods, .none, rfl⟩)
            fun _ _ _ _ owner => .bind (twins_adopt _ owner fields) fun _ _ _ _ _ =>
              .bind (twins_adopt _ owner methods) fun _ _ _ _ _ =>
                .bind (twins_attachTypeParams place _ owner _) fun _ _ _ _ _ =>
                  .pure fun _ _ => owner

theorem twins_enumConsts (items : List (Option Doc.Constant)) :
    Twins origin names (enumConsts place items) (enumConsts place items)
      fun _ => List.Forall₂ origin.Decl := by
  induction items generalizing names with
  | nil => exact .pure fun _ _ => .nil
  | cons item rest inductionHypothesis =>
    cases item with
    | none => exact .throw _
    | some item =>
      exact .bind (.intern _) fun _ _ _ _ same =>
        .bind (.newDecl ⟨.variable _, same, .none, .none, rfl, .none, rfl⟩) fun _ _ _ _ moved =>
          .bind (inductionHypothesis _) fun _ _ _ _ each => .pure fun _ _ => .cons moved each

theorem twins_enumDecl (item : Doc.Enumeration) :
    Twins origin names (enumDecl place item) (enumDecl place item) fun _ => origin.Decl := by
  exact .bind (twins_enumConsts place ..) fun _ _ _ _ consts => .bind (.intern _)
    fun _ _ _ _ same => .bind (twins_modifiers place ..) fun _ grown _ _ mods =>
      .bind (.newDecl ⟨.enum consts, same.mono grown, .none, .none, mods, .none, rfl⟩)
        fun _ _ _ _ owner => .bind (twins_adopt _ owner consts) fun _ _ _ _ _ =>
          .pure fun _ _ => owner

theorem twins_importDecl (item : Doc.Import) (target : Option UnitId) :
    Twins origin names (importDecl place item target) (importDecl place item target)
      fun _ => origin.Decl :=
  .bind (.intern _) fun _ _ _ _ same =>
    .newDecl ⟨.importDecl _ _, same, .none, .none, rfl, .none, rfl⟩

end

/-! ### Units -/

/-- Appending keeps units alike. -/
def AppendsAlike (origin : Origin) (append : DeclId → ProgramUnit → ProgramUnit) : Prop :=
  ∀ id id', origin.Decl id id' → ∀ unit unit', ProgramUnit.Alike origin unit unit' →
    (append id unit).Alike origin (append id' unit')

theorem alike_addImport : AppendsAlike origin .addImport :=
  fun _ _ moved _ _ alike =>
    { alike with imports := List.rel_append alike.imports (.cons (.inr moved) .nil) }

theorem alike_addEnum : AppendsAlike origin .addEnum :=
  fun _ _ moved _ _ alike =>
    { alike with enums := List.rel_append alike.enums (.cons (.inr moved) .nil) }

theorem alike_addGlobal : AppendsAlike origin .addGlobal :=
  fun _ _ moved _ _ alike =>
    { alike with globals := List.rel_append alike.globals (.cons (.inr moved) .nil) }

theorem alike_addClass : AppendsAlike origin .addClass :=
  fun _ _ moved _ _ alike =>
    { alike with classes := List.rel_append alike.classes (.cons (.inr moved) .nil) }

theorem alike_addFunction : AppendsAlike origin .addFunction :=
  fun _ _ moved _ _ alike =>
    { alike with functions := List.rel_append alike.functions (.cons (.inr moved) .nil) }

theorem alike_setMain : AppendsAlike origin .setMain :=
  fun _ _ moved _ _ alike => { alike with main := .some (.inr moved) }

theorem twins_appendEach {α : Type} (new : origin.loader.tree.units.size < unit)
    {build : α → LoadM DeclId}
    (builds : ∀ names item, Twins origin names (build item) (build item) fun _ => origin.Decl)
    (appends : AppendsAlike origin append) (names : NamesPair) (items : List (Option α)) :
    Twins origin names (appendEach unit build append items) (appendEach unit build append items)
      fun _ _ _ => True := by
  induction items generalizing names with
  | nil => exact .pure fun _ _ => trivial
  | cons item rest inductionHypothesis =>
    cases item with
    | none => exact .throw _
    | some item =>
      exact .bind (builds _ item) fun _ _ id id' moved =>
        .bind (.modifyUnit new (appends id id' moved)) fun _ _ _ _ _ => inductionHypothesis _

theorem twins_appendVariables (new : origin.loader.tree.units.size < unit) (kind : VariableKind)
    (appends : AppendsAlike origin append) (names : NamesPair)
    (items : List (Option Doc.Variable)) :
    Twins origin names (appendVariables place unit kind append items)
      (appendVariables place unit kind append items) fun _ _ _ => True := by
  induction items generalizing names with
  | nil => exact .pure fun _ _ => trivial
  | cons item rest inductionHypothesis =>
    exact .bind (twins_optionalVariable place _ kind item) fun _ _ id id' moved =>
      .bind (.modifyUnit new (appends id id' moved)) fun _ _ _ _ _ => inductionHypothesis _

theorem twins_importOf {fuel : Nat} {byPath : UnitsByPath}
    (builds : ∀ names isImported item, Twins origin names (Build.unit fuel byPath isImported item)
      (Build.unit fuel byPath isImported item) fun _ id twin => twin = id)
    (names : NamesPair) (item : Doc.Import) :
    Twins origin names (importOf fuel byPath place item) (importOf fuel byPath place item)
      fun _ => origin.Decl := by
  have found (names : NamesPair) (target : Option UnitId) :
      Twins origin names (Pure.pure target >>= importDecl place item)
        (Pure.pure target >>= importDecl place item) fun _ => origin.Decl :=
    twins_importDecl place names item target
  unfold importOf
  refine .read fun first second beside => ?_
  dsimp only
  rw [Loader.unit?, Loader.unit?, beside.registered]
  split
  · exact found names _
  · split
    · refine .bind (builds _ true _) fun later _ id twin same => ?_
      rw [same]
      exact found later _
    · refine .bind (.ask _) fun later _ answer twin same => ?_
      rw [same]
      split
      · exact .failThen ..
      · exact found later _
      · refine .bind (builds _ true _) fun later _ id twin same => ?_
        rw [same]
        exact found later _

theorem twins_unit (fuel : Nat) (byPath : UnitsByPath) (names : NamesPair) (isImported : Bool)
    (item : Doc.Unit) :
    Twins origin names (Build.unit fuel byPath isImported item)
      (Build.unit fuel byPath isImported item) fun _ id twin => twin = id := by
  induction fuel generalizing names isImported item with
  | zero =>
    unfold Build.unit
    refine .read fun first second beside => ?_
    dsimp only
    rw [Loader.unit?, Loader.unit?, beside.registered]
    split
    · exact .pure fun _ _ => rfl
    · exact .throw _
  | succ fuel inductionHypothesis =>
    unfold Build.unit
    refine .read fun first second beside => ?_
    dsimp only
    rw [Loader.unit?, Loader.unit?, beside.registered]
    split
    · exact .pure fun _ _ => rfl
    · refine .bind (.registerUnit ..) ?_
      rintro _ _ ⟨id, file⟩ _ ⟨rfl, new⟩
      dsimp only at new ⊢
      refine .bind (twins_appendEach new (twins_importOf _ inductionHypothesis) alike_addImport ..)
        fun _ _ _ _ _ =>
        .bind (twins_appendEach new (twins_enumDecl _) alike_addEnum ..) fun _ _ _ _ _ =>
        .bind (twins_appendVariables _ new .global alike_addGlobal ..) fun _ _ _ _ _ =>
        .bind (twins_appendEach new (twins_classDecl _) alike_addClass ..) fun _ _ _ _ _ =>
        .bind (twins_appendEach new (fun names => twins_function _ names false)
          alike_addFunction ..) fun _ _ _ _ _ => ?_
      split
      · exact .pure fun _ _ => rfl
      · exact .bind (twins_function _ _ false _) fun _ _ main main' moved =>
          .bind (.modifyUnit new (alike_setMain main main' moved)) fun _ _ _ _ _ =>
            .pure fun _ _ => rfl

end Build

end TreeCheck
