/-
Every name has exactly one outcome. A walk through a statement, variable, callable or
class comes by the names below it in the order of the tree, whatever the environment is;
a walk through a unit does so up to the order of its parts, because classes are walked
bases first and bodies last.
-/

import Mathlib.Data.List.ReduceOption
import TreeCheck.Proofs.Scoping.Lexical

namespace TreeCheck.Lexical

variable {α : Type} {id : DeclId} {kind : DeclKind}

/-- Where a name stands. -/
def Entry.spot (entry : Entry) : ExprId × Option NameId := (entry.expr, entry.declaring)

/-- A walk comes by certain names, in order, wherever it starts. -/
structure Covers (walk : Walk) (spots : List (ExprId × Option NameId)) : Prop where
  spots : ∀ env, (walk env).2.map Entry.spot = spots

namespace Covers

variable {walk next : Walk} {spots later : List (ExprId × Option NameId)}

theorem skip : Covers Walk.skip [] := ⟨fun _ => rfl⟩

theorem change (step : Env → Env) : Covers (Walk.change step) [] := ⟨fun _ => rfl⟩

theorem andThen (first : Covers walk spots) (second : Covers next later) :
    Covers (walk.andThen next) (spots ++ later) := by
  refine ⟨fun env => ?_⟩
  rw [Walk.andThen, List.map_append, first.spots, second.spots]

theorem each {items : List α} {walks : α → Walk} {spots : α → List (ExprId × Option NameId)}
    (covers : ∀ item ∈ items, Covers (walks item) (spots item)) :
    Covers (Walk.each items walks) (items.flatMap spots) := by
  induction items with
  | nil => exact .skip
  | cons item rest inductionHypothesis =>
    exact .andThen (covers item (.head _))
      (inductionHypothesis fun other member => covers other (.tail _ member))

theorem eachChange (items : List α) (step : α → Env → Env) :
    Covers (Walk.each items fun item => Walk.change (step item)) [] := by
  have covers : Covers (Walk.each items fun item => Walk.change (step item))
      (items.flatMap fun _ => []) := .each fun item _ => .change (step item)
  rwa [List.flatMap_eq_nil_iff.mpr fun _ _ => rfl] at covers

theorem nested (covers : Covers walk spots) : Covers walk.nested spots :=
  ⟨fun env => covers.spots ([] :: env)⟩

theorem names (tree : Tree) (declaring : Option NameId) (id : ExprId) :
    Covers (Walk.names tree declaring id) (tree.visit declaring (.expr id)) := by
  refine ⟨fun env => ?_⟩
  rw [Walk.names, Env.entries, List.map_map]
  exact List.map_id _

theorem congr (covers : Covers walk spots) (same : later = spots) : Covers walk later :=
  same ▸ covers

end Covers

theorem filterMap_map_eq {β : Type} (items : List (Option α)) (view : α → β) :
    (items.filterMap fun item => item.map view) = items.reduceOption.map view := by
  rw [List.reduceOption, List.map_filterMap]
  rfl

theorem expr_notMem_parts (form : DeclForm) (id : ExprId) : .expr id ∉ form.parts := by
  cases form <;> simp [DeclForm.parts, Callable.parts, ClassBody.parts]

section

variable {tree : Tree} {loose : List Node} (forest : tree.Forest loose)

include forest

/-! ### Visits below nodes that are no names -/

/-- Below a node that is neither an expression nor a declaration nothing is declared. -/
theorem visit_unit {id : UnitId} (holds : tree.Holds (.unit id)) :
    tree.visit none (.unit id) = (tree.parts (.unit id)).flatMap (tree.visit none) := by
  rw [forest.visit_eq none holds]
  rfl

theorem visit_stmt {id : StmtId} {stmt : Stmt} (found : tree.stmts.get? id = some stmt) :
    tree.visit none (.stmt id) = stmt.form.parts.flatMap (tree.visit none) := by
  have holds : tree.Holds (.stmt id) := by simp [Tree.Holds, found]
  have parts : tree.parts (.stmt id) = stmt.form.parts := by simp [Tree.parts, found]
  rw [forest.visit_eq none holds, parts]
  rfl

/-- The names below a declaration are those in its initial value and those below its own
parts. -/
theorem visit_decl {decl : Decl} (found : tree.decls.get? id = some decl)
    (declaring : Option NameId) :
    tree.visit declaring (.decl decl.kind id) =
      decl.init.toList.flatMap (fun init => tree.visit (some decl.name) (.expr init)) ++
        decl.form.parts.flatMap (tree.visit none) := by
  have holds : tree.Holds (.decl decl.kind id) := by simp [Tree.Holds, Tree.kindOf?, found]
  have parts : tree.parts (.decl decl.kind id) = decl.parts := by simp [Tree.parts, found]
  rw [forest.visit_eq declaring holds, parts, Decl.parts, List.flatMap_append, List.flatMap_append]
  have types : (decl.type.map Node.type).toList.flatMap (fun part =>
      tree.visit (tree.declaringBelow declaring (.decl decl.kind id) part) part) = [] := by
    cases type : decl.type with
    | none => rfl
    | some written =>
      have isPart : .type written ∈ tree.parts (.decl decl.kind id) := by
        rw [parts]
        simp [Decl.parts, type]
      simp [forest.visit_type (forest.holds_part isPart)]
  have initial : (decl.init.map Node.expr).toList.flatMap (fun part =>
      tree.visit (tree.declaringBelow declaring (.decl decl.kind id) part) part) =
        decl.init.toList.flatMap fun init => tree.visit (some decl.name) (.expr init) := by
    cases decl.init <;> simp [Tree.declaringBelow, found]
  have own : decl.form.parts.flatMap (fun part =>
      tree.visit (tree.declaringBelow declaring (.decl decl.kind id) part) part) =
        decl.form.parts.flatMap (tree.visit none) := by
    refine List.flatMap_congr fun part member => ?_
    cases part with
    | expr inner => exact absurd member (expr_notMem_parts decl.form inner)
    | _ => rfl
  rw [types, initial, own]
  rfl

/-! ### Variables -/

/-- Of declarations that are not variables only the parts count. -/
theorem visit_decl_of_parts {decl : Decl} (found : tree.decls.get? id = some decl)
    (isKind : decl.kind = kind) (other : kind.isVariable = false) (declaring : Option NameId) :
    tree.visit declaring (.decl kind id) = decl.form.parts.flatMap (tree.visit none) := by
  subst isKind
  rw [visit_decl forest found, forest.init_eq_none found other]
  rfl

theorem covers_declared (kind : DeclKind) (isVariable : kind.isVariable)
    (holds : tree.Holds (.decl kind id)) :
    Covers (declared tree id) (tree.visit none (.decl kind id)) := by
  obtain ⟨decl, found, rfl⟩ := Option.map_eq_some_iff.mp (show tree.kindOf? id = _ from holds)
  unfold declared
  rw [found]
  refine Covers.congr (.andThen (.each fun init _ => .names tree (some decl.name) init)
    (.change _)) ?_
  rw [visit_decl forest found, decl.form_parts_of_leaf (.inl isVariable)]
  rfl

/-! ### Statements -/

omit forest in
theorem covers_inOwnFrame {walk : StmtId → Walk} {id : StmtId}
    {spots : List (ExprId × Option NameId)} (holds : tree.Holds (.stmt id))
    (covers : Covers (walk id) spots) : Covers (inOwnFrame tree walk id) spots := by
  obtain ⟨stmt, found⟩ := Option.isSome_iff_exists.mp holds
  unfold inOwnFrame
  simp only [found, Option.map_some]
  cases stmt.form with
  | block stmts => exact covers
  | _ => exact covers.nested

theorem covers_stmtWithin (fuel : Nat) {id : StmtId} (holds : tree.Holds (.stmt id))
    (enough : id < fuel) :
    Covers (stmtWithin tree fuel id) (tree.visit none (.stmt id)) := by
  induction fuel generalizing id with
  | zero => exact absurd enough (Nat.not_lt_zero _)
  | succ fuel inductionHypothesis =>
    obtain ⟨stmt, found⟩ := Option.isSome_iff_exists.mp holds
    have isPart {part : Node} (member : part ∈ stmt.form.parts) : tree.Holds part := by
      have : part ∈ tree.parts (.stmt id) := by simpa [Tree.parts, found] using member
      exact forest.holds_part this
    have inner {child : StmtId} (member : .stmt child ∈ stmt.form.parts) :
        Covers (stmtWithin tree fuel child) (tree.visit none (.stmt child)) := by
      have below := forest.stmtsBelow id stmt found child member
      exact inductionHypothesis (isPart member) (by lia)
    have own {child : StmtId} (member : .stmt child ∈ stmt.form.parts) :
        Covers (inOwnFrame tree (stmtWithin tree fuel) child) (tree.visit none (.stmt child)) :=
      covers_inOwnFrame (isPart member) (inner member)
    rw [visit_stmt forest found]
    unfold stmtWithin
    simp only [found, Option.map_some]
    cases form : stmt.form with
    | block stmts =>
      refine Covers.congr (.nested (.each fun child member => inner ?_)) ?_
      · rw [form, StmtForm.parts, filterMap_map_eq]
        exact List.mem_map_of_mem member
      · rw [StmtForm.parts, filterMap_map_eq, List.flatMap_map]
    | decl declared =>
      refine (covers_declared forest .localVar rfl (isPart ?_)).congr ?_
      · simp [form, StmtForm.parts]
      · simp [StmtForm.parts]
    | expr value =>
      refine (Covers.names tree none value).congr ?_
      simp [StmtForm.parts]
    | assign target value =>
      refine Covers.congr (.andThen (.names tree none target) (.names tree none value)) ?_
      simp [StmtForm.parts]
    | branch cond thenBranch elseBranch =>
      refine Covers.congr (.andThen (.names tree none cond) <|
        .andThen (own ?_) (.each fun child isChild => own ?_)) ?_
      · simp [form, StmtForm.parts]
      · simp [form, StmtForm.parts, Option.mem_toList.mp isChild]
      · simp [StmtForm.parts, List.flatMap_cons, Option.toList_map, List.flatMap_map]
    | whileLoop cond body =>
      refine Covers.congr (.andThen (.names tree none cond) (own ?_)) ?_
      · simp [form, StmtForm.parts]
      · simp [StmtForm.parts]
    | forLoop counter first last body =>
      refine Covers.congr (.andThen (.names tree none first) <| .andThen (.names tree none last) <|
        .nested (.andThen (covers_declared forest .localVar rfl (isPart ?_)) (own ?_))) ?_
      · simp [form, StmtForm.parts]
      · simp [form, StmtForm.parts]
      · simp [StmtForm.parts]
    | case subject arms default =>
      refine Covers.congr (.andThen (.names tree none subject) <|
        .andThen (.each fun arm isArm => .andThen (.each fun value _ => .names tree none value)
          (own ?_)) (.each fun child isChild => own ?_)) ?_
      · rw [form]
        refine .tail _ (List.mem_append_left _ (List.mem_flatMap.mpr ⟨arm, isArm, ?_⟩))
        simp [CaseArm.parts]
      · simp [form, StmtForm.parts, Option.mem_toList.mp isChild]
      · simp [StmtForm.parts, CaseArm.parts, List.flatMap_assoc, List.flatMap_map,
          Option.toList_map]
    | ret value =>
      refine Covers.congr (.each fun child _ => .names tree none child) ?_
      simp [StmtForm.parts, Option.toList_map, List.flatMap_map]

theorem covers_stmt {id : StmtId} (holds : tree.Holds (.stmt id)) :
    Covers (stmt tree id) (tree.visit none (.stmt id)) := by
  obtain ⟨item, found⟩ := Option.isSome_iff_exists.mp holds
  exact covers_stmtWithin forest _ holds (Nat.lt_succ_of_le (Arena.get?_eq_some_le found).2)

/-! ### Callables, classes and enums -/

/-- There are no names below a template parameter or an import. -/
theorem visit_leaf (leaf : kind = .templateParam ∨ kind = .importDecl)
    (holds : tree.Holds (.decl kind id)) : tree.visit none (.decl kind id) = [] := by
  obtain ⟨decl, found, rfl⟩ := Option.map_eq_some_iff.mp (show tree.kindOf? id = _ from holds)
  have other : decl.kind.isVariable = false := by
    rcases leaf with isKind | isKind <;> rw [isKind] <;> rfl
  rw [visit_decl_of_parts forest found rfl other, decl.form_parts_of_leaf (.inr leaf)]
  rfl

theorem visits_templateParams {params : List DeclId}
    (holds : ∀ param ∈ params, tree.Holds (.decl .templateParam param)) :
    (params.map (.decl .templateParam)).flatMap (tree.visit none) = [] := by
  refine List.flatMap_eq_nil_iff.mpr fun part member => ?_
  obtain ⟨param, isParam, rfl⟩ := List.mem_map.mp member
  exact visit_leaf forest (.inl rfl) (holds param isParam)

theorem covers_bodyStmts {body : StmtId} (holds : tree.Holds (.stmt body)) :
    Covers (Walk.each (Resolve.bodyStmts tree body).reduceOption (stmt tree))
      (tree.visit none (.stmt body)) := by
  obtain ⟨item, found⟩ := Option.isSome_iff_exists.mp holds
  by_cases isBlock : ∃ stmts, item.form = .block stmts
  · obtain ⟨stmts, form⟩ := isBlock
    have isPart {child : StmtId} (member : child ∈ stmts.reduceOption) :
        .stmt child ∈ tree.parts (.stmt body) := by
      simp only [Tree.parts, found, Option.map_some, Option.getD_some, form, StmtForm.parts,
        filterMap_map_eq]
      exact List.mem_map_of_mem member
    have children : Resolve.bodyStmts tree body = stmts := by
      simp [Resolve.bodyStmts, found, form]
    rw [children]
    refine Covers.congr (.each fun child member =>
      covers_stmt forest (forest.holds_part (isPart member))) ?_
    rw [visit_stmt forest found, form, StmtForm.parts, filterMap_map_eq, List.flatMap_map]
  · have single : Resolve.bodyStmts tree body = [some body] := by
      unfold Resolve.bodyStmts
      split
      · next stmts form =>
        rw [found, Option.map_some, Option.some.injEq] at form
        exact absurd ⟨stmts, form⟩ isBlock
      · rfl
    rw [single]
    refine Covers.congr (.andThen (covers_stmt forest holds) .skip) ?_
    rw [List.append_nil]

theorem covers_callableBody (isCallable : kind = .function ∨ kind = .method)
    (holds : tree.Holds (.decl kind id)) :
    Covers (callableBody tree id) (tree.visit none (.decl kind id)) := by
  obtain ⟨decl, found, rfl⟩ := Option.map_eq_some_iff.mp (show tree.kindOf? id = _ from holds)
  have other : decl.kind.isVariable = false := by
    rcases isCallable with isKind | isKind <;> rw [isKind] <;> rfl
  obtain ⟨callable, isCallable', parts⟩ := decl.callable?_of_isCallable (by
    rcases isCallable with isKind | isKind <;> rw [isKind] <;> rfl)
  have isPart {part : Node} (member : part ∈ callable.parts) :
      part ∈ tree.parts (.decl decl.kind id) := by
    simp [Tree.parts, found, Decl.parts, parts, member]
  unfold callableBody
  simp only [Tree.callable?, found, Option.bind_some, isCallable']
  refine Covers.congr (.nested (.andThen (.eachChange _ _) <| .andThen
    (.each fun param member => covers_declared forest .param rfl (forest.holds_part (isPart ?_)))
    (.each fun body member => covers_bodyStmts forest (forest.holds_part (isPart ?_))))) ?_
  · simp [Callable.parts, member]
  · simp [Callable.parts, Option.mem_toList.mp member]
  · rw [visit_decl_of_parts forest found rfl other, parts, Callable.parts, List.flatMap_append,
      List.flatMap_append, visits_templateParams forest fun param member =>
        forest.holds_part (isPart (by simp [Callable.parts, member]))]
    simp [List.flatMap_map, Option.toList_map]

theorem covers_enum (holds : tree.Holds (.decl .enum id)) :
    Covers
      ((Walk.change (Env.declareName tree id)).andThen
        (Walk.each (((tree.decls.get? id).bind Decl.consts?).getD []) (declared tree)))
      (tree.visit none (.decl .enum id)) := by
  obtain ⟨decl, found, isKind⟩ := Option.map_eq_some_iff.mp (show tree.kindOf? id = _ from holds)
  obtain ⟨consts, form⟩ := Decl.form_of_enum isKind
  have isPart {const : DeclId} (member : const ∈ consts) :
      .decl .enumConst const ∈ tree.parts (.decl .enum id) := by
    simp [Tree.parts, found, Decl.parts, form, DeclForm.parts, member]
  have known : ((tree.decls.get? id).bind Decl.consts?).getD [] = consts := by
    simp [found, Decl.consts?, form]
  rw [known]
  refine Covers.congr (.andThen (.change _) (.each fun const member =>
    covers_declared forest .enumConst rfl (forest.holds_part (isPart member)))) ?_
  rw [visit_decl_of_parts forest found isKind rfl, form, DeclForm.parts, List.flatMap_map]
  rfl

theorem covers_classBody (holds : tree.Holds (.decl .classDecl id)) (classes : Classes) :
    Covers (classBody tree classes id) (tree.visit none (.decl .classDecl id)) := by
  obtain ⟨decl, found, isKind⟩ := Option.map_eq_some_iff.mp (show tree.kindOf? id = _ from holds)
  obtain ⟨body, form⟩ := Decl.form_of_classDecl isKind
  have isPart {part : Node} (member : part ∈ body.parts) :
      part ∈ tree.parts (.decl .classDecl id) := by
    simp [Tree.parts, found, Decl.parts, form, DeclForm.parts, member]
  have isBody : tree.classBody? id = some body := by
    simp [Tree.classBody?, found, Decl.classBody?, form]
  unfold classBody
  rw [isBody]
  refine Covers.congr (.andThen (.eachChange _ _) <| .andThen (.eachChange _ _) <|
    .andThen (.each fun field member => covers_declared forest .field rfl
      (forest.holds_part (isPart ?_))) <|
    .andThen (.eachChange _ _) (.each fun method member => covers_callableBody forest (.inr rfl)
      (forest.holds_part (isPart ?_)))) ?_
  · simp [ClassBody.parts, member]
  · simp [ClassBody.parts, member]
  · have params : (body.typeParams.map (.decl .templateParam)).flatMap (tree.visit none) = [] :=
      visits_templateParams forest fun param member =>
        forest.holds_part (isPart (by simp [ClassBody.parts, member]))
    have base : (body.base.map Node.type).toList.flatMap (tree.visit none) = [] := by
      cases isBase : body.base with
      | none => rfl
      | some written =>
        have member : .type written ∈ body.parts := by simp [ClassBody.parts, isBase]
        simp [forest.visit_type (forest.holds_part (isPart member))]
    rw [visit_decl_of_parts forest found isKind rfl, form, DeclForm.parts, ClassBody.parts]
    simp only [List.flatMap_append, params, base, List.flatMap_map, List.nil_append]

end

end TreeCheck.Lexical
