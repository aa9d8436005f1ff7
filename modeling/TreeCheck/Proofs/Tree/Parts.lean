/-
The parts of a node, in the order in which they are walked, and what makes a tree a
forest: no node is a part of two others, everything that is mentioned is there, and
expressions, statements and written types have smaller numbers than what they are parts
of. While a tree is being built some nodes are loose: they are complete and not yet a
part of anything.

How often a node is mentioned is a number, so that each step of the construction comes
down to an inequality between sums.
-/

import Mathlib.Data.List.Nodup
import TreeCheck.Tree.Nodes

namespace TreeCheck

variable {decl : Decl} {id : DeclId} {tree : Tree} {body : ClassBody} {node : Node}
  {new : Option Node} {change : Decl → Decl} {more : List Node}

/-- A node of a tree; a declaration with its kind. -/
inductive Node where
  | unit (id : UnitId)
  | decl (kind : DeclKind) (id : DeclId)
  | stmt (id : StmtId)
  | expr (id : ExprId)
  | type (id : TypeExprId)
  deriving DecidableEq

theorem VariableKind.isVariable_declKind (kind : VariableKind) : kind.declKind.isVariable := by
  cases kind <;> rfl

theorem Decl.form_of_classDecl (isKind : decl.kind = .classDecl) :
    ∃ body, decl.form = .classDecl body := by
  have other : decl.kind.isVariable = false := by rw [isKind]; rfl
  cases form : decl.form with
  | classDecl body => exact ⟨body, rfl⟩
  | _ => simp [Decl.kind, form, VariableKind.isVariable_declKind] at other isKind

theorem Decl.form_of_enum (isKind : decl.kind = .enum) : ∃ consts, decl.form = .enum consts := by
  have other : decl.kind.isVariable = false := by rw [isKind]; rfl
  cases form : decl.form with
  | enum consts => exact ⟨consts, rfl⟩
  | _ => simp [Decl.kind, form, VariableKind.isVariable_declKind] at other isKind

/-! ### Parts -/

def TypeExprForm.parts : TypeExprForm → List Node
  | .named _ args => args.filterMap (·.map .type)
  | .list base _ => [.type base]
  | .array base _ => [.type base]
  | .tuple elems => elems.filterMap (·.map .type)
  | .union members => members.filterMap (·.map .type)

def ExprForm.parts : ExprForm → List Node
  | .literal _ _ => []
  | .name _ => []
  | .this => []
  | .field receiver _ => [.expr receiver]
  | .index target indices => .expr target :: indices.map .expr
  | .call _ typeArgs args => typeArgs.filterMap (·.map .type) ++ args.map .expr
  | .methodCall receiver _ args => .expr receiver :: args.map .expr
  | .binary _ left right => [.expr left, .expr right]
  | .unary _ operand => [.expr operand]
  | .cast target operand => [.type target, .expr operand]
  | .create type inits => .type type :: inits.map fun init => .expr init.value
  | .list elem elems => (elem.map .type).toList ++ elems.map .expr
  | .tuple elems => elems.map .expr

def CaseArm.parts (arm : CaseArm) : List Node := arm.values.map .expr ++ [.stmt arm.body]

def StmtForm.parts : StmtForm → List Node
  | .block stmts => stmts.filterMap (·.map .stmt)
  | .decl declared => [.decl .localVar declared]
  | .expr value => [.expr value]
  | .assign target value => [.expr target, .expr value]
  | .branch cond thenBranch elseBranch =>
    .expr cond :: .stmt thenBranch :: (elseBranch.map .stmt).toList
  | .whileLoop cond body => [.expr cond, .stmt body]
  | .forLoop counter first last body =>
    [.expr first, .expr last, .decl .localVar counter, .stmt body]
  | .case subject arms default =>
    .expr subject :: (arms.flatMap CaseArm.parts ++ (default.map .stmt).toList)
  | .ret value => (value.map .expr).toList

def Callable.parts (callable : Callable) : List Node :=
  callable.typeParams.map (.decl .templateParam) ++ callable.params.map (.decl .param) ++
    (callable.body.map .stmt).toList

def ClassBody.parts (body : ClassBody) : List Node :=
  body.typeParams.map (.decl .templateParam) ++ (body.base.map .type).toList ++
    body.fields.map (.decl .field) ++ body.methods.map (.decl .method)

def DeclForm.parts : DeclForm → List Node
  | .variable _ => []
  | .function callable => callable.parts
  | .method callable => callable.parts
  | .classDecl body => body.parts
  | .enum consts => consts.map (.decl .enumConst)
  | .templateParam _ => []
  | .importDecl _ _ => []

def Decl.parts (decl : Decl) : List Node :=
  (decl.type.map .type).toList ++ (decl.init.map .expr).toList ++ decl.form.parts

/-- Variables, template parameters and imports have no parts besides a type and an initial
value. -/
theorem Decl.form_parts_of_leaf
    (leaf : decl.kind.isVariable ∨ decl.kind = .templateParam ∨ decl.kind = .importDecl) :
    decl.form.parts = [] := by
  cases form : decl.form <;> first | rfl | simp [Decl.kind, form, DeclKind.isVariable] at leaf

/-- The parts of a function or method, besides its type, are those of its body. -/
theorem Decl.callable?_of_isCallable (isCallable : decl.kind.isCallable) :
    ∃ callable, decl.callable? = some callable ∧ decl.form.parts = callable.parts := by
  cases form : decl.form with
  | function callable => exact ⟨callable, by rw [callable?, form], rfl⟩
  | method callable => exact ⟨callable, by rw [callable?, form], rfl⟩
  | «variable» kind =>
    cases kind <;> simp [kind, form, VariableKind.declKind, DeclKind.isCallable] at isCallable
  | _ => simp [kind, form, DeclKind.isCallable] at isCallable

def ProgramUnit.parts (unit : ProgramUnit) : List Node :=
  unit.imports.map (.decl .importDecl) ++ unit.enums.map (.decl .enum) ++
    unit.globals.map (.decl .global) ++ unit.classes.map (.decl .classDecl) ++
    unit.functions.map (.decl .function) ++ (unit.main.map (.decl .function)).toList ++
    unit.stmts.map .stmt

namespace Tree

/-- The parts of a node; of one that is not there, none. -/
def parts (tree : Tree) : Node → List Node
  | .unit id => ((tree.units.get? id).map ProgramUnit.parts).getD []
  | .decl _ id => ((tree.decls.get? id).map Decl.parts).getD []
  | .stmt id => ((tree.stmts.get? id).map fun stmt => stmt.form.parts).getD []
  | .expr id => ((tree.exprs.get? id).map fun expr => expr.form.parts).getD []
  | .type id => ((tree.types.get? id).map fun type => type.form.parts).getD []

theorem parts_unit (tree : Tree) {id : UnitId} {body : ProgramUnit}
    (isUnit : tree.units.get? id = some body) :
    tree.parts (.unit id) = body.parts := by
  simp [parts, isUnit]

theorem parts_decl (tree : Tree) (kind : DeclKind) (isDecl : tree.decls.get? id = some decl) :
    tree.parts (.decl kind id) = decl.parts := by
  simp [parts, isDecl]

theorem parts_stmt (tree : Tree) {id : StmtId} {stmt : Stmt} (isStmt : tree.stmts.get? id = some stmt) :
    tree.parts (.stmt id) = stmt.form.parts := by
  simp [parts, isStmt]

theorem parts_expr (tree : Tree) {id : ExprId} {expr : Expr} (isExpr : tree.exprs.get? id = some expr) :
    tree.parts (.expr id) = expr.form.parts := by
  simp [parts, isExpr]

/-- The constants of an enum are parts of it. -/
theorem const_mem_parts (tree : Tree) {const : DeclId} {consts : List DeclId}
    (isEnum : (tree.decls.get? id).bind Decl.consts? = some consts) (member : const ∈ consts) :
    .decl .enumConst const ∈ tree.parts (.decl .enum id) := by
  obtain ⟨decl, found, form⟩ := Option.bind_eq_some_iff.mp isEnum
  unfold Decl.consts? at form
  split at form
  · next isForm =>
    cases form
    simp [parts, found, Decl.parts, isForm, DeclForm.parts, member]
  · nomatch form

theorem classBody?_eq_some :
    tree.classBody? id = some body ↔
      ∃ decl, tree.decls.get? id = some decl ∧ decl.form = .classDecl body := by
  unfold classBody?
  rw [Option.bind_eq_some_iff]
  refine exists_congr fun decl => and_congr_right fun _ => ?_
  unfold Decl.classBody?
  constructor
  · intro isBody
    split at isBody
    · next isForm => exact isForm.trans (congrArg _ (Option.some.inj isBody))
    · nomatch isBody
  · intro isForm
    rw [isForm]

theorem mem_parts_of_callable? {callable : Callable}
    (isCallable : tree.callable? id = some callable) (member : node ∈ callable.parts)
    (kind : DeclKind) : node ∈ tree.parts (.decl kind id) := by
  obtain ⟨decl, found, form⟩ := Option.bind_eq_some_iff.mp isCallable
  unfold Decl.callable? at form
  split at form
  · next isForm =>
    cases form
    simp [parts, found, Decl.parts, isForm, DeclForm.parts, member]
  · next isForm =>
    cases form
    simp [parts, found, Decl.parts, isForm, DeclForm.parts, member]
  · nomatch form

theorem mem_parts_of_classBody? (isClass : tree.classBody? id = some body)
    (member : node ∈ body.parts) (kind : DeclKind) : node ∈ tree.parts (.decl kind id) := by
  obtain ⟨decl, found, form⟩ := Option.bind_eq_some_iff.mp isClass
  unfold Decl.classBody? at form
  split at form
  · next isForm =>
    cases form
    simp [parts, found, Decl.parts, isForm, DeclForm.parts, member]
  · nomatch form

/-- The methods that a class declares. -/
def methodsOf (tree : Tree) (id : DeclId) : List DeclId :=
  ((tree.classBody? id).map ClassBody.methods).getD []

theorem methodsOf_eq (isBody : tree.classBody? id = some body) :
    tree.methodsOf id = body.methods := by
  rw [methodsOf, isBody]
  rfl

theorem typeParamsOf_eq (isBody : tree.classBody? id = some body) :
    tree.typeParamsOf id = body.typeParams := by
  obtain ⟨decl, found, isForm⟩ := classBody?_eq_some.mp isBody
  simp only [typeParamsOf, found, Decl.typeParams, isForm]

/-- A node is there; a declaration is of the kind that is expected. -/
def Holds (tree : Tree) : Node → Prop
  | .unit id => (tree.units.get? id).isSome
  | .decl kind id => tree.kindOf? id = some kind
  | .stmt id => (tree.stmts.get? id).isSome
  | .expr id => (tree.exprs.get? id).isSome
  | .type id => (tree.types.get? id).isSome

end Tree

/-! ### Mentions -/

namespace Arena

variable {α : Type} (parts : α → List Node)
variable {arena : Arena α}

/-- How often the items of an arena have a node as a part. -/
def mentions (arena : Arena α) (node : Node) : Nat :=
  (arena.items.toList.flatMap parts).count node

@[simp]
theorem mentions_push (arena : Arena α) (item : α) (node : Node) :
    (arena.push item).mentions parts node =
      arena.mentions parts node + (parts item).count node := by
  simp [mentions, push, List.flatMap_append, List.count_append]

theorem count_flatMap_modify_le (items : List α) (index : Nat) (change : α → α) (node : Node)
    (extra : Nat) (grows : ∀ item, (parts (change item)).count node ≤
      (parts item).count node + extra) :
    ((items.modify index change).flatMap parts).count node ≤
      (items.flatMap parts).count node + extra := by
  induction items generalizing index with
  | nil => simp
  | cons item rest inductionHypothesis =>
    cases index with
    | zero =>
      simp only [List.modify_zero_cons, List.flatMap_cons, List.count_append]
      have := grows item
      omega
    | succ index =>
      simp only [List.modify_succ_cons, List.flatMap_cons, List.count_append]
      have := inductionHypothesis index
      omega

theorem mentions_modify_le (arena : Arena α) (id : Nat) (change : α → α) (node : Node)
    (extra : Nat) (grows : ∀ item, (parts (change item)).count node ≤
      (parts item).count node + extra) :
    (arena.modify id change).mentions parts node ≤ arena.mentions parts node + extra := by
  cases id with
  | zero => exact Nat.le_add_right ..
  | succ index =>
    simp only [mentions, modify, Array.toList_modify]
    exact count_flatMap_modify_le parts _ _ _ _ _ grows

theorem get?_next (arena : Arena α) : arena.get? arena.next = none := by
  cases found : arena.get? arena.next with
  | none => rfl
  | some item => exact absurd (get?_eq_some_le found).2 (Nat.not_succ_le_self _)

theorem isSome_get?_push {id : Nat} (item : α) (known : (arena.get? id).isSome) :
    ((arena.push item).get? id).isSome := by
  obtain ⟨old, found⟩ := Option.isSome_iff_exists.mp known
  rw [get?_push_of_some item found]
  rfl

/-- What holds of every item holds with one more, if it holds of that one. -/
theorem forall_push {item : α} {property : Nat → α → Prop}
    (old : ∀ id other, arena.get? id = some other → property id other)
    (new : property arena.next item) (id : Nat) (other : α)
    (found : (arena.push item).get? id = some other) : property id other := by
  by_cases same : id = arena.next
  · subst same
    rw [get?_push_self] at found
    exact Option.some.inj found ▸ new
  · rw [get?_push_other _ _ same] at found
    exact old id other found

theorem count_le_mentions {id : Nat} {item : α} (found : arena.get? id = some item) (node : Node) :
    (parts item).count node ≤ arena.mentions parts node := by
  have member : item ∈ arena.items.toList := by
    cases id with
    | zero => simp [get?] at found
    | succ index => exact Array.mem_toList_iff.mpr (Array.mem_of_getElem? found)
  exact (List.sublist_flatten_of_mem (List.mem_map_of_mem member)).count_le node

end Arena

/-- How often a node is a part of something. -/
def Tree.mentions (tree : Tree) (node : Node) : Nat :=
  tree.units.mentions ProgramUnit.parts node + tree.decls.mentions Decl.parts node +
    tree.stmts.mentions (fun stmt => stmt.form.parts) node +
    tree.exprs.mentions (fun expr => expr.form.parts) node +
    tree.types.mentions (fun type => type.form.parts) node

/-! ### Forests -/

/-- A forest in which some nodes are loose. -/
structure Tree.Forest (tree : Tree) (loose : List Node) : Prop where
  once : ∀ node, loose.count node + tree.mentions node ≤ 1
  present : ∀ node, 0 < loose.count node + tree.mentions node → tree.Holds node
  exprsBelow : ∀ id expr, tree.exprs.get? id = some expr →
    ∀ part, .expr part ∈ expr.form.parts → part < id
  stmtsBelow : ∀ id stmt, tree.stmts.get? id = some stmt →
    ∀ part, .stmt part ∈ stmt.form.parts → part < id
  typesBelow : ∀ id type, tree.types.get? id = some type →
    ∀ part, .type part ∈ type.form.parts → part < id
  /-- Only variables have initial values, and the name of such a variable is not empty. -/
  named : ∀ id decl, tree.decls.get? id = some decl → decl.init.isSome →
    decl.name ≠ 0 ∧ decl.kind.isVariable
  emptyName : tree.names.texts[0]? = some ""

namespace Tree

variable {tree after : Tree} {loose left : List Node}

/-- Only variables have initial values. -/
theorem Forest.init_eq_none (forest : tree.Forest loose) (isDecl : tree.decls.get? id = some decl)
    (other : decl.kind.isVariable = false) : decl.init = none := by
  cases init : decl.init with
  | none => rfl
  | some value =>
    have isVariable := (forest.named id decl isDecl (by rw [init]; rfl)).2
    rw [other] at isVariable
    nomatch isVariable

theorem Forest.loosen (forest : tree.Forest loose) (fewer : ∀ node, left.count node ≤ loose.count node) :
    tree.Forest left :=
  { forest with
    once := fun node => by
      have := forest.once node
      have := fewer node
      omega
    present := fun node mentioned => forest.present node (by
      have := fewer node
      omega) }

theorem forest_empty : ({} : Tree).Forest [] where
  once := fun _ => Nat.zero_le _
  present := fun _ mentioned => absurd mentioned (Nat.lt_irrefl 0)
  exprsBelow := fun id _ found => by cases id <;> simp [Arena.get?] at found
  stmtsBelow := fun id _ found => by cases id <;> simp [Arena.get?] at found
  typesBelow := fun id _ found => by cases id <;> simp [Arena.get?] at found
  named := fun id _ found => by cases id <;> simp [Arena.get?] at found
  emptyName := rfl

/-- Nothing is lost, every mention was there or was loose, and a new node is loose now. -/
structure Steps (tree after : Tree) (loose left : List Node) (new : Option Node) : Prop where
  keeps : ∀ node, tree.Holds node → after.Holds node
  isNew : ∀ node ∈ new, ¬tree.Holds node ∧ after.Holds node
  counts : ∀ node, left.count node + after.mentions node ≤
    new.toList.count node + (loose.count node + tree.mentions node)

theorem Forest.once_step (forest : tree.Forest loose) (steps : Steps tree after loose left new)
    (node : Node) : left.count node + after.mentions node ≤ 1 := by
  have bound := steps.counts node
  by_cases member : node ∈ new
  · have absent : loose.count node + tree.mentions node = 0 := Nat.eq_zero_of_not_pos fun mentioned =>
      (steps.isNew node member).1 (forest.present node mentioned)
    have single : new.toList.count node = 1 := by
      rw [Option.mem_def.mp member]
      simp
    omega
  · have := List.count_eq_zero.mpr fun among => member (Option.mem_toList.mp among)
    have := forest.once node
    omega

theorem Forest.present_step (forest : tree.Forest loose) (steps : Steps tree after loose left new)
    (node : Node) (mentioned : 0 < left.count node + after.mentions node) : after.Holds node := by
  have bound := steps.counts node
  by_cases member : node ∈ new
  · exact (steps.isNew node member).2
  · have := List.count_eq_zero.mpr fun among => member (Option.mem_toList.mp among)
    exact steps.keeps node (forest.present node (by omega))

/-! ### Nodes stay where they are -/

section

variable (holds : tree.Holds node)

include holds

theorem Holds.pushExpr (expr : Expr) :
    { tree with exprs := tree.exprs.push expr }.Holds node := by
  cases node with
  | expr id => exact Arena.isSome_get?_push expr holds
  | _ => exact holds

theorem Holds.pushStmt (stmt : Stmt) :
    { tree with stmts := tree.stmts.push stmt }.Holds node := by
  cases node with
  | stmt id => exact Arena.isSome_get?_push stmt holds
  | _ => exact holds

theorem Holds.pushType (type : TypeExpr) :
    { tree with types := tree.types.push type }.Holds node := by
  cases node with
  | type id => exact Arena.isSome_get?_push type holds
  | _ => exact holds

theorem Holds.pushDecl (decl : Decl) :
    { tree with decls := tree.decls.push decl }.Holds node := by
  cases node with
  | decl kind id =>
    obtain ⟨item, found, isKind⟩ := Option.map_eq_some_iff.mp (show tree.kindOf? id = _ from holds)
    exact Option.map_eq_some_iff.mpr ⟨item, Arena.get?_push_of_some decl found, isKind⟩
  | _ => exact holds

theorem Holds.pushUnit (unit : ProgramUnit) :
    { tree with units := tree.units.push unit }.Holds node := by
  cases node with
  | unit id => exact Arena.isSome_get?_push unit holds
  | _ => exact holds

theorem Holds.modifyDecl (id : DeclId)
    (kind : ∀ decl, (change decl).kind = decl.kind) :
    { tree with decls := tree.decls.modify id change }.Holds node := by
  cases node with
  | decl expected other =>
    have same : { tree with decls := tree.decls.modify id change }.kindOf? other =
        tree.kindOf? other := by
      simp only [kindOf?, Arena.get?_modify]
      split
      · cases tree.decls.get? other with
        | none => rfl
        | some decl => exact congrArg some (kind decl)
      · rfl
    exact same.trans holds
  | _ => exact holds

theorem Holds.modifyUnit (id : UnitId)
    (change : ProgramUnit → ProgramUnit) :
    { tree with units := tree.units.modify id change }.Holds node := by
  cases node with
  | unit other =>
    have same : ((tree.units.modify id change).get? other).isSome =
        (tree.units.get? other).isSome := by
      rw [Arena.get?_modify]
      split
      · exact Option.isSome_map
      · rfl
    exact same.trans holds
  | _ => exact holds

end

/-! ### New nodes -/

theorem Forest.holds_loose (forest : tree.Forest loose) (member : node ∈ loose) : tree.Holds node :=
  forest.present node (Nat.add_pos_left (List.count_pos_iff.mpr member) _)

theorem Forest.pushExpr {expr : Expr} (forest : tree.Forest (expr.form.parts ++ loose)) :
    { tree with exprs := tree.exprs.push expr }.Forest (.expr tree.exprs.next :: loose) := by
  have steps : Steps tree { tree with exprs := tree.exprs.push expr } (expr.form.parts ++ loose)
      (.expr tree.exprs.next :: loose) (some (.expr tree.exprs.next)) := by
    refine ⟨fun node holds => holds.pushExpr expr, ?_, fun node => ?_⟩
    · rintro _ ⟨⟩
      simp [Holds, Arena.get?_next]
    · simp only [mentions, Arena.mentions_push, List.count_append, List.count_cons, List.count_nil,
        Option.toList_some]
      omega
  refine { forest with
    once := forest.once_step steps
    present := forest.present_step steps
    exprsBelow := Arena.forall_push forest.exprsBelow fun part member => ?_ }
  exact Nat.lt_succ_of_le ((Arena.isSome_get?_iff _ _).mp
    (forest.holds_loose (List.mem_append_left loose member))).2

theorem Forest.pushStmt {stmt : Stmt} (forest : tree.Forest (stmt.form.parts ++ loose)) :
    { tree with stmts := tree.stmts.push stmt }.Forest (.stmt tree.stmts.next :: loose) := by
  have steps : Steps tree { tree with stmts := tree.stmts.push stmt } (stmt.form.parts ++ loose)
      (.stmt tree.stmts.next :: loose) (some (.stmt tree.stmts.next)) := by
    refine ⟨fun node holds => holds.pushStmt stmt, ?_, fun node => ?_⟩
    · rintro _ ⟨⟩
      simp [Holds, Arena.get?_next]
    · simp only [mentions, Arena.mentions_push, List.count_append, List.count_cons, List.count_nil,
        Option.toList_some]
      omega
  refine { forest with
    once := forest.once_step steps
    present := forest.present_step steps
    stmtsBelow := Arena.forall_push forest.stmtsBelow fun part member => ?_ }
  exact Nat.lt_succ_of_le ((Arena.isSome_get?_iff _ _).mp
    (forest.holds_loose (List.mem_append_left loose member))).2

theorem Forest.pushType {type : TypeExpr} (forest : tree.Forest (type.form.parts ++ loose)) :
    { tree with types := tree.types.push type }.Forest (.type tree.types.next :: loose) := by
  have steps : Steps tree { tree with types := tree.types.push type } (type.form.parts ++ loose)
      (.type tree.types.next :: loose) (some (.type tree.types.next)) := by
    refine ⟨fun node holds => holds.pushType type, ?_, fun node => ?_⟩
    · rintro _ ⟨⟩
      simp [Holds, Arena.get?_next]
    · simp only [mentions, Arena.mentions_push, List.count_append, List.count_cons, List.count_nil,
        Option.toList_some]
      omega
  refine { forest with
    once := forest.once_step steps
    present := forest.present_step steps
    typesBelow := Arena.forall_push forest.typesBelow fun part member => ?_ }
  exact Nat.lt_succ_of_le ((Arena.isSome_get?_iff _ _).mp
    (forest.holds_loose (List.mem_append_left loose member))).2

theorem Forest.pushDecl (forest : tree.Forest (decl.parts ++ loose))
    (named : decl.init.isSome → decl.name ≠ 0 ∧ decl.kind.isVariable) :
    { tree with decls := tree.decls.push decl }.Forest (.decl decl.kind tree.decls.next :: loose) := by
  have steps : Steps tree { tree with decls := tree.decls.push decl } (decl.parts ++ loose)
      (.decl decl.kind tree.decls.next :: loose) (some (.decl decl.kind tree.decls.next)) := by
    refine ⟨fun node holds => holds.pushDecl decl, ?_, fun node => ?_⟩
    · rintro _ ⟨⟩
      simp [Holds, kindOf?, Arena.get?_next]
    · simp only [mentions, Arena.mentions_push, List.count_append, List.count_cons, List.count_nil,
        Option.toList_some]
      omega
  exact { forest with
    once := forest.once_step steps
    present := forest.present_step steps
    named := Arena.forall_push forest.named named }

theorem Forest.pushUnit {unit : ProgramUnit} (forest : tree.Forest loose) (empty : unit.parts = []) :
    { tree with units := tree.units.push unit }.Forest loose := by
  have same (node : Node) : { tree with units := tree.units.push unit }.mentions node =
      tree.mentions node := by
    simp [mentions, empty]
  exact { forest with
    once := fun node => same node ▸ forest.once node
    present := fun node mentioned =>
      (forest.present node (same node ▸ mentioned)).pushUnit unit }

/-! ### Changed nodes -/

/-- A declaration may get more parts, if these were loose. -/
theorem Forest.modifyDecl (forest : tree.Forest (more ++ loose)) (id : DeclId)
    (kind : ∀ decl, (change decl).kind = decl.kind) (name : ∀ decl, (change decl).name = decl.name)
    (init : ∀ decl, (change decl).init = decl.init)
    (parts : ∀ decl node, (change decl).parts.count node ≤ decl.parts.count node + more.count node) :
    { tree with decls := tree.decls.modify id change }.Forest loose := by
  have steps : Steps tree { tree with decls := tree.decls.modify id change } (more ++ loose) loose
      none := by
    refine ⟨fun node holds => holds.modifyDecl id kind, nofun, fun node => ?_⟩
    · have := Arena.mentions_modify_le Decl.parts tree.decls id change node (more.count node)
        fun decl => parts decl node
      simp only [mentions, List.count_append, List.count_nil, Option.toList_none]
      omega
  refine { forest with
    once := forest.once_step steps
    present := forest.present_step steps
    named := fun other decl found hasInit => ?_ }
  rw [Arena.get?_modify] at found
  split at found
  · obtain ⟨old, there, rfl⟩ := Option.map_eq_some_iff.mp found
    rw [name, kind]
    exact forest.named other old there (init old ▸ hasInit)
  · exact forest.named other decl found hasInit

/-- A unit may get more parts, if these were loose. -/
theorem Forest.modifyUnit (forest : tree.Forest (more ++ loose)) (id : UnitId)
    {change : ProgramUnit → ProgramUnit}
    (parts : ∀ unit node, (change unit).parts.count node ≤ unit.parts.count node + more.count node) :
    { tree with units := tree.units.modify id change }.Forest loose := by
  have steps : Steps tree { tree with units := tree.units.modify id change } (more ++ loose) loose
      none := by
    refine ⟨fun node holds => holds.modifyUnit id change, nofun, fun node => ?_⟩
    have := Arena.mentions_modify_le ProgramUnit.parts tree.units id change node (more.count node)
      fun unit => parts unit node
    simp only [mentions, List.count_append, List.count_nil, Option.toList_none]
    omega
  exact { forest with
    once := forest.once_step steps
    present := forest.present_step steps }

end Tree

end TreeCheck

namespace TreeCheck

/-! ### Initial values

The constants of an enum and the counters of loops have none: a document cannot give them one, and
what the loader does to a declaration later, attaching it to its owner, leaves its initial value alone.
A walk that passes them by therefore misses nothing. -/

/-- Neither constants of enums nor counters of loops have initial values. -/
structure Tree.Bare (tree : Tree) : Prop where
  consts : ∀ {id decl}, tree.decls.get? id = some decl → decl.kind = .enumConst → decl.init = none
  counters : ∀ {id stmt counter first last body}, tree.stmts.get? id = some stmt →
    stmt.form = .forLoop counter first last body →
      ∃ decl, tree.decls.get? counter = some decl ∧ decl.init = none

/-- A declaration is there, and has no initial value. -/
def Tree.Unset (tree : Tree) (id : DeclId) : Prop :=
  ∃ decl, tree.decls.get? id = some decl ∧ decl.init = none

/-- Nodes stay where they are, declarations keep their initial values, and no constant or counter
gets one. -/
structure Tree.Keeps (before after : Tree) : Prop where
  holds : ∀ node, before.Holds node → after.Holds node
  inits : ∀ {id decl}, before.decls.get? id = some decl →
    ∃ later, after.decls.get? id = some later ∧ later.init = decl.init
  bare : before.Bare → after.Bare

namespace Tree.Keeps

variable {before middle after : Tree}

theorem refl (tree : Tree) : tree.Keeps tree := ⟨fun _ => id, fun found => ⟨_, found, rfl⟩, id⟩

theorem trans (first : before.Keeps middle) (second : middle.Keeps after) : before.Keeps after := by
  refine ⟨fun node holds => second.holds node (first.holds node holds), fun found => ?_,
    fun bare => second.bare (first.bare bare)⟩
  obtain ⟨later, there, same⟩ := first.inits found
  obtain ⟨final, there', same'⟩ := second.inits there
  exact ⟨final, there', same'.trans same⟩

theorem unset (keeps : before.Keeps after) {id : DeclId} (unset : before.Unset id) :
    after.Unset id := by
  obtain ⟨decl, found, isNone⟩ := unset
  obtain ⟨later, there, same⟩ := keeps.inits found
  exact ⟨later, there, same.trans isNone⟩

/-- A change of neither declarations nor statements. -/
theorem of_eq (holds : ∀ node, before.Holds node → after.Holds node)
    (decls : after.decls = before.decls) (stmts : after.stmts = before.stmts) :
    before.Keeps after := by
  refine ⟨holds, fun found => ⟨_, decls ▸ found, rfl⟩, fun bare =>
    ⟨fun found => ?_, fun found form => ?_⟩⟩
  · rw [decls] at found
    exact bare.consts found
  · rw [stmts] at found
    rw [decls]
    exact bare.counters found form

/-- A declaration is added, which has no initial value if it is a constant. -/
theorem pushDecl (tree : Tree) {decl : Decl} (plain : decl.kind = .enumConst → decl.init = none) :
    tree.Keeps { tree with decls := tree.decls.push decl } := by
  refine ⟨fun _ holds => holds.pushDecl decl,
    fun found => ⟨_, Arena.get?_push_of_some decl found, rfl⟩, fun bare => ⟨?_, ?_⟩⟩
  · have each := @Arena.forall_push _ tree.decls decl
      (fun _ other => other.kind = .enumConst → other.init = none)
      (fun _ _ found => bare.consts found) plain
    exact fun {id other} => each id other
  · intro id stmt counter first last body found form
    obtain ⟨old, there, unset⟩ := bare.counters found form
    exact ⟨old, Arena.get?_push_of_some decl there, unset⟩

/-- A statement is added; if it is a loop, its counter has no initial value. -/
theorem pushStmt (tree : Tree) {stmt : Stmt}
    (plain : ∀ counter first last body, stmt.form = .forLoop counter first last body →
      tree.Unset counter) : tree.Keeps { tree with stmts := tree.stmts.push stmt } := by
  refine ⟨fun _ holds => holds.pushStmt stmt, fun found => ⟨_, found, rfl⟩,
    fun bare => ⟨bare.consts, ?_⟩⟩
  have each := @Arena.forall_push _ tree.stmts stmt
    (fun _ other => ∀ counter first last body, other.form = .forLoop counter first last body →
      tree.Unset counter)
    (fun _ _ found _ _ _ _ form => bare.counters found form) plain
  exact fun {id other _ _ _ _} found form => each id other found _ _ _ _ form

/-- A declaration is changed in other ways. -/
theorem modifyDecl (tree : Tree) (id : DeclId) {change : Decl → Decl}
    (kind : ∀ decl, (change decl).kind = decl.kind) (init : ∀ decl, (change decl).init = decl.init) :
    tree.Keeps { tree with decls := tree.decls.modify id change } := by
  have kept {other : DeclId} {decl : Decl} (found : tree.decls.get? other = some decl) :
      ∃ later, (tree.decls.modify id change).get? other = some later ∧ later.init = decl.init := by
    rw [Arena.get?_modify, found]
    split
    · exact ⟨_, rfl, init decl⟩
    · exact ⟨_, rfl, rfl⟩
  refine ⟨fun _ holds => holds.modifyDecl id kind, kept,
    fun bare => ⟨fun {other decl} found isConst => ?_, fun found form => ?_⟩⟩
  · rw [Arena.get?_modify] at found
    split at found
    · obtain ⟨old, there, rfl⟩ := Option.map_eq_some_iff.mp found
      rw [init]
      exact bare.consts there (by rw [← kind]; exact isConst)
    · exact bare.consts found isConst
  · obtain ⟨old, there, unset⟩ := bare.counters found form
    obtain ⟨later, there', same⟩ := kept there
    exact ⟨later, there', same.trans unset⟩

end Tree.Keeps

end TreeCheck
