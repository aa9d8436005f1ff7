/-
The rules on what is used and assigned: a member that is not public is reached from
outside its class only through `this`, a callable calls itself only if it is marked for
it, an abstract class has no objects, a constant is not assigned, and a pure callable
should not assign to globals or to parameters that are not marked for it.
-/

import TreeCheck.Resolve.Exprs
import TreeCheck.Rules.Classes

namespace TreeCheck.Rules

open AnalysisM

/-! ### What expressions reach -/

/-- What an expression reaches: what type checking chose, or else what resolution found. -/
def target? (state : Analysis) (id : ExprId) : Option DeclId :=
  state.typing.targets[id]?.or state.names.uses[id]?

/-- The variable that an assignment to a name or field writes. -/
def assigned? (tree : Tree) (state : Analysis) (target : ExprId) : Option DeclId :=
  match (tree.exprs.get? target).map Expr.form with
  | some (.name _) | some (.field _ _) => target? state target
  | _ => none

def rootWithin (tree : Tree) (state : Analysis) : Nat → ExprId → Option DeclId
  | 0, _ => none
  | fuel + 1, target =>
    match (tree.exprs.get? target).map Expr.form with
    | some (.name _) => state.names.uses[target]?
    | some (.field receiver _) =>
      match (target? state target).filter fun id => tree.kindOf? id = some .enumConst with
      | some const => some const
      | none => rootWithin tree state fuel receiver
    | some (.index inner _) => rootWithin tree state fuel inner
    | _ => none

/-- The variable that a place belongs to: fields and indices are followed down to it. -/
def root? (tree : Tree) (state : Analysis) (target : ExprId) : Option DeclId :=
  rootWithin tree state (tree.exprs.size + 1) target

/-! ### Checks -/

/-- A field or method that is not public is reached through `this` or from its own class. -/
def checkAccess (tree : Tree) (place : Place) (receiver : ExprId) (member : Option DeclId)
    (span : Span) : AnalysisM Unit := do
  match member, member.bind tree.decls.get? with
  | some id, some decl =>
    if decl.kind ≠ .field ∧ decl.kind ≠ .method then return
    if tree.isThis receiver then return
    if decl.owner = place.enclosing ∨ decl.mods.has .isPublic then return
    let name := tree.nameOf id
    let owner := (decl.owner.map tree.nameOf).getD ""
    report <| ((Diagnostic.error .privateAccess span [name, owner]).withHint .makePublic
      [name]).withNote decl.span "declared here"
  | _, _ => return

/-- A callable that calls itself is marked for it. -/
def checkRecursion (tree : Tree) (place : Place) (callee : Option DeclId) (span : Span) :
    AnalysisM Unit := do
  match place.callable with
  | none => return
  | some callable =>
    if callee ≠ some callable ∨ (modsOf tree callable).has .recursive then return
    let name := tree.nameOf callable
    report ((Diagnostic.error .recursion span [name]).withHint .addRec [name])

/-- An abstract class has no objects. -/
def checkCreation (tree : Tree) (created : TypeExprId) (span : Span) : AnalysisM Unit := do
  match (← get).names.typeRefs[created]? with
  | none => return
  | some id =>
    if tree.kindOf? id = some .classDecl ∧ (modsOf tree id).has .isAbstract then
      error .abstractInstantiation span [tree.nameOf id]

/-- Constants of enums, and globals that are marked as constant. -/
def isConstant (decl : Decl) : Bool :=
  decl.kind = .enumConst || (decl.kind = .global && decl.mods.has .const)

/-- A pure callable should not assign to a global, or to a parameter without the mark. -/
def checkPurity (tree : Tree) (place : Place) (target : ExprId) (span : Span) :
    AnalysisM Unit := do
  match place.callable with
  | none => return
  | some callable =>
    if !(modsOf tree callable).has .pure then return
    let root := root? tree (← get) target
    match root, root.bind tree.decls.get? with
    | some id, some decl =>
      let name := tree.nameOf id
      let complaint := Diagnostic.warning .pureSideEffect span [tree.nameOf callable, name]
      if decl.kind = .param ∧ !decl.mods.has .input then report (complaint.withHint .markIn [name])
      else if decl.kind = .global then report complaint
    | _, _ => return

/-- Checks what an assignment writes. -/
def checkAssign (tree : Tree) (place : Place) (target : ExprId) (span : Span) :
    AnalysisM Unit := do
  let written := assigned? tree (← get) target
  match written, (written.bind tree.decls.get?).filter isConstant with
  | some id, some decl =>
    report <| (Diagnostic.error .constAssign span [tree.nameOf id]).withNote decl.span
      "declared here"
  | _, _ => checkPurity tree place target span

/-! ### Walks -/

def exprWithin (tree : Tree) (place : Place) : Nat → ExprId → AnalysisM Unit
  | 0, _ => return
  | fuel + 1, id => do
    let inner := exprWithin tree place fuel
    match tree.exprs.get? id with
    | none => return
    | some expr =>
      match expr.form with
      | .literal _ _ | .name _ | .this => return
      | .field receiver _ =>
        inner receiver
        checkAccess tree place receiver (target? (← get) id) expr.span
      | .index target indices =>
        inner target
        indices.forM inner
      | .call _ _ args =>
        args.forM inner
        checkRecursion tree place (target? (← get) id) expr.span
      | .methodCall receiver _ args =>
        inner receiver
        args.forM inner
        let callee := target? (← get) id
        checkAccess tree place receiver callee expr.span
        checkRecursion tree place callee expr.span
      | .binary _ left right =>
        inner left
        inner right
      | .unary _ operand => inner operand
      | .cast _ operand => inner operand
      | .create created inits =>
        checkCreation tree created expr.span
        inits.forM fun init => inner init.value
      | .list _ elems => elems.forM inner
      | .tuple elems => elems.forM inner

/-- Checks an expression. Its parts have smaller numbers, so none nests deeper than there are
expressions. -/
def expr (tree : Tree) (place : Place) (id : ExprId) : AnalysisM Unit :=
  exprWithin tree place (tree.exprs.size + 1) id

/-- Checks the initial value of a variable. -/
def initialValue (tree : Tree) (place : Place) (id : DeclId) : AnalysisM Unit :=
  ((tree.decls.get? id).bind Decl.init).forM (expr tree place)

def stmtWithin (tree : Tree) (place : Place) : Nat → StmtId → AnalysisM Unit
  | 0, _ => return
  | fuel + 1, id => do
    let inner := stmtWithin tree place fuel
    match tree.stmts.get? id with
    | none => return
    | some stmt =>
      match stmt.form with
      | .block stmts =>
        stmts.forM fun
          | some child => inner child
          | none => pure ()
      | .decl decl => initialValue tree place decl
      | .expr value => expr tree place value
      | .assign target value =>
        checkAssign tree place target stmt.span
        expr tree place target
        expr tree place value
      | .branch cond thenBranch elseBranch =>
        expr tree place cond
        inner thenBranch
        elseBranch.forM inner
      | .whileLoop cond body =>
        expr tree place cond
        inner body
      | .forLoop _ first last body =>
        expr tree place first
        expr tree place last
        inner body
      | .case subject arms default =>
        expr tree place subject
        arms.forM fun arm => do
          arm.values.forM (expr tree place)
          inner arm.body
        default.forM inner
      | .ret value => value.forM (expr tree place)

/-- Checks a statement. Its parts have smaller numbers, so none nests deeper than there are
statements. -/
def stmt (tree : Tree) (place : Place) (id : StmtId) : AnalysisM Unit :=
  stmtWithin tree place (tree.stmts.size + 1) id

def callable (tree : Tree) (place : Place) (id : DeclId) : AnalysisM Unit := do
  match tree.callable? id with
  | none => return
  | some callable =>
    let place := { place with callable := some id }
    callable.params.forM (initialValue tree place)
    callable.body.forM (stmt tree place)

/-! ### Units -/

/-- Checks a declaration at the top level. -/
def decl (tree : Tree) (id : DeclId) : AnalysisM Unit := do
  let place : Place := {}
  match tree.kindOf? id with
  | some .global => initialValue tree place id
  | some .classDecl =>
    checkClass tree id
    match tree.classBody? id with
    | none => return
    | some body =>
      let place := { place with enclosing := some id }
      body.fields.forM (initialValue tree place)
      body.methods.forM (callable tree place)
  | some .function => callable tree place id
  | _ => return

/-- Checks a unit, under a span of the trace. -/
def unit (tree : Tree) (parent : Nat) (id : UnitId) : AnalysisM Unit := do
  match tree.units.get? id with
  | none => return
  | some unit =>
    spanned .module "modifiers_unit" parent [] fun _ => do
      unit.topLevel.forM (decl tree)
      unit.stmts.forM (stmt tree {})

/-- Checks every unit that was resolved. -/
def program (tree : Tree) (parent : Nat) : AnalysisM Unit := do
  (← get).names.unitOrder.forM (unit tree parent)

end TreeCheck.Rules
