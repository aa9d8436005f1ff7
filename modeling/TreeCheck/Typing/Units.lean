/-
Type checking of callables, classes and units. Units are checked in the order in which
they were resolved, classes bases first.
-/

import TreeCheck.Typing.Stmts

namespace TreeCheck.TypeCheck

open AnalysisM

/-! ### Declarations -/

def checkEnum (tree : Tree) (id : DeclId) : AnalysisM Unit := do
  discard (nominal tree id)
  match (tree.decls.get? id).bind Decl.consts? with
  | some consts => consts.forM fun const => discard (declType tree const)
  | none => return

/-- Checks the statements of a body; whether one of them returns for certain. -/
def checkBody (tree : Tree) (place : Place) (stmts : List (Option StmtId)) : AnalysisM Bool :=
  stmts.foldlM
    (fun returned child => do
      match child with
      | none => return returned
      | some child =>
        stmt tree place child
        return returned || returns tree child)
    false

/-- Checks a callable. One with a result has to return directly in its body. -/
def checkCallable (tree : Tree) (place : Place) (id : DeclId) : AnalysisM Unit := do
  match tree.decls.get? id, tree.callable? id with
  | some decl, some callable =>
    inScope (← get).names.scopeOfDecl[id]? do
      let place := { place with callable := some id }
      callable.typeParams.forM fun param => discard (nominal tree param)
      callable.params.forM (checkVariable tree place)
      let result ← declType tree id
      match callable.body with
      | none => return
      | some body =>
        let returned ← checkBody tree place (Resolve.bodyStmts tree body)
        modifyTyping fun typing => { typing with returns := typing.returns.insert id returned }
        if !returned ∧ result ≠ 0 ∧ (← kindOf result) ≠ .void then
          let name := tree.text decl.name
          report <| (Diagnostic.error .missingReturn decl.span [name, ← label result]).withHint
            .addReturn [name]
  | _, _ => return

def checkClass (tree : Tree) (place : Place) (id : DeclId) : AnalysisM Unit := do
  match tree.classBody? id with
  | none => return
  | some body =>
    discard (nominal tree id)
    spanned .node "typecheck_class" place.span [("class", tree.nameOf id)] fun _ => do
      inScope (← get).names.scopeOfDecl[id]? do
        let place := { place with enclosing := some id, callable := none }
        body.fields.forM (checkVariable tree place)
        body.methods.forM fun method => discard (declType tree method)
        body.methods.forM (checkCallable tree place)

/-! ### Units -/

/-- The classes of a unit in the order of resolution, each once. -/
def unitClasses (order classes : List DeclId) : List DeclId :=
  (order.filter (· ∈ classes)).foldl
    (fun placed id => if id ∈ placed then placed else placed ++ [id]) []

/-- Checks a unit, under a span of the trace. -/
def unit (tree : Tree) (parent : Nat) (id : UnitId) : AnalysisM Unit := do
  match tree.units.get? id with
  | none => return
  | some unit =>
    spanned .module "typecheck_unit" parent [("unit", s!"unit {id}")] fun span => do
      inScope (← get).names.units[id]? do
        let place : Place := { span }
        unit.enums.forM (checkEnum tree)
        unit.globals.forM (checkVariable tree place)
        (unitClasses (← get).names.order unit.classes).forM (checkClass tree place)
        unit.functions.forM (checkCallable tree place)
        unit.main.forM (checkCallable tree place)
        unit.stmts.forM (stmt tree place)

/-- Checks every unit that was resolved. -/
def program (tree : Tree) (parent : Nat) : AnalysisM Unit := do
  (← get).names.unitOrder.forM (unit tree parent)

/-! ### Submissions -/

/-- Checks one declaration of an interactive unit. -/
def submitDecl (tree : Tree) (unit : UnitId) (id : DeclId) : AnalysisM Unit := do
  let place : Place := {}
  inScope (← get).names.units[unit]? do
    match tree.kindOf? id with
    | some .enum => checkEnum tree id
    | some .global => checkVariable tree place id
    | some .classDecl => checkClass tree place id
    | some .function => checkCallable tree place id
    | _ => return

/-- Checks one statement at the top level of an interactive unit. -/
def submitStmt (tree : Tree) (unit : UnitId) (id : StmtId) : AnalysisM Unit := do
  inScope (← get).names.units[unit]? (stmt tree {} id)

end TreeCheck.TypeCheck
