/-
Resolution of whole units. Imported units come first; then the names that may be used
before they are declared are bound (enums, classes, signatures), then globals are
declared in order, classes are walked bases first, and bodies last. An interactive
session resolves one declaration or statement at a time.
-/

import TreeCheck.Resolve.Decls

namespace TreeCheck.Resolve

open AnalysisM

/-! ### Units -/

/-- The global scope of a unit, a new one on first use. -/
def ensureGlobal (tree : Tree) (unit : UnitId) : AnalysisM ScopeId := do
  match (← get).names.units[unit]? with
  | some scope => return scope
  | none =>
    let span := ((tree.units.get? unit).map ProgramUnit.span).getD {}
    let (scope, table) := (← scopes).newRoot unit span
    modifyNames fun names => { names with scopes := table, units := names.units.insert unit scope }
    return scope

def setProgress (unit : UnitId) (progress : UnitProgress) : AnalysisM Unit :=
  modify fun state => { state with progress := state.progress.insert unit progress }

/-- Marks a unit as done and puts it behind those done before. -/
def finishUnit (unit : UnitId) : AnalysisM Unit := do
  setProgress unit .done
  modifyNames fun names => { names with unitOrder := names.unitOrder ++ [unit] }

/-- Resolves an import: the imported unit is resolved, and its global scope put at the end of
the import chain. -/
def importUnit (tree : Tree) (resolveUnit : UnitId → AnalysisM ScopeId) (unit : UnitId)
    (id : DeclId) : AnalysisM Unit := do
  match tree.decls.get? id with
  | some { form := .importDecl path target, span, .. } =>
    modifyNames fun names =>
      { names with declScope := names.declScope.insert id names.scopes.current }
    match target.filter fun target => (tree.units.get? target).isSome with
    | none => error .unresolvedImport span [path]
    | some target =>
      if target = unit ∨ (← get).progress[target]? = some .visiting then
        error .importCycle span [path]
      else
        let imported ← resolveUnit target
        modifyNames fun names =>
          match names.scopes.attachImport? (names.units.getD unit 0) imported with
          | some (_, table) => { names with scopes := table }
          | none => names
  | _ => return

/-- Declares what may be used before its place in a unit, and the globals in order. -/
def unitDeclarations (tree : Tree) (unit : ProgramUnit) : AnalysisM Unit := do
  let place : Place := {}
  unit.enums.forM (declareEnum tree place)
  unit.classes.forM (bindName tree)
  unit.functions.forM (declareCallable tree)
  unit.main.forM (declareCallable tree)
  unit.globals.forM (declareVariable tree place)

/-- Resolves the classes of a unit, bases first. -/
def unitClasses (tree : Tree) (unit : ProgramUnit) : AnalysisM Unit := do
  (← classOrder tree unit.classes).forM (resolveClass tree {})

/-- Resolves the functions, the entry point and the statements of a unit. -/
def unitBodies (tree : Tree) (unit : ProgramUnit) : AnalysisM Unit := do
  let place : Place := {}
  unit.functions.forM (callableBody tree place)
  unit.main.forM (callableBody tree place)
  unit.stmts.forM (stmt tree place)

/-- Resolves everything in a unit whose global scope is current. -/
def unitContents (tree : Tree) (resolveUnit : UnitId → AnalysisM ScopeId) (id : UnitId)
    (unit : ProgramUnit) : AnalysisM Unit := do
  unit.imports.forM (importUnit tree resolveUnit id)
  unitDeclarations tree unit
  unitClasses tree unit
  unitBodies tree unit

/-- Resolves a unit once; its global scope. -/
def unitWithin (tree : Tree) : Nat → UnitId → AnalysisM ScopeId
  | 0, _ => return 0
  | fuel + 1, id => do
    if ((← get).progress[id]?).isSome then return (← get).names.units.getD id 0
    match tree.units.get? id with
    | none => return 0
    | some unit =>
      setProgress id .visiting
      let global ← ensureGlobal tree id
      within global do
        unitContents tree (unitWithin tree fuel) id unit
        finishUnit id
      return global

/-- Resolves a unit and the units it imports. Units that wait for an import are all different,
so no more wait than there are. -/
def unit (tree : Tree) (id : UnitId) : AnalysisM ScopeId :=
  unitWithin tree (tree.units.size + 1) id

/-! ### Programs -/

/-- The invariants of the scope table, checked after the fact; a violation is no fault of the
program and is shown as an information. -/
def validate (tree : Tree) (root : UnitId) : AnalysisM Unit := do
  match (← scopes).faults with
  | [] => return
  | faults =>
    let span := ((tree.units.get? root).map ProgramUnit.span).getD {}
    let lines := Text.join "\n" (faults.map ScopeFault.message)
    report <| ({ severity := .info, code := .scopeInfo, span } : Diagnostic).withNote span
      s!"scope table invariant violation: {lines}"

/-- Resolves a program from its root unit. -/
def program (tree : Tree) (root : UnitId) (checked : Bool) : AnalysisM Unit := do
  discard (unit tree root)
  if checked then validate tree root

/-! ### Submissions -/

/-- Runs an action in the global scope of an interactive unit. -/
def atTopLevel (tree : Tree) (unit : UnitId) (action : AnalysisM Unit) : AnalysisM Unit := do
  let global ← ensureGlobal tree unit
  if (← get).progress[unit]? ≠ some .done then finishUnit unit
  within global action

/-- Resolves one declaration in the context of everything submitted before. -/
def submitDecl (tree : Tree) (unitId : UnitId) (id : DeclId) : AnalysisM Unit := do
  let place : Place := {}
  match tree.kindOf? id with
  | none => return
  | some kind =>
    atTopLevel tree unitId do
      match kind with
      | .importDecl => importUnit tree (unit tree) unitId id
      | .enum => declareEnum tree place id
      | .global => declareVariable tree place id
      | .classDecl =>
        bindName tree id
        modifyNames fun names => { names with order := names.order ++ [id] }
        resolveClass tree place id
      | .function =>
        declareCallable tree id
        callableBody tree place id
      | _ => return

/-- Resolves one statement at the top level; a variable it declares is bound in the global
scope. -/
def submitStmt (tree : Tree) (unit : UnitId) (id : StmtId) : AnalysisM Unit := do
  if (tree.stmts.get? id).isNone then return
  atTopLevel tree unit (stmt tree {} id)

end TreeCheck.Resolve
