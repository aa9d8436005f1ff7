/-
Type checking of variables and statements.
-/

import TreeCheck.Resolve.Stmts
import TreeCheck.Typing.Exprs

namespace TreeCheck.TypeCheck

open AnalysisM

/-- Runs an action in a scope that resolution opened, if it opened one. -/
def inScope {α : Type} (scope : Option ScopeId) (action : AnalysisM α) : AnalysisM α :=
  match scope with
  | some scope => within scope action
  | none => action

def recordDecl (id : DeclId) (type : TypeId) : AnalysisM Unit :=
  modifyTyping fun typing => { typing with declTypes := typing.declTypes.insert id type }

/-! ### Variables -/

/-- The type of a variable with an initial value, which has to fit the declared type if there
is one. -/
def initializedType (tree : Tree) (place : Place) (decl : Decl) (init : ExprId) :
    AnalysisM TypeId := do
  let declared ← typeOf tree decl.type
  let value ← expr tree place init declared
  if decl.type.isNone then return value
  if !(← compatible declared value) then
    report <| (Diagnostic.error .mismatchAssign (tree.exprSpan init)
      [← label declared, ← label value]).withNote decl.span "declared here"
  return declared

/-- Checks a variable. Without a declared type it has the type of its initial value. -/
def checkVariable (tree : Tree) (place : Place) (id : DeclId) : AnalysisM Unit := do
  match tree.decls.get? id with
  | none => return
  | some decl =>
    match decl.init, decl.type with
    | some init, _ => recordDecl id (← initializedType tree place decl init)
    | none, some written => recordDecl id (← typeOf tree (some written))
    | none, none => return

/-! ### Statements -/

def checkCondition (tree : Tree) (place : Place) (cond : ExprId) : AnalysisM Unit := do
  let type ← expr tree place cond TypeId.bool
  if type ≠ 0 ∧ (← kindOf type) ≠ .bool then
    error .conditionNotBool (tree.exprSpan cond) [← label type]

/-- Whether an expression may stand on the left of an assignment. One that was not resolved has
been reported and may. -/
def assignable (tree : Tree) (id : ExprId) : AnalysisM Bool := do
  match (tree.exprs.get? id).map Expr.form with
  | some (.name _) | some (.field _ _) =>
    let state ← get
    match state.names.uses[id]?.or state.typing.targets[id]? with
    | some decl => return ((tree.kindOf? decl).map DeclKind.isVariable).getD false
    | none => return true
  | some (.index _ _) => return true
  | _ => return false

def checkAssign (tree : Tree) (place : Place) (target value : ExprId) : AnalysisM Unit := do
  let targetType ← expr tree place target 0
  let valueType ← expr tree place value targetType
  if !(← assignable tree target) then error .notAssignable (tree.exprSpan target) []
  else if !(← compatible targetType valueType) then
    error .mismatchAssign (tree.exprSpan value) [← label targetType, ← label valueType]

/-- A return, which outside of callables may give anything. -/
def checkReturn (tree : Tree) (place : Place) (span : Span) (value : Option ExprId) :
    AnalysisM Unit := do
  match place.callable with
  | none => value.forM fun value => discard (expr tree place value 0)
  | some callable =>
    let result ← declType tree callable
    let name := tree.nameOf callable
    let isVoid := (← kindOf result) = .void
    match value with
    | none => if result ≠ 0 ∧ ¬ isVoid then error .returnValueMissing span [name, ← label result]
    | some value =>
      let type ← expr tree place value result
      if isVoid then error .voidReturnValue (tree.exprSpan value) [name]
      else if !(← compatible result type) then
        error .mismatchReturn (tree.exprSpan value) [← label result, ← label type]

/-- Checks a value of an arm against the subject of its case statement. -/
def checkCaseValue (tree : Tree) (place : Place) (subject : TypeId) (value : ExprId) :
    AnalysisM Unit := do
  let type ← expr tree place value subject
  if !(← compatible subject type) then
    error .caseValue (tree.exprSpan value) [← label subject, ← label type]

/-- The variable of a loop over a range is an integer unless its type is declared. -/
def checkCounter (tree : Tree) (place : Place) (counter : DeclId) : AnalysisM Unit := do
  checkVariable tree place counter
  if !(← get).typing.declTypes.contains counter then recordDecl counter TypeId.int

/-- Checks a branch, loop or arm in the scope opened for it; a block enters its scope itself. -/
def inOwnScope (tree : Tree) (check : StmtId → AnalysisM Unit) (id : StmtId) :
    AnalysisM Unit := do
  match tree.stmts.get? id with
  | none => return
  | some stmt =>
    match stmt.form with
    | .block _ => check id
    | _ => inScope (← get).names.scopeOfStmt[id]? (check id)

def stmtWithin (tree : Tree) (place : Place) : Nat → StmtId → AnalysisM Unit
  | 0, _ => return
  | fuel + 1, id => do
    let inner := stmtWithin tree place fuel
    match tree.stmts.get? id with
    | none => return
    | some stmt =>
      match stmt.form with
      | .block stmts =>
        inScope (← get).names.scopeOfStmt[id]? do
          stmts.forM fun
            | some child => inner child
            | none => pure ()
      | .decl decl => checkVariable tree place decl
      | .expr value => discard (expr tree place value 0)
      | .assign target value => checkAssign tree place target value
      | .branch cond thenBranch elseBranch =>
        checkCondition tree place cond
        inOwnScope tree inner thenBranch
        elseBranch.forM (inOwnScope tree inner)
      | .whileLoop cond body =>
        checkCondition tree place cond
        inOwnScope tree inner body
      | .forLoop counter first last body =>
        checkInt tree (expr tree place) .loopBound first
        checkInt tree (expr tree place) .loopBound last
        inScope (← get).names.scopeOfStmt[id]? do
          checkCounter tree place counter
          inOwnScope tree inner body
      | .case subject arms default =>
        let subjectType ← expr tree place subject 0
        arms.forM fun arm => do
          arm.values.forM (checkCaseValue tree place subjectType)
          inOwnScope tree inner arm.body
        default.forM (inOwnScope tree inner)
      | .ret value => checkReturn tree place stmt.span value

/-- Checks a statement. Its parts have smaller numbers, so none nests deeper than there are
statements. -/
def stmt (tree : Tree) (place : Place) (id : StmtId) : AnalysisM Unit :=
  stmtWithin tree place (tree.stmts.size + 1) id

/-! ### Returns -/

def returnsWithin (tree : Tree) : Nat → StmtId → Bool
  | 0, _ => false
  | fuel + 1, id =>
    match (tree.stmts.get? id).map Stmt.form with
    | some (.ret _) => true
    | some (.block stmts) =>
      stmts.any fun
        | some child => returnsWithin tree fuel child
        | none => false
    | _ => false

/-- Whether a statement returns for certain: it is a return, or a block that holds one.
Branches and loops never count, even if all of them return. -/
def returns (tree : Tree) (id : StmtId) : Bool := returnsWithin tree (tree.stmts.size + 1) id

end TreeCheck.TypeCheck
