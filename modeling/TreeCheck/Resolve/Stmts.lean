/-
Resolution of variables and statements. The initial value of a variable is walked
before its name is bound. Blocks, branches, loops and arms have scopes of their own.
-/

import TreeCheck.Resolve.Exprs

namespace TreeCheck

/-- Declarations that a local variable, parameter or field of the same name would hide. -/
def DeclKind.isHideable : DeclKind → Bool
  | .classDecl | .enum | .global | .enumConst => true
  | _ => false

/-- Variables that must not hide a declaration. -/
def DeclKind.mayHide : DeclKind → Bool
  | .localVar | .param | .field => true
  | _ => false

namespace Resolve

open AnalysisM

/-! ### Binding -/

/-- The span of a declaration that is known to exist. -/
def spanOf (tree : Tree) (id : DeclId) : Span := ((tree.decls.get? id).map Decl.span).getD {}

/-- Binds a declaration in the current scope, or reports that its key is taken. -/
def bind (tree : Tree) (key : Key) (id : DeclId) : AnalysisM Unit := do
  let table ← scopes
  match table.bind key id with
  | .ok bound =>
    modifyNames fun names =>
      { names with
        scopes := bound
        declScope := names.declScope.insert id table.current
        keys := names.keys.insert id key }
  | .error failure =>
    let complaint := Diagnostic.error .redeclared (spanOf tree id) [key.text]
    match failure with
    | .alreadyBound _ existing =>
      report (complaint.withNote (spanOf tree existing) "first declared here")
    | .noScope _ => report complaint

def bindName (tree : Tree) (id : DeclId) : AnalysisM Unit :=
  bind tree (.ofName (tree.nameOf id)) id

/-- The class, enum, global, constant or function that a new local name would hide. -/
def hidden? (tree : Tree) (name : String) : AnalysisM (Option DeclId) := do
  let table ← scopes
  let named := table.meaning? (.ofName name)
  match named.filter fun id => ((tree.kindOf? id).map DeclKind.isHideable).getD false with
  | some id => return some id
  | none =>
    return ((table.overloads? table.current name).getD []).find? fun id =>
      tree.kindOf? id = some .function

/-- Binds the name of a variable whose type and initial value are resolved. A name must not be
taken, and a local name must not hide certain others. -/
def bindVariable (tree : Tree) (id : DeclId) (decl : Decl) : AnalysisM Unit := do
  let name := tree.text decl.name
  match (← scopes).findLocal? (.ofName name) with
  | some previous =>
    report <| (Diagnostic.error .redeclared decl.span [name]).withNote (spanOf tree previous)
      "first declared here"
  | none =>
    let hides ← if decl.kind.mayHide then hidden? tree name else pure none
    match hides.bind fun other => tree.decls.get? other with
    | some other =>
      report <| (Diagnostic.error .shadows decl.span [name, other.kind.name]).withNote other.span
        "declared here"
    | none => bind tree (.ofName name) id

/-- Declares a local variable, global, field, parameter or constant. -/
def declareVariable (tree : Tree) (place : Place) (id : DeclId) : AnalysisM Unit := do
  match tree.decls.get? id with
  | none => return
  | some decl =>
    discard (type tree decl.type)
    match decl.init with
    | some init => expr tree { place with declaring := decl.name } init
    | none => pure ()
    bindVariable tree id decl

/-! ### Statements -/

/-- Opens a scope for a statement. -/
def openFor (kind : ScopeKind) (id : StmtId) (span : Span) : AnalysisM Unit :=
  modifyNames fun names =>
    let (scope, table) := names.scopes.openScope kind 0 span
    { names with
      scopes := table.modify scope fun opened => { opened with stmt := id }
      scopeOfStmt := names.scopeOfStmt.insert id scope }

def close : AnalysisM Unit := modifyScopes (·.close)

/-- Walks a branch, loop or arm in a scope of its own; a block opens its scope itself. -/
def inOwnScope (tree : Tree) (walk : StmtId → AnalysisM Unit) (id : StmtId) : AnalysisM Unit := do
  match tree.stmts.get? id with
  | none => return
  | some stmt =>
    match stmt.form with
    | .block _ => walk id
    | _ =>
      openFor .block id stmt.span
      walk id
      close

def stmtWithin (tree : Tree) (place : Place) : Nat → StmtId → AnalysisM Unit
  | 0, _ => return
  | fuel + 1, id => do
    let inner := stmtWithin tree place fuel
    match tree.stmts.get? id with
    | none => return
    | some stmt =>
      match stmt.form with
      | .block stmts =>
        openFor .block id stmt.span
        stmts.forM fun
          | some child => inner child
          | none => pure ()
        close
      | .decl decl => declareVariable tree place decl
      | .expr value => expr tree place value
      | .assign target value =>
        expr tree place target
        expr tree place value
      | .branch cond thenBranch elseBranch =>
        expr tree place cond
        inOwnScope tree inner thenBranch
        elseBranch.forM (inOwnScope tree inner)
      | .whileLoop cond body =>
        expr tree place cond
        inOwnScope tree inner body
      | .forLoop counter first last body =>
        expr tree place first
        expr tree place last
        openFor .loop id stmt.span
        declareVariable tree place counter
        inOwnScope tree inner body
        close
      | .case subject arms default =>
        expr tree place subject
        arms.forM fun arm => do
          arm.values.forM (expr tree place)
          inOwnScope tree inner arm.body
        default.forM (inOwnScope tree inner)
      | .ret value => value.forM (expr tree place)

/-- Resolves a statement. Its parts have smaller numbers, so none nests deeper than there are
statements. -/
def stmt (tree : Tree) (place : Place) (id : StmtId) : AnalysisM Unit :=
  stmtWithin tree place (tree.stmts.size + 1) id

/-- The statements of the body of a callable, which share the scope of the callable. -/
def bodyStmts (tree : Tree) (body : StmtId) : List (Option StmtId) :=
  match (tree.stmts.get? body).map Stmt.form with
  | some (.block stmts) => stmts
  | _ => [some body]

end Resolve

end TreeCheck
