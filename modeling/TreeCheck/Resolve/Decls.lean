/-
Resolution of declarations that open scopes: callables and classes. A class takes over
the fields of its base before its own fields are bound. Classes of a unit are resolved
bases first; a class that turns out to inherit from itself is reported and keeps no
base.
-/

import TreeCheck.Resolve.Stmts

namespace TreeCheck.Resolve

open AnalysisM

/-- Declares an enum and its constants, which are bound beside it. -/
def declareEnum (tree : Tree) (place : Place) (id : DeclId) : AnalysisM Unit := do
  bindName tree id
  match (tree.decls.get? id).bind Decl.consts? with
  | some consts => consts.forM (declareVariable tree place)
  | none => return

/-! ### Callables -/

/-- Binds the signature of a callable. -/
def declareCallable (tree : Tree) (id : DeclId) : AnalysisM Unit := do
  match tree.callable? id with
  | none => return
  | some callable => bind tree (signatureKey tree (← scopes).meaning? (tree.nameOf id) callable) id

/-- Opens a scope for a class or callable and runs an action in it. The innermost scope that is
open when the action ends is closed. -/
def inDeclScope (kind : ScopeKind) (id : DeclId) (span : Span) (action : AnalysisM Unit) :
    AnalysisM Unit := do
  modifyNames fun names =>
    let (scope, table) := names.scopes.openScope kind id span
    { names with scopes := table, scopeOfDecl := names.scopeOfDecl.insert id scope }
  ensuring
    (fun state => { state with names := { state.names with scopes := state.names.scopes.close } })
    action

/-- Resolves the parameters and the body of a callable. -/
def callableBody (tree : Tree) (place : Place) (id : DeclId) : AnalysisM Unit := do
  match tree.decls.get? id, tree.callable? id with
  | some decl, some callable =>
    let place := { place with callable := some id, declaring := 0 }
    inDeclScope .function id decl.span do
      callable.typeParams.forM (bindName tree)
      discard (type tree decl.type)
      callable.params.forM (declareVariable tree place)
      callable.body.forM fun body =>
        (bodyStmts tree body).forM fun
          | some child => stmt tree place child
          | none => pure ()
  | _, _ => return

/-! ### Classes -/

/-- Binds an inherited field in the current scope. Only template parameters are bound there
before, so a field that clashes is named like one of them. -/
def inheritField (tree : Tree) (span : Span) (key : Key) (field : DeclId) : AnalysisM Unit := do
  match (← scopes).bind key field with
  | .ok table => modifyScopes fun _ => table
  | .error (.alreadyBound _ existing) =>
    report <| ((Diagnostic.error .redeclared span [key.text]).withNote (spanOf tree existing)
      "first declared here").withNote (spanOf tree field) "inherited field declared here"
  | .error (.noScope _) => return

/-- Takes over the fields of a base, its own and inherited ones. -/
def inheritFields (tree : Tree) (span : Span) (base : DeclId) : AnalysisM Unit := do
  let names := (← get).names
  match names.scopes.get? (names.scopeOf base) with
  | none => return
  | some scope =>
    scope.keys.forM fun key =>
      match scope.find? key with
      | some field =>
        if tree.kindOf? field = some .field then inheritField tree span key field else pure ()
      | none => pure ()

/-- Resolves the base of a class and takes over its fields. -/
def resolveBase (tree : Tree) (id : DeclId) (decl : Decl) (base : TypeExprId) :
    AnalysisM Unit := do
  match ← type tree (some base) with
  | none => return
  | some found =>
    if tree.kindOf? found ≠ some .classDecl then
      error .baseNotClass decl.span [tree.nameOf found, tree.text decl.name]
    else if id ∈ (← get).cyclic then return
    else
      modifyNames fun names => { names with bases := names.bases.insert id found }
      inheritFields tree decl.span found

def resolveClass (tree : Tree) (place : Place) (id : DeclId) : AnalysisM Unit := do
  match tree.decls.get? id, tree.classBody? id with
  | some decl, some body =>
    let place := { place with enclosing := some id, callable := none }
    inDeclScope .classBody id decl.span do
      body.typeParams.forM (bindName tree)
      body.base.forM (resolveBase tree id decl)
      body.fields.forM (declareVariable tree place)
      body.methods.forM (declareCallable tree)
      body.methods.forM (callableBody tree place)
  | _, _ => return

/-! ### Order of classes -/

/-- What the name of the base of a class means in the current scope. -/
def baseCandidate? (tree : Tree) (id : DeclId) : AnalysisM (Option DeclId) := do
  match tree.typeAt? ((tree.classBody? id).bind ClassBody.base) with
  | some (_, written) =>
    match written.form with
    | .named name _ => find? (.ofName (tree.text name))
    | _ => return none
  | none => return none

/-- A class on the way of a visit, or one that was placed. -/
inductive VisitState where
  | open | placed
  deriving DecidableEq

/-- The classes placed so far, and what was visited. -/
structure ClassVisit where
  states : Std.TreeMap DeclId VisitState := ∅
  placed : List DeclId := []

/-- Reports, once, that a class inherits from itself. -/
def reportCyclic (tree : Tree) (id : DeclId) : AnalysisM Unit := do
  if id ∈ (← get).cyclic then return
  modify fun state => { state with cyclic := id :: state.cyclic }
  error .inheritanceCycle (spanOf tree id) [tree.nameOf id]

/-- Places the base of a class, if it belongs to the same unit, and then the class. -/
def visitWithin (tree : Tree) (classes : List DeclId) :
    Nat → ClassVisit → DeclId → AnalysisM ClassVisit
  | 0, visit, _ => return visit
  | fuel + 1, visit, id => do
    match visit.states[id]? with
    | some .placed => return visit
    | some .open =>
      reportCyclic tree id
      return visit
    | none =>
      let visit := { visit with states := visit.states.insert id .open }
      let visit ← match ← baseCandidate? tree id with
        | some base =>
          if base ∈ classes then visitWithin tree classes fuel visit base else pure visit
        | none => pure visit
      return { states := visit.states.insert id .placed, placed := visit.placed ++ [id] }

/-- The classes of a unit, bases first. A visit goes through at most all classes and one of
them twice. -/
def classOrder (tree : Tree) (classes : List DeclId) : AnalysisM (List DeclId) := do
  let visit ← classes.foldlM (visitWithin tree classes (classes.length + 1)) {}
  modifyNames fun names => { names with order := names.order ++ visit.placed }
  return visit.placed

end TreeCheck.Resolve
