/-
Resolution of expressions: what names, `this`, fields of known receivers and calls
refer to. A call with several candidates, and a field or method of a value, depend on
types and are left to type checking.
-/

import TreeCheck.Resolve.Types

namespace TreeCheck

/-- The names of the fields bound in the scope of a class, inherited ones included. -/
def Resolution.fieldNames (names : Resolution) (tree : Tree) (owner : DeclId) : List String :=
  match names.scopes.get? (names.scopeOf owner) with
  | none => []
  | some scope =>
    (scope.keys.filter fun key =>
      (scope.find? key).bind tree.kindOf? = some .field).map Key.name

/-- Whether an expression is `this`. -/
def Tree.isThis (tree : Tree) (id : ExprId) : Bool :=
  match (tree.exprs.get? id).map Expr.form with
  | some .this => true
  | _ => false

namespace Resolve

open AnalysisM

/-- Records what an expression refers to. -/
def use (id : ExprId) (decl : DeclId) : AnalysisM Unit :=
  modifyNames fun names => { names with uses := names.uses.insert id decl }

/-- Reports a name that means nothing, with a candidate that is near. -/
def unresolved (code : Code) (span : Span) (name : String) (owner : List String)
    (candidates : List String) : AnalysisM Unit :=
  report (suggesting name candidates (.error code span (name :: owner)))

def nameUse (tree : Tree) (place : Place) (id : ExprId) (span : Span) (name : NameId) :
    AnalysisM Unit := do
  let text := tree.text name
  if place.declaring ≠ 0 ∧ name = place.declaring then error .selfReference span [text]
  else
    match ← find? (.ofName text) with
    | some decl => use id decl
    | none => unresolved .unresolved span text [] (← visibleNames)

/-- A field of `this`, which is a field bound in the class. -/
def ownField (tree : Tree) (id : ExprId) (span : Span) (owner : DeclId) (name : String) :
    AnalysisM Unit := do
  let names := (← get).names
  match (names.member? owner name).filter fun decl => tree.kindOf? decl = some .field with
  | some decl => use id decl
  | none =>
    unresolved .undeclaredField span name [tree.nameOf owner] (names.fieldNames tree owner)

/-- A constant of an enum that is named in front of it. -/
def enumField (tree : Tree) (id : ExprId) (span : Span) (enum : DeclId) (name : String) :
    AnalysisM Unit := do
  match (tree.decls.get? enum).bind Decl.consts? with
  | none => return
  | some consts =>
    match consts.find? fun const => tree.nameOf const = name with
    | some const => use id const
    | none =>
      unresolved .undeclaredField span name [tree.nameOf enum] (consts.map tree.nameOf)

/-- A field whose receiver is known without types. -/
def fieldUse (tree : Tree) (place : Place) (id : ExprId) (span : Span) (receiver : ExprId)
    (name : String) : AnalysisM Unit := do
  match (tree.exprs.get? receiver).map Expr.form with
  | some .this =>
    match place.enclosing with
    | some owner => ownField tree id span owner name
    | none => return
  | some (.name _) =>
    match (← get).names.uses[receiver]? with
    | some decl => enumField tree id span decl name
    | none => return
  | _ => return

def callUse (place : Place) (id : ExprId) (span : Span) (name : String) : AnalysisM Unit := do
  let names := (← get).names
  match names.callCandidates names.scopes.current place.enclosing name with
  | [] => unresolved .undeclaredFunction span name [] (← visibleNames)
  | [decl] => use id decl
  | _ => return

/-- A method called on `this`. -/
def methodUse (tree : Tree) (place : Place) (id : ExprId) (span : Span) (receiver : ExprId)
    (name : String) : AnalysisM Unit := do
  match place.enclosing with
  | none => return
  | some owner =>
    if tree.isThis receiver then
      match (← get).names.methodCandidates owner name with
      | [] => unresolved .undeclaredMethod span name [tree.nameOf owner] []
      | [decl] => use id decl
      | _ => return

def exprWithin (tree : Tree) (place : Place) : Nat → ExprId → AnalysisM Unit
  | 0, _ => return
  | fuel + 1, id => do
    let inner := exprWithin tree place fuel
    match tree.exprs.get? id with
    | none => return
    | some expr =>
      match expr.form with
      | .literal _ _ => return
      | .name name => nameUse tree place id expr.span name
      | .this =>
        match place.enclosing with
        | none => error .thisOutsideClass expr.span []
        | some owner => use id owner
      | .field receiver name =>
        inner receiver
        fieldUse tree place id expr.span receiver (tree.text name)
      | .index target indices =>
        inner target
        indices.forM inner
      | .call name typeArgs args =>
        typeArgs.forM fun arg => discard (type tree arg)
        args.forM inner
        callUse place id expr.span (tree.text name)
      | .methodCall receiver name args =>
        inner receiver
        args.forM inner
        methodUse tree place id expr.span receiver (tree.text name)
      | .binary _ left right =>
        inner left
        inner right
      | .unary _ operand => inner operand
      | .cast target operand =>
        discard (type tree (some target))
        inner operand
      | .create created inits =>
        classType tree created
        inits.forM fun init => inner init.value
      | .list elem elems =>
        discard (type tree elem)
        elems.forM inner
      | .tuple elems => elems.forM inner

/-- Resolves an expression. Its parts have smaller numbers, so none nests deeper than there are
expressions. -/
def expr (tree : Tree) (place : Place) (id : ExprId) : AnalysisM Unit :=
  exprWithin tree place (tree.exprs.size + 1) id

end Resolve

end TreeCheck
