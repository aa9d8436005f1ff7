/-
A unit as an indented outline: its declarations, statements and expressions, with their
types if those are known.
-/

import TreeCheck.Report.DiagnosticText
import TreeCheck.Resolve.Types
import TreeCheck.Types.Label

namespace TreeCheck

/-! ### Outlines -/

inductive Outline where
  | node (label : String) (children : List Outline)

namespace Outline

mutual

/-- The lines of an outline; `margin` stands in front of all of them, and the last child of its
parent is drawn differently. -/
def lines (margin : String) (isLast : Bool) : Outline → List String
  | .node label children =>
    (margin ++ (if isLast then "└─ " else "├─ ") ++ label) ::
      childLines (margin ++ if isLast then "   " else "│  ") children

def childLines (margin : String) : List Outline → List String
  | [] => []
  | [child] => child.lines margin true
  | child :: rest => child.lines margin false ++ childLines margin rest

end

/-- An outline with its root at the margin. -/
def render : Outline → String
  | .node label children =>
    Text.join "" ((label :: childLines "" children).map (· ++ "\n"))

end Outline

/-! ### Written types -/

namespace Tree

def typeTextWithin (tree : Tree) : Nat → Option TypeExprId → String
  | 0, _ => "?"
  | fuel + 1, id =>
    match tree.typeAt? id with
    | none => "?"
    | some (_, written) =>
      let all (separator : String) (ids : List (Option TypeExprId)) : String :=
        Text.join separator (ids.map (typeTextWithin tree fuel))
      match written.form with
      | .named name args =>
        tree.text name ++ if args.isEmpty then "" else "<" ++ all ", " args ++ ">"
      | .list base dims => s!"List<{typeTextWithin tree fuel (some base)},{dims}>"
      | .array base dims => s!"Array<{typeTextWithin tree fuel (some base)},{dims}>"
      | .tuple members => "(" ++ all ", " members ++ ")"
      | .union members => all " | " members

/-- A type as it was written. -/
def typeText (tree : Tree) (id : Option TypeExprId) : String :=
  tree.typeTextWithin (tree.types.size + 1) id

end Tree

/-! ### Outlines of nodes -/

structure TreeReport where
  tree : Tree
  /-- The types that are shown, if they are known. -/
  typing : Option Typing
  naming : Naming

namespace TreeReport

/-- A label with the type behind it; the unknown type is a question mark. -/
def typed (typing : Typing) (label : String) (type : Option TypeId) : String :=
  match type with
  | none => label
  | some 0 => label ++ " : ?"
  | some type => label ++ " : " ++ typing.types.label type

def exprLabel (report : TreeReport) : ExprForm → String
  | .literal kind value => kind.name ++ " " ++ value
  | .name name => "name " ++ report.tree.text name
  | .this => "this"
  | .field _ name => "field " ++ report.tree.text name
  | .index _ _ => "index"
  | .call name typeArgs _ =>
    "call " ++ report.tree.text name ++
      if typeArgs.isEmpty then ""
      else "<" ++ Text.join ", " (typeArgs.map report.tree.typeText) ++ ">"
  | .methodCall _ name _ => "method call " ++ report.tree.text name
  | .binary op _ _ => "binary " ++ op.text
  | .unary op _ => "unary " ++ op.text
  | .cast target _ => "cast " ++ report.tree.typeText (some target)
  | .create created _ => "new " ++ report.tree.typeText (some created)
  | .list elem _ =>
    match elem with
    | some elem => "list " ++ report.tree.typeText (some elem)
    | none => "list"
  | .tuple _ => "tuple"

def exprWithin (report : TreeReport) : Nat → ExprId → List Outline
  | 0, _ => []
  | fuel + 1, id =>
    match report.tree.exprs.get? id with
    | none => []
    | some expr =>
      let inner := exprWithin report fuel
      let children := match expr.form with
        | .literal _ _ | .name _ | .this => []
        | .field receiver _ => inner receiver
        | .index target indices => inner target ++ indices.flatMap inner
        | .call _ _ args => args.flatMap inner
        | .methodCall receiver _ args => inner receiver ++ args.flatMap inner
        | .binary _ left right => inner left ++ inner right
        | .unary _ operand => inner operand
        | .cast _ operand => inner operand
        | .create _ inits =>
          inits.map fun init => .node (report.tree.text init.name) (inner init.value)
        | .list _ elems => elems.flatMap inner
        | .tuple elems => elems.flatMap inner
      let label := report.exprLabel expr.form
      let label := match report.typing with
        | some typing => typed typing label typing.exprTypes[id]?
        | none => label
      [.node label children]

def expr (report : TreeReport) (id : ExprId) : List Outline :=
  report.exprWithin (report.tree.exprs.size + 1) id

/-- Kind, name, modifiers, declared type, type and place of a declaration. -/
def declLabel (report : TreeReport) (id : DeclId) (decl : Decl) : String :=
  let label := decl.kind.name ++ " " ++ report.tree.text decl.name ++
    (if decl.mods = .none then "" else " [" ++ decl.mods.text ++ "]") ++
    (match decl.type with
      | some written => " " ++ report.tree.typeText (some written)
      | none => "")
  let label := match report.typing with
    | some typing => typed typing label (typing.declTypes[id]?.or typing.nominal[id]?)
    | none => label
  label ++ " (" ++ report.naming.place decl.span ++ ")"

/-- A declaration with given parts, and its initial value behind them. -/
def declWith (report : TreeReport) (parts : Decl → List Outline) (id : DeclId) : List Outline :=
  match report.tree.decls.get? id with
  | none => []
  | some decl =>
    let init := match decl.init with
      | some init => report.expr init
      | none => []
    [.node (report.declLabel id decl) (parts decl ++ init)]

/-- A variable or template parameter. -/
def simpleDecl (report : TreeReport) (id : DeclId) : List Outline :=
  report.declWith (fun _ => []) id

def stmtWithin (report : TreeReport) : Nat → StmtId → List Outline
  | 0, _ => []
  | fuel + 1, id =>
    match report.tree.stmts.get? id with
    | none => []
    | some stmt =>
      let inner := stmtWithin report fuel
      let node (children : List Outline) : List Outline := [.node stmt.form.name children]
      match stmt.form with
      | .block stmts =>
        node <| stmts.flatMap fun
          | some child => inner child
          | none => []
      | .decl decl => report.simpleDecl decl
      | .expr value => node (report.expr value)
      | .assign target value => node (report.expr target ++ report.expr value)
      | .branch cond thenBranch elseBranch =>
        node <| report.expr cond ++ inner thenBranch ++
          match elseBranch with
          | some elseBranch => [.node "else" (inner elseBranch)]
          | none => []
      | .whileLoop cond body => node (report.expr cond ++ inner body)
      | .forLoop counter first last body =>
        [.node (stmt.form.name ++ " " ++ report.tree.nameOf counter)
          (report.expr first ++ report.expr last ++ inner body)]
      | .case subject arms default =>
        let whens := arms.map fun arm =>
          Outline.node "when" (arm.values.flatMap report.expr ++ inner arm.body)
        node <| report.expr subject ++ whens ++
          match default with
          | some default => [.node "default" (inner default)]
          | none => []
      | .ret value =>
        node <| match value with
          | some value => report.expr value
          | none => []

def stmt (report : TreeReport) (id : StmtId) : List Outline :=
  report.stmtWithin (report.tree.stmts.size + 1) id

/-- A function or method; any other declaration shows no parts of its own. -/
def callableDecl (report : TreeReport) (id : DeclId) : List Outline :=
  report.declWith
    (fun decl =>
      match decl.callable? with
      | none => []
      | some callable =>
        callable.typeParams.flatMap report.simpleDecl ++
          callable.params.flatMap report.simpleDecl ++
          match callable.body with
          | some body => report.stmt body
          | none => [])
    id

def decl (report : TreeReport) (id : DeclId) : List Outline :=
  match (report.tree.decls.get? id).map Decl.form with
  | some (.classDecl body) =>
    report.declWith
      (fun _ =>
        body.typeParams.flatMap report.simpleDecl ++
          (match body.base with
            | some base => [.node ("base " ++ report.tree.typeText (some base)) []]
            | none => []) ++
          body.fields.flatMap report.simpleDecl ++ body.methods.flatMap report.callableDecl)
      id
  | some (.enum consts) => report.declWith (fun _ => consts.flatMap report.simpleDecl) id
  | some (.importDecl _ none) => report.declWith (fun _ => [.node "<unresolved>" []]) id
  | _ => report.callableDecl id

/-- The outline of a unit. -/
def unit? (report : TreeReport) (id : UnitId) : Option String :=
  (report.tree.units.get? id).map fun unit =>
    Outline.render <| .node ("unit " ++ report.naming.path unit.file)
      (unit.topLevel.flatMap report.decl ++ unit.stmts.flatMap report.stmt)

end TreeReport

end TreeCheck
