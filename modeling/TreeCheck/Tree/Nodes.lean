/-
The nodes of a program tree. Declarations, statements, expressions and written types
live in four arenas and refer to each other by number; a node is allocated after the
nodes below it, so references lead to smaller numbers. What a node is, is an inductive
type; what every node of a sort has in common stands beside it.

The modifiers of a declaration are a set of bits: who may use it, whether it may be overridden,
called from itself or assigned, and so on. The operators of expressions have their spelling.
-/

import TreeCheck.Source.Files

namespace TreeCheck

/-! ### Modifiers -/

structure Modifiers where
  bits : UInt16 := 0
  deriving DecidableEq, Repr, Inhabited

namespace Modifiers

def none : Modifiers := ⟨0⟩
def isPublic : Modifiers := ⟨1⟩
def isFinal : Modifiers := ⟨2⟩
def isAbstract : Modifiers := ⟨4⟩
/-- A callable that may call itself. -/
def recursive : Modifiers := ⟨8⟩
/-- A callable that may not assign to globals. -/
def pure : Modifiers := ⟨16⟩
def const : Modifiers := ⟨32⟩
/-- A parameter that a pure callable may assign to. -/
def input : Modifiers := ⟨64⟩

/-- The modifiers and their keywords, in the order in which they are written. -/
def keywords : List (Modifiers × String) :=
  [(isPublic, "public"), (isFinal, "final"), (isAbstract, "abstr"), (recursive, "rec"),
    (pure, "pure"), (const, "const"), (input, "in")]

def union (first second : Modifiers) : Modifiers := ⟨first.bits ||| second.bits⟩

/-- Whether every bit of `wanted` is set. -/
def has (mods wanted : Modifiers) : Bool := mods.bits &&& wanted.bits == wanted.bits

def names (mods : Modifiers) : List String :=
  (keywords.filter fun (one, _) => mods.bits &&& one.bits != 0).map Prod.snd

def text (mods : Modifiers) : String := Text.join " " mods.names

/-- The modifier of a keyword; `abstract` may be written in full. -/
def ofKeyword? (keyword : String) : Option Modifiers :=
  if keyword = "abstract" then some isAbstract
  else (keywords.find? fun (_, name) => name = keyword).map Prod.fst

end Modifiers

/-! ### Operators -/

inductive BinaryOp where
  | add | sub | mul | div | mod | eq | ne | lt | le | gt | ge | and | or
  | bitAnd | bitOr | bitXor | shiftLeft | shiftRight
  deriving DecidableEq, Repr, Inhabited

namespace BinaryOp

/-- All of them, in the order of their numbers, which start at one. -/
def all : List BinaryOp :=
  [.add, .sub, .mul, .div, .mod, .eq, .ne, .lt, .le, .gt, .ge, .and, .or, .bitAnd, .bitOr,
    .bitXor, .shiftLeft, .shiftRight]

def text : BinaryOp → String
  | .add => "+"
  | .sub => "-"
  | .mul => "*"
  | .div => "/"
  | .mod => "%"
  | .eq => "=="
  | .ne => "!="
  | .lt => "<"
  | .le => "<="
  | .gt => ">"
  | .ge => ">="
  | .and => "and"
  | .or => "or"
  | .bitAnd => "&"
  | .bitOr => "|"
  | .bitXor => "^"
  | .shiftLeft => "<<"
  | .shiftRight => ">>"

def ofText? (text : String) : Option BinaryOp := all.find? (·.text = text)

def number (op : BinaryOp) : Nat := all.idxOf op + 1

end BinaryOp

inductive UnaryOp where
  | negate | not | bitNot
  deriving DecidableEq, Repr, Inhabited

namespace UnaryOp

def all : List UnaryOp := [.negate, .not, .bitNot]

def text : UnaryOp → String
  | .negate => "-"
  | .not => "not"
  | .bitNot => "~"

/-- Negation of truth values may also be spelt with an exclamation mark. -/
def ofText? (text : String) : Option UnaryOp :=
  if text = "!" then some .not else all.find? (·.text = text)

def number (op : UnaryOp) : Nat := all.idxOf op + 1

end UnaryOp

abbrev UnitId := Nat
abbrev DeclId := Nat
abbrev StmtId := Nat
abbrev ExprId := Nat
abbrev TypeExprId := Nat

/-! ### Written types -/

inductive TypeExprForm where
  | named (name : NameId) (args : List (Option TypeExprId))
  | list (base : TypeExprId) (dims : UInt8)
  | array (base : TypeExprId) (dims : UInt8)
  | tuple (elems : List (Option TypeExprId))
  | union (members : List (Option TypeExprId))

structure TypeExpr where
  form : TypeExprForm
  span : Span

/-! ### Declarations -/

/-- What a template argument has to be. -/
inductive Constraint where
  | any | discrete | scalar | isClass
  deriving DecidableEq, Repr, Inhabited

namespace Constraint

def name : Constraint → String
  | .any => "any"
  | .discrete => "discrete"
  | .scalar => "scalar"
  | .isClass => "class"

def all : List Constraint := [.any, .discrete, .scalar, .isClass]

/-- The constraint that is written so; `none` and nothing stand for no constraint. -/
def ofText? (text : String) : Option Constraint :=
  if text = "" ∨ text = "none" then some .any else all.find? (·.name = text)

end Constraint

/-- The parameters and the body of a function or method. A method may lack a body. -/
structure Callable where
  params : List DeclId
  typeParams : List DeclId := []
  body : Option StmtId
  deriving Inhabited

structure ClassBody where
  base : Option TypeExprId
  typeParams : List DeclId := []
  fields : List DeclId
  methods : List DeclId
  deriving Inhabited

/-- The variables that are not members of anything else, and constants of an enum. -/
inductive VariableKind where
  | localVar | global | field | param | enumConst
  deriving DecidableEq, Repr, Inhabited

inductive DeclForm where
  | variable (kind : VariableKind)
  | function (callable : Callable)
  | method (callable : Callable)
  | classDecl (body : ClassBody)
  | enum (consts : List DeclId)
  | templateParam (constraint : Constraint)
  | importDecl (path : String) (target : Option UnitId)
  deriving Inhabited

inductive DeclKind where
  | localVar | global | field | param | enumConst | function | method | classDecl | enum
  | templateParam | importDecl
  deriving DecidableEq, Repr, Inhabited

namespace DeclKind

/-- All of them, in the order of their numbers, which start at one. -/
def all : List DeclKind :=
  [.localVar, .global, .field, .param, .enumConst, .function, .method, .classDecl, .enum,
    .templateParam, .importDecl]

def name : DeclKind → String
  | .localVar => "local"
  | .global => "global"
  | .field => "field"
  | .param => "param"
  | .enumConst => "enum constant"
  | .function => "function"
  | .method => "method"
  | .classDecl => "class"
  | .enum => "enum"
  | .templateParam => "template parameter"
  | .importDecl => "import"

/-- Whether a declaration of the kind is a place that holds a value. -/
def isVariable : DeclKind → Bool
  | .localVar | .global | .field | .param | .enumConst => true
  | _ => false

/-- Whether a declaration of the kind is bound under a signature. -/
def isCallable : DeclKind → Bool
  | .function | .method => true
  | _ => false

end DeclKind

def VariableKind.declKind : VariableKind → DeclKind
  | .localVar => .localVar
  | .global => .global
  | .field => .field
  | .param => .param
  | .enumConst => .enumConst

structure Decl where
  form : DeclForm
  name : NameId
  /-- The declared type; of a callable, the type of its result. -/
  type : Option TypeExprId := none
  init : Option ExprId := none
  mods : Modifiers := .none
  /-- The class, callable or enum around the declaration. -/
  owner : Option DeclId := none
  span : Span
  deriving Inhabited

namespace Decl

def kind (decl : Decl) : DeclKind :=
  match decl.form with
  | .variable kind => kind.declKind
  | .function _ => .function
  | .method _ => .method
  | .classDecl _ => .classDecl
  | .enum _ => .enum
  | .templateParam _ => .templateParam
  | .importDecl _ _ => .importDecl

def callable? (decl : Decl) : Option Callable :=
  match decl.form with
  | .function callable | .method callable => some callable
  | _ => none

def classBody? (decl : Decl) : Option ClassBody :=
  match decl.form with
  | .classDecl body => some body
  | _ => none

def consts? (decl : Decl) : Option (List DeclId) :=
  match decl.form with
  | .enum consts => some consts
  | _ => none

def constraint? (decl : Decl) : Option Constraint :=
  match decl.form with
  | .templateParam constraint => some constraint
  | _ => none

/-- The template parameters of a class or callable. -/
def typeParams (decl : Decl) : List DeclId :=
  match decl.form with
  | .function callable | .method callable => callable.typeParams
  | .classDecl body => body.typeParams
  | _ => []

/-- Attaches template parameters to a class or callable. -/
def withTypeParams (decl : Decl) (params : List DeclId) : Decl :=
  match decl.form with
  | .function callable => { decl with form := .function { callable with typeParams := params } }
  | .method callable => { decl with form := .method { callable with typeParams := params } }
  | .classDecl body => { decl with form := .classDecl { body with typeParams := params } }
  | _ => decl

end Decl

/-! ### Statements -/

structure CaseArm where
  values : List ExprId
  body : StmtId
  span : Span

inductive StmtForm where
  | block (stmts : List (Option StmtId))
  | decl (decl : DeclId)
  | expr (expr : ExprId)
  | assign (target value : ExprId)
  | branch (cond : ExprId) (thenBranch : StmtId) (elseBranch : Option StmtId)
  | whileLoop (cond : ExprId) (body : StmtId)
  /-- Runs a variable over the integers from the first to the last. -/
  | forLoop (counter : DeclId) (first last : ExprId) (body : StmtId)
  | case (subject : ExprId) (arms : List CaseArm) (default : Option StmtId)
  | ret (value : Option ExprId)

structure Stmt where
  form : StmtForm
  span : Span

namespace StmtForm

/-- The names of the statement forms in the order of their numbers, which start at one. -/
def names : List String :=
  ["block", "decl", "expr", "assign", "if", "while", "for", "case", "return"]

def name : StmtForm → String
  | .block _ => "block"
  | .decl _ => "decl"
  | .expr _ => "expr"
  | .assign _ _ => "assign"
  | .branch _ _ _ => "if"
  | .whileLoop _ _ => "while"
  | .forLoop _ _ _ _ => "for"
  | .case _ _ _ => "case"
  | .ret _ => "return"

end StmtForm

/-! ### Expressions -/

inductive LiteralKind where
  | int | char | bool | string | text | real
  deriving DecidableEq, Repr, Inhabited

namespace LiteralKind

def all : List LiteralKind := [.int, .char, .bool, .string, .text, .real]

def name : LiteralKind → String
  | .int => "int"
  | .char => "char"
  | .bool => "bool"
  | .string => "string"
  | .text => "text"
  | .real => "real"

def ofText? (text : String) : Option LiteralKind := all.find? (·.name = text)

end LiteralKind

/-- One field set by the creation of an object. -/
structure FieldInit where
  name : NameId
  value : ExprId
  span : Span
  deriving DecidableEq

inductive ExprForm where
  | literal (kind : LiteralKind) (value : String)
  | name (name : NameId)
  | this
  | field (receiver : ExprId) (name : NameId)
  | index (target : ExprId) (indices : List ExprId)
  | call (name : NameId) (typeArgs : List (Option TypeExprId)) (args : List ExprId)
  | methodCall (receiver : ExprId) (name : NameId) (args : List ExprId)
  | binary (op : BinaryOp) (left right : ExprId)
  | unary (op : UnaryOp) (operand : ExprId)
  | cast (target : TypeExprId) (operand : ExprId)
  | create (type : TypeExprId) (inits : List FieldInit)
  /-- A list; the type of its elements is needed when there are none. -/
  | list (elem : Option TypeExprId) (elems : List ExprId)
  | tuple (elems : List ExprId)
  deriving DecidableEq

structure Expr where
  form : ExprForm
  span : Span
  deriving DecidableEq

namespace ExprForm

/-- The names of the expression forms in the order of their numbers, which start at one. -/
def names : List String :=
  ["literal", "name", "this", "field", "index", "call", "method call", "binary", "unary", "cast",
    "new", "list", "tuple"]

end ExprForm

/-! ### Units -/

/-- One parsed file: its declarations by sort, each in order. The statements were submitted
at the top level of an interactive unit and run in its global scope. -/
structure ProgramUnit where
  file : FileId
  span : Span
  imports : List DeclId := []
  enums : List DeclId := []
  globals : List DeclId := []
  classes : List DeclId := []
  functions : List DeclId := []
  main : Option DeclId := none
  stmts : List StmtId := []
  deriving Inhabited

/-- Every declaration at the top level in walk order. -/
def ProgramUnit.topLevel (unit : ProgramUnit) : List DeclId :=
  unit.imports ++ unit.enums ++ unit.globals ++ unit.classes ++ unit.functions ++
    unit.main.toList

/-! ### Trees -/

structure Tree where
  names : Names := {}
  units : Arena ProgramUnit := {}
  decls : Arena Decl := {}
  stmts : Arena Stmt := {}
  exprs : Arena Expr := {}
  types : Arena TypeExpr := {}

namespace Tree

def text (tree : Tree) (name : NameId) : String := tree.names.text name

/-- The name of a declaration, empty when there is no such declaration. -/
def nameOf (tree : Tree) (id : DeclId) : String :=
  match tree.decls.get? id with
  | some decl => tree.text decl.name
  | none => ""

/-- The span of an expression, empty when there is no such expression. -/
def exprSpan (tree : Tree) (id : ExprId) : Span :=
  match tree.exprs.get? id with
  | some expr => expr.span
  | none => {}

def kindOf? (tree : Tree) (id : DeclId) : Option DeclKind := (tree.decls.get? id).map Decl.kind

def callable? (tree : Tree) (id : DeclId) : Option Callable :=
  (tree.decls.get? id).bind Decl.callable?

def classBody? (tree : Tree) (id : DeclId) : Option ClassBody :=
  (tree.decls.get? id).bind Decl.classBody?

def typeParamsOf (tree : Tree) (id : DeclId) : List DeclId :=
  match tree.decls.get? id with
  | some decl => decl.typeParams
  | none => []

end Tree

end TreeCheck
