/-
The names of everything that has a number: kinds of declarations, statements,
expressions, literals, constraints, operators, types, scopes, wire forms and categories
of diagnostics. A number that stands for nothing has a name that says so.
-/

import TreeCheck.Diagnostic.Code
import TreeCheck.Doc.Codec
import TreeCheck.Scope.Table
import TreeCheck.Types.Kind

namespace TreeCheck

namespace KindNames

/-- The name of a number that is counted from zero. -/
def fromZero (names : List String) (other : String) (number : Nat) : String :=
  names[number]?.getD other

/-- The name of a number that is counted from one. -/
def fromOne (names : List String) (other : String) (number : Nat) : String :=
  fromZero (other :: names) other number

def declKind? (number : Nat) : Option DeclKind :=
  if number = 0 then none else DeclKind.all[number - 1]?

/-- The names of a number in one row, with what the kind of a declaration is. -/
def row (number : Nat) : Json :=
  let kind := declKind? number
  let typeKind := TypeKind.all[number]?
  .array <|
    [.text ((kind.map DeclKind.name).getD "invalid"),
      .bool ((kind.map DeclKind.isVariable).getD false),
      .bool ((kind.map DeclKind.isCallable).getD false)] ++
    ([fromOne StmtForm.names "invalid" number, fromOne ExprForm.names "invalid" number,
      fromOne (LiteralKind.all.map LiteralKind.name) "invalid" number,
      fromZero (Constraint.all.map Constraint.name) "any" number,
      fromOne (BinaryOp.all.map BinaryOp.text) "?" number,
      fromOne (UnaryOp.all.map UnaryOp.text) "?" number,
      (typeKind.map TypeKind.name).getD s!"Kind({number})",
      String.singleton ((typeKind.map TypeKind.code).getD '?'),
      fromZero (ScopeKind.all.map ScopeKind.name) "invalid" number,
      fromOne ["json", "msgpack"] "unknown" number,
      fromZero (Code.Category.all.map Code.Category.name) "unknown" number]).map .text

end KindNames

end TreeCheck
