/-
What operators accept and give. Operands are sorted into families, sets of bits, and
each operator has a list of rules over families, of which the first that fits counts.
-/

import TreeCheck.Types.Compatible

namespace TreeCheck

/-- A set of families of types. -/
structure Families where
  bits : UInt32
  deriving DecidableEq, Repr, Inhabited

namespace Families

def none : Families := ⟨0⟩
def bool : Families := ⟨2⟩
def int : Families := ⟨4⟩
def char : Families := ⟨8⟩
def enum : Families := ⟨16⟩
def real : Families := ⟨32⟩
def string : Families := ⟨64⟩
def classes : Families := ⟨128⟩
def list : Families := ⟨256⟩
def array : Families := ⟨512⟩
def tuple : Families := ⟨1024⟩
def param : Families := ⟨2048⟩
def multi : Families := ⟨4096⟩

def union (families : List Families) : Families :=
  ⟨families.foldl (fun bits one => bits ||| one.bits) 0⟩

def meets (first second : Families) : Bool := first.bits &&& second.bits != 0

def discrete : Families := union [bool, int, char, enum]

def numeric : Families := union [int, real]

/-- What arithmetic takes: everything but strings. -/
def arithmetic : Families :=
  union [discrete, real, classes, list, array, tuple, param, multi]

def any : Families := union [arithmetic, string]

end Families

/-- The family of the types of a kind. -/
def TypeKind.family : TypeKind → Families
  | .bool => .bool
  | .int => .int
  | .char => .char
  | .enum => .enum
  | .real => .real
  | .string | .text => .string
  | .classType => .classes
  | .list => .list
  | .array => .array
  | .tuple => .tuple
  | .param => .param
  | .multi => .multi
  | .invalid | .void => .none

/-- The type of the result of a binary operator: that of the left operand, truth values, or
the wider of the two string types. -/
inductive BinaryResult where
  | left | bool | concat
  deriving DecidableEq, Repr

/-- The number of a result, starting at one. -/
def BinaryResult.number : BinaryResult → Nat
  | .left => 1
  | .bool => 2
  | .concat => 3

structure BinaryRule where
  left : Families
  right : Families
  result : BinaryResult
  /-- The operands have to be compatible both ways. -/
  compatible : Bool := false
  /-- The right operand may be left unevaluated. -/
  shortCircuit : Bool := false

/-- The two properties of a rule as a set of bits. -/
def BinaryRule.flags (rule : BinaryRule) : Nat :=
  (if rule.compatible then 2 else 0) + (if rule.shortCircuit then 4 else 0)

def BinaryOp.rules : BinaryOp → List BinaryRule
  | .add =>
    [{ left := .string, right := .string, result := .concat },
      { left := .arithmetic, right := .arithmetic, result := .left, compatible := true }]
  | .sub | .mul | .div | .mod =>
    [{ left := .arithmetic, right := .arithmetic, result := .left, compatible := true }]
  | .eq | .ne => [{ left := .any, right := .any, result := .bool, compatible := true }]
  | .lt | .le | .gt | .ge =>
    [{ left := .numeric, right := .numeric, result := .bool },
      { left := .char, right := .char, result := .bool }]
  | .and | .or => [{ left := .bool, right := .bool, result := .bool, shortCircuit := true }]
  | .bitAnd | .bitOr | .bitXor =>
    [{ left := .discrete, right := .discrete, result := .left, compatible := true }]
  | .shiftLeft | .shiftRight => [{ left := .int, right := .int, result := .left }]

/-- The type of the result of a unary operator: that of the operand, or truth values. -/
inductive UnaryResult where
  | same | bool
  deriving DecidableEq, Repr

/-- The number of a result, starting at one. -/
def UnaryResult.number : UnaryResult → Nat
  | .same => 1
  | .bool => 2

structure UnaryRule where
  operand : Families
  result : UnaryResult

def UnaryOp.rules : UnaryOp → List UnaryRule
  | .negate => [⟨.numeric, .same⟩]
  | .not => [⟨.bool, .bool⟩]
  | .bitNot => [⟨.discrete, .same⟩]

namespace TypeTable

def familyOf (table : TypeTable) (id : TypeId) : Families := (table.kindOf id).family

/-- The type an operator gives for an operand, if it accepts it. -/
def unaryType? (table : TypeTable) (op : UnaryOp) (operand : TypeId) : Option TypeId :=
  match op.rules.find? fun rule => (table.familyOf operand).meets rule.operand with
  | some rule => some (match rule.result with
      | .same => operand
      | .bool => TypeId.bool)
  | none => none

end TypeTable

namespace TypeM

/-- The type a rule gives for operands it accepts. -/
def resultType (table : TypeTable) (result : BinaryResult) (left right : TypeId) : TypeId :=
  match result with
  | .left => left
  | .bool => TypeId.bool
  | .concat =>
    if table.kindOf left = .text ∨ table.kindOf right = .text then TypeId.text
    else TypeId.string

/-- Whether the operands fit a rule. -/
def ruleFits (rule : BinaryRule) (left right : TypeId) : TypeM Bool := do
  let table ← get
  if !((table.familyOf left).meets rule.left && (table.familyOf right).meets rule.right) then
    return false
  if !rule.compatible then return true
  if !(← compatible left right) then return false
  compatible right left

def firstFitting (left right : TypeId) : List BinaryRule → TypeM (Option TypeId)
  | [] => pure none
  | rule :: rest => do
    if ← ruleFits rule left right then
      return some (resultType (← get) rule.result left right)
    firstFitting left right rest

/-- The type an operator gives for two operands, if it accepts them. -/
def binaryType? (op : BinaryOp) (left right : TypeId) : TypeM (Option TypeId) :=
  firstFitting left right op.rules

end TypeM

end TreeCheck
