/-
The kinds of types, their names, and the one-letter codes that signatures are made of.
-/

namespace TreeCheck

inductive TypeKind where
  | invalid | void | int | char | bool | enum | string | text | real | classType | list | array
  | tuple | param | multi
  deriving DecidableEq, Repr, Inhabited

namespace TypeKind

/-- All of them, in the order of their numbers, which start at zero. -/
def all : List TypeKind :=
  [.invalid, .void, .int, .char, .bool, .enum, .string, .text, .real, .classType, .list, .array,
    .tuple, .param, .multi]

def number (kind : TypeKind) : Nat := all.idxOf kind

def name : TypeKind → String
  | .invalid => "invalid"
  | .void => "void"
  | .int => "int"
  | .char => "char"
  | .bool => "bool"
  | .enum => "enum"
  | .string => "string"
  | .text => "text"
  | .real => "real"
  | .classType => "class"
  | .list => "list"
  | .array => "array"
  | .tuple => "tuple"
  | .param => "template param"
  | .multi => "multi"

def code : TypeKind → Char
  | .invalid => '?'
  | .void => 'v'
  | .int => 'i'
  | .char => 'c'
  | .bool => 'b'
  | .enum => 'e'
  | .string => 's'
  | .text => 't'
  | .real => 'r'
  | .classType => 'C'
  | .list => 'L'
  | .array => 'A'
  | .tuple => 'T'
  | .param => 'P'
  | .multi => 'M'

def isDiscrete : TypeKind → Bool
  | .int | .char | .bool | .enum => true
  | _ => false

def isScalar : TypeKind → Bool
  | .string | .text | .real => true
  | _ => false

def isNumeric : TypeKind → Bool
  | .int | .real => true
  | _ => false

def isStringLike : TypeKind → Bool
  | .string | .text => true
  | _ => false

/-- The kind of a primitive type that is written by name. -/
def ofBuiltin? : String → Option TypeKind
  | "Int" => some .int
  | "Char" => some .char
  | "Bool" => some .bool
  | "String" => some .string
  | "Text" => some .text
  | "Real" => some .real
  | "Void" => some .void
  | _ => none

end TypeKind

end TreeCheck
