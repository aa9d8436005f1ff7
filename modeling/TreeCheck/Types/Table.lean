/-
The table of types. A type is named by its number. Lists, arrays, tuples and unions are
shared: the same components give the same number. Classes, enums and template
parameters are new each time they are registered; what is known about them stands in
tables of their own, and a type refers to its slot there. Number zero is the unknown
type, and the next seven numbers are the primitive types.
-/

import TreeCheck.Tree.Nodes
import TreeCheck.Types.Kind

namespace TreeCheck

abbrev TypeId := Nat

inductive TypeForm where
  | invalid | void | int | char | bool | string | text | real
  | enum (slot : Nat)
  | classType (slot : Nat)
  | param (slot : Nat)
  | list (elem : TypeId) (dims : UInt8)
  | array (elem : TypeId) (dims : UInt8)
  | tuple (group : Nat)
  | multi (group : Nat)
  deriving DecidableEq, Repr, Inhabited

namespace TypeForm

def kind : TypeForm → TypeKind
  | .invalid => .invalid
  | .void => .void
  | .int => .int
  | .char => .char
  | .bool => .bool
  | .string => .string
  | .text => .text
  | .real => .real
  | .enum _ => .enum
  | .classType _ => .classType
  | .param _ => .param
  | .list _ _ => .list
  | .array _ _ => .array
  | .tuple _ => .tuple
  | .multi _ => .multi

/-- The element of a list or array, else the unknown type. -/
def elem : TypeForm → TypeId
  | .list elem _ | .array elem _ => elem
  | _ => 0

def dims : TypeForm → UInt8
  | .list _ dims | .array _ dims => dims
  | _ => 0

/-- The slot or group a form refers to, else zero. -/
def slot : TypeForm → Nat
  | .enum slot | .classType slot | .param slot | .tuple slot | .multi slot => slot
  | _ => 0

end TypeForm

/-- What is known about a class. An instance of a class with template parameters refers to
that class and keeps its arguments. -/
structure ClassInfo where
  name : String := ""
  decl : DeclId := 0
  base : TypeId := 0
  params : List TypeId := []
  generic : TypeId := 0
  args : List TypeId := []
  deriving DecidableEq, Inhabited

structure EnumInfo where
  name : String := ""
  decl : DeclId := 0
  deriving Inhabited

structure ParamInfo where
  name : String := ""
  decl : DeclId := 0
  constraint : Constraint := .any
  deriving Inhabited

/-- Whether a group of types is the elements of a tuple or the members of a union. -/
inductive GroupKind where
  | tuple | multi
  deriving DecidableEq, Repr

structure TypeTable where
  forms : Array TypeForm := #[.invalid, .void, .int, .char, .bool, .string, .text, .real]
  classes : Arena ClassInfo := {}
  enums : Arena EnumInfo := {}
  params : Arena ParamInfo := {}
  groups : Arena (GroupKind × List TypeId) := {}
  /-- Whether a walk from base to base was given up because it seemed to have no end. Nothing
  that was found out since then counts. -/
  endless : Bool := false

/-! ### The primitive types -/

namespace TypeId

def unknown : TypeId := 0
def void : TypeId := 1
def int : TypeId := 2
def char : TypeId := 3
def bool : TypeId := 4
def string : TypeId := 5
def text : TypeId := 6
def real : TypeId := 7

end TypeId

namespace TypeTable

/-! ### Look-up -/

def size (table : TypeTable) : Nat := table.forms.size

/-- The form of a type; the unknown type and numbers not in use have none. -/
def form? (table : TypeTable) (id : TypeId) : Option TypeForm :=
  if id = 0 then none else table.forms[id]?

def kindOf (table : TypeTable) (id : TypeId) : TypeKind :=
  match table.form? id with
  | some form => form.kind
  | none => .invalid

def classInfo? (table : TypeTable) (id : TypeId) : Option ClassInfo :=
  match table.form? id with
  | some (.classType slot) => table.classes.get? slot
  | _ => none

def enumInfo? (table : TypeTable) (id : TypeId) : Option EnumInfo :=
  match table.form? id with
  | some (.enum slot) => table.enums.get? slot
  | _ => none

def paramInfo? (table : TypeTable) (id : TypeId) : Option ParamInfo :=
  match table.form? id with
  | some (.param slot) => table.params.get? slot
  | _ => none

/-- The elements of a tuple or the members of a union. -/
def elems (table : TypeTable) (id : TypeId) : List TypeId :=
  match table.form? id with
  | some (.tuple group) | some (.multi group) =>
    match table.groups.get? group with
    | some (_, members) => members
    | none => []
  | _ => []

/-! ### New types -/

/-- A new number for a form, whether or not it has one. -/
def push (table : TypeTable) (form : TypeForm) : TypeId × TypeTable :=
  (table.size, { table with forms := table.forms.push form })

/-- The number of a form, a new one on first sight. -/
def intern (table : TypeTable) (form : TypeForm) : TypeId × TypeTable :=
  if form = .invalid then (0, table)
  else
    match table.forms.idxOf? form with
    | some id => (id, table)
    | none => table.push form

/-- The primitive type of a name. -/
def builtin? (name : String) : Option TypeId :=
  match TypeKind.ofBuiltin? name with
  | some .int => some TypeId.int
  | some .char => some TypeId.char
  | some .bool => some TypeId.bool
  | some .string => some TypeId.string
  | some .text => some TypeId.text
  | some .real => some TypeId.real
  | some .void => some TypeId.void
  | _ => none

/-- A list of at least one dimension. -/
def makeList (table : TypeTable) (elem : TypeId) (dims : UInt8) : TypeId × TypeTable :=
  table.intern (.list elem (max dims 1))

/-- An array of at least one dimension. -/
def makeArray (table : TypeTable) (elem : TypeId) (dims : UInt8) : TypeId × TypeTable :=
  table.intern (.array elem (max dims 1))

/-- The group of some types, a new one on first sight. -/
def group (table : TypeTable) (kind : GroupKind) (ids : List TypeId) : Nat × TypeTable :=
  match table.groups.items.idxOf? (kind, ids) with
  | some index => (index + 1, table)
  | none => (table.groups.next, { table with groups := table.groups.push (kind, ids) })

def makeTuple (table : TypeTable) (elems : List TypeId) : TypeId × TypeTable :=
  let (slot, table) := table.group .tuple elems
  table.intern (.tuple slot)

/-- The known candidates, each once, in order of first occurrence. -/
def distinct (candidates : List TypeId) : List TypeId :=
  candidates.foldl
    (fun kept candidate =>
      if candidate = 0 ∨ candidate ∈ kept then kept else kept ++ [candidate]) []

/-- The union of some types. A single candidate is the union of itself, and the union of none
is the type without values. -/
def makeMulti (table : TypeTable) (candidates : List TypeId) : TypeId × TypeTable :=
  match distinct candidates with
  | [] => (TypeId.void, table)
  | [one] => (one, table)
  | members =>
    let (slot, table) := table.group .multi members
    table.intern (.multi slot)

def registerClass (table : TypeTable) (name : String) (decl : DeclId) : TypeId × TypeTable :=
  { table with classes := table.classes.push { name, decl } }.push
    (.classType table.classes.next)

def registerEnum (table : TypeTable) (name : String) (decl : DeclId) : TypeId × TypeTable :=
  { table with enums := table.enums.push { name, decl } }.push (.enum table.enums.next)

def registerParam (table : TypeTable) (name : String) (decl : DeclId)
    (constraint : Constraint) : TypeId × TypeTable :=
  { table with params := table.params.push { name, decl, constraint } }.push
    (.param table.params.next)

/-! ### Details of classes -/

def modifyClass (table : TypeTable) (id : TypeId) (change : ClassInfo → ClassInfo) :
    TypeTable :=
  match table.form? id with
  | some (.classType slot) => { table with classes := table.classes.modify slot change }
  | _ => table

/-- Records the base of a class; a class is not its own base. -/
def setBase (table : TypeTable) (id base : TypeId) : TypeTable :=
  if id = base then table else table.modifyClass id fun info => { info with base }

def setParams (table : TypeTable) (id : TypeId) (params : List TypeId) : TypeTable :=
  table.modifyClass id fun info => { info with params }

/-- The declaration behind a class or an instance of it. -/
def classDecl (table : TypeTable) (id : TypeId) : Option DeclId :=
  (table.classInfo? id).map ClassInfo.decl

end TypeTable

end TreeCheck
