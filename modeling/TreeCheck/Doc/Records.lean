/-
Program documents as records of their own types. The records are those of the wire
forms, so a field may be missing and an item of a list may be nothing at all; which
combinations make sense is decided when a tree is built from them. Every record turns
into a `Datum` and back.
-/

import TreeCheck.Doc.Schema

namespace TreeCheck.Doc

/-! ### The records -/

/-- A range of lines and columns, counted from one; zero means unknown. -/
structure Extent where
  line : UInt32 := 0
  column : UInt32 := 0
  endLine : UInt32 := 0
  endColumn : UInt32 := 0
  deriving DecidableEq, Inhabited

structure TypeExpr where
  kind : String := ""
  name : String := ""
  args : List (Option TypeExpr) := []
  base : Option TypeExpr := none
  dims : UInt8 := 0
  elems : List (Option TypeExpr) := []
  span : Extent := {}
  deriving Inhabited

mutual

structure Expr where
  kind : String := ""
  lit : String := ""
  value : String := ""
  name : String := ""
  receiver : Option Expr := none
  target : Option Expr := none
  typeArgs : List (Option TypeExpr) := []
  args : List (Option Expr) := []
  op : String := ""
  left : Option Expr := none
  right : Option Expr := none
  operand : Option Expr := none
  type : Option TypeExpr := none
  inits : List (Option Init) := []
  elems : List (Option Expr) := []
  span : Extent := {}

structure Init where
  field : String := ""
  value : Option Expr := none
  span : Extent := {}

end

instance : Inhabited Expr := ⟨{}⟩

instance : Inhabited Init := ⟨{}⟩

/-- A global, local, field or parameter. -/
structure Variable where
  name : String := ""
  type : Option TypeExpr := none
  init : Option Expr := none
  mods : List String := []
  span : Extent := {}
  deriving Inhabited

mutual

structure Stmt where
  kind : String := ""
  stmts : List (Option Stmt) := []
  decl : Option Variable := none
  expr : Option Expr := none
  target : Option Expr := none
  value : Option Expr := none
  cond : Option Expr := none
  thenBranch : Option Stmt := none
  elseBranch : Option Stmt := none
  body : Option Stmt := none
  loopName : String := ""
  first : Option Expr := none
  last : Option Expr := none
  subject : Option Expr := none
  arms : List (Option Arm) := []
  default : Option Stmt := none
  span : Extent := {}

/-- A list that was not given is told apart from an empty one, since both are written. -/
structure Arm where
  values : Option (List (Option Expr)) := none
  body : Option Stmt := none
  span : Extent := {}

end

instance : Inhabited Stmt := ⟨{}⟩

instance : Inhabited Arm := ⟨{}⟩

structure TypeParam where
  name : String := ""
  constraint : String := ""
  span : Extent := {}
  deriving Inhabited

/-- A function, a method, or the main function. -/
structure Function where
  name : String := ""
  typeParams : List (Option TypeParam) := []
  params : List (Option Variable) := []
  result : Option TypeExpr := none
  body : List (Option Stmt) := []
  noBody : Bool := false
  mods : List String := []
  span : Extent := {}
  deriving Inhabited

structure Class where
  name : String := ""
  typeParams : List (Option TypeParam) := []
  base : Option TypeExpr := none
  fields : List (Option Variable) := []
  methods : List (Option Function) := []
  mods : List String := []
  span : Extent := {}
  deriving Inhabited

structure Constant where
  name : String := ""
  span : Extent := {}
  deriving Inhabited

structure Enumeration where
  name : String := ""
  consts : Option (List (Option Constant)) := none
  mods : List String := []
  span : Extent := {}
  deriving Inhabited

structure Import where
  path : String := ""
  span : Extent := {}
  deriving Inhabited

structure Unit where
  path : String := ""
  imports : List (Option Import) := []
  enums : List (Option Enumeration) := []
  globals : List (Option Variable) := []
  classes : List (Option Class) := []
  functions : List (Option Function) := []
  main : Option Function := none
  deriving Inhabited

/-- One declaration or statement of an interactive session. -/
structure TopLevel where
  importItem : Option Import := none
  enum : Option Enumeration := none
  global : Option Variable := none
  classItem : Option Class := none
  function : Option Function := none
  main : Option Function := none
  stmt : Option Stmt := none
  deriving Inhabited

/-- One program: the first unit is the root. -/
structure Document where
  version : Int := 0
  units : List (Option Unit) := []
  deriving Inhabited

/-! ### Scalars of a datum -/

namespace Datum

def getText : Datum → String
  | .text value => value
  | _ => ""

def getFlag : Datum → Bool
  | .flag value => value
  | _ => false

def getNumber : Datum → Int
  | .number value => value
  | _ => 0

def getTexts : Datum → List String
  | .list items _ => items.map getText
  | _ => []

def ofNat (value : Nat) : Datum := .number value

def ofTexts : List String → Datum
  | [] => .absent
  | texts => .list (texts.map .text) []

/-- A link from an optional record. -/
def ofOption {α : Type} (convert : α → Datum) : Option α → Datum
  | none => .absent
  | some value => convert value

/-- A list field that is left out when it is empty. -/
def ofItems {α : Type} (convert : α → Datum) : List (Option α) → Datum
  | [] => .absent
  | items => .list (items.map (ofOption convert)) []

end Datum

/-! ### From data -/

def Extent.ofDatum : Datum → Extent
  | .record [line, column, endLine, endColumn] =>
    { line := UInt32.ofNat line.getNumber.toNat
      column := UInt32.ofNat column.getNumber.toNat
      endLine := UInt32.ofNat endLine.getNumber.toNat
      endColumn := UInt32.ofNat endColumn.getNumber.toNat }
  | _ => {}

mutual

def TypeExpr.ofDatum? : Datum → Option TypeExpr
  | .record [kind, name, args, base, dims, elems, span] =>
    some
      { kind := kind.getText
        name := name.getText
        args := TypeExpr.itemsOfDatum args
        base := TypeExpr.ofDatum? base
        dims := UInt8.ofNat dims.getNumber.toNat
        elems := TypeExpr.itemsOfDatum elems
        span := .ofDatum span }
  | _ => none

def TypeExpr.itemsOfDatum : Datum → List (Option TypeExpr)
  | .list items _ => TypeExpr.listOfData items
  | _ => []

def TypeExpr.listOfData : List Datum → List (Option TypeExpr)
  | [] => []
  | item :: rest => TypeExpr.ofDatum? item :: TypeExpr.listOfData rest

end

mutual

def Expr.ofDatum? : Datum → Option Expr
  | .record [kind, lit, value, name, receiver, target, typeArgs, args, op, left, right, operand,
      type, inits, elems, span] =>
    some
      { kind := kind.getText
        lit := lit.getText
        value := value.getText
        name := name.getText
        receiver := Expr.ofDatum? receiver
        target := Expr.ofDatum? target
        typeArgs := TypeExpr.itemsOfDatum typeArgs
        args := Expr.itemsOfDatum args
        op := op.getText
        left := Expr.ofDatum? left
        right := Expr.ofDatum? right
        operand := Expr.ofDatum? operand
        type := TypeExpr.ofDatum? type
        inits := Init.itemsOfDatum inits
        elems := Expr.itemsOfDatum elems
        span := .ofDatum span }
  | _ => none

def Expr.itemsOfDatum : Datum → List (Option Expr)
  | .list items _ => Expr.listOfData items
  | _ => []

def Expr.listOfData : List Datum → List (Option Expr)
  | [] => []
  | item :: rest => Expr.ofDatum? item :: Expr.listOfData rest

def Init.ofDatum? : Datum → Option Init
  | .record [field, value, span] =>
    some { field := field.getText, value := Expr.ofDatum? value, span := .ofDatum span }
  | _ => none

def Init.itemsOfDatum : Datum → List (Option Init)
  | .list items _ => Init.listOfData items
  | _ => []

def Init.listOfData : List Datum → List (Option Init)
  | [] => []
  | item :: rest => Init.ofDatum? item :: Init.listOfData rest

end

def Variable.ofDatum? : Datum → Option Variable
  | .record [name, type, init, mods, span] =>
    some
      { name := name.getText
        type := TypeExpr.ofDatum? type
        init := Expr.ofDatum? init
        mods := mods.getTexts
        span := .ofDatum span }
  | _ => none

/-- The list of expressions of an arm, told apart from one that was not given. -/
def Expr.givenOfDatum? : Datum → Option (List (Option Expr))
  | .list items _ => some (Expr.listOfData items)
  | _ => none

mutual

def Stmt.ofDatum? : Datum → Option Stmt
  | .record [kind, stmts, decl, expr, target, value, cond, thenBranch, elseBranch, body, loopName,
      first, last, subject, arms, default, span] =>
    some
      { kind := kind.getText
        stmts := Stmt.itemsOfDatum stmts
        decl := Variable.ofDatum? decl
        expr := Expr.ofDatum? expr
        target := Expr.ofDatum? target
        value := Expr.ofDatum? value
        cond := Expr.ofDatum? cond
        thenBranch := Stmt.ofDatum? thenBranch
        elseBranch := Stmt.ofDatum? elseBranch
        body := Stmt.ofDatum? body
        loopName := loopName.getText
        first := Expr.ofDatum? first
        last := Expr.ofDatum? last
        subject := Expr.ofDatum? subject
        arms := Arm.itemsOfDatum arms
        default := Stmt.ofDatum? default
        span := .ofDatum span }
  | _ => none

def Stmt.itemsOfDatum : Datum → List (Option Stmt)
  | .list items _ => Stmt.listOfData items
  | _ => []

def Stmt.listOfData : List Datum → List (Option Stmt)
  | [] => []
  | item :: rest => Stmt.ofDatum? item :: Stmt.listOfData rest

def Arm.ofDatum? : Datum → Option Arm
  | .record [values, body, span] =>
    some { values := Expr.givenOfDatum? values, body := Stmt.ofDatum? body,
           span := .ofDatum span }
  | _ => none

def Arm.itemsOfDatum : Datum → List (Option Arm)
  | .list items _ => Arm.listOfData items
  | _ => []

def Arm.listOfData : List Datum → List (Option Arm)
  | [] => []
  | item :: rest => Arm.ofDatum? item :: Arm.listOfData rest

end

/-- The items of a list field, each of them a record or nothing. -/
def itemsOf {α : Type} (convert : Datum → Option α) : Datum → List (Option α)
  | .list items _ => items.map convert
  | _ => []

/-- The same, told apart from a list that was not given. -/
def givenItemsOf {α : Type} (convert : Datum → Option α) : Datum → Option (List (Option α))
  | .list items _ => some (items.map convert)
  | _ => none

def TypeParam.ofDatum? : Datum → Option TypeParam
  | .record [name, constraint, span] =>
    some { name := name.getText, constraint := constraint.getText, span := .ofDatum span }
  | _ => none

def Function.ofDatum? : Datum → Option Function
  | .record [name, typeParams, params, result, body, noBody, mods, span] =>
    some
      { name := name.getText
        typeParams := itemsOf TypeParam.ofDatum? typeParams
        params := itemsOf Variable.ofDatum? params
        result := TypeExpr.ofDatum? result
        body := Stmt.itemsOfDatum body
        noBody := noBody.getFlag
        mods := mods.getTexts
        span := .ofDatum span }
  | _ => none

def Class.ofDatum? : Datum → Option Class
  | .record [name, typeParams, base, fields, methods, mods, span] =>
    some
      { name := name.getText
        typeParams := itemsOf TypeParam.ofDatum? typeParams
        base := TypeExpr.ofDatum? base
        fields := itemsOf Variable.ofDatum? fields
        methods := itemsOf Function.ofDatum? methods
        mods := mods.getTexts
        span := .ofDatum span }
  | _ => none

def Constant.ofDatum? : Datum → Option Constant
  | .record [name, span] => some { name := name.getText, span := .ofDatum span }
  | _ => none

def Enumeration.ofDatum? : Datum → Option Enumeration
  | .record [name, consts, mods, span] =>
    some
      { name := name.getText
        consts := givenItemsOf Constant.ofDatum? consts
        mods := mods.getTexts
        span := .ofDatum span }
  | _ => none

def Import.ofDatum? : Datum → Option Import
  | .record [path, span] => some { path := path.getText, span := .ofDatum span }
  | _ => none

def Unit.ofDatum? : Datum → Option Unit
  | .record [path, imports, enums, globals, classes, functions, main] =>
    some
      { path := path.getText
        imports := itemsOf Import.ofDatum? imports
        enums := itemsOf Enumeration.ofDatum? enums
        globals := itemsOf Variable.ofDatum? globals
        classes := itemsOf Class.ofDatum? classes
        functions := itemsOf Function.ofDatum? functions
        main := Function.ofDatum? main }
  | _ => none

def TopLevel.ofDatum? : Datum → Option TopLevel
  | .record [importItem, enum, global, classItem, function, main, stmt] =>
    some
      { importItem := Import.ofDatum? importItem
        enum := Enumeration.ofDatum? enum
        global := Variable.ofDatum? global
        classItem := Class.ofDatum? classItem
        function := Function.ofDatum? function
        main := Function.ofDatum? main
        stmt := Stmt.ofDatum? stmt }
  | _ => none

def Document.ofDatum? : Datum → Option Document
  | .record [version, units] =>
    some { version := version.getNumber, units := itemsOf Unit.ofDatum? units }
  | _ => none

/-! ### To data -/

def Extent.toDatum (extent : Extent) : Datum :=
  .record [.ofNat extent.line.toNat, .ofNat extent.column.toNat, .ofNat extent.endLine.toNat,
    .ofNat extent.endColumn.toNat]

mutual

def TypeExpr.toDatum : TypeExpr → Datum
  | ⟨kind, name, args, base, dims, elems, span⟩ =>
    .record [.text kind, .text name, TypeExpr.itemsToDatum args, TypeExpr.linkToDatum base,
      .ofNat dims.toNat, TypeExpr.itemsToDatum elems, span.toDatum]

def TypeExpr.linkToDatum : Option TypeExpr → Datum
  | none => .absent
  | some value => value.toDatum

def TypeExpr.itemsToDatum : List (Option TypeExpr) → Datum
  | [] => .absent
  | item :: rest => .list (TypeExpr.linkToDatum item :: TypeExpr.listToData rest) []

def TypeExpr.listToData : List (Option TypeExpr) → List Datum
  | [] => []
  | item :: rest => TypeExpr.linkToDatum item :: TypeExpr.listToData rest

end

mutual

def Expr.toDatum : Expr → Datum
  | ⟨kind, lit, value, name, receiver, target, typeArgs, args, op, left, right, operand, type,
      inits, elems, span⟩ =>
    .record [.text kind, .text lit, .text value, .text name, Expr.linkToDatum receiver,
      Expr.linkToDatum target, TypeExpr.itemsToDatum typeArgs, Expr.itemsToDatum args, .text op,
      Expr.linkToDatum left, Expr.linkToDatum right, Expr.linkToDatum operand,
      TypeExpr.linkToDatum type, Init.itemsToDatum inits, Expr.itemsToDatum elems, span.toDatum]

def Expr.linkToDatum : Option Expr → Datum
  | none => .absent
  | some value => value.toDatum

def Expr.itemsToDatum : List (Option Expr) → Datum
  | [] => .absent
  | item :: rest => .list (Expr.linkToDatum item :: Expr.listToData rest) []

def Expr.listToData : List (Option Expr) → List Datum
  | [] => []
  | item :: rest => Expr.linkToDatum item :: Expr.listToData rest

def Init.toDatum : Init → Datum
  | ⟨field, value, span⟩ => .record [.text field, Expr.linkToDatum value, span.toDatum]

def Init.linkToDatum : Option Init → Datum
  | none => .absent
  | some value => value.toDatum

def Init.itemsToDatum : List (Option Init) → Datum
  | [] => .absent
  | item :: rest => .list (Init.linkToDatum item :: Init.listToData rest) []

def Init.listToData : List (Option Init) → List Datum
  | [] => []
  | item :: rest => Init.linkToDatum item :: Init.listToData rest

end

def Variable.toDatum (item : Variable) : Datum :=
  .record [.text item.name, TypeExpr.linkToDatum item.type, Expr.linkToDatum item.init,
    .ofTexts item.mods, item.span.toDatum]

/-- A list that is written even when it is empty, and as nothing when it was not given. -/
def Expr.givenToDatum : Option (List (Option Expr)) → Datum
  | none => .absent
  | some items => .list (Expr.listToData items) []

mutual

def Stmt.toDatum : Stmt → Datum
  | ⟨kind, stmts, decl, expr, target, value, cond, thenBranch, elseBranch, body, loopName, first,
      last, subject, arms, default, span⟩ =>
    .record [.text kind, Stmt.itemsToDatum stmts, .ofOption Variable.toDatum decl,
      Expr.linkToDatum expr, Expr.linkToDatum target, Expr.linkToDatum value,
      Expr.linkToDatum cond, Stmt.linkToDatum thenBranch, Stmt.linkToDatum elseBranch,
      Stmt.linkToDatum body, .text loopName, Expr.linkToDatum first, Expr.linkToDatum last,
      Expr.linkToDatum subject, Arm.itemsToDatum arms, Stmt.linkToDatum default, span.toDatum]

def Stmt.linkToDatum : Option Stmt → Datum
  | none => .absent
  | some value => value.toDatum

def Stmt.itemsToDatum : List (Option Stmt) → Datum
  | [] => .absent
  | item :: rest => .list (Stmt.linkToDatum item :: Stmt.listToData rest) []

def Stmt.listToData : List (Option Stmt) → List Datum
  | [] => []
  | item :: rest => Stmt.linkToDatum item :: Stmt.listToData rest

def Arm.toDatum : Arm → Datum
  | ⟨values, body, span⟩ =>
    .record [Expr.givenToDatum values, Stmt.linkToDatum body, span.toDatum]

def Arm.linkToDatum : Option Arm → Datum
  | none => .absent
  | some value => value.toDatum

def Arm.itemsToDatum : List (Option Arm) → Datum
  | [] => .absent
  | item :: rest => .list (Arm.linkToDatum item :: Arm.listToData rest) []

def Arm.listToData : List (Option Arm) → List Datum
  | [] => []
  | item :: rest => Arm.linkToDatum item :: Arm.listToData rest

end

def TypeParam.toDatum (param : TypeParam) : Datum :=
  .record [.text param.name, .text param.constraint, param.span.toDatum]

def Function.toDatum (function : Function) : Datum :=
  .record [.text function.name, .ofItems TypeParam.toDatum function.typeParams,
    .ofItems Variable.toDatum function.params, TypeExpr.linkToDatum function.result,
    Stmt.itemsToDatum function.body, .flag function.noBody, .ofTexts function.mods,
    function.span.toDatum]

def Class.toDatum (item : Class) : Datum :=
  .record [.text item.name, .ofItems TypeParam.toDatum item.typeParams,
    TypeExpr.linkToDatum item.base, .ofItems Variable.toDatum item.fields,
    .ofItems Function.toDatum item.methods, .ofTexts item.mods, item.span.toDatum]

def Constant.toDatum (constant : Constant) : Datum :=
  .record [.text constant.name, constant.span.toDatum]

def Enumeration.toDatum (enum : Enumeration) : Datum :=
  .record [.text enum.name,
    match enum.consts with
    | none => .absent
    | some consts => .list (consts.map (.ofOption Constant.toDatum)) [],
    .ofTexts enum.mods, enum.span.toDatum]

def Import.toDatum (item : Import) : Datum := .record [.text item.path, item.span.toDatum]

def Unit.toDatum (unit : Unit) : Datum :=
  .record [.text unit.path, .ofItems Import.toDatum unit.imports,
    .ofItems Enumeration.toDatum unit.enums, .ofItems Variable.toDatum unit.globals,
    .ofItems Class.toDatum unit.classes, .ofItems Function.toDatum unit.functions,
    .ofOption Function.toDatum unit.main]

def Document.toDatum (document : Document) : Datum :=
  .record [.number document.version, .list (document.units.map (.ofOption Unit.toDatum)) []]

end TreeCheck.Doc
