/-
Building a tree from documents. Nodes are allocated bottom up, each after the nodes it
refers to, and in the order in which the fields of a record are used; the numbers of a
tree are therefore a function of the document. Units are kept by their cleaned path:
a unit is registered before its contents are built, so an import that leads back to it
finds it, and two imports of one path share one unit. What was built before a fault
stays in the loader. A fault inside a unit names the place and the sort of node it was found at.
-/

import TreeCheck.Doc.Records
import TreeCheck.Text.Quoted
import TreeCheck.Tree.Nodes

namespace TreeCheck

/-- What is wrong with a node. -/
inductive NodeFault where
  | unknownModifier (word : String)
  | unknownConstraint (word : String)
  | unknownType (kind : String)
  | unknownStatement (kind : String)
  | unknownExpression (kind : String)
  | unknownLiteral (kind : String)
  | unknownOperator (text : String)
  | missingDeclaration
  | missingName
  | missingExpression
  | missingBody
  | missingThen
  | missingLoopVariable
  | missingIndices
  | missingTargetType
  | missingClass
  | namelessType
  | baselessType (kind : String)
  | shortUnion
  /-- The source of imported units failed. -/
  | importFailed (message : String)
  deriving DecidableEq, Repr

namespace NodeFault

def message : NodeFault → String
  | .unknownModifier word => "unknown modifier " ++ Text.quoted word
  | .unknownConstraint word => "unknown constraint " ++ Text.quoted word
  | .unknownType kind => "unknown type kind " ++ Text.quoted kind
  | .unknownStatement kind => "unknown statement kind " ++ Text.quoted kind
  | .unknownExpression kind => "unknown expression kind " ++ Text.quoted kind
  | .unknownLiteral kind => "unknown literal kind " ++ Text.quoted kind
  | .unknownOperator text => "unknown operator " ++ Text.quoted text
  | .missingDeclaration => "missing declaration"
  | .missingName => "missing name"
  | .missingExpression => "missing expression"
  | .missingBody => "missing body"
  | .missingThen => "missing then branch"
  | .missingLoopVariable => "missing loop variable"
  | .missingIndices => "missing indices"
  | .missingTargetType => "missing target type"
  | .missingClass => "missing class"
  | .namelessType => "named type without a name"
  | .baselessType kind => s!"{kind} type without a base"
  | .shortUnion => "union needs at least two members"
  | .importFailed message => message

end NodeFault

inductive LoadError where
  /-- A faulty node: the unit and position it was read from, the sort of node, the fault. -/
  | node (path : String) (line column : UInt32) (subject : String) (fault : NodeFault)
  | emptyDocument
  | nothingToAdd
  | emptyDeclaration
  /-- A list item that cannot be missing was missing; no error describes it. -/
  | crash
  deriving DecidableEq, Repr

namespace LoadError

def message : LoadError → String
  | .node path line column subject fault =>
    s!"{path}:{line}:{column}: {subject}: {fault.message}"
  | .emptyDocument => "malformed tree: empty document"
  | .nothingToAdd => "malformed tree: nothing to add"
  | .emptyDeclaration => "malformed tree: empty declaration"
  | .crash => ""

end LoadError

end TreeCheck

namespace TreeCheck

/-- Where the units come from that an import names and the document lacks. -/
structure ImportSource where
  /-- The unit of an import path: an error message, no unit, or the unit. -/
  find : String → Except String (Option Doc.Unit) := fun _ => .ok none
  /-- No chain of imports through different units is longer. -/
  bound : Nat := 0

structure Loader where
  tree : Tree := {}
  files : Files := {}
  /-- The unit of every cleaned path, the latest registration first. -/
  units : List (String × UnitId) := []
  /-- The import paths that were looked for outside the document, in order. -/
  asked : Array String := #[]
  source : ImportSource := {}

/-- Loading keeps what it has built when it fails. -/
abbrev LoadM := EStateM LoadError Loader

namespace Loader

def unit? (loader : Loader) (path : String) : Option UnitId := loader.units.lookup path

end Loader

/-! ### Allocation -/

namespace LoadM

def modifyTree (change : Tree → Tree) : LoadM PUnit :=
  modify fun loader => { loader with tree := change loader.tree }

def intern (text : String) : LoadM NameId :=
  modifyGet fun loader =>
    let (id, names) := loader.tree.names.intern text
    (id, { loader with tree := { loader.tree with names } })

def newDecl (decl : Decl) : LoadM DeclId :=
  modifyGet fun loader =>
    (loader.tree.decls.next,
      { loader with tree := { loader.tree with decls := loader.tree.decls.push decl } })

def newStmt (stmt : Stmt) : LoadM StmtId :=
  modifyGet fun loader =>
    (loader.tree.stmts.next,
      { loader with tree := { loader.tree with stmts := loader.tree.stmts.push stmt } })

def newExpr (expr : Expr) : LoadM ExprId :=
  modifyGet fun loader =>
    (loader.tree.exprs.next,
      { loader with tree := { loader.tree with exprs := loader.tree.exprs.push expr } })

def newType (type : TypeExpr) : LoadM TypeExprId :=
  modifyGet fun loader =>
    (loader.tree.types.next,
      { loader with tree := { loader.tree with types := loader.tree.types.push type } })

def modifyDecl (id : DeclId) (change : Decl → Decl) : LoadM PUnit :=
  modifyTree fun tree => { tree with decls := tree.decls.modify id change }

/-- Declarations inside another one point back at it. -/
def adopt (owner : DeclId) : List DeclId → LoadM PUnit
  | [] => pure ⟨⟩
  | child :: rest => do
    modifyDecl child fun decl => { decl with owner := some owner }
    adopt owner rest

def modifyUnit (id : UnitId) (change : ProgramUnit → ProgramUnit) : LoadM PUnit :=
  modifyTree fun tree => { tree with units := tree.units.modify id change }

end LoadM

/-! ### Places -/

/-- The file whose nodes are being built, and the path its faults are reported under. -/
structure BuildPlace where
  file : FileId
  path : String

namespace BuildPlace

def span (place : BuildPlace) (extent : Doc.Extent) : Span :=
  let start : Position := ⟨extent.line, extent.column⟩
  if extent.endLine = 0 then ⟨place.file, start, start⟩
  else ⟨place.file, start, ⟨extent.endLine, extent.endColumn⟩⟩

/-- Gives up at a faulty node. -/
def fail {α : Type} (place : BuildPlace) (subject : String) (extent : Doc.Extent)
    (fault : NodeFault) : LoadM α :=
  throw (.node place.path extent.line extent.column subject fault)

end BuildPlace

open LoadM

namespace Build

variable (place : BuildPlace)

def modifiers (subject : String) (extent : Doc.Extent) (mods : Modifiers) :
    List String → LoadM Modifiers
  | [] => pure mods
  | word :: rest =>
    match Modifiers.ofKeyword? word with
    | some one => modifiers subject extent (mods.union one) rest
    | none => place.fail subject extent (.unknownModifier word)

/-! ### Types -/

mutual

def typeExpr : Doc.TypeExpr → LoadM TypeExprId
  | ⟨kind, name, args, base, dims, elems, extent⟩ => do
    let span := place.span extent
    if kind = "named" then
      if name = "" then place.fail "type" extent .namelessType
      let name ← intern name
      let args ← typeExprs args
      newType ⟨.named name args, span⟩
    else if kind = "list" ∨ kind = "array" then
      match base with
      | none => place.fail "type" extent (.baselessType kind)
      | some base =>
        let base ← typeExpr base
        let dims := max dims 1
        newType ⟨if kind = "list" then .list base dims else .array base dims, span⟩
    else if kind = "tuple" then
      let elems ← typeExprs elems
      newType ⟨.tuple elems, span⟩
    else if kind = "union" then
      if elems.length < 2 then place.fail "type" extent .shortUnion
      let elems ← typeExprs elems
      newType ⟨.union elems, span⟩
    else place.fail "type" extent (.unknownType kind)

def optionalType : Option Doc.TypeExpr → LoadM (Option TypeExprId)
  | none => pure none
  | some type => do return some (← typeExpr type)

def typeExprs : List (Option Doc.TypeExpr) → LoadM (List (Option TypeExprId))
  | [] => pure []
  | type :: rest => do
    let id ← optionalType type
    let ids ← typeExprs rest
    return id :: ids

end

/-! ### Expressions -/

def identifier (subject : String) (extent : Doc.Extent) (name : String) : LoadM NameId :=
  if name = "" then place.fail subject extent .missingName else intern name

mutual

def expr : Doc.Expr → LoadM ExprId
  | ⟨kind, lit, value, name, receiver, target, typeArgs, args, op, left, right, operand, type,
      inits, elems, extent⟩ => do
    let span := place.span extent
    match kind with
    | "lit" =>
      match LiteralKind.ofText? lit with
      | some kind => newExpr ⟨.literal kind value, span⟩
      | none => place.fail "literal" extent (.unknownLiteral lit)
    | "name" =>
      let name ← identifier place "name" extent name
      newExpr ⟨.name name, span⟩
    | "this" => newExpr ⟨.this, span⟩
    | "field" =>
      let receiver ← needed "field receiver" extent receiver
      let name ← identifier place "field" extent name
      newExpr ⟨.field receiver name, span⟩
    | "index" =>
      if args.isEmpty then place.fail "index" extent .missingIndices
      let target ← needed "indexed value" extent target
      let args ← elements args
      newExpr ⟨.index target args, span⟩
    | "call" =>
      let name ← identifier place "call" extent name
      let typeArgs ← typeExprs place typeArgs
      let args ← elements args
      newExpr ⟨.call name typeArgs args, span⟩
    | "mcall" =>
      let receiver ← needed "method receiver" extent receiver
      let name ← identifier place "method call" extent name
      let args ← elements args
      newExpr ⟨.methodCall receiver name args, span⟩
    | "binary" =>
      match BinaryOp.ofText? op with
      | none => place.fail "binary" extent (.unknownOperator op)
      | some op =>
        let left ← needed "left operand" extent left
        let right ← needed "right operand" extent right
        newExpr ⟨.binary op left right, span⟩
    | "unary" =>
      match UnaryOp.ofText? op with
      | none => place.fail "unary" extent (.unknownOperator op)
      | some op =>
        let operand ← needed "operand" extent operand
        newExpr ⟨.unary op operand, span⟩
    | "cast" =>
      match type with
      | none => place.fail "cast" extent .missingTargetType
      | some type =>
        let type ← typeExpr place type
        let operand ← needed "cast operand" extent operand
        newExpr ⟨.cast type operand, span⟩
    | "new" =>
      match type with
      | none => place.fail "new" extent .missingClass
      | some type =>
        let inits ← fieldInits inits
        let type ← typeExpr place type
        newExpr ⟨.create type inits, span⟩
    | "list" =>
      let type ← optionalType place type
      let elems ← elements elems
      newExpr ⟨.list type elems, span⟩
    | "tuple" =>
      let elems ← elements elems
      newExpr ⟨.tuple elems, span⟩
    | kind => place.fail "expression" extent (.unknownExpression kind)

/-- An expression that has to be there. -/
def needed (subject : String) (extent : Doc.Extent) : Option Doc.Expr → LoadM ExprId
  | none => place.fail subject extent .missingExpression
  | some value => expr value

def elements : List (Option Doc.Expr) → LoadM (List ExprId)
  | [] => pure []
  | element :: rest => do
    let id ← needed "element" {} element
    let ids ← elements rest
    return id :: ids

def fieldInit : Doc.Init → LoadM FieldInit
  | ⟨field, value, extent⟩ => do
    let name ← intern field
    let value ← needed ("field " ++ field) extent value
    return ⟨name, value, place.span extent⟩

def optionalInit : Option Doc.Init → LoadM FieldInit
  | none => throw .crash
  | some init => fieldInit init

def fieldInits : List (Option Doc.Init) → LoadM (List FieldInit)
  | [] => pure []
  | init :: rest => do
    let init ← optionalInit init
    let inits ← fieldInits rest
    return init :: inits

end

def optionalExpr : Option Doc.Expr → LoadM (Option ExprId)
  | none => pure none
  | some value => do return some (← expr place value)

/-! ### Variables -/

def variableDecl (kind : VariableKind) (item : Doc.Variable) : LoadM DeclId := do
  if item.name = "" then place.fail kind.declKind.name item.span .missingName
  let name ← intern item.name
  let type ← optionalType place item.type
  let init ← optionalExpr place item.init
  let mods ← modifiers place item.name item.span .none item.mods
  newDecl { form := .variable kind, name, type, init, mods, span := place.span item.span }

def optionalVariable (kind : VariableKind) : Option Doc.Variable → LoadM DeclId
  | none => place.fail kind.declKind.name {} .missingDeclaration
  | some item => variableDecl place kind item

def variableDecls (kind : VariableKind) : List (Option Doc.Variable) → LoadM (List DeclId)
  | [] => pure []
  | item :: rest => do
    let id ← optionalVariable place kind item
    let ids ← variableDecls kind rest
    return id :: ids

/-! ### Statements -/

/-- The values of an arm. -/
def armValues (extent : Doc.Extent) : List (Option Doc.Expr) → LoadM (List ExprId)
  | [] => pure []
  | value :: rest => do
    let id ← needed place "case value" extent value
    let ids ← armValues extent rest
    return id :: ids

mutual

def stmt : Doc.Stmt → LoadM StmtId
  | ⟨kind, stmts, decl, value, target, assigned, cond, thenBranch, elseBranch, body, loopName,
      first, last, subject, arms, default, extent⟩ => do
    let span := place.span extent
    match kind with
    | "block" =>
      let stmts ← stmtList stmts
      newStmt ⟨.block stmts, span⟩
    | "local" =>
      match decl with
      | none => place.fail "local" extent .missingDeclaration
      | some decl =>
        let decl ← variableDecl place .localVar decl
        newStmt ⟨.decl decl, span⟩
    | "expr" =>
      let value ← needed place "expression statement" extent value
      newStmt ⟨.expr value, span⟩
    | "assign" =>
      let target ← needed place "assignment target" extent target
      let assigned ← needed place "assigned value" extent assigned
      newStmt ⟨.assign target assigned, span⟩
    | "if" =>
      match thenBranch with
      | none => place.fail "if" extent .missingThen
      | some thenBranch =>
        let cond ← needed place "condition" extent cond
        let thenBranch ← stmt thenBranch
        let elseBranch ← optionalStmt elseBranch
        newStmt ⟨.branch cond thenBranch elseBranch, span⟩
    | "while" =>
      let cond ← needed place "condition" extent cond
      let body ← neededStmt "while" extent body
      newStmt ⟨.whileLoop cond body, span⟩
    | "for" =>
      if loopName = "" then place.fail "for" extent .missingLoopVariable
      let name ← intern loopName
      let int ← intern "Int"
      let type ← newType ⟨.named int [], span⟩
      let counter ← newDecl { form := .variable .localVar, name, type := some type, span }
      let first ← needed place "range start" extent first
      let last ← needed place "range end" extent last
      let body ← neededStmt "for" extent body
      newStmt ⟨.forLoop counter first last body, span⟩
    | "case" =>
      let arms ← armList arms
      let subject ← needed place "case subject" extent subject
      let default ← optionalStmt default
      newStmt ⟨.case subject arms default, span⟩
    | "return" =>
      let value ← optionalExpr place assigned
      newStmt ⟨.ret value, span⟩
    | kind => place.fail "statement" extent (.unknownStatement kind)

def optionalStmt : Option Doc.Stmt → LoadM (Option StmtId)
  | none => pure none
  | some item => do return some (← stmt item)

/-- A statement that has to be there. -/
def neededStmt (subject : String) (extent : Doc.Extent) : Option Doc.Stmt → LoadM StmtId
  | none => place.fail subject extent .missingBody
  | some item => stmt item

def stmtList : List (Option Doc.Stmt) → LoadM (List (Option StmtId))
  | [] => pure []
  | item :: rest => do
    let id ← optionalStmt item
    let ids ← stmtList rest
    return id :: ids

def arm : Doc.Arm → LoadM CaseArm
  | ⟨values, body, extent⟩ => do
    let values ← armValues place extent (values.getD [])
    let body ← neededStmt "case arm" extent body
    return ⟨values, body, place.span extent⟩

def optionalArm : Option Doc.Arm → LoadM CaseArm
  | none => throw .crash
  | some item => arm item

def armList : List (Option Doc.Arm) → LoadM (List CaseArm)
  | [] => pure []
  | item :: rest => do
    let one ← optionalArm item
    let arms ← armList rest
    return one :: arms

end

/-! ### Other declarations -/

def typeParam (param : Doc.TypeParam) : LoadM DeclId :=
  match Constraint.ofText? param.constraint with
  | none =>
    place.fail ("template parameter " ++ param.name) param.span
      (.unknownConstraint param.constraint)
  | some constraint => do
    let name ← intern param.name
    newDecl { form := .templateParam constraint, name, span := place.span param.span }

def typeParams : List (Option Doc.TypeParam) → LoadM (List DeclId)
  | [] => pure []
  | none :: _ => throw .crash
  | some param :: rest => do
    let id ← typeParam place param
    let ids ← typeParams rest
    return id :: ids

/-- Builds the template parameters of a declaration and attaches them. -/
def attachTypeParams (owner : DeclId) (params : List (Option Doc.TypeParam)) : LoadM PUnit := do
  let ids ← typeParams place params
  unless ids.isEmpty do
    modifyDecl owner (·.withTypeParams ids)
    adopt owner ids

/-- A function, or a method when `method` is set. -/
def function (method : Bool) (item : Doc.Function) : LoadM DeclId := do
  let params ← variableDecls place .param item.params
  let body ← if item.noBody then pure none else do
    let stmts ← stmtList place item.body
    let block ← newStmt ⟨.block stmts, place.span item.span⟩
    pure (some block)
  let name ← intern item.name
  let type ← optionalType place item.result
  let mods ← modifiers place item.name item.span .none item.mods
  let callable : Callable := { params, body }
  let form := if method then .method callable else .function callable
  let id ← newDecl { form, name, type, mods, span := place.span item.span }
  adopt id params
  attachTypeParams place id item.typeParams
  return id

def functions (method : Bool) : List (Option Doc.Function) → LoadM (List DeclId)
  | [] => pure []
  | none :: _ => throw .crash
  | some item :: rest => do
    let id ← function place method item
    let ids ← functions method rest
    return id :: ids

def classDecl (item : Doc.Class) : LoadM DeclId := do
  let fields ← variableDecls place .field item.fields
  let methods ← functions place true item.methods
  let name ← intern item.name
  let base ← optionalType place item.base
  let mods ← modifiers place item.name item.span .none item.mods
  let id ← newDecl
    { form := .classDecl { base, fields, methods }, name, mods, span := place.span item.span }
  adopt id fields
  adopt id methods
  attachTypeParams place id item.typeParams
  return id

def enumConsts : List (Option Doc.Constant) → LoadM (List DeclId)
  | [] => pure []
  | none :: _ => throw .crash
  | some item :: rest => do
    let name ← intern item.name
    let id ← newDecl
      { form := .variable .enumConst, name, mods := .const, span := place.span item.span }
    let ids ← enumConsts rest
    return id :: ids

def enumDecl (item : Doc.Enumeration) : LoadM DeclId := do
  let consts ← enumConsts place (item.consts.getD [])
  let name ← intern item.name
  let mods ← modifiers place ("enum " ++ item.name) item.span .none item.mods
  let id ← newDecl { form := .enum consts, name, mods, span := place.span item.span }
  adopt id consts
  return id

/-- An import of a unit that was found, or of none. -/
def importDecl (item : Doc.Import) (target : Option UnitId) : LoadM DeclId := do
  let name ← intern item.path
  newDecl { form := .importDecl item.path target, name, span := place.span item.span }

/-- Builds the declarations of one sort and appends each to the unit as soon as it is
complete. A missing item ends the load. -/
def appendEach {α : Type} (unit : UnitId) (build : α → LoadM DeclId)
    (append : DeclId → ProgramUnit → ProgramUnit) : List (Option α) → LoadM PUnit
  | [] => pure ⟨⟩
  | none :: _ => throw .crash
  | some item :: rest => do
    let id ← build item
    modifyUnit unit (append id)
    appendEach unit build append rest

/-- The same for variables, where a missing item is a fault of its own. -/
def appendVariables (unit : UnitId) (kind : VariableKind)
    (append : DeclId → ProgramUnit → ProgramUnit) : List (Option Doc.Variable) → LoadM PUnit
  | [] => pure ⟨⟩
  | item :: rest => do
    let id ← optionalVariable place kind item
    modifyUnit unit (append id)
    appendVariables unit kind append rest

end Build

/-! ### Appending to a unit -/

namespace ProgramUnit

def addImport (id : DeclId) (unit : ProgramUnit) : ProgramUnit :=
  { unit with imports := unit.imports ++ [id] }

def addEnum (id : DeclId) (unit : ProgramUnit) : ProgramUnit :=
  { unit with enums := unit.enums ++ [id] }

def addGlobal (id : DeclId) (unit : ProgramUnit) : ProgramUnit :=
  { unit with globals := unit.globals ++ [id] }

def addClass (id : DeclId) (unit : ProgramUnit) : ProgramUnit :=
  { unit with classes := unit.classes ++ [id] }

def addFunction (id : DeclId) (unit : ProgramUnit) : ProgramUnit :=
  { unit with functions := unit.functions ++ [id] }

def setMain (id : DeclId) (unit : ProgramUnit) : ProgramUnit := { unit with main := some id }

def addStmt (id : StmtId) (unit : ProgramUnit) : ProgramUnit :=
  { unit with stmts := unit.stmts ++ [id] }

end ProgramUnit

/-! ### Units -/

/-- The units of a document an import can reach, the last of a path winning. -/
abbrev UnitsByPath := List (String × Doc.Unit)

namespace LoadM

/-- Registers an empty unit under its cleaned path. -/
def registerUnit (path : String) (flags : FileFlags) : LoadM (UnitId × FileId) :=
  modifyGet fun loader =>
    let (file, files) := loader.files.add path flags
    let id := loader.tree.units.next
    let unit : ProgramUnit := { file, span := .point file 1 1 }
    ((id, file),
      { loader with
        files
        tree := { loader.tree with units := loader.tree.units.push unit }
        units := (Text.Path.clean path, id) :: loader.units })

/-- Looks for a unit outside the document, and notes that it did. -/
def ask (path : String) : LoadM (Except String (Option Doc.Unit)) :=
  modifyGet fun loader =>
    (loader.source.find path, { loader with asked := loader.asked.push path })

end LoadM

mutual

/-- Builds a unit unless its path is built already. The fuel bounds how many units may be
under construction at once. -/
def Build.unit (fuel : Nat) (byPath : UnitsByPath) (isImported : Bool) (item : Doc.Unit) :
    LoadM UnitId := do
  let key := Text.Path.clean item.path
  match (← get).unit? key with
  | some id => return id
  | none =>
    match fuel with
    | 0 => throw .crash
    | fuel + 1 =>
      let (id, file) ← registerUnit key (if isImported then .imported else 0)
      let place : BuildPlace := ⟨file, key⟩
      appendEach id (Build.importOf fuel byPath place) .addImport item.imports
      appendEach id (Build.enumDecl place) .addEnum item.enums
      Build.appendVariables place id .global .addGlobal item.globals
      appendEach id (Build.classDecl place) .addClass item.classes
      appendEach id (Build.function place false) .addFunction item.functions
      match item.main with
      | none => pure ⟨⟩
      | some main =>
        let main ← Build.function place false main
        modifyUnit id (.setMain main)
      return id
termination_by (fuel, 0)

/-- Builds an import, and first the unit it leads to: one built already, one of the document,
or one from outside. -/
def Build.importOf (fuel : Nat) (byPath : UnitsByPath) (place : BuildPlace)
    (item : Doc.Import) : LoadM DeclId := do
  let key := Text.Path.clean item.path
  let target ← match (← get).unit? key with
    | some id => pure (some id)
    | none =>
      match byPath.lookup key with
      | some found => do
        let id ← Build.unit fuel byPath true found
        pure (some id)
      | none =>
        match ← ask item.path with
        | .error message => place.fail "import" item.span (.importFailed message)
        | .ok none => pure none
        | .ok (some found) => do
          let id ← Build.unit fuel byPath true found
          pure (some id)
  Build.importDecl place item target
termination_by (fuel, 1)

end

/-! ### Whole documents and single declarations -/

namespace Loader

/-- How many units can be under construction at once. -/
def unitBound (loader : Loader) (units : Nat) : Nat := units + loader.source.bound + 1

/-- The units behind the root by cleaned path; of two with one path the later counts. -/
def unitsByPath (units : List (Option Doc.Unit)) : UnitsByPath :=
  (units.filterMap fun unit => unit.map fun unit => (Text.Path.clean unit.path, unit)).reverse

/-- Builds every unit of a document that its root reaches. -/
def load (document : Doc.Document) : LoadM UnitId :=
  match document.units with
  | [] => throw .emptyDocument
  | none :: _ => throw .crash
  | some root :: others => do
    Build.unit ((← get).unitBound document.units.length) (unitsByPath others) false root

/-- Registers an empty unit, to which declarations are then added one by one. -/
def newUnit (path : String) : LoadM UnitId := do
  let (id, _) ← registerUnit path .inMemory
  return id

/-- What was added to a unit. -/
inductive Added where
  | decl (id : DeclId)
  | stmt (id : StmtId)
  deriving DecidableEq, Repr

/-- Builds one declaration or statement and appends it to a unit. Of several the first of
statement, import, enum, global, class, function and main counts. -/
def addTopLevel (unit : UnitId) (item : Doc.TopLevel) : LoadM Added := do
  match (← get).tree.units.get? unit with
  | none => throw .nothingToAdd
  | some node =>
    let place : BuildPlace := ⟨node.file, (← get).files.display node.file⟩
    let add (id : DeclId) (append : DeclId → ProgramUnit → ProgramUnit) : LoadM Added := do
      modifyUnit unit (append id)
      return .decl id
    match item.stmt with
    | some stmt =>
      let id ← Build.stmt place stmt
      modifyUnit unit (.addStmt id)
      return .stmt id
    | none =>
      match item with
      | { importItem := some found, .. } =>
        add (← Build.importOf ((← get).unitBound 0) [] place found) .addImport
      | { enum := some found, .. } => add (← Build.enumDecl place found) .addEnum
      | { global := some found, .. } => add (← Build.variableDecl place .global found) .addGlobal
      | { classItem := some found, .. } => add (← Build.classDecl place found) .addClass
      | { function := some found, .. } =>
        add (← Build.function place false found) .addFunction
      | { main := some found, .. } => add (← Build.function place false found) .setMain
      | _ => throw .emptyDeclaration

end Loader

end TreeCheck
