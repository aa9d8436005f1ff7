/-
From declarations to types. A class, enum or template parameter introduces a type on
first use; a written type becomes a type once, and template arguments are checked when
that happens. The base of a class is converted after the class has its type, so that a
class that mentions itself finds it.
-/

import TreeCheck.Resolve.Types
import TreeCheck.Types.Compatible

namespace TreeCheck.TypeCheck

open AnalysisM

/-! ### Small operations -/

def label (id : TypeId) : AnalysisM String := return (← types).label id

def kindOf (id : TypeId) : AnalysisM TypeKind := return (← types).kindOf id

def compatible (left right : TypeId) : AnalysisM Bool := inTypes (TypeM.compatible left right)

/-- A list or array of some element type; a list of lists is one list of more dimensions, and
so for arrays. -/
def sequenceOf (make : TypeId → UInt8 → TypeForm) (sameKind : TypeForm → Bool) (elem : TypeId)
    (dims : UInt8) : AnalysisM TypeId := do
  if elem = 0 then return 0
  let dims := max dims 1
  match ((← types).form? elem).filter sameKind with
  | some inner => inTypes (TypeM.intern (make inner.elem (max (dims + inner.dims) 1)))
  | none => inTypes (TypeM.intern (make elem dims))

def listOf (elem : TypeId) (dims : UInt8) : AnalysisM TypeId :=
  sequenceOf .list (·.kind = .list) elem dims

def arrayOf (elem : TypeId) (dims : UInt8) : AnalysisM TypeId :=
  sequenceOf .array (·.kind = .array) elem dims

/-- Checks an argument against the constraint of a template parameter. -/
def checkConstraint (tree : Tree) (param : DeclId) (arg : TypeId) (span : Span) :
    AnalysisM Unit := do
  match (tree.decls.get? param).bind Decl.constraint? with
  | none => return
  | some constraint =>
    if (← types).satisfies constraint arg then return
    error .constraintFailed span [tree.nameOf param, ← label arg, constraint.name]

/-! ### Types of declarations and written types -/

def recordNominal (decl : DeclId) (id : TypeId) : AnalysisM Unit :=
  modifyTyping fun typing => { typing with nominal := typing.nominal.insert decl id }

/-- The type an enum or a template parameter introduces. -/
def simpleNominal (tree : Tree) (id : DeclId) : AnalysisM TypeId := do
  match (← get).typing.nominal[id]? with
  | some known => return known
  | none =>
    match tree.decls.get? id with
    | some { form := .enum _, name, .. } =>
      let type ← inTypes (modifyGet (·.registerEnum (tree.text name) id))
      recordNominal id type
      return type
    | some { form := .templateParam constraint, name, .. } =>
      let type ← inTypes (modifyGet (·.registerParam (tree.text name) id constraint))
      recordNominal id type
      return type
    | _ => return 0

/-- The type a class, enum or template parameter introduces; `typeOf` converts the base of a
class. -/
def nominalUsing (tree : Tree) (typeOf : Option TypeExprId → AnalysisM TypeId) (id : DeclId) :
    AnalysisM TypeId := do
  match (← get).typing.nominal[id]? with
  | some known => return known
  | none =>
    match tree.classBody? id with
    | none => simpleNominal tree id
    | some body =>
      let type ← inTypes (modifyGet (·.registerClass (tree.nameOf id) id))
      recordNominal id type
      if !body.typeParams.isEmpty then
        let params ← body.typeParams.mapM (simpleNominal tree)
        inTypes (modify (·.setParams type params))
      if (← get).names.bases.contains id then
        let base ← typeOf body.base
        if (← kindOf base) = .classType then inTypes (modify (·.setBase type base))
      return type

/-- The instance of a class that is written with template arguments. Their number and the
constraints are checked; an argument that was left out cannot be. -/
def instantiateWritten (tree : Tree) (typeOf : Option TypeExprId → AnalysisM TypeId)
    (span : Span) (decl : DeclId) (generic : TypeId) (args : List (Option TypeExprId)) :
    AnalysisM TypeId := do
  let params := tree.typeParamsOf decl
  if params.length ≠ args.length then
    error .templateArgCount span
      [tree.nameOf decl, toString params.length, toString args.length]
    return generic
  let argTypes ← args.mapM typeOf
  (params.zip (argTypes.zip args)).forM fun (param, argType, arg) =>
    match tree.typeAt? arg with
    | some (_, written) => checkConstraint tree param argType written.span
    | none => throw .missingNode
  inTypes (TypeM.instantiate generic argTypes)

/-- Converts a written type that was not converted before. -/
def convertUsing (tree : Tree) (typeOf : Option TypeExprId → AnalysisM TypeId)
    (id : TypeExprId) (written : TypeExpr) : AnalysisM TypeId := do
  match written.form with
  | .named name args =>
    match TypeTable.builtin? (tree.text name) with
    | some type => return type
    | none =>
      match (← get).names.typeRefs[id]? with
      | none => return 0
      | some decl =>
        let type ← nominalUsing tree typeOf decl
        if (← kindOf type) ≠ .classType ∨ args.isEmpty then return type
        instantiateWritten tree typeOf written.span decl type args
  | .list base dims => listOf (← typeOf (some base)) dims
  | .array base dims => arrayOf (← typeOf (some base)) dims
  | .tuple members => do
    let types ← members.mapM typeOf
    inTypes (TypeM.makeTuple types)
  | .union members => do
    let types ← members.mapM typeOf
    inTypes (TypeM.makeMulti types)

def typeWithin (tree : Tree) : Nat → Option TypeExprId → AnalysisM TypeId
  | 0, _ => return 0
  | fuel + 1, id => do
    match id with
    | none => return 0
    | some id =>
      match (← get).typing.written[id]? with
      | some known => return known
      | none =>
        let type ← match tree.types.get? id with
          | some written => convertUsing tree (typeWithin tree fuel) id written
          | none => pure 0
        modifyTyping fun typing => { typing with written := typing.written.insert id type }
        return type

/-- The type of a written type; the unknown type for a name that means nothing. A type waits for
its parts, which have smaller numbers, or for the base of a class that had no type before. -/
def typeOf (tree : Tree) (id : Option TypeExprId) : AnalysisM TypeId :=
  typeWithin tree ((tree.decls.size + 1) * (tree.types.size + 1)) id

/-- The type a class, enum or template parameter introduces. -/
def nominal (tree : Tree) (id : DeclId) : AnalysisM TypeId := nominalUsing tree (typeOf tree) id

/-- The type of a declaration that has one without its initial value being known. -/
def declaredType? (tree : Tree) (id : DeclId) (decl : Decl) : AnalysisM (Option TypeId) := do
  match decl.kind with
  | .localVar | .global | .field | .param =>
    match decl.type with
    | none => return none
    | some written => return some (← typeOf tree (some written))
  | .enumConst => return some (← match decl.owner with
      | some owner => nominal tree owner
      | none => pure 0)
  | .function | .method =>
    match decl.type with
    | none => return some TypeId.void
    | some written => return some (← typeOf tree (some written))
  | .classDecl | .enum | .templateParam => return some (← nominal tree id)
  | .importDecl => return none

/-- The type of a variable, the type of the result of a callable, or the type a declaration
introduces. A variable without a declared type has one once its initial value was checked. -/
def declType (tree : Tree) (id : DeclId) : AnalysisM TypeId := do
  match (← get).typing.declTypes[id]? with
  | some known => return known
  | none =>
    match tree.decls.get? id with
    | none => return 0
    | some decl =>
      match ← declaredType? tree id decl with
      | none => return 0
      | some type =>
        modifyTyping fun typing => { typing with declTypes := typing.declTypes.insert id type }
        return type

/-! ### Members seen through a receiver -/

/-- Puts the template arguments of the class that declares a member into a type, as seen from a
receiver. -/
def throughReceiver (tree : Tree) (type : TypeId) (member : DeclId) (receiver : TypeId) :
    AnalysisM TypeId := do
  match (tree.decls.get? member).bind Decl.owner with
  | none => return type
  | some owner =>
    if (← kindOf receiver) ≠ .classType then return type
    let chain ← inTypes (TypeM.ancestors receiver)
    let table ← types
    match (receiver :: chain).find? fun id => table.classDecl id = some owner with
    | none => return type
    | some id =>
      match table.classInfo? id with
      | none => return type
      | some info =>
        if info.generic = 0 then return type
        let params := ((table.classInfo? info.generic).map ClassInfo.params).getD []
        inTypes (TypeM.substitute params info.args type)

/-- The type of a field, or of the result of a method, as seen from a receiver. -/
def memberType (tree : Tree) (member : DeclId) (receiver : TypeId) : AnalysisM TypeId := do
  throughReceiver tree (← declType tree member) member receiver

end TreeCheck.TypeCheck
