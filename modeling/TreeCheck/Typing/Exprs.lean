/-
Types of expressions. Every expression that is visited gets a type; the unknown type
stands for one that could not be found, and is passed on without further complaints.
-/

import TreeCheck.Resolve.Exprs
import TreeCheck.Types.Operators
import TreeCheck.Typing.Overloads

namespace TreeCheck

def LiteralKind.type : LiteralKind → TypeId
  | .int => TypeId.int
  | .char => TypeId.char
  | .bool => TypeId.bool
  | .string => TypeId.string
  | .text => TypeId.text
  | .real => TypeId.real

namespace TypeCheck

open AnalysisM

/-- Finds the type of an expression; the second argument is what is expected of it. -/
abbrev Checker := ExprId → TypeId → AnalysisM TypeId

def recordTarget (id : ExprId) (decl : DeclId) : AnalysisM Unit :=
  modifyTyping fun typing => { typing with targets := typing.targets.insert id decl }

/-! ### Names and operators -/

def nameType (tree : Tree) (id : ExprId) : AnalysisM TypeId := do
  match (← get).names.uses[id]? with
  | none => return 0
  | some decl =>
    match tree.kindOf? decl with
    | none => return 0
    | some kind =>
      if kind.isVariable then declType tree decl
      else if kind = .classDecl ∨ kind = .enum then nominal tree decl
      else return 0

def unaryType (op : UnaryOp) (span : Span) (operand : TypeId) : AnalysisM TypeId := do
  if operand = 0 then return 0
  match (← types).unaryType? op operand with
  | some type => return type
  | none =>
    error .badOperand span [op.text, ← label operand]
    return 0

def binaryType (op : BinaryOp) (span : Span) (left right : TypeId) : AnalysisM TypeId := do
  if left = 0 ∨ right = 0 then return 0
  match ← inTypes (TypeM.binaryType? op left right) with
  | some type => return type
  | none =>
    let complaint := Diagnostic.error .badOperands span [op.text, ← label left, ← label right]
    let table ← types
    if table.castable left right && (table.familyOf left).meets .numeric then
      report (complaint.withHint .useCast [← label left])
    else report complaint
    return 0

def castType (tree : Tree) (check : Checker) (span : Span) (target : TypeExprId)
    (operand : ExprId) : AnalysisM TypeId := do
  let target ← typeOf tree (some target)
  let source ← check operand 0
  if !(← types).castable target source then
    error .invalidCast span [← label target, ← label source]
  return target

/-! ### Fields -/

/-- The field of a name that the objects of a class type have, and its type. -/
def field? (tree : Tree) (receiver : TypeId) (name : String) :
    AnalysisM (Option (DeclId × TypeId)) := do
  match (← types).classDecl receiver with
  | none => return none
  | some owner =>
    match ((← get).names.member? owner name).filter
        fun decl => tree.kindOf? decl = some .field with
    | none => return none
    | some decl => return some (decl, ← memberType tree decl receiver)

/-- The member that every candidate of a union has, if its type is the same for all; the
declaration is that of the first. -/
def commonMember (look : TypeId → AnalysisM (Option (DeclId × TypeId))) :
    List TypeId → Option (DeclId × TypeId) → AnalysisM (Option (DeclId × TypeId))
  | [], found => return found
  | candidate :: rest, found => do
    match ← look candidate with
    | none => return none
    | some (decl, type) =>
      match found with
      | none => commonMember look rest (some (decl, type))
      | some (_, common) =>
        if (← types).equal common type then commonMember look rest found else return none

/-- The names of the fields of the class behind a type. -/
def fieldNames (tree : Tree) (type : TypeId) : AnalysisM (List String) := do
  match (← types).classDecl type with
  | some owner => return (← get).names.fieldNames tree owner
  | none => return []

/-- A field found through the type of its receiver. -/
def fieldThroughType (tree : Tree) (id : ExprId) (span : Span) (receiver : TypeId)
    (name : String) : AnalysisM TypeId := do
  match ← kindOf receiver with
  | .classType =>
    match ← field? tree receiver name with
    | some (decl, type) =>
      recordTarget id decl
      return type
    | none =>
      report (Resolve.suggesting name (← fieldNames tree receiver)
        (.error .undeclaredField span [name, ← label receiver]))
      return 0
  | .multi =>
    match ← commonMember (field? tree · name) ((← types).elems receiver) none with
    | some (decl, type) =>
      recordTarget id decl
      return type
    | none =>
      error .unionMember span [name, ← label receiver]
      return 0
  | _ =>
    error .notClass span [← label receiver]
    return 0

/-- A field access. Fields of `this` and constants of enums were found by resolution, and what
is missing there was reported there. -/
def fieldType (tree : Tree) (check : Checker) (id : ExprId) (span : Span) (receiver : ExprId)
    (name : String) : AnalysisM TypeId := do
  let receiverType ← check receiver 0
  let uses := (← get).names.uses
  match uses[id]? with
  | some decl =>
    recordTarget id decl
    if tree.kindOf? decl = some .enumConst then declType tree decl
    else memberType tree decl receiverType
  | none =>
    if uses[receiver]?.bind tree.kindOf? = some .enum then return 0
    if receiverType = 0 ∨ tree.isThis receiver then return 0
    fieldThroughType tree id span receiverType name

/-! ### Indices -/

/-- An expression that has to be an integer. -/
def checkInt (tree : Tree) (check : Checker) (code : Code) (id : ExprId) : AnalysisM Unit := do
  let type ← check id TypeId.int
  if type ≠ 0 ∧ (← kindOf type) ≠ .int then error code (tree.exprSpan id) [← label type]

/-- The value of an index that is written as an integer. -/
def literalIndex? (tree : Tree) (id : ExprId) : Option Nat :=
  match (tree.exprs.get? id).map Expr.form with
  | some (.literal .int value) =>
    (Text.integer? value).bind fun index => if 0 ≤ index then some index.toNat else none
  | _ => none

def tooManyIndices (span : Span) (target : TypeId) (most : Nat) : AnalysisM TypeId := do
  error .tooManyIndices span [← label target, toString most]
  return 0

/-- What is left of a list or array behind some indices. -/
def sequenceElement (make : TypeId → UInt8 → TypeForm) (span : Span) (target elem : TypeId)
    (dims : UInt8) (count : Nat) : AnalysisM TypeId := do
  if dims.toNat < count then tooManyIndices span target dims.toNat
  else if count = dims.toNat then return elem
  else inTypes (TypeM.intern (make elem (dims - UInt8.ofNat count)))

/-- An indexed value. An element of a tuple is known if the index is written out, else it is
any of them. -/
def indexType (tree : Tree) (check : Checker) (span : Span) (target : ExprId)
    (indices : List ExprId) : AnalysisM TypeId := do
  let targetType ← check target 0
  indices.forM (checkInt tree check .indexNotInt)
  if targetType = 0 then return 0
  let table ← types
  match (table.form? targetType).getD .invalid with
  | .list elem dims => sequenceElement .list span targetType elem dims indices.length
  | .array elem dims => sequenceElement .array span targetType elem dims indices.length
  | .tuple _ =>
    let elems := table.elems targetType
    if 1 < indices.length then tooManyIndices span targetType 1
    else
      match (indices.head?.bind (literalIndex? tree)).bind (elems[·]?) with
      | some elem => return elem
      | none => inTypes (TypeM.makeMulti elems)
  | .string | .text =>
    if 1 < indices.length then tooManyIndices span targetType 1 else return TypeId.char
  | _ =>
    error .notIndexable span [← label targetType]
    return 0

/-! ### New objects and lists -/

/-- Checks what a field of a new object is set to; `seen` are the fields set before. -/
def checkInit (tree : Tree) (check : Checker) (type : TypeId) (seen : List NameId)
    (init : FieldInit) : AnalysisM (List NameId) := do
  let name := tree.text init.name
  if init.name ∈ seen then error .duplicateInitField init.span [name]
  if ((← types).classDecl type).isNone then discard (check init.value 0)
  else
    match ← field? tree type name with
    | none =>
      discard (check init.value 0)
      report (Resolve.suggesting name (← fieldNames tree type)
        (.error .unknownInitField init.span [name, ← label type]))
    | some (field, fieldType) =>
      let value ← check init.value fieldType
      if !(← compatible fieldType value) then
        let span := ((tree.decls.get? field).map Decl.span).getD {}
        report <| (Diagnostic.error .mismatchAssign (tree.exprSpan init.value)
          [← label fieldType, ← label value]).withNote span "field declared here"
  return init.name :: seen

def createType (tree : Tree) (check : Checker) (created : TypeExprId) (inits : List FieldInit) :
    AnalysisM TypeId := do
  let type ← typeOf tree (some created)
  discard (inits.foldlM (checkInit tree check type) [])
  return if ((← types).classDecl type).isSome then type else 0

/-- What the elements of a list are expected to be when the list is expected to be of some
type. -/
def elementHint (expected : TypeId) : AnalysisM TypeId := do
  match (← types).form? expected with
  | some (.list elem dims) =>
    if 1 < dims then inTypes (modifyGet (·.makeList elem (dims - 1))) else return elem
  | _ => return 0

/-- Checks an element of a list against the type of the elements, which is that of the first
one with a known type if none was given. -/
def checkElement (tree : Tree) (check : Checker) (hint elem : TypeId) (id : ExprId) :
    AnalysisM TypeId := do
  let type ← check id hint
  if elem = 0 then return type
  if !(← compatible elem type) then
    error .listElement (tree.exprSpan id) [← label elem, ← label type]
  return elem

def listType (tree : Tree) (check : Checker) (span : Span) (expected : TypeId)
    (written : Option TypeExprId) (elems : List ExprId) : AnalysisM TypeId := do
  let elem ← typeOf tree written
  if elems.isEmpty then
    if elem ≠ 0 then listOf elem 1
    else if (← kindOf expected) = .list then return expected
    else if written.isSome then return 0
    else
      error .untypedEmptyList span []
      return 0
  else
    let hint ← if elem = 0 then elementHint expected else pure elem
    let elem ← elems.foldlM (checkElement tree check hint) elem
    listOf elem 1

/-! ### Calls -/

/-- Records the callable chosen for a call. -/
def recordCall (tree : Tree) (id : ExprId) (decl : DeclId) : AnalysisM Unit := do
  recordTarget id decl
  let key := (← get).names.keys.getD decl (.ofName (tree.nameOf decl))
  modifyTyping fun typing => { typing with callKeys := typing.callKeys.insert id key }

/-- Chooses among candidates and records the choice. -/
def callAmong (tree : Tree) (id : ExprId) (span : Span) (name : String)
    (candidates : List DeclId) (args explicit : List TypeId) (receiver : TypeId) :
    AnalysisM TypeId := do
  match ← choose tree name candidates args explicit receiver span with
  | none => return 0
  | some overload =>
    recordCall tree id overload.decl
    resultType tree overload receiver

/-- A call without a receiver. -/
def callType (tree : Tree) (place : Place) (check : Checker) (id : ExprId) (span : Span)
    (name : String) (typeArgs : List (Option TypeExprId)) (args : List ExprId) :
    AnalysisM TypeId := do
  let argTypes ← args.mapM (check · 0)
  let explicit ← typeArgs.mapM (typeOf tree)
  let names := (← get).names
  let candidates := match names.uses[id]? with
    | some decl => [decl]
    | none => names.callCandidates names.scopes.current place.enclosing name
  if candidates.isEmpty then return 0
  let receiver ← match place.enclosing with
    | some owner => nominal tree owner
    | none => pure 0
  callAmong tree id span name candidates argTypes explicit receiver

/-- A call on a union: every candidate has to have a method that fits, and all results have to
be of the same type. -/
def unionCall (tree : Tree) (id : ExprId) (span : Span) (name : String) (args : List TypeId)
    (receiver : TypeId) : AnalysisM TypeId := do
  let look (candidate : TypeId) : AnalysisM (Option (DeclId × TypeId)) := do
    match (← types).classDecl candidate with
    | none => return none
    | some owner =>
      match ← pick tree args [] candidate false ((← get).names.methodCandidates owner name) with
      | .error _ => return none
      | .ok overload => return some (overload.decl, ← resultType tree overload candidate)
  match ← commonMember look ((← types).elems receiver) none with
  | some (decl, type) =>
    recordCall tree id decl
    return type
  | none =>
    error .unionMember span [name, ← label receiver]
    return 0

/-- A call on `this`, whose candidates resolution may have narrowed down. -/
def ownMethodCall (tree : Tree) (place : Place) (id : ExprId) (span : Span) (name : String)
    (args : List TypeId) (receiver : TypeId) : AnalysisM TypeId := do
  match place.enclosing with
  | none => return 0
  | some owner =>
    let names := (← get).names
    let candidates := match names.uses[id]? with
      | some decl => [decl]
      | none => names.methodCandidates owner name
    if candidates.isEmpty then return 0
    callAmong tree id span name candidates args [] receiver

def methodCallType (tree : Tree) (place : Place) (check : Checker) (id : ExprId) (span : Span)
    (receiver : ExprId) (name : String) (args : List ExprId) : AnalysisM TypeId := do
  let receiverType ← check receiver 0
  let argTypes ← args.mapM (check · 0)
  if tree.isThis receiver then ownMethodCall tree place id span name argTypes receiverType
  else
    match ← kindOf receiverType with
    | .invalid => return 0
    | .classType =>
      let owner := ((← types).classDecl receiverType).getD 0
      match (← get).names.methodCandidates owner name with
      | [] =>
        error .undeclaredMethod span [name, ← label receiverType]
        return 0
      | candidates => callAmong tree id span name candidates argTypes [] receiverType
    | .multi => unionCall tree id span name argTypes receiverType
    | _ =>
      error .notClass span [← label receiverType]
      return 0

/-! ### All expressions -/

def recordExpr (id : ExprId) (type : TypeId) : AnalysisM Unit :=
  modifyTyping fun typing => { typing with exprTypes := typing.exprTypes.insert id type }

def exprWithin (tree : Tree) (place : Place) : Nat → ExprId → TypeId → AnalysisM TypeId
  | 0, _, _ => return 0
  | fuel + 1, id, expected => do
    let check := exprWithin tree place fuel
    let type ← match tree.exprs.get? id with
      | none => pure 0
      | some expr =>
        match expr.form with
        | .literal kind _ => pure kind.type
        | .name _ => nameType tree id
        | .this =>
          match place.enclosing with
          | some owner => nominal tree owner
          | none => pure 0
        | .field receiver name => fieldType tree check id expr.span receiver (tree.text name)
        | .index target indices => indexType tree check expr.span target indices
        | .call name typeArgs args =>
          callType tree place check id expr.span (tree.text name) typeArgs args
        | .methodCall receiver name args =>
          methodCallType tree place check id expr.span receiver (tree.text name) args
        | .binary op left right => do
          let leftType ← check left 0
          let rightType ← check right leftType
          binaryType op expr.span leftType rightType
        | .unary op operand => do
          let operandType ← check operand 0
          unaryType op expr.span operandType
        | .cast target operand => castType tree check expr.span target operand
        | .create created inits => createType tree check created inits
        | .list elem elems => listType tree check expr.span expected elem elems
        | .tuple elems => do
          let elemTypes ← elems.mapM (check · 0)
          inTypes (TypeM.makeTuple elemTypes)
    recordExpr id type
    return type

/-- Finds and records the type of an expression, of which some type is expected. Its parts have
smaller numbers, so none nests deeper than there are expressions. -/
def expr (tree : Tree) (place : Place) : Checker := exprWithin tree place (tree.exprs.size + 1)

end TypeCheck

end TreeCheck
