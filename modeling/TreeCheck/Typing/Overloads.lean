/-
Which callable a call means. A candidate is taken only if the types of its parameters
equal the types of the arguments: an object of a derived class does not select a
candidate for the base class. Template parameters are bound by explicit arguments, or by
matching parameter types against argument types. An argument of unknown type fits any
parameter.
-/

import TreeCheck.Typing.Types

namespace TreeCheck.TypeCheck

open AnalysisM

/-- A callable with its template parameters and what they stand for. -/
structure Overload where
  decl : DeclId
  params : List TypeId := []
  binding : List TypeId := []

/-! ### Inference -/

/-- How deep inference looks into types. -/
def inferenceDepth : Nat := 8

/-- Binds parameters by matching a parameter type against an argument type, so many levels
deep. The first binding of a parameter stays. -/
def matchWithin (params : List TypeId) :
    Nat → List TypeId → TypeId → TypeId → TypeM (List TypeId)
  | 0, binding, _, _ => pure binding
  | levels + 1, binding, formal, actual => do
    if actual = 0 then return binding
    match params.idxOf? formal with
    | some index => return if binding[index]? = some 0 then binding.set index actual else binding
    | none =>
      let table ← get
      let pairwise (formals actuals : List TypeId) : TypeM (List TypeId) :=
        (formals.zip actuals).foldlM
          (fun binding (formal, actual) => matchWithin params levels binding formal actual) binding
      match table.form? formal, table.form? actual with
      | some (.list formalElem formalDims), some (.list actualElem actualDims) =>
        if formalDims = actualDims then
          matchWithin params levels binding formalElem actualElem
        else if formalDims < actualDims then do
          let rest ← TypeM.intern (.list actualElem (actualDims - formalDims))
          matchWithin params levels binding formalElem rest
        else return binding
      | some (.array formalElem formalDims), some (.array actualElem actualDims) =>
        if formalDims = actualDims then
          matchWithin params levels binding formalElem actualElem
        else if formalDims < actualDims then do
          let rest ← TypeM.intern (.array actualElem (actualDims - formalDims))
          matchWithin params levels binding formalElem rest
        else return binding
      | some (.tuple _), some (.tuple _) =>
        let formals := table.elems formal
        let actuals := table.elems actual
        if formals.length = actuals.length then pairwise formals actuals else return binding
      | some (.classType _), some (.classType _) =>
        match table.classInfo? formal, table.classInfo? actual with
        | some formalInfo, some actualInfo =>
          if formalInfo.generic ≠ 0 ∧ formalInfo.generic = actualInfo.generic ∧
              formalInfo.args.length = actualInfo.args.length then
            pairwise formalInfo.args actualInfo.args
          else return binding
        | _, _ => return binding
      | _, _ => return binding

/-- What the parameters stand for when parameter types meet argument types; a parameter that
is not bound stands for the unknown type. -/
def infer (params formals actuals : List TypeId) : TypeM (List TypeId) :=
  (formals.zip actuals).foldlM
    (fun binding (formal, actual) => matchWithin params (inferenceDepth + 1) binding formal actual)
    (params.map fun _ => 0)

/-! ### Choice -/

/-- Whether the parameter types, with the binding put in, equal the argument types. -/
def exactArgs (overload : Overload) : List (TypeId × TypeId) → TypeM Bool
  | [] => pure true
  | (formal, actual) :: rest => do
    if actual = 0 then return ← exactArgs overload rest
    let formal ← TypeM.substitute overload.params overload.binding formal
    if (← get).equal formal actual then exactArgs overload rest else return false

/-- What trying a candidate gave. -/
inductive Fit where
  | fits (overload : Overload)
  | misfit
  /-- It has another number of template parameters than there are explicit arguments. -/
  | wrongCount

/-- Tries one candidate. -/
def tryCandidate (tree : Tree) (args explicit : List TypeId) (receiver : TypeId) (id : DeclId) :
    AnalysisM Fit := do
  match tree.callable? id with
  | none => return .misfit
  | some callable =>
    if callable.params.length ≠ args.length then return .misfit
    let params ← callable.typeParams.mapM (nominal tree)
    let formals ← callable.params.mapM fun param => do
      throughReceiver tree (← declType tree param) id receiver
    if !explicit.isEmpty ∧ explicit.length ≠ params.length then return .wrongCount
    let binding ←
      if !explicit.isEmpty then pure explicit
      else if !params.isEmpty then inTypes (infer params formals args)
      else pure []
    let overload : Overload := { decl := id, params, binding }
    return if ← inTypes (exactArgs overload (formals.zip args)) then .fits overload else .misfit

/-- The first candidate that fits; without one, whether a number of template arguments was
wrong. -/
def pick (tree : Tree) (args explicit : List TypeId) (receiver : TypeId) (miscounted : Bool) :
    List DeclId → AnalysisM (Except Bool Overload)
  | [] => return .error miscounted
  | id :: rest => do
    match ← tryCandidate tree args explicit receiver id with
    | .fits overload => return .ok overload
    | .misfit => pick tree args explicit receiver miscounted rest
    | .wrongCount => pick tree args explicit receiver true rest

/-- Chooses a candidate and checks its template arguments, or reports that none fits. -/
def choose (tree : Tree) (name : String) (candidates : List DeclId)
    (args explicit : List TypeId) (receiver : TypeId) (span : Span) :
    AnalysisM (Option Overload) := do
  match ← pick tree args explicit receiver false candidates with
  | .ok overload =>
    ((tree.typeParamsOf overload.decl).zip overload.binding).forM fun (param, arg) =>
      checkConstraint tree param arg span
    return some overload
  | .error miscounted =>
    match miscounted, candidates with
    | true, [only] =>
      error .templateArgCount span
        [name, toString (tree.typeParamsOf only).length, toString explicit.length]
    | _, _ =>
      let labels ← args.mapM label
      error .noMatchingOverload span [name, Text.join ", " labels]
    return none

/-- The type of the result of a chosen callable, with its binding and the template arguments of
the receiver put in. -/
def resultType (tree : Tree) (overload : Overload) (receiver : TypeId) : AnalysisM TypeId := do
  let declared ← declType tree overload.decl
  let type ← inTypes (TypeM.substitute overload.params overload.binding declared)
  if receiver ≠ 0 ∧ tree.kindOf? overload.decl = some .method then
    throughReceiver tree type overload.decl receiver
  else return type

end TreeCheck.TypeCheck
