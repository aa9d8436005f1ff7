/-
The state of an analysis and the monad its passes run in. A pass reads the tree, adds
to the annotations and reports diagnostics. A report may end the pass; what was
annotated before stays, and cleaning up happens whether or not a pass came to its end.

Type checking annotates the types of expressions and declarations, the types that declarations
introduce, and what calls and field accesses reach.
-/

import Std.Data.TreeMap
import TreeCheck.Diagnostic.Sink
import TreeCheck.Resolve.Resolution
import TreeCheck.Trace.Recorder
import TreeCheck.Types.Hierarchy

namespace TreeCheck

structure Typing where
  types : TypeTable := {}
  /-- The type of every visited expression; the unknown type where it could not be found. -/
  exprTypes : Std.TreeMap ExprId TypeId := ∅
  /-- The type of a variable, or of the result of a callable. -/
  declTypes : Std.TreeMap DeclId TypeId := ∅
  /-- The type a class, enum or template parameter introduces. -/
  nominal : Std.TreeMap DeclId TypeId := ∅
  /-- The member or callable an expression reaches. -/
  targets : Std.TreeMap ExprId DeclId := ∅
  /-- The key of the callable chosen for a call. -/
  callKeys : Std.TreeMap ExprId Key := ∅
  /-- Whether a callable returns directly in its body. -/
  returns : Std.TreeMap DeclId Bool := ∅
  /-- The method that a method overrides; written by the check of modifiers. -/
  overrides : Std.TreeMap DeclId DeclId := ∅
  /-- The types of written types that were needed so far. -/
  written : Std.TreeMap TypeExprId TypeId := ∅

/-- Why a pass ended early. -/
inductive Abort where
  /-- A diagnostic was raised by the sink. -/
  | raised (diagnostic : Diagnostic)
  /-- A node that was left out of the tree was needed. -/
  | missingNode
  deriving Repr

/-- How far the resolution of a unit has come. -/
inductive UnitProgress where
  | visiting | done
  deriving DecidableEq, Repr

structure Analysis where
  names : Resolution := {}
  progress : Std.TreeMap UnitId UnitProgress := ∅
  /-- Classes that were found to inherit from themselves. -/
  cyclic : List DeclId := []
  typing : Typing := {}
  sink : Sink := {}
  trace : Trace.Recorder := {}

abbrev AnalysisM := EStateM Abort Analysis

/-- Where in a program a walk is. -/
structure Place where
  /-- The innermost class around it. -/
  enclosing : Option DeclId := none
  /-- The innermost function or method around it. -/
  callable : Option DeclId := none
  /-- The name of the variable whose initial value is being walked, zero for none. -/
  declaring : NameId := 0
  /-- The span of the trace that classes are recorded under. -/
  span : Nat := 0

namespace AnalysisM

theorem bind_eq {α β : Type} {action : AnalysisM α} {next : α → AnalysisM β}
    {before after : Analysis} {value : α} (runs : action before = .ok value after) :
    (action >>= next) before = next value after := by
  show EStateM.bind action next before = _
  rw [EStateM.bind, runs]

/-- Cleans up after an action, whether or not it came to its end. -/
def ensuring {α : Type} (cleanup : Analysis → Analysis) (action : AnalysisM α) : AnalysisM α :=
  fun state =>
    match action state with
    | .ok value state => .ok value (cleanup state)
    | .error abort state => .error abort (cleanup state)

/-! ### Reporting -/

def report (diagnostic : Diagnostic) : AnalysisM Unit := fun state =>
  let (sink, raised) := state.sink.report diagnostic
  match raised with
  | some raised => .error (.raised raised) { state with sink }
  | none => .ok () { state with sink }

def error (code : Code) (span : Span) (args : List String) : AnalysisM Unit :=
  report (.error code span args)

/-! ### Scopes -/

def scopes : AnalysisM ScopeTable := return (← get).names.scopes

def modifyScopes (change : ScopeTable → ScopeTable) : AnalysisM Unit :=
  modify fun state => { state with names := { state.names with scopes := change state.names.scopes } }

def modifyNames (change : Resolution → Resolution) : AnalysisM Unit :=
  modify fun state => { state with names := change state.names }

/-- What a key means in the current scope. -/
def find? (key : Key) : AnalysisM (Option DeclId) := do
  let table ← scopes
  return table.meaning? key

def visibleNames : AnalysisM (List String) := do
  let table ← scopes
  return (table.visibleNames? table.current).getD []

/-- Runs an action in a scope that exists already. The stack of open scopes is afterwards as
deep as it was. -/
def within {α : Type} (scope : ScopeId) (action : AnalysisM α) : AnalysisM α := do
  let depth := (← scopes).depth
  modifyScopes (·.enter scope)
  ensuring
    (fun state =>
      { state with names := { state.names with scopes := state.names.scopes.truncate depth } })
    action

/-! ### Types -/

/-- Runs an operation on the table of types. -/
def inTypes {α : Type} (action : TypeM α) : AnalysisM α :=
  modifyGet fun state =>
    let (value, types) := action.run state.typing.types
    (value, { state with typing := { state.typing with types } })

def types : AnalysisM TypeTable := return (← get).typing.types

def modifyTyping (change : Typing → Typing) : AnalysisM Unit :=
  modify fun state => { state with typing := change state.typing }

/-! ### Tracing -/

/-- Runs an action inside a span of the trace, which ends without a detail. -/
def spanned {α : Type} (grain : Trace.Grain) (name : String) (parent : Nat)
    (extra : Trace.Extra) (action : Nat → AnalysisM α) : AnalysisM α := do
  let span ← modifyGet fun state =>
    let (span, trace) := state.trace.start grain name parent
    (span, { state with trace })
  let span := extra.foldl (fun span (key, value) => span.withExtra key value) span
  ensuring (fun state => { state with trace := state.trace.finish span "" }) (action span.id)

end AnalysisM

end TreeCheck
