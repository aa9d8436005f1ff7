/-
A program that is typed in: one unit to which declarations and statements are added, and
the session that looks at each of them as it comes.
-/

import TreeCheck.Pipeline.Session
import TreeCheck.Tree.Loader

namespace TreeCheck

/-- The unit, what was added to it so far, and the session. -/
structure Workspace where
  unit : UnitId
  loader : Loader
  session : Session

/-- What came of one submission. -/
structure Submission where
  item : Loader.Added
  diagnostics : List Diagnostic
  failure : Option SubmitError
  /-- The declaration itself, or the local variable a statement declares. -/
  declared : Option DeclId

namespace Workspace

/-- An empty unit under a path, with a session that reports to a sink. -/
def create (path : String) (source : ImportSource) (pipeline : Pipeline) (sink : Sink)
    (warningsAsErrors : Bool) (trace : Trace.Recorder) : Except LoadError Workspace :=
  match Loader.newUnit path { source } with
  | .error failure _ => .error failure
  | .ok unit loader =>
    .ok ⟨unit, loader, Session.start pipeline unit sink warningsAsErrors trace 0⟩

def tree (workspace : Workspace) : Tree := workspace.loader.tree

def analysis (workspace : Workspace) : Analysis := workspace.session.analysis

def trace (workspace : Workspace) : Trace.Recorder := workspace.analysis.trace

/-- Whether the names of a submission were looked at. -/
def resolved (workspace : Workspace) : Bool := workspace.session.started.contains .resolve

/-- Whether the types of a submission were looked at. -/
def typed (workspace : Workspace) : Bool := workspace.session.started.contains .typecheck

def typing? (workspace : Workspace) : Option Typing :=
  if workspace.typed then some workspace.analysis.typing else none

/-- Adds a declaration or statement to the unit. What was built before a failure stays. -/
def add (workspace : Workspace) (item : Doc.TopLevel) :
    Except LoadError Loader.Added × Workspace :=
  match Loader.addTopLevel workspace.unit item workspace.loader with
  | .error failure loader => (.error failure, { workspace with loader })
  | .ok added loader => (.ok added, { workspace with loader })

/-- The declaration that an item brings. -/
def declaredBy (workspace : Workspace) : Loader.Added → Option DeclId
  | .decl id => some id
  | .stmt id =>
    match (workspace.tree.stmts.get? id).map Stmt.form with
    | some (.decl id) => some id
    | _ => none

/-- Submits what was added. -/
def submit (workspace : Workspace) (item : Loader.Added) : Submission × Workspace :=
  let (session, failure) := match item with
    | .decl id => workspace.session.submitDecl workspace.tree id
    | .stmt id => workspace.session.submitStmt workspace.tree id
  let (diagnostics, session) := session.drain
  (⟨item, diagnostics, failure, workspace.declaredBy item⟩, { workspace with session })

/-- The label of the type of a declaration, if it has one. -/
def typeLabel? (workspace : Workspace) (id : DeclId) : Option String := do
  let typing ← workspace.typing?
  let type ← typing.declTypes[id]?
  return typing.types.label type

end Workspace

end TreeCheck
