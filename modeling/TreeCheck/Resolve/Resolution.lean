/-
What name resolution finds out about a program: the scopes, where every declaration is
bound and under which key, what every name refers to, and the bases of classes. The
questions that later passes ask are answered from these tables alone: the chain of
bases of a class, its members, and the callables a call may mean. A check of the tables
reports every violation of their invariants: the table of scopes is sound, a declaration that is
recorded as bound is what its scope holds, a scope that is recorded for a declaration or statement
belongs to it, and uses and bases lead to declarations.
-/

import Std.Data.TreeMap
import TreeCheck.Scope.Validate

namespace TreeCheck

structure Resolution where
  scopes : ScopeTable := {}
  /-- The global scope of every unit. -/
  units : Std.TreeMap UnitId ScopeId := ∅
  /-- The units in the order in which they were finished, imported ones first. -/
  unitOrder : List UnitId := []
  /-- The scope a class, function or method opens. -/
  scopeOfDecl : Std.TreeMap DeclId ScopeId := ∅
  /-- The scope a block, branch or loop opens. -/
  scopeOfStmt : Std.TreeMap StmtId ScopeId := ∅
  /-- The scope a declaration is bound in. -/
  declScope : Std.TreeMap DeclId ScopeId := ∅
  /-- The key a declaration is bound under. -/
  keys : Std.TreeMap DeclId Key := ∅
  /-- The declaration an expression refers to; of a call only when there is just one candidate. -/
  uses : Std.TreeMap ExprId DeclId := ∅
  /-- The class, enum or template parameter a written type refers to. -/
  typeRefs : Std.TreeMap TypeExprId DeclId := ∅
  /-- The base of a class. -/
  bases : Std.TreeMap DeclId DeclId := ∅
  /-- The classes of all units, bases first. -/
  order : List DeclId := []

namespace Resolution

/-! ### Classes -/

/-- The bases from a class on until one is met again; `seen` are the classes passed so far and
`steps` bounds how many more are visited. -/
def basesWithin (bases : Std.TreeMap DeclId DeclId) : Nat → List DeclId → DeclId → List DeclId
  | 0, _, _ => []
  | steps + 1, seen, id =>
    match bases[id]? with
    | none => []
    | some base =>
      if base ∈ seen then [] else base :: basesWithin bases steps (base :: seen) base

/-- The chain of bases of a class without the class itself, nearest first. Every class on it
but the last has a base, so it is no longer than there are bases. -/
def ancestors (resolution : Resolution) (id : DeclId) : List DeclId :=
  basesWithin resolution.bases resolution.bases.size [id] id

def isAncestor (resolution : Resolution) (ancestor id : DeclId) : Bool :=
  (resolution.ancestors id).contains ancestor

/-- The scope of a class, function or method, zero for none. -/
def scopeOf (resolution : Resolution) (id : DeclId) : ScopeId :=
  resolution.scopeOfDecl.getD id 0

/-- What a key is bound to in the scope of a declaration itself. -/
def findIn? (resolution : Resolution) (owner : DeclId) (key : Key) : Option DeclId :=
  (resolution.scopes.get? (resolution.scopeOf owner)).bind (·.find? key)

/-- What a name is bound to in a class; fields of the bases are bound there too. -/
def member? (resolution : Resolution) (owner : DeclId) (name : String) : Option DeclId :=
  resolution.findIn? owner (.ofName name)

/-! ### Callables -/

/-- Drops every callable whose key is that of an earlier one. -/
def firstOfKey (resolution : Resolution) (seen : List Key) : List DeclId → List DeclId
  | [] => []
  | id :: rest =>
    let key := resolution.keys.getD id ⟨""⟩
    if key ∈ seen then resolution.firstOfKey seen rest
    else id :: resolution.firstOfKey (key :: seen) rest

/-- The methods of a name that classes declare themselves. -/
def methodsOf (resolution : Resolution) (name : String) (classes : List DeclId) : List DeclId :=
  classes.flatMap fun owner => resolution.scopes.localOverloads (resolution.scopeOf owner) name

/-- The methods of a name that a class has; one of its own hides an inherited one of the same
signature. -/
def methodCandidates (resolution : Resolution) (owner : DeclId) (name : String) : List DeclId :=
  resolution.firstOfKey [] (resolution.methodsOf name (owner :: resolution.ancestors owner))

/-- What an unqualified call may mean: whatever is visible from its scope, and inside a class
the methods of its bases after that. -/
def callCandidates (resolution : Resolution) (scope : ScopeId) (enclosing : Option DeclId)
    (name : String) : List DeclId :=
  let visible := (resolution.scopes.overloads? scope name).getD []
  let inherited := match enclosing with
    | some owner => resolution.methodsOf name (resolution.ancestors owner)
    | none => []
  resolution.firstOfKey [] (visible ++ inherited)

/-- The method of the nearest base that a method of a class overrides. -/
def overridden? (resolution : Resolution) (method owner : DeclId) : Option DeclId :=
  match resolution.keys[method]? with
  | none => none
  | some key => (resolution.ancestors owner).findSome? fun base => resolution.findIn? base key

end Resolution

/-! ### Faults -/

inductive ResolutionFault where
  | table (fault : ScopeFault)
  | lostBinding (decl : DeclId) (key : Key) (scope : ScopeId) (held : DeclId)
  | foreignDeclScope (decl : DeclId) (scope : ScopeId)
  | foreignStmtScope (stmt : StmtId) (scope : ScopeId)
  | lostUse (expr : ExprId) (decl : DeclId)
  | baseNotClass (owner base : DeclId)

def ResolutionFault.message : ResolutionFault → String
  | .table fault => fault.message
  | .lostBinding decl key scope held =>
    s!"decl {decl} bound as {Text.quoted key.text} but scope {scope} holds {held}"
  | .foreignDeclScope decl scope => s!"decl {decl}: scope {scope} has another owner"
  | .foreignStmtScope stmt scope => s!"stmt {stmt}: scope {scope} belongs to another statement"
  | .lostUse expr decl => s!"expr {expr} uses missing decl {decl}"
  | .baseNotClass owner base => s!"class {owner} has non-class base {base}"

namespace Resolution

/-- Every violation of the invariants. -/
def faults (resolution : Resolution) (tree : Tree) : List ResolutionFault :=
  let scope? := resolution.scopes.get?
  let bindings := resolution.keys.toList.filterMap fun (id, key) =>
    let home := resolution.declScope.getD id 0
    let held := (scope? home).bind (·.find? key)
    if held = some id then none else some (.lostBinding id key home (held.getD 0))
  let declScopes := resolution.scopeOfDecl.toList.filterMap fun (id, scope) =>
    if (scope? scope).map Scope.owner = some id then none else some (.foreignDeclScope id scope)
  let stmtScopes := resolution.scopeOfStmt.toList.filterMap fun (id, scope) =>
    if (scope? scope).map Scope.stmt = some id then none else some (.foreignStmtScope id scope)
  let uses := resolution.uses.toList.filterMap fun (id, decl) =>
    if (tree.decls.get? decl).isSome then none else some (.lostUse id decl)
  let bases := resolution.bases.toList.filterMap fun (id, base) =>
    if tree.kindOf? base = some .classDecl then none else some (.baseNotClass id base)
  resolution.scopes.faults.map .table ++ bindings ++ declScopes ++ stmtScopes ++ uses ++ bases

end Resolution

end TreeCheck
