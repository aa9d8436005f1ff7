/-
The invariants of a scope table, as a check that reports every violation: parents and
children point at each other, only global scopes are without a parent and only they
carry import links, the list of keys has as many keys as are bound, and the index of
overloads lists exactly the signature keys.
-/

import TreeCheck.Scope.Table

namespace TreeCheck

inductive ScopeFault where
  | invalidKind (scope : ScopeId)
  | globalWithParent (scope parent : ScopeId)
  | withoutParent (kind : ScopeKind) (scope : ScopeId)
  | invalidParent (scope parent : ScopeId)
  | notAChild (scope parent : ScopeId)
  | invalidChild (scope child : ScopeId)
  | notItsParent (scope child : ScopeId)
  | importsNonGlobal (scope other : ScopeId)
  | strayImport (kind : ScopeKind) (scope : ScopeId)
  | keyCount (scope : ScopeId) (keys entries : Nat)
  | staleIndex (scope : ScopeId) (name : String) (key : Key)
  | boundToNothing (scope : ScopeId) (key : Key)
  | indexCount (scope : ScopeId) (signatures indexed : Nat)
  deriving DecidableEq, Repr

namespace ScopeFault

def message : ScopeFault → String
  | .invalidKind scope => s!"scope {scope} has invalid kind"
  | .globalWithParent scope parent => s!"global scope {scope} has parent {parent}"
  | .withoutParent kind scope => s!"{kind.name} scope {scope} has no parent"
  | .invalidParent scope parent => s!"scope {scope} has invalid parent {parent}"
  | .notAChild scope parent => s!"scope {scope} parent {parent} missing backlink"
  | .invalidChild scope child => s!"scope {scope} has invalid child {child}"
  | .notItsParent scope child => s!"scope {scope} child {child} missing parent backlink"
  | .importsNonGlobal scope other => s!"scope {scope} imports non-global scope {other}"
  | .strayImport kind scope => s!"{kind.name} scope {scope} carries an import link"
  | .keyCount scope keys entries => s!"scope {scope} lists {keys} keys for {entries} entries"
  | .staleIndex scope name key =>
    s!"scope {scope} overload index {Text.quoted name} references missing key {Text.quoted key.text}"
  | .boundToNothing scope key =>
    s!"scope {scope} key {Text.quoted key.text} bound to no declaration"
  | .indexCount scope signatures indexed =>
    s!"scope {scope} has {signatures} signature keys, {indexed} indexed"

end ScopeFault

namespace ScopeTable

/-- The faults of the kind of a scope and of its place under a parent. -/
def kindFaults (id : ScopeId) (scope : Scope) : List ScopeFault :=
  (if scope.kind = .invalid then [.invalidKind id] else []) ++
  (if scope.kind = .global ∧ scope.parent ≠ 0 then [.globalWithParent id scope.parent] else []) ++
  (if scope.kind ≠ .global ∧ scope.parent = 0 then [.withoutParent scope.kind id] else [])

/-- Whether the parent link is absent or leads to another scope. -/
def hasValidParent (table : ScopeTable) (id : ScopeId) (scope : Scope) : Bool :=
  scope.parent = 0 || (scope.parent ≠ id && (table.get? scope.parent).isSome)

def backlinkFaults (table : ScopeTable) (id : ScopeId) (scope : Scope) : List ScopeFault :=
  match table.get? scope.parent with
  | some parent => if id ∈ parent.children then [] else [.notAChild id scope.parent]
  | none => []

def childFaults (table : ScopeTable) (id : ScopeId) (scope : Scope) : List ScopeFault :=
  scope.children.flatMap fun child =>
    match table.get? child with
    | none => [.invalidChild id child]
    | some inner =>
      if child = id then [.invalidChild id child]
      else if inner.parent ≠ id then [.notItsParent id child]
      else []

def importFaults (table : ScopeTable) (id : ScopeId) (scope : Scope) : List ScopeFault :=
  if scope.importLink = 0 then []
  else
    (match table.get? scope.importLink with
      | some other =>
        if other.kind = .global then [] else [.importsNonGlobal id scope.importLink]
      | none => [.importsNonGlobal id scope.importLink]) ++
    (if scope.kind ≠ .global then [.strayImport scope.kind id] else [])

/-- The faults of the links of a scope; an invalid parent ends the check of the scope. -/
def linkFaults (table : ScopeTable) (id : ScopeId) (scope : Scope) : List ScopeFault :=
  kindFaults id scope ++
    if table.hasValidParent id scope then
      table.backlinkFaults id scope ++ table.childFaults id scope ++ table.importFaults id scope
    else [.invalidParent id scope.parent]

/-- The faults of the bindings of a scope. -/
def bindingFaults (id : ScopeId) (scope : Scope) : List ScopeFault :=
  let indexed := (scope.overloads.map fun (_, keys) => keys.length).foldr (· + ·) 0
  let signatures := scope.entries.countP fun (key, _) => key.isSignature
  (if scope.keys.length ≠ scope.entries.length then
    [.keyCount id scope.keys.length scope.entries.length] else []) ++
  (scope.overloads.flatMap fun (name, keys) =>
    (keys.filter fun key => (scope.find? key).isNone || key.name ≠ name).map
      (.staleIndex id name)) ++
  ((scope.entries.filter fun (_, decl) => decl = 0).map fun (key, _) => .boundToNothing id key) ++
  (if signatures ≠ indexed then [.indexCount id signatures indexed] else [])

/-- Every violation of the invariants. -/
def faults (table : ScopeTable) : List ScopeFault :=
  let scopes := table.scopes.items.toList.zipIdx 1
  (scopes.flatMap fun (scope, id) => table.linkFaults id scope) ++
    (scopes.flatMap fun (scope, id) => bindingFaults id scope)

end ScopeTable

end TreeCheck
