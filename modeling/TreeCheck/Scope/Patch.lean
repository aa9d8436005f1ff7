/-
Overwriting single fields of a scope, past all rules. A table that was patched need not
be one that scopes can be opened, bound and closed to; the checks of a table are tried
on such ones.
-/

import TreeCheck.Scope.Table

namespace TreeCheck

/-- A field of a scope with a new value. -/
inductive ScopePatch where
  | kind (kind : ScopeKind)
  | parent (scope : ScopeId)
  | importLink (scope : ScopeId)
  | children (scopes : List ScopeId)
  | keys (keys : List Key)
  | overloads (name : String) (keys : List Key)
  | entry (key : Key) (decl : DeclId)
  deriving DecidableEq, Repr

namespace ScopePatch

/-- Replaces or adds the value of a key. -/
def setPair {α β : Type} [DecidableEq α] (key : α) (value : β) : List (α × β) → List (α × β)
  | [] => [(key, value)]
  | (first, old) :: rest =>
    if first = key then (key, value) :: rest else (first, old) :: setPair key value rest

def apply (patch : ScopePatch) (scope : Scope) : Scope :=
  match patch with
  | .kind value => { scope with kind := value }
  | .parent value => { scope with parent := value }
  | .importLink value => { scope with importLink := value }
  | .children value => { scope with children := value }
  | .keys value => { scope with keys := value }
  | .overloads name value => { scope with overloads := setPair name value scope.overloads }
  | .entry key decl => { scope with entries := setPair key decl scope.entries }

end ScopePatch

end TreeCheck
