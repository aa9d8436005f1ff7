/-
The scope table: all scopes of a program, and the stack of those that are open. A scope
is never removed; a closed one keeps its bindings and stays reachable by its number.
Look-up follows parent links outwards and then the chain of imported global scopes.
Imports form a single chain: a scope is attached behind the last one on it.

Scopes bind declarations under keys. A variable, class, enum or template parameter is bound
under its name. A function or method is bound under its signature: the name, and the codes of
its parameter types in parentheses, as in `area(C<Shape>,i)`.

Links are numbers, and zero is no link. A link that leads nowhere ends a walk without an
answer; the walks therefore have an optional result. None of the walks visits more
scopes than there are.
-/

import TreeCheck.Text.Quoted
import TreeCheck.Tree.Nodes

namespace TreeCheck

/-! ### Keys -/

structure Key where
  text : String
  deriving DecidableEq, Repr, Inhabited

namespace Key

def ofName (name : String) : Key := ⟨name⟩

def ofSignature (name : String) (codes : List String) : Key :=
  ⟨name ++ "(" ++ Text.join "," codes ++ ")"⟩

/-- The name in front of the parenthesis. -/
def name (key : Key) : String := String.ofList (key.text.toList.takeWhile (· ≠ '('))

def isSignature (key : Key) : Bool := key.text.toList.contains '('

end Key

/-! ### Scopes -/

/-- The number of a scope; zero is none. -/
abbrev ScopeId := Nat

inductive ScopeKind where
  | invalid
  /-- A unit. -/
  | global
  | classBody
  /-- A function or method, with its parameters. -/
  | function
  /-- A block, branch or arm. -/
  | block
  /-- The header of a loop over a range. -/
  | loop
  deriving DecidableEq, Repr, Inhabited

namespace ScopeKind

/-- All of them, in the order of their numbers, which start at zero. -/
def all : List ScopeKind := [.invalid, .global, .classBody, .function, .block, .loop]

def name : ScopeKind → String
  | .invalid => "invalid"
  | .global => "global"
  | .classBody => "class"
  | .function => "function"
  | .block => "block"
  | .loop => "loop"

def ofName (name : String) : ScopeKind := (all.find? (·.name = name)).getD .invalid

end ScopeKind

/-- In every field that refers to something by number, zero means that there is none. -/
structure Scope where
  kind : ScopeKind
  parent : ScopeId := 0
  /-- The next scope on the chain of imports. -/
  importLink : ScopeId := 0
  /-- The class, function or method the scope belongs to. -/
  owner : DeclId := 0
  /-- The statement the scope belongs to. -/
  stmt : StmtId := 0
  unit : UnitId := 0
  span : Span := {}
  entries : List (Key × DeclId) := []
  /-- The bound keys in the order of binding. -/
  keys : List Key := []
  /-- The signature keys of every name. -/
  overloads : List (String × List Key) := []
  children : List ScopeId := []
  closed : Bool := false
  deriving Inhabited

namespace Scope

/-- What a key is bound to in this scope. -/
def find? (scope : Scope) (key : Key) : Option DeclId := scope.entries.lookup key

/-- The signature keys of a name. -/
def overloadKeys (scope : Scope) (name : String) : List Key :=
  (scope.overloads.lookup name).getD []

/-- What the signature keys of a name are bound to. -/
def overloadDecls (scope : Scope) (name : String) : List DeclId :=
  (scope.overloadKeys name).map fun key => (scope.find? key).getD 0

/-- Adds a key to the keys of its name. -/
def indexKey (index : List (String × List Key)) (key : Key) : List (String × List Key) :=
  match index with
  | [] => [(key.name, [key])]
  | (name, keys) :: rest =>
    if name = key.name then (name, keys ++ [key]) :: rest else (name, keys) :: indexKey rest key

/-- Binds a key that is not bound. -/
def insert (scope : Scope) (key : Key) (decl : DeclId) : Scope :=
  { scope with
    entries := scope.entries ++ [(key, decl)]
    keys := scope.keys ++ [key]
    overloads := if key.isSignature then indexKey scope.overloads key else scope.overloads }

end Scope

/-- Why a key could not be bound. -/
inductive BindError where
  | alreadyBound (key : Key) (existing : DeclId)
  | noScope (key : Key)
  deriving DecidableEq, Repr

def BindError.message : BindError → String
  | .alreadyBound key existing => Text.quoted key.text ++ s!" already bound to decl {existing}"
  | .noScope key => "bind " ++ Text.quoted key.text ++ ": no open scope"

/-- The stack has the innermost open scope first. -/
structure ScopeTable where
  scopes : Arena Scope := {}
  stack : List ScopeId := []

namespace ScopeTable

def get? (table : ScopeTable) (id : ScopeId) : Option Scope := table.scopes.get? id

/-- The innermost open scope. -/
def current (table : ScopeTable) : ScopeId := table.stack.head?.getD 0

def depth (table : ScopeTable) : Nat := table.stack.length

def modify (table : ScopeTable) (id : ScopeId) (change : Scope → Scope) : ScopeTable :=
  { table with scopes := table.scopes.modify id change }

/-! ### Opening and closing -/

/-- A new scope under a parent, which lists it as a child and whose unit it shares. -/
def newScope (table : ScopeTable) (kind : ScopeKind) (parent : ScopeId) (owner : DeclId)
    (span : Span) : ScopeId × ScopeTable :=
  let id := table.scopes.next
  let unit := match table.get? parent with
    | some scope => scope.unit
    | none => 0
  let table := table.modify parent fun scope => { scope with children := scope.children ++ [id] }
  (id, { table with scopes := table.scopes.push { kind, parent, owner, span, unit } })

/-- A global scope for a unit, which is not opened. -/
def newRoot (table : ScopeTable) (unit : UnitId) (span : Span) : ScopeId × ScopeTable :=
  let (id, table) := table.newScope .global 0 0 span
  (id, table.modify id fun scope => { scope with unit })

/-- A new scope inside the current one, which becomes current. -/
def openScope (table : ScopeTable) (kind : ScopeKind) (owner : DeclId) (span : Span) :
    ScopeId × ScopeTable :=
  let (id, table) := table.newScope kind table.current owner span
  (id, { table with stack := id :: table.stack })

/-- Makes a scope current that exists already. -/
def enter (table : ScopeTable) (id : ScopeId) : ScopeTable :=
  { table with stack := id :: table.stack }

def leave (table : ScopeTable) : ScopeTable := { table with stack := table.stack.tail }

/-- Leaves the current scope for good. -/
def close (table : ScopeTable) : ScopeTable :=
  (table.modify table.current fun scope => { scope with closed := true }).leave

/-- Leaves scopes until so many are open. -/
def truncate (table : ScopeTable) (depth : Nat) : ScopeTable :=
  { table with stack := table.stack.drop (table.stack.length - depth) }

/-! ### Binding -/

/-- Binds a key in a scope; what is bound stays bound. -/
def bindIn (table : ScopeTable) (id : ScopeId) (key : Key) (decl : DeclId) :
    Except BindError ScopeTable :=
  match table.get? id with
  | none => .error (.noScope key)
  | some scope =>
    match scope.find? key with
    | some existing => .error (.alreadyBound key existing)
    | none => .ok (table.modify id (·.insert key decl))

def bind (table : ScopeTable) (key : Key) (decl : DeclId) : Except BindError ScopeTable :=
  table.bindIn table.current key decl

/-! ### Walking outwards -/

/-- The scopes a walk visits, and whether it came to an end; a link that leads nowhere cuts it
short. -/
structure Walk where
  scopes : List (ScopeId × Scope)
  complete : Bool

/-- The scopes from one outwards, visiting at most so many. -/
def outwardWithin (table : ScopeTable) : Nat → ScopeId → Walk
  | 0, _ => ⟨[], true⟩
  | steps + 1, id =>
    if id = 0 then ⟨[], true⟩
    else
      match table.get? id with
      | none => ⟨[], false⟩
      | some scope =>
        let rest := table.outwardWithin steps scope.parent
        ⟨(id, scope) :: rest.scopes, rest.complete⟩

/-- A scope and the scopes around it, from the inside out. -/
def outward (table : ScopeTable) (id : ScopeId) : Walk :=
  table.outwardWithin (table.scopes.size + 1) id

/-- The outermost scope around a scope, zero for none. -/
def root? (table : ScopeTable) (id : ScopeId) : Option ScopeId :=
  let walk := table.outward id
  if walk.complete then some ((walk.scopes.getLast?.map Prod.fst).getD 0) else none

/-- The import links from a scope on until one is met again; `root` starts the chain and does
not stand on it. -/
def importsWithin (table : ScopeTable) (root : ScopeId) :
    Nat → List ScopeId → ScopeId → Option (List ScopeId)
  | 0, chain, _ => some chain
  | steps + 1, chain, id =>
    if id = 0 ∨ id = root ∨ id ∈ chain then some chain
    else
      match table.get? id with
      | none => none
      | some scope => table.importsWithin root steps (chain ++ [id]) scope.importLink

/-- The imported global scopes a scope falls back to, in order. -/
def importChain? (table : ScopeTable) (id : ScopeId) : Option (List ScopeId) := do
  let root ← table.root? id
  match table.get? root with
  | none => some []
  | some scope => table.importsWithin root (table.scopes.size + 1) [] scope.importLink

/-- All scopes a look-up may visit, in order. -/
def visible? (table : ScopeTable) (id : ScopeId) : Option (List Scope) := do
  let imports ← table.importChain? id
  return (table.outward id).scopes.map Prod.snd ++ imports.filterMap table.get?

/-! ### Look-up -/

/-- What a key is bound to in the current scope. -/
def findLocal? (table : ScopeTable) (key : Key) : Option DeclId :=
  (table.get? table.current).bind (·.find? key)

/-- What a key means in a scope: the nearest binding outwards, else the first on the import
chain. The import chain is consulted only then. -/
def findFrom? (table : ScopeTable) (id : ScopeId) (key : Key) : Option (Option DeclId) :=
  match (table.outward id).scopes.findSome? fun (_, scope) => scope.find? key with
  | some decl => some (some decl)
  | none =>
    (table.visible? id).map fun scopes => scopes.findSome? (·.find? key)

/-- What a key means in the current scope. -/
def meaning? (table : ScopeTable) (key : Key) : Option DeclId :=
  (table.findFrom? table.current key).join

/-- Functions and methods of a name, those of `seen` keys left out. -/
def unseenOverloads (name : String) (seen : List Key) : List Scope → List DeclId
  | [] => []
  | scope :: rest =>
    let fresh := ((scope.overloadKeys name).filter (· ∉ seen)).eraseDups
    fresh.map (fun key => (scope.find? key).getD 0) ++ unseenOverloads name (fresh ++ seen) rest

/-- The functions and methods of a name that are visible from a scope, nearest first; a
signature bound further in hides the same one further out. -/
def overloads? (table : ScopeTable) (id : ScopeId) (name : String) : Option (List DeclId) :=
  (table.visible? id).map (unseenOverloads name [])

/-- The functions and methods of a name bound in a scope itself. -/
def localOverloads (table : ScopeTable) (id : ScopeId) (name : String) : List DeclId :=
  match table.get? id with
  | some scope => scope.overloadDecls name
  | none => []

/-- Puts a name into a sorted list of different names. -/
def insertName (name : String) : List String → List String
  | [] => [name]
  | first :: rest =>
    if name = first then first :: rest
    else if name < first then name :: first :: rest
    else first :: insertName name rest

/-- The names that are visible from a scope, in order. -/
def visibleNames? (table : ScopeTable) (id : ScopeId) : Option (List String) :=
  (table.visible? id).map fun scopes =>
    (scopes.flatMap fun scope => scope.keys.map Key.name).foldr insertName []

/-! ### Imports -/

/-- Attaches a global scope to the end of the import chain of another one. Nothing happens when
it is on the chain already or is that scope itself. -/
def attachImport? (table : ScopeTable) (global other : ScopeId) : Option (Bool × ScopeTable) :=
  if global = 0 ∨ other = 0 ∨ global = other then some (false, table)
  else do
    let chain ← table.importChain? global
    if other ∈ chain then some (false, table)
    else
      let tail := chain.getLast?.getD global
      match table.get? tail with
      | none => none
      | some _ => some (true, table.modify tail fun scope => { scope with importLink := other })

end ScopeTable

end TreeCheck
