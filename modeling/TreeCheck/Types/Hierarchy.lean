/-
Template instances and the class hierarchy. An instance of a class with template
parameters has no base of its own: its base is the base of the class with the arguments
in place of the parameters. Following bases may therefore create types, so the
operations here change the table.
-/

import TreeCheck.Types.Table

namespace TreeCheck

/-- Operations that may add types to the table. -/
abbrev TypeM := StateM TypeTable

namespace TypeM

def intern (form : TypeForm) : TypeM TypeId := modifyGet (·.intern form)

def makeTuple (elems : List TypeId) : TypeM TypeId := modifyGet (·.makeTuple elems)

def makeMulti (candidates : List TypeId) : TypeM TypeId := modifyGet (·.makeMulti candidates)

/-! ### Instances -/

/-- The instance of a class with given arguments, if there is one. -/
def findInstance? (table : TypeTable) (generic : TypeId) (args : List TypeId) : Option TypeId :=
  table.forms.findIdx? fun form =>
    match form with
    | .classType slot =>
      match table.classes.get? slot with
      | some info => info.generic = generic && info.args = args
      | none => false
    | _ => false

/-- The instance of a class with given arguments, a new one on first use. Without arguments it
is the class itself, and an instance stands for the class it is an instance of. -/
def instantiate (generic : TypeId) (args : List TypeId) : TypeM TypeId := do
  match (← get).classInfo? generic with
  | none => return 0
  | some info =>
    if args.isEmpty then return generic
    let generic := if info.generic = 0 then generic else info.generic
    match (← get).classInfo? generic with
    | none => return 0
    | some info =>
      match findInstance? (← get) generic args with
      | some id => return id
      | none =>
        modifyGet fun table =>
          { table with
            classes := table.classes.push
              { name := info.name, decl := info.decl, params := info.params, generic, args } }.push
            (.classType table.classes.next)

/-! ### Substitution -/

/-- How deep a substitution reaches. -/
def substitutionDepth : Nat := 16

/-- Replaces parameters in a type, so many levels deep. -/
def substituteWithin (params args : List TypeId) : Nat → TypeId → TypeM TypeId
  | 0, id => pure id
  | levels + 1, id => do
    match (← get).form? id with
    | some (.param _) =>
      match params.idxOf? id with
      | some index => return args[index]?.getD id
      | none => return id
    | some (.list elem dims) =>
      let replaced ← substituteWithin params args levels elem
      if replaced = elem then return id else intern (.list replaced dims)
    | some (.array elem dims) =>
      let replaced ← substituteWithin params args levels elem
      if replaced = elem then return id else intern (.array replaced dims)
    | some (.tuple _) =>
      let replaced ← ((← get).elems id).mapM (substituteWithin params args levels)
      makeTuple replaced
    | some (.multi _) =>
      let replaced ← ((← get).elems id).mapM (substituteWithin params args levels)
      makeMulti replaced
    | some (.classType _) =>
      match (← get).classInfo? id with
      | some info =>
        if info.generic = 0 then return id
        let replaced ← info.args.mapM (substituteWithin params args levels)
        instantiate info.generic replaced
      | none => return id
    | _ => return id

/-- Replaces every parameter in a type by the argument at its place. Lists of different lengths
replace nothing. -/
def substitute (params args : List TypeId) (id : TypeId) : TypeM TypeId :=
  if params.isEmpty ∨ params.length ≠ args.length then pure id
  else substituteWithin params args (substitutionDepth + 1) id

/-! ### Bases -/

/-- The base of a class, or nothing. -/
def baseOf (id : TypeId) : TypeM TypeId := do
  match (← get).classInfo? id with
  | none => return 0
  | some info =>
    if info.generic = 0 then return info.base
    match (← get).classInfo? info.generic with
    | none => return 0
    | some generic =>
      if generic.base = 0 then return 0
      substitute generic.params info.args generic.base

/-- Marks the table as one that a walk without end was met in. -/
def giveUp : TypeM Unit := modify ({ · with endless := true })

/-- The bases of a class, nearest first, until one is met again; `seen` are the classes passed
so far. A walk that is not over after so many steps is given up. -/
def ancestorsWithin (steps : Nat) (seen : List TypeId) (id : TypeId) : TypeM (List TypeId) := do
  let base ← baseOf id
  if base = 0 ∨ base ∈ seen then return []
  match steps with
  | 0 =>
    giveUp
    return []
  | steps + 1 =>
    let rest ← ancestorsWithin steps (base :: seen) base
    return base :: rest

/-- How many steps a walk may take beyond the number of types before it counts as one without
end. -/
def patience : Nat := 1000000

/-- The chain of bases of a class without the class itself. Each base may be a new type, and
the base of that another one, so neither the number of types nor anything else in the table
bounds the chain: what ends is the patience. -/
def ancestors (id : TypeId) : TypeM (List TypeId) := do
  ancestorsWithin (patience + (← get).size) [id] id

end TypeM

end TreeCheck
