/-
What the statements of a settings file define. A table may be made on the way to another
one, and may then be defined once more; other keys are defined once. A key that last
took an array can be defined again, and then keeps the later value.
-/

import TreeCheck.Toml.Reader

namespace TreeCheck.Toml

/-- A document in the making. -/
structure Builder where
  fields : Fields := []
  /-- Tables that were made on the way to others. -/
  made : List Key := []
  /-- Keys whose last value was an array. -/
  arrays : List Key := []
  /-- All keys that were written, the last one first. -/
  written : List Key := []

/-- Steps of building; a key that is defined against the rules ends it. -/
abbrev BuildM := StateT Builder Option

/-! ### Places -/

/-- The table at a key; of a list of tables the last one is meant. -/
def tableAt? : Key → Fields → Option Fields
  | [], fields => some fields
  | name :: rest, fields =>
    match find? name fields with
    | some (.table inner) => tableAt? rest inner
    | some (.tables elements) => elements.getLast?.bind (tableAt? rest)
    | _ => none

/-- Changes the table at a key. -/
def alterAt (change : Fields → Fields) : Key → Fields → Fields
  | [], fields => change fields
  | name :: rest, fields =>
    match find? name fields with
    | some (.table inner) => put name (.table (alterAt change rest inner)) fields
    | some (.tables elements) =>
      match elements.getLast? with
      | some last =>
        put name (.tables (elements.dropLast ++ [alterAt change rest last])) fields
      | none => fields
    | _ => fields

namespace BuildM

def table (key : Key) : BuildM Fields := do
  match tableAt? key (← get).fields with
  | some fields => return fields
  | none => failure

def store (context : Key) (name : String) (value : Toml) : BuildM Unit :=
  modify fun builder => { builder with fields := alterAt (put name value) context builder.fields }

def mark (key : Key) : BuildM Unit :=
  modify fun builder => { builder with made := key :: builder.made }

def unmark (key : Key) : BuildM Unit :=
  modify fun builder => { builder with made := builder.made.filter (· ≠ key) }

/-- Notes whether the last value of a key is an array. A nameless key stands for the table around
it. -/
def setArray (context : Key) (name : String) (isArray : Bool) : BuildM Unit :=
  let key := match context ++ (if name = "" then [] else [name]) with
    | [] => [""]
    | key => key
  modify fun builder =>
    let others := builder.arrays.filter (· ≠ key)
    { builder with arrays := if isArray then key :: others else others }

def write (key : Key) : BuildM Unit :=
  modify fun builder => { builder with written := key :: builder.written }

/-! ### Definitions -/

/-- Gives a key its value. -/
def define (context : Key) (name : String) (value : Toml) : BuildM Unit := do
  let key := context ++ [name]
  match find? name (← table context) with
  | none => store context name value
  | some _ =>
    if (← get).arrays.contains key then
      unmark key
      store context name value
    else if (← get).made.contains key then unmark key
    else failure

/-- Makes the tables on the way to the last part of a key, behind a context. -/
def openWay (context : Key) : Key → BuildM Unit
  | [] | [_] => pure ()
  | name :: rest => do
    let here := context ++ [name]
    match find? name (← table context) with
    | none =>
      mark here
      store context name (.table [])
    | some _ => discard (table here)
    openWay here rest

/-- Opens the table of a key, as one more of a list or as the only one. -/
def openTable (key : Key) (asElement : Bool) : BuildM Unit := do
  openWay [] key
  let context := key.dropLast
  let name := key.getLast?.getD ""
  if asElement then
    match find? name (← table context) with
    | none => store context name (.tables [[]])
    | some (.tables elements) => store context name (.tables (elements ++ [[]]))
    | some _ => failure
  else define context name (.table [])

/-- Opens the tables of a dotted key one by one; the context of its last part. -/
def openDotted (context : Key) : Key → BuildM Key
  | [] | [_] => pure context
  | name :: rest => do
    let here := context ++ [name]
    mark here
    openTable here false
    openDotted here rest

end BuildM

open BuildM

def isArray : Toml → Bool
  | .array _ => true
  | _ => false

mutual

/-- The value that is written for a key. Inline tables are opened, so that their own keys are
checked and noted like any others. -/
def evaluate (context : Key) (name : String) (inArray : Bool) : Written → BuildM Toml
  | .value value => pure value
  | .array items => do
    setArray context name true
    return .array (← evaluateItems context name items)
  | .inline fields => do
    let here := context ++ [name]
    mark here
    openTable here inArray
    return .table (← evaluateFields here [] fields)

def evaluateItems (context : Key) (name : String) : List Written → BuildM (List Toml)
  | [] => pure []
  | item :: rest => do
    let value ← evaluate context name true item
    return value :: (← evaluateItems context name rest)

def evaluateFields (here : Key) (fields : Fields) : List (Key × Written) → BuildM Fields
  | [] => pure fields
  | (key, written) :: rest => do
    let context ← openDotted here key
    let name := key.getLast?.getD ""
    let value ← evaluate context name false written
    define context name value
    setArray context name (isArray value)
    write (context ++ [name])
    evaluateFields here (put name value fields) rest

end

/-- Carries out statements, inside the table of the last header. -/
def buildFrom (context : Key) : List Statement → BuildM Unit
  | [] => pure ()
  | .table key :: rest => do
    openTable key false
    setArray key "" false
    write key
    buildFrom key rest
  | .element key :: rest => do
    openTable key true
    setArray key "" false
    write key
    buildFrom key rest
  | .assign key written :: rest => do
    let inner ← openDotted context key
    let name := key.getLast?.getD ""
    let value ← evaluate inner name false written
    define inner name value
    setArray inner name (isArray value)
    write (inner ++ [name])
    buildFrom context rest

/-- A settings file: its values, and its keys in the order they were written. -/
structure Document where
  fields : Fields
  keys : List Key

def parse? (bytes : List UInt8) : Option Document := do
  let (_, builder) ← (buildFrom [] (← statements? bytes)).run {}
  return ⟨builder.fields, builder.written.reverse⟩

end TreeCheck.Toml
