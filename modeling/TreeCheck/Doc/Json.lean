/-
Documents as JSON. They are written with the fields in the order of the schema; an optional
field is left out when it is empty, and a span is always written, if need be without fields.

In reading, a field is found by its name, exactly or else without regard to case; a field
the schema does not have is refused. A value is read over what stands there already, which
only matters for a repeated field: records are merged, the items of a list start from the
items of the earlier list, anything else is replaced. A null empties a link or a list and
changes nothing else.
-/

import TreeCheck.Doc.Schema
import TreeCheck.Json.Reader
import TreeCheck.Json.Writer
import TreeCheck.Text.LetterCase

namespace TreeCheck.Doc

/-! ### Writing -/

/-- Nothing, zero, false, the empty text and the empty list. -/
def Datum.isEmpty : Datum → Bool
  | .absent => true
  | .text value => value = ""
  | .flag value => !value
  | .number value => value = 0
  | .record _ => false
  | .list items _ => items.isEmpty

mutual

def Datum.toJson (shape : Shape) : Datum → Json
  | .absent => .null
  | .text value => .text value
  | .flag value => .bool value
  | .number value => Json.ofInt value
  | .record values =>
    match shape.kind? with
    | some kind => .object (Datum.fieldsToJson kind.fields values)
    | none => .null
  | .list items _ => .array (Datum.itemsToJson shape.item items)

def Datum.itemsToJson (shape : Shape) : List Datum → List Json
  | [] => []
  | item :: rest => Datum.toJson shape item :: Datum.itemsToJson shape rest

def Datum.fieldsToJson : List Field → List Datum → List (String × Json)
  | field :: fields, value :: rest =>
    if field.optional && value.isEmpty then Datum.fieldsToJson fields rest
    else (field.key, Datum.toJson field.shape value) :: Datum.fieldsToJson fields rest
  | _, _ => []

end

/-! ### Reading field names -/

/-- The field a written name means. -/
def RecordKind.written? (kind : RecordKind) (name : String) : Option (Nat × Shape) :=
  match kind.index? (· = name) with
  | some found => some found
  | none => kind.index? (Text.sameFolded name)

/-! ### Reading scalars -/

/-- An integer literal without a sign, below a bound. -/
def unsigned? (bound : Nat) (literal : String) : Option Int :=
  if literal.toList.head? = some '-' then none
  else
    match Json.int? literal with
    | some value => if value < bound then some value else none
    | none => none

def signed? (literal : String) : Option Int :=
  match Json.int? literal with
  | some value => if -Nat.pow 2 63 ≤ value ∧ value < Nat.pow 2 63 then some value else none
  | none => none

/-- The number of a literal, if the shape is one of numbers and the literal fits. -/
def Shape.number? (shape : Shape) (literal : String) : Option Int :=
  match shape with
  | .version => signed? literal
  | .position => unsigned? (Nat.pow 2 32) literal
  | .dimensions => unsigned? (Nat.pow 2 8) literal
  | _ => none

/-- The items a list starts from when another one is read over it. -/
def Datum.backing : Datum → List Datum
  | .list items kept => items ++ kept
  | _ => []

/-- The fields a record starts from when another one is read over it. -/
def Datum.fieldsOr (kind : RecordKind) : Datum → List Datum
  | .record values => values
  | _ => kind.empty

/-! ### Reading values -/

mutual

/-- Reads a value over an earlier one; `strict` refuses unknown fields. -/
def readInto? (strict : Bool) (shape : Shape) (earlier : Datum) : Json → Option Datum
  | .null =>
    match shape with
    | .link _ | .links _ | .texts => some .absent
    | _ => some earlier
  | .bool value => if shape = .flag then some (.flag value) else none
  | .text value => if shape = .text then some (.text value) else none
  | .number literal => (shape.number? literal).map .number
  | .array items =>
    match shape with
    | .links _ | .texts =>
      match items with
      | [] => some (.list [] [])
      | _ => (readItems? strict shape.item earlier.backing items).map fun (items, kept) =>
          .list items kept
    | _ => none
  | .object fields =>
    match shape with
    | .link kind => (readFields? strict kind (earlier.fieldsOr kind) fields).map .record
    | .extent => (readFields? strict .extent (earlier.fieldsOr .extent) fields).map .record
    | _ => none

def readItems? (strict : Bool) (shape : Shape) (backing : List Datum) :
    List Json → Option (List Datum × List Datum)
  | [] => some ([], backing)
  | item :: rest => do
    let value ← readInto? strict shape (backing.head?.getD shape.empty) item
    let (values, kept) ← readItems? strict shape backing.tail rest
    return (value :: values, kept)

def readFields? (strict : Bool) (kind : RecordKind) (values : List Datum) :
    List (String × Json) → Option (List Datum)
  | [] => some values
  | (name, value) :: rest =>
    match kind.written? name with
    | none => if strict then none else readFields? strict kind values rest
    | some (index, shape) => do
      let read ← readInto? strict shape (values[index]?.getD shape.empty) value
      readFields? strict kind (values.set index read) rest

end

/-- Reads a record of a kind; a null at the top leaves every field empty. -/
def readRecord? (strict : Bool) (kind : RecordKind) (value : Json) : Option (List Datum) :=
  match value with
  | .null => some kind.empty
  | .object fields => readFields? strict kind kind.empty fields
  | _ => none

end TreeCheck.Doc
