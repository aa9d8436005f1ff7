/-
Documents in the binary wire form, MessagePack. They are written as maps in the order of the schema without
any empty field, texts, lists and maps with the shortest header that holds their length,
positions in four bytes and dimensions in one.

In reading, field names have to match exactly. A record may also be written as an array of
its fields in order, where missing ones are empty. Numbers are taken in any integer form and
reduced to the width of their field; nil stands for the empty value.
-/

import TreeCheck.Doc.Json
import TreeCheck.Msgpack.Reader

namespace TreeCheck.Doc

/-! ### Writing -/

/-- The low `width` bytes of a number, the highest first. -/
def bigEndian : Nat → Nat → List UInt8
  | 0, _ => []
  | width + 1, value => UInt8.ofNat (value / Nat.pow 2 (8 * width)) :: bigEndian width value

/-- The header of something of a length: within one byte up to `limit`, else a code and the
length in two or four bytes. -/
def sizedHead (short limit medium long length : Nat) : List UInt8 :=
  if length < limit then [UInt8.ofNat (short + length)]
  else if length < Nat.pow 2 16 then UInt8.ofNat medium :: bigEndian 2 length
  else UInt8.ofNat long :: bigEndian 4 length

def packText (value : String) : List UInt8 :=
  let bytes := Text.Utf8.encode value
  (if 32 ≤ bytes.length ∧ bytes.length < Nat.pow 2 8 then 0xd9 :: bigEndian 1 bytes.length
    else sizedHead 0xa0 32 0xda 0xdb bytes.length) ++ bytes

def arrayHead (length : Nat) : List UInt8 := sizedHead 0x90 16 0xdc 0xdd length

def mapHead (length : Nat) : List UInt8 := sizedHead 0x80 16 0xde 0xdf length

/-- A whole number in the fewest bytes. -/
def packShortest (value : Int) : List UInt8 :=
  if 0 ≤ value then
    let value := value.toNat
    if value < 0x80 then [UInt8.ofNat value]
    else if value < Nat.pow 2 8 then 0xcc :: bigEndian 1 value
    else if value < Nat.pow 2 16 then 0xcd :: bigEndian 2 value
    else if value < Nat.pow 2 32 then 0xce :: bigEndian 4 value
    else 0xcf :: bigEndian 8 value
  else if -32 ≤ value then [UInt8.ofNat (value + 256).toNat]
  else if -Nat.pow 2 7 ≤ value then 0xd0 :: bigEndian 1 (value + Nat.pow 2 8).toNat
  else if -Nat.pow 2 15 ≤ value then 0xd1 :: bigEndian 2 (value + Nat.pow 2 16).toNat
  else if -Nat.pow 2 31 ≤ value then 0xd2 :: bigEndian 4 (value + Nat.pow 2 32).toNat
  else 0xd3 :: bigEndian 8 (value + Nat.pow 2 64).toNat

def packNumber (shape : Shape) (value : Int) : List UInt8 :=
  match shape with
  | .position => 0xce :: bigEndian 4 value.toNat
  | .dimensions => 0xcc :: bigEndian 1 value.toNat
  | _ => packShortest value

/-- Empty in the sense of this form, where a record without a field that is not empty is
empty too when it stands in place. -/
def Datum.isBlank (shape : Shape) (value : Datum) : Bool :=
  match shape, value with
  | .extent, .record values => values.all Datum.isEmpty
  | _, value => value.isEmpty

mutual

def Datum.pack (shape : Shape) : Datum → List UInt8
  | .absent => [0xc0]
  | .text value => packText value
  | .flag value => [if value then 0xc3 else 0xc2]
  | .number value => packNumber shape value
  | .record values =>
    match shape.kind? with
    | some kind =>
      let entries := Datum.packFields kind.fields values
      mapHead entries.length ++ entries.flatten
    | none => [0xc0]
  | .list items _ => arrayHead items.length ++ (Datum.packItems shape.item items).flatten

def Datum.packItems (shape : Shape) : List Datum → List (List UInt8)
  | [] => []
  | item :: rest => Datum.pack shape item :: Datum.packItems shape rest

/-- The key and value of every field that is not empty. -/
def Datum.packFields : List Field → List Datum → List (List UInt8)
  | field :: fields, value :: rest =>
    if value.isBlank field.shape then Datum.packFields fields rest
    else (packText field.key ++ Datum.pack field.shape value) :: Datum.packFields fields rest
  | _, _ => []

end

/-! ### Reading -/

/-- A number reduced to the width of its field. -/
def Shape.reduce (shape : Shape) (value : Int) : Option Int :=
  match shape with
  | .version => some (Int.bmod value (Nat.pow 2 64))
  | .position => some (value % Nat.pow 2 32)
  | .dimensions => some (value % Nat.pow 2 8)
  | _ => none

def textOfBytes (bytes : List UInt8) : String := Text.Utf8.ofBytes bytes

/-- The name a key spells; nil spells the empty name. -/
def keyOf? : Msgpack → Option String
  | .text bytes => some (textOfBytes bytes)
  | .nil => some ""
  | _ => none

mutual

def unpackInto? (shape : Shape) (earlier : Datum) : Msgpack → Option Datum
  | .nil => if shape = .texts then some earlier else some shape.empty
  | .bool value => if shape = .flag then some (.flag value) else none
  | .int value => (shape.reduce value).map .number
  | .text bytes => if shape = .text then some (.text (textOfBytes bytes)) else none
  | .other => none
  | .array items =>
    match shape with
    | .texts => (unpackItems? .text [] items).map fun (items, _) => .list items []
    | .links _ => (unpackItems? shape.item earlier.backing items).map fun (items, kept) =>
        .list items kept
    | .link kind => (unpackSequence? (earlier.fieldsOr kind) kind.fields items).map .record
    | .extent =>
      (unpackSequence? (earlier.fieldsOr .extent) (RecordKind.fields .extent) items).map .record
    | _ => none
  | .map entries =>
    match shape with
    | .link kind => (unpackEntries? kind (earlier.fieldsOr kind) entries).map .record
    | .extent => (unpackEntries? .extent (earlier.fieldsOr .extent) entries).map .record
    | _ => none

def unpackItems? (shape : Shape) (backing : List Datum) :
    List Msgpack → Option (List Datum × List Datum)
  | [] => some ([], backing)
  | item :: rest => do
    let value ← unpackInto? shape (backing.head?.getD shape.empty) item
    let (values, kept) ← unpackItems? shape backing.tail rest
    return (value :: values, kept)

/-- The fields of a record written as an array. An empty array empties the record; more items
than fields are refused. -/
def unpackSequence? (earlier : List Datum) : List Field → List Msgpack → Option (List Datum)
  | fields, [] => some (fields.map (·.shape.empty))
  | [], _ :: _ => none
  | field :: fields, item :: rest => do
    let value ← unpackInto? field.shape (earlier.head?.getD field.shape.empty) item
    let values ← unpackSequence? earlier.tail fields rest
    return value :: values

def unpackEntries? (kind : RecordKind) (values : List Datum) :
    List (Msgpack × Msgpack) → Option (List Datum)
  | [] => some values
  | (key, value) :: rest =>
    match (keyOf? key).bind fun name => kind.index? (· = name) with
    | none => none
    | some (index, shape) => do
      let read ← unpackInto? shape (values[index]?.getD shape.empty) value
      unpackEntries? kind (values.set index read) rest

end

/-- Reads a record of a kind; nil leaves every field empty. -/
def unpackRecord? (kind : RecordKind) (value : Msgpack) : Option (List Datum) :=
  match unpackInto? (.link kind) .absent value with
  | some (.record values) => some values
  | some _ => some kind.empty
  | none => none

end TreeCheck.Doc
