/-
The two wire forms of a document and how a document is read and written in them. A
document of another schema version, or without a root unit, is refused.
-/

import TreeCheck.Doc.Msgpack
import TreeCheck.Doc.Records
import TreeCheck.Text.Path

namespace TreeCheck.Doc

inductive WireForm where
  | json | msgpack | unknown
  deriving DecidableEq, Repr

namespace WireForm

def name : WireForm → String
  | .json => "json"
  | .msgpack => "msgpack"
  | .unknown => "unknown"

def ofName : String → WireForm
  | "json" => .json
  | "msgpack" => .msgpack
  | _ => .unknown

/-- The form that the extension of a path stands for. -/
def ofPath (path : String) : WireForm :=
  let extension := Text.lowerCase (Text.Path.extension path)
  if extension = ".json" then .json else if extension = ".sbt" then .msgpack else .unknown

end WireForm

/-- Why a document could not be read or written. -/
inductive CodecError where
  | undecodable (form : WireForm)
  | unknownForm
  | version (found : Int)
  | noRoot
  deriving DecidableEq, Repr

/-- The schema version that is read and written. -/
def schemaVersion : Int := 1

namespace CodecError

/-- The wording of the errors. What exactly was wrong with an undecodable text is not part of
the wording. -/
def message : CodecError → String
  | .undecodable form => s!"decode {form.name}:"
  | .unknownForm => "unknown tree format"
  | .version found => s!"unsupported tree schema version: {found} (want {schemaVersion})"
  | .noRoot => "malformed tree: document has no root unit"

end CodecError

/-- Reads one record of a kind from the bytes of a wire form; what follows it is ignored. -/
def decodeRecord (kind : RecordKind) (form : WireForm) (bytes : List UInt8) :
    Except CodecError Datum :=
  match form with
  | .unknown => .error .unknownForm
  | .json =>
    match (Json.read? (Text.Utf8.decode bytes)).bind fun (value, _) =>
        readRecord? true kind value with
    | some values => .ok (.record values)
    | none => .error (.undecodable .json)
  | .msgpack =>
    match (Msgpack.read? bytes).bind fun (value, _) => unpackRecord? kind value with
    | some values => .ok (.record values)
    | none => .error (.undecodable .msgpack)

def Document.decode (form : WireForm) (bytes : List UInt8) : Except CodecError Document := do
  let datum ← decodeRecord .document form bytes
  let document := (Document.ofDatum? datum).getD {}
  if document.version ≠ schemaVersion then throw (.version document.version)
  match document.units with
  | some _ :: _ => return document
  | _ => throw .noRoot

def TopLevel.decode (form : WireForm) (bytes : List UInt8) : Except CodecError TopLevel := do
  let datum ← decodeRecord .topLevel form bytes
  return (TopLevel.ofDatum? datum).getD {}

/-- Reads a unit from JSON without refusing unknown fields. -/
def Unit.ofJson? (value : Json) : Option Unit :=
  (readRecord? false .unit value).bind fun values => Unit.ofDatum? (.record values)

/-- The bytes of a document in a wire form. -/
def Document.encode (form : WireForm) (document : Document) : Except CodecError (List UInt8) :=
  match form with
  | .unknown => .error .unknownForm
  | .json =>
    .ok (Text.Utf8.encode (Json.document (document.toDatum.toJson (.link .document))))
  | .msgpack => .ok (document.toDatum.pack (.link .document))

end TreeCheck.Doc
