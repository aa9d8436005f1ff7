/-
The schema of program documents, as data. A document is a tree of records; the schema
says which fields a record has, in which order they are written, what shape each one
takes and whether an empty field is left out. The readers and writers of the two wire
forms are all driven by this one table, through the untyped `Datum`.
-/

namespace TreeCheck.Doc

/-- The kinds of record a document is made of. -/
inductive RecordKind where
  | document | unit | topLevel | importItem | enumeration | constant | variable | typeParam
  | function | classItem | typeExpr | statement | arm | expression | initializer | extent
  deriving DecidableEq, Repr

/-- The shapes of a field. A `link` is a record or nothing, an `extent` is a span record held
in place. -/
inductive Shape where
  | text | flag | version | position | dimensions | texts | extent
  | link (kind : RecordKind)
  | links (kind : RecordKind)
  deriving DecidableEq, Repr

structure Field where
  key : String
  shape : Shape
  /-- Whether the field is left out when it is empty. -/
  optional : Bool

def Field.required (key : String) (shape : Shape) : Field := ⟨key, shape, false⟩

def Field.ifAny (key : String) (shape : Shape) : Field := ⟨key, shape, true⟩

open TreeCheck.Doc.Field in
/-- The fields of every record, in the order in which they are written. -/
def RecordKind.fields : RecordKind → List Field
  | .document => [required "version" .version, required "units" (.links .unit)]
  | .extent => [ifAny "line" .position, ifAny "col" .position, ifAny "end_line" .position,
      ifAny "end_col" .position]
  | .unit => [required "path" .text, ifAny "imports" (.links .importItem),
      ifAny "enums" (.links .enumeration), ifAny "globals" (.links .variable),
      ifAny "classes" (.links .classItem), ifAny "functions" (.links .function),
      ifAny "main" (.link .function)]
  | .topLevel => [ifAny "import" (.link .importItem), ifAny "enum" (.link .enumeration),
      ifAny "global" (.link .variable), ifAny "class" (.link .classItem),
      ifAny "function" (.link .function), ifAny "main" (.link .function),
      ifAny "stmt" (.link .statement)]
  | .importItem => [required "path" .text, required "span" .extent]
  | .enumeration => [required "name" .text, required "consts" (.links .constant),
      ifAny "mods" .texts, required "span" .extent]
  | .constant => [required "name" .text, required "span" .extent]
  | .variable => [required "name" .text, ifAny "type" (.link .typeExpr),
      ifAny "init" (.link .expression), ifAny "mods" .texts, required "span" .extent]
  | .typeParam => [required "name" .text, ifAny "constraint" .text, required "span" .extent]
  | .function => [required "name" .text, ifAny "type_params" (.links .typeParam),
      ifAny "params" (.links .variable), ifAny "ret" (.link .typeExpr),
      ifAny "body" (.links .statement), ifAny "no_body" .flag, ifAny "mods" .texts,
      required "span" .extent]
  | .classItem => [required "name" .text, ifAny "type_params" (.links .typeParam),
      ifAny "base" (.link .typeExpr), ifAny "fields" (.links .variable),
      ifAny "methods" (.links .function), ifAny "mods" .texts, required "span" .extent]
  | .typeExpr => [required "kind" .text, ifAny "name" .text, ifAny "args" (.links .typeExpr),
      ifAny "base" (.link .typeExpr), ifAny "dims" .dimensions,
      ifAny "elems" (.links .typeExpr), required "span" .extent]
  | .statement => [required "kind" .text, ifAny "stmts" (.links .statement),
      ifAny "decl" (.link .variable), ifAny "expr" (.link .expression),
      ifAny "target" (.link .expression), ifAny "value" (.link .expression),
      ifAny "cond" (.link .expression), ifAny "then" (.link .statement),
      ifAny "else" (.link .statement), ifAny "body" (.link .statement), ifAny "var" .text,
      ifAny "from" (.link .expression), ifAny "to" (.link .expression),
      ifAny "subject" (.link .expression), ifAny "arms" (.links .arm),
      ifAny "default" (.link .statement), required "span" .extent]
  | .arm => [required "values" (.links .expression), required "body" (.link .statement),
      required "span" .extent]
  | .expression => [required "kind" .text, ifAny "lit" .text, ifAny "value" .text,
      ifAny "name" .text, ifAny "recv" (.link .expression), ifAny "target" (.link .expression),
      ifAny "type_args" (.links .typeExpr), ifAny "args" (.links .expression),
      ifAny "op" .text, ifAny "left" (.link .expression), ifAny "right" (.link .expression),
      ifAny "operand" (.link .expression), ifAny "type" (.link .typeExpr),
      ifAny "inits" (.links .initializer), ifAny "elems" (.links .expression),
      required "span" .extent]
  | .initializer => [required "field" .text, required "value" (.link .expression),
      required "span" .extent]

/-- A piece of a document before it is sorted into records of their own types. -/
inductive Datum where
  | absent
  | text (value : String)
  | flag (value : Bool)
  | number (value : Int)
  /-- The values of the fields, in the order of the schema. -/
  | record (values : List Datum)
  /-- The items of a list, and what a longer list written there before left behind: a list
  read over another one starts from the items of the earlier. -/
  | list (items kept : List Datum)
  deriving Inhabited

namespace Datum

def emptyExtent : Datum := .record [.number 0, .number 0, .number 0, .number 0]

end Datum

/-- What a field holds before anything is read into it. -/
def Shape.empty : Shape → Datum
  | .text => .text ""
  | .flag => .flag false
  | .version | .position | .dimensions => .number 0
  | .extent => .emptyExtent
  | .texts | .link _ | .links _ => .absent

/-- A record nothing was read into. -/
def RecordKind.empty (kind : RecordKind) : List Datum := kind.fields.map (·.shape.empty)

/-- The shape of the items of a list field. -/
def Shape.item : Shape → Shape
  | .links kind => .link kind
  | _ => .text

/-- The record a link or an extent leads to. -/
def Shape.kind? : Shape → Option RecordKind
  | .link kind => some kind
  | .links kind => some kind
  | .extent => some .extent
  | _ => none

/-- Position of a field among the fields of its record. -/
def RecordKind.index? (kind : RecordKind) (same : String → Bool) : Option (Nat × Shape) :=
  (kind.fields.zipIdx.find? fun (field, _) => same field.key).map fun (field, index) =>
    (index, field.shape)

end TreeCheck.Doc
