/-
Entries of the tables of an analysis as JSON: types and scopes by their numbers,
diagnostics as rows, recorded events, and the settings that led to them.
-/

import TreeCheck.Diagnostic.Sink
import TreeCheck.Pipeline.Settings
import TreeCheck.Scope.Table
import TreeCheck.Trace.Recorder
import TreeCheck.Trace.Tracer
import TreeCheck.Types.Operators

namespace TreeCheck

def Json.ids (numbers : List Nat) : Json := .array (numbers.map .ofNat)

def Json.texts (items : List String) : Json := .array (items.map .text)

/-! ### Types -/

/-- What a kind of types is called, and what it belongs to. -/
def TypeKind.json (kind : TypeKind) : Json :=
  .object [("kind", .text kind.name), ("code", .text (String.singleton kind.code)),
    ("discrete", .bool kind.isDiscrete), ("scalar", .bool kind.isScalar),
    ("numeric", .bool kind.isNumeric), ("stringlike", .bool kind.isStringLike),
    ("family", .ofNat kind.family.bits.toNat)]

def TypeForm.row (form : TypeForm) : List Json :=
  [.text form.kind.name, .ofNat form.elem, .ofNat form.dims.toNat, .ofNat form.slot]

/-- What is known of a class, an enum or a template parameter; null for any other type. -/
def TypeTable.infoJson (table : TypeTable) (id : TypeId) : Json :=
  match table.classInfo? id, table.enumInfo? id, table.paramInfo? id with
  | some info, _, _ =>
    .object [("name", .text info.name), ("decl", .ofNat info.decl), ("base", .ofNat info.base),
      ("params", .ids info.params), ("generic", .ofNat info.generic), ("args", .ids info.args)]
  | none, some info, _ => .object [("name", .text info.name), ("decl", .ofNat info.decl)]
  | none, none, some info =>
    .object [("name", .text info.name), ("decl", .ofNat info.decl),
      ("constraint", .text info.constraint.name)]
  | none, none, none => .null

/-- The number of an operator, whether there is one, its text, whether it has rules, and them. -/
def BinaryOp.row (op : Option BinaryOp) : Json :=
  let rules := (op.map BinaryOp.rules).getD []
  .array [.ofNat ((op.map number).getD 0), .bool op.isSome, .text ((op.map text).getD "?"),
    .bool op.isSome,
    .array (rules.map fun rule =>
      .ids [rule.left.bits.toNat, rule.right.bits.toNat, rule.result.number, rule.flags])]

def UnaryOp.row (op : Option UnaryOp) : Json :=
  let rules := (op.map UnaryOp.rules).getD []
  .array [.ofNat ((op.map number).getD 0), .bool op.isSome, .text ((op.map text).getD "?"),
    .bool op.isSome,
    .array (rules.map fun rule => .ids [rule.operand.bits.toNat, rule.result.number])]

/-! ### Scopes -/

def Scope.json (scope : Scope) : Json :=
  let entry (key : Key) : Json := .array [.text key.text, .ofNat ((scope.find? key).getD 0)]
  .object [("kind", .text scope.kind.name), ("parent", .ofNat scope.parent),
    ("import", .ofNat scope.importLink), ("owner", .ofNat scope.owner),
    ("unit", .ofNat scope.unit), ("entries", .array (scope.keys.map entry)),
    ("children", .ids scope.children), ("closed", .bool scope.closed)]

/-! ### Diagnostics -/

def Span.row (span : Span) : Json :=
  .ids [span.file, span.start.line.toNat, span.start.column.toNat, span.stop.line.toNat,
    span.stop.column.toNat]

def Diagnostic.row (diagnostic : Diagnostic) : Json :=
  let note (note : Note) : Json := .array [.text note.message, note.span.row]
  .array [.text diagnostic.severity.label, .text diagnostic.code.id, .text diagnostic.message,
    diagnostic.span.row, .array (diagnostic.notes.map note),
    .text ((diagnostic.hint.map Hint.message).getD "")]

def Bag.rows (bag : Bag) : Json := .array (bag.items.map Diagnostic.row)

def Bag.countsJson (bag : Bag) : Json :=
  .object [("errors", .ofNat bag.errors), ("warnings", .ofNat bag.warnings),
    ("len", .ofNat bag.items.length), ("dropped", .ofNat bag.dropped),
    ("has_errors", .bool bag.hasErrors)]

/-! ### Traces and settings -/

/-- The events of a recorder as text, each with its span and the span around it. -/
def Trace.Recorder.rows (recorder : Trace.Recorder) : Json :=
  .array (recorder.events.toList.map fun event =>
    .array [.text event.text, .ofNat event.span, .ofNat event.parent])

def Settings.json (settings : Settings) : Json :=
  .object [("passes", .texts settings.passes), ("stop_after", .ofInt settings.stopAfter),
    ("mode", .text settings.mode), ("max", .ofInt settings.limit),
    ("format", .text settings.format), ("color", .text settings.color),
    ("wae", .bool settings.warningsAsErrors)]

end TreeCheck
