/-
Diagnostics and annotations as JSON, for tools that go on from there. Of a diagnostic, what is
zero or empty is left out. The annotations of an analysis are tables, each a list of pairs in
the order of the keys, with types by their labels; what an analysis did not come to is left
out.
-/

import TreeCheck.Analysis.State
import TreeCheck.Json.Writer
import TreeCheck.Report.DiagnosticText
import TreeCheck.Types.Label

namespace TreeCheck

/-! ### Diagnostics -/

structure JsonReport where
  naming : Naming
  /-- How many diagnostics are shown; zero or less for all. -/
  limit : Int := 0
  notes : Bool := true
  hints : Bool := true

namespace JsonReport

/-- A field that is left out when it is zero. -/
def positionField (name : String) (value : UInt32) : List (String × Json) :=
  if value = 0 then [] else [(name, .ofNat value.toNat)]

def location (report : JsonReport) (span : Span) : Json :=
  .object <|
    [("file", .text (if span.file = 0 then "" else report.naming.path span.file))] ++
    positionField "start_line" span.start.line ++ positionField "start_col" span.start.column ++
    positionField "end_line" span.stop.line ++ positionField "end_col" span.stop.column

def note (report : JsonReport) (note : Note) : Json :=
  .object [("message", .text note.message), ("location", report.location note.span)]

def diagnostic (report : JsonReport) (diagnostic : Diagnostic) : Json :=
  let args := diagnostic.args.map Json.text
  let notes := if report.notes then diagnostic.notes.map report.note else []
  let hint := if report.hints then (diagnostic.hint.map Hint.message).getD "" else ""
  .object <|
    [("severity", .text diagnostic.severity.label), ("code", .text diagnostic.code.id),
      ("title", .text diagnostic.code.title), ("message", .text diagnostic.message)] ++
    (if args.isEmpty then [] else [("args", .array args)]) ++
    [("location", report.location diagnostic.span)] ++
    (if notes.isEmpty then [] else [("notes", .array notes)]) ++
    (if hint = "" then [] else [("fix", .text hint)])

/-- The diagnostics of a bag. -/
def json (report : JsonReport) (bag : Bag) : Json :=
  let shown := if 0 < report.limit then bag.items.take report.limit.toNat else bag.items
  .object <|
    [("diagnostics", .array (shown.map report.diagnostic)), ("count", .ofNat shown.length)] ++
    (if bag.dropped = 0 then [] else [("dropped", .ofNat bag.dropped)])

def text (report : JsonReport) (bag : Bag) : String := (report.json bag).document

end JsonReport

/-! ### Annotations -/

namespace AnnotationJson

def ids (items : List Nat) : Json := .array (items.map .ofNat)

def optionalId (id : Option Nat) : Json := .ofNat (id.getD 0)

def table {α : Type} (value : α → Json) (entries : Std.TreeMap Nat α) : Json :=
  .array (entries.toList.map fun (key, entry) => .array [.ofNat key, value entry])

def key (key : Key) : Json := .text key.text

def ofResolution (names : Resolution) : List (String × Json) :=
  [("units", table .ofNat names.units), ("unit_order", ids names.unitOrder),
    ("scope_of_decl", table .ofNat names.scopeOfDecl),
    ("scope_of_stmt", table .ofNat names.scopeOfStmt),
    ("decl_scope", table .ofNat names.declScope), ("keys", table key names.keys),
    ("uses", table .ofNat names.uses), ("type_refs", table .ofNat names.typeRefs),
    ("bases", table .ofNat names.bases), ("order", ids names.order)]

def ofTyping (typing : Typing) : List (String × Json) :=
  let label (type : TypeId) : Json := .text (typing.types.label type)
  [("expr_types", table label typing.exprTypes), ("decl_types", table label typing.declTypes),
    ("nominal", table label typing.nominal), ("targets", table .ofNat typing.targets),
    ("call_sigs", table key typing.callKeys), ("has_return", table .bool typing.returns),
    ("overrides", table .ofNat typing.overrides), ("type_count", .ofNat typing.types.size)]

/-! ### Members of classes -/

/-- A field that a class declares, and what its name means in the class. -/
def field (tree : Tree) (names : Resolution) (owner id : DeclId) : Json :=
  let name := tree.nameOf id
  let found := names.member? owner name
  .array [.text name, optionalId found, .bool found.isSome]

/-- A method that a class declares: what a call through the class or from inside it may mean,
and what the method overrides. -/
def method (tree : Tree) (names : Resolution) (owner id : DeclId) : Json :=
  let name := tree.nameOf id
  let overridden := names.overridden? id owner
  .array [.text name, ids (names.methodCandidates owner name),
    ids (names.callCandidates (names.scopeOf owner) (some owner) name), optionalId overridden,
    .bool overridden.isSome]

def classMembers (tree : Tree) (names : Resolution) (id : DeclId) : Json :=
  let body := (tree.classBody? id).getD default
  let heirs := names.order.filter (names.isAncestor id)
  .object [("class", .text (tree.nameOf id)), ("ancestors", ids (names.ancestors id)),
    ("scope", .ofNat (names.scopeOf id)),
    ("fields", .array (body.fields.map (field tree names id))),
    ("methods", .array (body.methods.map (method tree names id))),
    ("ancestor_of", .array (heirs.map fun heir => .text (tree.nameOf heir)))]

/-- The members of every class, bases first. -/
def members (tree : Tree) (names : Resolution) : Json :=
  .array (names.order.map (classMembers tree names))

end AnnotationJson

end TreeCheck
