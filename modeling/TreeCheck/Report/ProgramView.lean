/-
All that can be shown of an analysed program, each part under a name: its diagnostics in
three forms, its scopes, its trees, the annotations of the passes, and whether they hold
together. What a pass would have recorded is left out where the pass did not run.

The scopes are shown as text: every scope with its bindings in the order of binding, in aligned
columns, and the scopes inside it indented below.
-/

import TreeCheck.Check.Program
import TreeCheck.Pipeline.Workspace
import TreeCheck.Report.Export
import TreeCheck.Report.TreeText
import TreeCheck.Tree.Shape

namespace TreeCheck

structure ScopeReport where
  tree : Tree
  names : Resolution
  /-- The types of bindings, if they are known. -/
  typing : Option Typing
  naming : Naming

/-- Key, kind, type and place of a binding. -/
structure BindingRow where
  key : String
  kind : String
  type : String
  place : String

namespace ScopeReport

/-- The type of a declaration; a dash when it has none. -/
def typeText (report : ScopeReport) (id : DeclId) : String :=
  match report.typing with
  | none => ""
  | some typing =>
    match (typing.declTypes[id]?.filter (· ≠ 0)).or typing.nominal[id]? with
    | some type => typing.types.label type
    | none => "-"

def rows (report : ScopeReport) (scope : Scope) : List BindingRow :=
  scope.keys.filterMap fun key =>
    let id := (scope.find? key).getD 0
    (report.tree.decls.get? id).map fun decl =>
      ⟨key.text, decl.kind.name, report.typeText id, report.naming.place decl.span⟩

/-- The width of the widest of some texts. -/
def widest (texts : List String) : Nat := (texts.map Text.width).foldl max 0

def rowTexts (rows : List BindingRow) : List String :=
  let keys := widest (rows.map BindingRow.key)
  let kinds := widest (rows.map BindingRow.kind)
  let types := widest (rows.map BindingRow.type)
  rows.map fun row =>
    Text.fillRight row.key keys ++ "  " ++ Text.fillRight row.kind kinds ++
      (if 0 < types then "  " ++ Text.fillRight row.type types else "") ++ "  " ++ row.place

def header (report : ScopeReport) (id : ScopeId) (scope : Scope) : String :=
  s!"#{id} {scope.kind.name}" ++
    (if scope.owner = 0 then "" else " " ++ report.tree.nameOf scope.owner) ++ " " ++
    report.naming.place scope.span ++
    (if scope.importLink = 0 then "" else s!" (imports #{scope.importLink})")

def scopeWithin (report : ScopeReport) : Nat → String → ScopeId → List String
  | 0, _, _ => []
  | fuel + 1, indent, id =>
    match report.names.scopes.get? id with
    | none => []
    | some scope =>
      (indent ++ report.header id scope) ::
        (rowTexts (report.rows scope)).map (indent ++ "  " ++ ·) ++
        scope.children.flatMap (scopeWithin report fuel (indent ++ "  "))

/-- The scopes of every resolved unit, imported units first. Scopes do not nest deeper than
there are scopes. -/
def text (report : ScopeReport) : String :=
  let roots := report.names.unitOrder.filterMap fun unit => report.names.units[unit]?
  let lines := roots.flatMap (report.scopeWithin (report.names.scopes.scopes.size + 1) "")
  Text.join "" (lines.map (· ++ "\n"))

end ScopeReport

structure ViewOptions where
  /-- The directory that paths are shown relative to. -/
  base : String := ""
  mode : PathMode := .auto
  /-- How many diagnostics are shown as JSON; zero or less for all. -/
  limit : Int := 0
  color : Bool := false
  columns : Int := 0
  notes : Bool := false
  hints : Bool := false

def ViewOptions.naming (options : ViewOptions) (files : Files) : Naming :=
  { files := some { files with base := options.base }, mode := options.mode }

structure ProgramView where
  options : ViewOptions := {}
  tree : Tree := {}
  files : Files := {}
  analysis : Analysis := {}
  /-- Whether names were resolved. -/
  resolved : Bool := false
  /-- Whether types were checked. -/
  typed : Bool := false
  bag : Bag := {}

namespace ProgramView

def ofChecked (options : ViewOptions) (program : CheckedProgram) : ProgramView :=
  let verdict := program.verdict
  { options, tree := program.tree, files := program.files, analysis := verdict.analysis
    resolved := verdict.resolved, typed := verdict.typed, bag := verdict.bag }

/-- The view of a run of the passes over a program that was loaded. -/
def ofOutcome (options : ViewOptions) (loader : Loader) (limit : Int) (outcome : BatchOutcome) :
    ProgramView :=
  { options, tree := loader.tree, files := loader.files, analysis := outcome.analysis
    resolved := outcome.completed .resolve, typed := outcome.completed .typecheck
    bag := ({ limit } : Bag).addAll outcome.diagnostics }

def ofWorkspace (options : ViewOptions) (workspace : Workspace) (diagnostics : List Diagnostic) :
    ProgramView :=
  { options, tree := workspace.tree, files := workspace.loader.files
    analysis := workspace.analysis, resolved := workspace.resolved, typed := workspace.typed
    bag := { items := diagnostics } }

def naming (view : ProgramView) : Naming := view.options.naming view.files

def typing? (view : ProgramView) : Option Typing :=
  if view.typed then some view.analysis.typing else none

/-! ### Diagnostics -/

def prettyText (view : ProgramView) : String :=
  let options := view.options
  PrettyReport.text ⟨view.naming, options.color, options.columns, options.notes, options.hints⟩
    view.bag.items

def shortText (view : ProgramView) : String :=
  Diagnostic.shortText view.naming view.options.notes view.bag.items

/-- The diagnostics as JSON. -/
def json (view : ProgramView) : Json :=
  let options := view.options
  JsonReport.json ⟨view.naming, options.limit, options.notes, options.hints⟩ view.bag

/-- The diagnostics as JSON with all notes and hints. -/
def fullJson (view : ProgramView) : Json :=
  { view with options := { view.options with notes := true, hints := true } }.json

/-! ### Trees and annotations -/

def scopesText? (view : ProgramView) : Option String :=
  if view.resolved then
    some (ScopeReport.text ⟨view.tree, view.analysis.names, view.typing?, view.naming⟩)
  else none

def treeText (view : ProgramView) (unit : UnitId) : String :=
  (TreeReport.unit? ⟨view.tree, view.typing?, view.naming⟩ unit).getD ""

def annotations (view : ProgramView) : Json :=
  .object <| (if view.resolved then AnnotationJson.ofResolution view.analysis.names else []) ++
    (if view.typed then AnnotationJson.ofTyping view.analysis.typing else [])

def members (view : ProgramView) : Json :=
  if view.resolved then AnnotationJson.members view.tree view.analysis.names else .array []

/-- How many nodes of each sort there are. -/
def sizes (view : ProgramView) : Json :=
  let tree := view.tree
  .object [("units", .ofNat tree.units.size), ("decls", .ofNat tree.decls.size),
    ("stmts", .ofNat tree.stmts.size), ("exprs", .ofNat tree.exprs.size),
    ("types", .ofNat tree.types.size), ("strings", .ofNat tree.names.size),
    ("files", .ofNat view.files.count)]

/-! ### Consistency -/

/-- What is wrong with the shape of a unit. -/
def shapeLines (view : ProgramView) (unit : UnitId) : List String :=
  (view.tree.shapeFaults unit).map ShapeFault.message

/-- What is wrong with the resolution, in order. -/
def resolutionLines (view : ProgramView) : List String :=
  ((view.analysis.names.faults view.tree).map ResolutionFault.message).mergeSort
    fun first second => !(second < first)

/-! ### Parts by name -/

/-- The part of a name, if there is one. -/
def part? (view : ProgramView) (name : String) : Option Json :=
  let texts (lines : List String) : Json := .array (lines.map .text)
  let units (f : UnitId → Json) : Json := .array (view.tree.units.ids.map f)
  match name with
  | "scopes" => some (.text (view.scopesText?.getD ""))
  | "tree" => some (units fun unit => .text (view.treeText unit))
  | "pretty" => some (.text view.prettyText)
  | "short" => some (.text view.shortText)
  | "json" => some (.text view.json.document)
  | "annot" => some view.annotations
  | "members" => some view.members
  | "invariants" => some (units fun unit => texts (view.shapeLines unit))
  | "resultcheck" => if view.resolved then some (texts view.resolutionLines) else none
  | "arena" => some view.sizes
  | _ => none

/-- The named parts that there are. -/
def parts (view : ProgramView) (names : List String) : List (String × Json) :=
  names.filterMap fun name => (view.part? name).map (name, ·)

end ProgramView

end TreeCheck
