/-
Diagnostics as text: one aligned line for each, or in full with wrapped messages, notes
and hints; and how files and places are named in what is shown.
-/

import TreeCheck.Diagnostic.Sink
import TreeCheck.Text.Terminal

namespace TreeCheck

inductive PathMode where
  /-- Relative to the base directory where that is possible. -/
  | auto
  /-- As the file was registered. -/
  | absolute
  | baseName
  deriving DecidableEq, Repr, Inhabited

/-- The files that are shown, and how. Without files, their numbers are shown. -/
structure Naming where
  files : Option Files
  mode : PathMode := .auto

namespace Naming

def path (naming : Naming) (id : FileId) : String :=
  match naming.files with
  | none => s!"file{id}"
  | some files =>
    match files.get? id with
    | none => "<unknown>"
    | some file =>
      match naming.mode with
      | .absolute => file.path
      | .baseName => Text.Path.baseName file.path
      | .auto => files.display id

/-- The start of a span; a span without a file has none. -/
def place (naming : Naming) (span : Span) : String :=
  if span.file = 0 then "-"
  else s!"{naming.path span.file}:{span.start.line}:{span.start.column}"

end Naming

/-! ### Aligned lines -/

/-- One line: what it is, its code, its place and its text. -/
structure ShortLine where
  label : String
  code : String
  place : String
  text : String

namespace ShortLine

def ofDiagnostic (naming : Naming) (withNotes : Bool) (diagnostic : Diagnostic) :
    List ShortLine :=
  let code := diagnostic.code.id
  let place := naming.place diagnostic.span
  let hint := (diagnostic.hint.map Hint.message).getD ""
  ⟨diagnostic.severity.label, code, place, diagnostic.message⟩ ::
    if withNotes then
      (diagnostic.notes.map fun note => ⟨"note", code, naming.place note.span, note.message⟩) ++
        (if hint = "" then [] else [⟨"help", code, place, hint⟩])
    else []

/-- The width of the widest of some texts. -/
def widest (texts : List String) : Nat := (texts.map Text.width).foldl max 0

/-- The lines with their columns aligned. -/
def render (lines : List ShortLine) : String :=
  let labels := widest (lines.map label)
  let codes := widest (lines.map code)
  let places := widest (lines.map place)
  Text.join "" <| lines.map fun line =>
    Text.fillRight line.label labels ++ "  " ++ Text.fillRight line.code codes ++ "  " ++
      Text.fillRight line.place places ++ "  " ++ line.text ++ "\n"

end ShortLine

/-- One aligned line for every diagnostic, and for its notes and hint if they are wanted. -/
def Diagnostic.shortText (naming : Naming) (withNotes : Bool) (diagnostics : List Diagnostic) :
    String :=
  ShortLine.render (diagnostics.flatMap (ShortLine.ofDiagnostic naming withNotes))

/-! ### In full -/

/-- The words of a text. -/
def Text.words (text : String) : List String :=
  go text.toList [] []
where
  finish (word : List Char) (words : List String) : List String :=
    if word.isEmpty then words else String.ofList word.reverse :: words
  go : List Char → List Char → List String → List String
    | [], word, words => (finish word words).reverse
    | character :: rest, word, words =>
      if isBlank character then go rest [] (finish word words)
      else go rest (character :: word) words

/-- Puts words behind a line of some width, going to a new line where the next word would not
fit. -/
def Text.wrapFrom (columns : Nat) (indent : String) : Nat → List String → String
  | _, [] => ""
  | line, word :: rest =>
    if line + 1 + width word > columns then
      "\n" ++ indent ++ word ++ wrapFrom columns indent (width word) rest
    else " " ++ word ++ wrapFrom columns indent (line + 1 + width word) rest

/-- A text cut between words so that no line is wider than so many columns, if that can be;
further lines are indented. A width that is not positive is none. -/
def Text.wrapped (text : String) (columns : Int) (indent : String) : String :=
  if columns ≤ 0 ∨ (width text : Int) ≤ columns then text ++ "\n"
  else
    match words text with
    | [] => "\n"
    | word :: rest => word ++ wrapFrom columns.toNat indent (width word) rest ++ "\n"

structure PrettyReport where
  naming : Naming
  color : Bool := false
  columns : Int := 0
  notes : Bool := false
  hints : Bool := false

/-- The colour of a severity. -/
def Severity.style (severity : Severity) : Text.Style :=
  if severity = .error then ⟨[Text.Style.red, Text.Style.bold]⟩
  else if severity = .warning then ⟨[Text.Style.yellow, Text.Style.bold]⟩
  else ⟨[Text.Style.cyan]⟩

namespace PrettyReport

def paint (report : PrettyReport) (code : Nat) (text : String) : String :=
  Text.Style.paint ⟨[code]⟩ report.color text

def note (report : PrettyReport) (note : Note) : String :=
  "    " ++ report.paint Text.Style.blue "note:" ++ " " ++ report.naming.place note.span ++ ": " ++
    Text.wrapped note.message report.columns "      "

def diagnostic (report : PrettyReport) (diagnostic : Diagnostic) : String :=
  let hint := (diagnostic.hint.map Hint.message).getD ""
  report.paint Text.Style.bold (report.naming.place diagnostic.span) ++ ": " ++
    diagnostic.severity.style.paint report.color diagnostic.severity.heading ++ " " ++
    report.paint Text.Style.faint diagnostic.code.id ++ ": " ++
    Text.wrapped diagnostic.message report.columns "    " ++
    (if report.notes then Text.join "" (diagnostic.notes.map report.note) else "") ++
    (if report.hints ∧ hint ≠ "" then
      "    " ++ report.paint Text.Style.green "help:" ++ " " ++
        Text.wrapped hint report.columns "      "
    else "")

def text (report : PrettyReport) (diagnostics : List Diagnostic) : String :=
  Text.join "" (diagnostics.map report.diagnostic)

end PrettyReport

/-! ### Summaries -/

def Text.plural (count : Int) (word : String) : String :=
  if count = 1 then "1 " ++ word else s!"{count} {word}s"

/-- How many errors and warnings there were, in the colour of the worse. -/
def summaryText (errors warnings : Int) (color : Bool) : String :=
  let severity : Severity :=
    if 0 < errors then .error else if 0 < warnings then .warning else .info
  severity.style.paint color
    (Text.plural errors "error" ++ ", " ++ Text.plural warnings "warning") ++ "\n"

end TreeCheck
