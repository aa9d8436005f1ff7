/-
Where programs come from. A span names a file by its number and a range of lines and
columns counted from one; line zero means that the position is not known. A file is
registered under its cleaned path, once; its contents play no part, the path is there for
diagnostics to show. A name is numbered on first sight, and the two spellings of one name
(composed or not) get one number; number zero is the empty name.
-/

import TreeCheck.Arena
import TreeCheck.Text.Composition
import TreeCheck.Text.Path

namespace TreeCheck

/-! ### Positions and spans -/

abbrev FileId := Nat

structure Position where
  line : UInt32 := 0
  column : UInt32 := 0
  deriving DecidableEq, Repr, Inhabited

namespace Position

/-- Line first, then column. -/
def before (first second : Position) : Bool :=
  first.line < second.line || (first.line == second.line && first.column < second.column)

end Position

structure Span where
  file : FileId := 0
  start : Position := {}
  stop : Position := {}
  deriving DecidableEq, Repr, Inhabited

namespace Span

/-- The span of a single position. -/
def point (file : FileId) (line column : UInt32) : Span :=
  ⟨file, ⟨line, column⟩, ⟨line, column⟩⟩

def isEmpty (span : Span) : Bool := span.start.line == 0

/-- Orders spans by file and start; where a span ends does not count. -/
def before (first second : Span) : Bool :=
  if first.file ≠ second.file then first.file < second.file
  else first.start.before second.start

/-- The smallest span that contains both. A span of another file, or of unknown position, adds
nothing. -/
def cover (span other : Span) : Span :=
  if span.file ≠ other.file ∨ other.isEmpty then span
  else if span.isEmpty then other
  else
    { span with
      start := if other.start.before span.start then other.start else span.start
      stop := if span.stop.before other.stop then other.stop else span.stop }

def text (span : Span) : String :=
  s!"{span.file}:{span.start.line}:{span.start.column}"

end Span

/-! ### Files -/

/-- What is known about a file besides its path, as a set of bits. -/
abbrev FileFlags := UInt8

namespace FileFlags

/-- Built in memory, by an interactive session. -/
def inMemory : FileFlags := 1

/-- Pulled in by an import. -/
def imported : FileFlags := 2

end FileFlags

structure SourceFile where
  path : String
  flags : FileFlags
  deriving Inhabited

structure Files where
  entries : Arena SourceFile := {}
  /-- Absolute paths are shown relative to this directory, unless it is empty. -/
  base : String := ""

namespace Files

def get? (files : Files) (id : FileId) : Option SourceFile := files.entries.get? id

def count (files : Files) : Nat := files.entries.size

/-- The file registered under a path. -/
def find? (files : Files) (path : String) : Option FileId :=
  (files.entries.items.findIdx? (·.path = Text.Path.clean path)).map (· + 1)

/-- Registers a path once; the flags of a later registration do not count. -/
def add (files : Files) (path : String) (flags : FileFlags) : FileId × Files :=
  match files.find? path with
  | some id => (id, files)
  | none =>
    (files.entries.next,
      { files with entries := files.entries.push ⟨Text.Path.clean path, flags⟩ })

/-- The path diagnostics show for a file. -/
def display (files : Files) (id : FileId) : String :=
  match files.get? id with
  | none => "<unknown>"
  | some file =>
    if files.base = "" ∨ ¬ Text.Path.isAbsolute file.path then file.path
    else (Text.Path.relativeTo? files.base file.path).getD file.path

end Files

/-! ### Names -/

abbrev NameId := Nat

structure Names where
  texts : Array String := #[""]

namespace Names

def size (names : Names) : Nat := names.texts.size

/-- The number of a name that was interned before. -/
def find? (names : Names) (text : String) : Option NameId :=
  names.texts.idxOf? (Text.Composition.canonical text)

/-- The number of a name, a new one on first sight. -/
def intern (names : Names) (text : String) : NameId × Names :=
  match names.find? text with
  | some id => (id, names)
  | none => (names.size, ⟨names.texts.push (Text.Composition.canonical text)⟩)

def text? (names : Names) (id : NameId) : Option String := names.texts[id]?

/-- The text of a name, empty for a number never handed out. -/
def text (names : Names) (id : NameId) : String := (names.text? id).getD ""

end Names

end TreeCheck
