/-
Outcomes of earlier checks, kept on disk. An outcome is found again by a digest of all
that it depends on: the files that were read, in the order they were read, and the
settings that change what is reported. File numbers mean nothing outside the check that
gave them, so positions are kept with the path of their file.
-/

import TreeCheck.Check.Digest
import TreeCheck.Diagnostic.Sink
import TreeCheck.Disk.Basic
import TreeCheck.Json.Reader
import TreeCheck.Json.Writer
import TreeCheck.Pipeline.Pass

namespace TreeCheck

/-! ### Keys -/

/-- The settings that change the outcome of a check. -/
structure Fingerprint where
  passes : List Pass
  limit : Int
  warningsAsErrors : Bool
  interactive : Bool
  deriving DecidableEq, Repr

def Fingerprint.parts (fingerprint : Fingerprint) : List String :=
  [Text.join "," (fingerprint.passes.map Pass.name), toString fingerprint.limit,
    toString fingerprint.warningsAsErrors, toString fingerprint.interactive]

namespace CacheKey

/-- Bytes with an end mark. -/
def terminated (bytes : List UInt8) : List UInt8 := bytes ++ [0]

/-- What the key of a check is a digest of: paths, digests of contents and settings. Paths are
texts here; one whose bytes are no text would be taken as it is. -/
def preimage (sources : List (String × Digest)) (fingerprint : Fingerprint) : List UInt8 :=
  sources.flatMap (fun (path, content) =>
      terminated (Text.Utf8.encode path) ++ terminated content.bytes) ++
    fingerprint.parts.flatMap fun part => terminated (Text.Utf8.encode part)

def of (sources : List (String × List UInt8)) (fingerprint : Fingerprint) : Digest :=
  Digest.of (preimage (sources.map fun (path, content) => (path, Digest.of content)) fingerprint)

end CacheKey

/-! ### Stored outcomes -/

/-- A span with the path of its file; no path for a file that is not known. -/
structure StoredSpan where
  path : String
  start : Position
  stop : Position
  deriving DecidableEq, Repr, Inhabited

namespace StoredSpan

def of (files : Files) (span : Span) : StoredSpan :=
  ⟨((files.get? span.file).map SourceFile.path).getD "", span.start, span.stop⟩

/-- The span in a set of files, to which its file is added if it is new. -/
def restore (span : StoredSpan) (files : Files) : Span × Files :=
  if span.path = "" then ({}, files)
  else
    let (file, files) := files.add span.path FileFlags.imported
    (⟨file, span.start, span.stop⟩, files)

end StoredSpan

structure StoredNote where
  span : StoredSpan
  message : String
  deriving DecidableEq, Repr, Inhabited

structure StoredDiagnostic where
  severity : Severity
  code : Code
  args : List String
  span : StoredSpan
  notes : List StoredNote
  hint : Option Hint
  deriving DecidableEq, Repr, Inhabited

namespace StoredDiagnostic

def of (files : Files) (diagnostic : Diagnostic) : StoredDiagnostic :=
  { severity := diagnostic.severity, code := diagnostic.code, args := diagnostic.args
    span := .of files diagnostic.span
    notes := diagnostic.notes.map fun note => ⟨.of files note.span, note.message⟩
    hint := diagnostic.hint }

def restoreNotes : List StoredNote → Files → List Note × Files
  | [], files => ([], files)
  | note :: rest, files =>
    let (span, files) := note.span.restore files
    let (notes, files) := restoreNotes rest files
    (⟨span, note.message⟩ :: notes, files)

def restore (stored : StoredDiagnostic) (files : Files) : Diagnostic × Files :=
  let (span, files) := stored.span.restore files
  let (notes, files) := restoreNotes stored.notes files
  ({ severity := stored.severity, code := stored.code, args := stored.args, span, notes
     hint := stored.hint }, files)

def restoreAll : List StoredDiagnostic → Files → List Diagnostic × Files
  | [], files => ([], files)
  | stored :: rest, files =>
    let (diagnostic, files) := stored.restore files
    let (diagnostics, files) := restoreAll rest files
    (diagnostic :: diagnostics, files)

end StoredDiagnostic

/-- What a check that is found again replays. -/
structure StoredOutcome where
  ran : List String
  errors : Nat
  warnings : Nat
  diagnostics : List StoredDiagnostic
  deriving DecidableEq, Repr, Inhabited

/-! ### Stored outcomes as text -/

namespace StoredOutcome

/-- Files of another schema do not count. -/
def schema : Nat := 1

def textsJson (texts : List String) : Json := .array (texts.map .text)

def spanJson (span : StoredSpan) : Json :=
  .array (.text span.path ::
    [span.start.line, span.start.column, span.stop.line, span.stop.column].map
      fun word => .ofNat word.toNat)

def hintJson : Option Hint → Json
  | none => .null
  | some hint => .array [.ofNat hint.code.number, textsJson hint.args]

def diagnosticJson (stored : StoredDiagnostic) : Json :=
  .array [.ofNat stored.severity.rank, .ofNat stored.code.number, textsJson stored.args,
    spanJson stored.span,
    .array (stored.notes.map fun note => .array [spanJson note.span, .text note.message]),
    hintJson stored.hint]

def json (outcome : StoredOutcome) : Json :=
  .array [.ofNat schema, textsJson outcome.ran, .ofNat outcome.errors, .ofNat outcome.warnings,
    .array (outcome.diagnostics.map diagnosticJson)]

def nat? : Json → Option Nat
  | .number literal => (Json.int? literal).map Int.toNat
  | _ => none

def text? : Json → Option String
  | .text value => some value
  | _ => none

def texts? : Json → Option (List String)
  | .array items => items.mapM text?
  | _ => none

def span? : Json → Option StoredSpan
  | .array [path, line, column, endLine, endColumn] => do
    let word (value : Json) : Option UInt32 := (nat? value).map UInt32.ofNat
    return ⟨← text? path, ⟨← word line, ← word column⟩, ⟨← word endLine, ← word endColumn⟩⟩
  | _ => none

def note? : Json → Option StoredNote
  | .array [span, message] => do return ⟨← span? span, ← text? message⟩
  | _ => none

def hint? : Json → Option (Option Hint)
  | .null => some none
  | .array [code, args] => do return some ⟨⟨← nat? code⟩, ← texts? args⟩
  | _ => none

def diagnostic? : Json → Option StoredDiagnostic
  | .array [severity, code, args, span, .array notes, hint] => do
    return { severity := ⟨← nat? severity⟩, code := ⟨← nat? code⟩, args := ← texts? args
             span := ← span? span, notes := ← notes.mapM note?, hint := ← hint? hint }
  | _ => none

def ofJson? : Json → Option StoredOutcome
  | .array [version, ran, errors, warnings, .array diagnostics] => do
    if (← nat? version) = schema then
      return ⟨← texts? ran, ← nat? errors, ← nat? warnings, ← diagnostics.mapM diagnostic?⟩
    else none
  | _ => none

end StoredOutcome

/-! ### On disk -/

/-- A directory with stored outcomes. -/
structure Cache where
  directory : String

namespace Cache

/-- The cache in a directory, which is made if it is not there. -/
def openAt (disk : Disk) (directory : String) : Except DiskError (Cache × Disk) := do
  return (⟨directory⟩, ← disk.makeDirectories directory)

def folder (cache : Cache) : String := Text.Path.joinAll [cache.directory, "checks"]

def file (cache : Cache) (key : Digest) : String :=
  Text.Path.joinAll [cache.folder, key.text ++ ".mp"]

/-- The outcome of a key. A file that is not there or cannot be read is no outcome. -/
def get? (cache : Cache) (disk : Disk) (key : Digest) : Option StoredOutcome := do
  let content ← (disk.read (cache.file key)).toOption
  StoredOutcome.ofJson? (← Json.parse? (← Text.Utf8.ofBytes? content))

/-- Stores an outcome. If that fails the next check does the work again. -/
def put (cache : Cache) (disk : Disk) (key : Digest) (outcome : StoredOutcome) : Disk :=
  match disk.makeDirectories cache.folder with
  | .error _ => disk
  | .ok made =>
    match made.write (cache.file key) (Text.Utf8.encode outcome.json.compact) with
    | .error _ => made
    | .ok written => written

/-- Drops every stored outcome. -/
def clear (cache : Cache) (disk : Disk) : Disk :=
  match disk.locate cache.directory with
  | .error _ => disk
  | .ok place => (disk.remove place).put place .directory

/-- Writes the same bytes over every stored outcome. -/
def overwrite (cache : Cache) (content : List UInt8) (disk : Disk) : Disk :=
  match disk.locate cache.folder with
  | .error _ => disk
  | .ok place =>
    (disk.list place).foldl (fun disk (name, _) => disk.put (place ++ [name]) (.file content)) disk

end Cache

end TreeCheck
