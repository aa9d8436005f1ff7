/-
Checking one program from its tree file: load it with the imports next to it, replay the
outcome of an identical earlier check if there is one, and run the pipeline otherwise,
pass by pass or by submitting one declaration after another.

A unit that a document lacks is looked for next to it: under the import path if that names a
tree file, and otherwise with the extension of a tree file added to the path or put in the
place of its own.
-/

import TreeCheck.Check.Cache
import TreeCheck.Check.Event
import TreeCheck.Doc.Codec
import TreeCheck.Pipeline.Session
import TreeCheck.Tree.Loader

namespace TreeCheck

/-! ### Tree files -/

/-- Why a tree file could not be read or written. -/
inductive TreeFileError where
  | unknownForm (path : String)
  | disk (failure : DiskError)
  | codec (path : String) (failure : Doc.CodecError)

def TreeFileError.message : TreeFileError → String
  | .unknownForm path => path ++ ": unknown tree format"
  | .disk failure => failure.message
  | .codec path failure => path ++ ": " ++ failure.message

namespace TreeFile

/-- The form the extension of a path stands for. -/
def form (path : String) : Except TreeFileError Doc.WireForm :=
  match Doc.WireForm.ofPath path with
  | .unknown => .error (.unknownForm path)
  | form => .ok form

def decode (path : String) (form : Doc.WireForm) (content : List UInt8) :
    Except TreeFileError Doc.Document :=
  (Doc.Document.decode form content).mapError (.codec path)

/-- The document of a file. -/
def read (disk : Disk) (path : String) : Except TreeFileError Doc.Document := do
  let form ← form path
  decode path form (← (disk.read path).mapError .disk)

/-- Like `read`, but a directory is opened like a file and then has no document in it. -/
def readStream (disk : Disk) (path : String) : Except TreeFileError Doc.Document := do
  let form ← form path
  match disk.read path with
  | .ok content => decode path form content
  | .error failure =>
    if failure.cause = .isDirectory then throw (.codec path (.undecodable form))
    else throw (.disk failure)

/-- Writes a document into a file. -/
def write (disk : Disk) (path : String) (document : Doc.Document) : Except TreeFileError Disk := do
  let form ← form path
  let content ← (document.encode form).mapError (.codec path)
  (disk.write path content).mapError .disk

/-! ### Imports -/

def extensions : List String := [".json", ".sbt"]

/-- The files an import may live in. -/
def candidates (directory importPath : String) : List String :=
  let base := Text.Path.joinAll [directory, importPath]
  if Doc.WireForm.ofPath importPath ≠ .unknown then [base]
  else
    extensions.map (base ++ ·) ++
      if Text.Path.extension base = "" then []
      else extensions.map (Text.Path.withoutExtension base ++ ·)

/-- The first of some files that is there, with its root unit. -/
def firstUnit (disk : Disk) : List String → Except TreeFileError (Option (String × Doc.Unit))
  | [] => .ok none
  | path :: rest =>
    match disk.stat path with
    | .error failure =>
      if failure.cause = .missing then firstUnit disk rest else .error (.disk failure)
    | .ok _ => do
      let document ← read disk path
      return (document.units.head?.bind id).map (path, ·)

/-- Finds imports next to a file. Inside the program a unit goes by its import path. -/
def siblings (disk : Disk) (path : String) : ImportSource :=
  { find := fun importPath =>
      match firstUnit disk (candidates (Text.Path.directory path) importPath) with
      | .error failure => .error failure.message
      | .ok found => .ok (found.map fun (_, unit) => { unit with path := importPath })
    bound := disk.size }

/-- The files that were read for a program: its own, and those of the imports it asked for. -/
def sources (disk : Disk) (path : String) (asked : List String) : List (String × List UInt8) :=
  let found := asked.filterMap fun importPath =>
    match firstUnit disk (candidates (Text.Path.directory path) importPath) with
    | .ok (some (sibling, _)) => some sibling
    | _ => none
  (path :: found).filterMap fun file =>
    match disk.read file with
    | .ok content => some (file, content)
    | .error _ => none

end TreeFile

/-! ### Programs -/

structure CheckOptions where
  pipeline : Pipeline := .full
  /-- How many diagnostics are kept; zero or less for all. -/
  limit : Int := 0
  warningsAsErrors : Bool := false
  validate : Bool := false
  /-- Submit the declarations of the root unit one at a time instead of running whole passes. -/
  interactive : Bool := false
  cache : Option Cache := none

def CheckOptions.fingerprint (options : CheckOptions) : Fingerprint :=
  ⟨options.pipeline.passes, options.limit, options.warningsAsErrors, options.interactive⟩

/-- Why a program could not be checked. -/
inductive ProgramError where
  | file (failure : TreeFileError)
  | load (failure : LoadError)
  | abort (abort : Abort)

def ProgramError.message : ProgramError → String
  | .file failure => failure.message
  | .load failure => failure.message
  | .abort (.raised diagnostic) => diagnostic.raisedText
  | .abort .missingNode => ""

/-- A step of a check, with what is worth saying about it. -/
structure Phase where
  name : String
  note : String
  deriving DecidableEq, Repr

/-- What a check found out. -/
structure Verdict where
  ran : List String
  errors : Nat
  warnings : Nat
  bag : Bag
  phases : List Phase
  /-- What the passes recorded, and how far they came; nothing for a replayed outcome. -/
  analysis : Analysis := {}
  resolved : Bool := false
  typed : Bool := false

structure CheckedProgram where
  root : UnitId
  tree : Tree
  files : Files
  verdict : Verdict
  cached : Bool := false

structure ProgramResult where
  path : String
  outcome : Except ProgramError CheckedProgram

namespace ProgramResult

/-- Whether the program was loaded and has no errors. -/
def succeeded (result : ProgramResult) : Bool :=
  match result.outcome with
  | .ok program => program.verdict.errors = 0
  | .error _ => false

def isCached (result : ProgramResult) : Bool :=
  match result.outcome with
  | .ok program => program.cached
  | .error _ => false

/-- The last thing told about a program. -/
def finalEvent (result : ProgramResult) : CheckEvent :=
  match result.outcome with
  | .error failure =>
    { file := result.path, status := .failed, failure := failure.message }
  | .ok program =>
    { file := result.path
      status := if program.cached then .cached
        else if program.verdict.errors = 0 then .done else .failed }

end ProgramResult

/-! ### Running -/

/-- Runs the passes one after another. -/
def runBatch (options : CheckOptions) (loader : Loader) (root : UnitId) (trace : Trace.Recorder)
    (parent : Nat) : Except ProgramError (Verdict × Trace.Recorder) :=
  let batch : BatchOptions :=
    { limit := options.limit, warningsAsErrors := options.warningsAsErrors
      validate := options.validate }
  match options.pipeline.run loader.tree root batch trace parent with
  | .error abort => .error (.abort abort)
  | .ok outcome =>
    .ok
      ({ ran := outcome.ran.map Pass.name, errors := outcome.errors, warnings := outcome.warnings
         bag := ({ limit := options.limit } : Bag).addAll outcome.diagnostics
         phases := outcome.reports.map fun report => ⟨report.pass.name, report.note⟩
         analysis := outcome.analysis, resolved := outcome.completed .resolve
         typed := outcome.completed .typecheck }, outcome.analysis.trace)

/-- Submits declarations one after another; how many were aborted by an error. -/
def submitAll (tree : Tree) : List DeclId → Session → Except ProgramError (Nat × Session)
  | [], session => .ok (0, session)
  | decl :: rest, session =>
    match session.submitDecl tree decl with
    | (_, some (.abort .missingNode)) => .error (.abort .missingNode)
    | (session, failure) => do
      let (aborted, session) ← submitAll tree rest session
      return (if failure.isSome then aborted + 1 else aborted, session)

/-- Submits the declarations of the root unit. What is reported again is kept once. -/
def runInteractive (options : CheckOptions) (loader : Loader) (root : UnitId)
    (trace : Trace.Recorder) (parent : Nat) : Except ProgramError (Verdict × Trace.Recorder) := do
  let decls := ((loader.tree.units.get? root).map ProgramUnit.topLevel).getD []
  let sink : Sink := { stages := [.dedup [], .count 0 0], bag := { limit := options.limit } }
  let (aborted, session) ← submitAll loader.tree decls
    (Session.start options.pipeline root sink options.warningsAsErrors trace parent)
  let sink := session.analysis.sink
  let (errors, warnings) := sink.counts.head?.getD (0, 0)
  let verdict : Verdict :=
    { ran := options.pipeline.passes.map Pass.name, errors, warnings, bag := sink.bag.sort
      phases := [⟨"submit", s!"{decls.length} declarations, {aborted} aborted"⟩]
      analysis := session.analysis, resolved := session.started.contains .resolve
      typed := session.started.contains .typecheck }
  return (verdict, session.analysis.trace)

/-- What is told about a program while its pipeline runs. -/
def workingEvents (options : CheckOptions) (path : String) (verdict : Verdict) :
    List CheckEvent :=
  if options.interactive then
    [{ file := path, status := .working, pass := "submit", step := 1, steps := 1 }]
  else
    verdict.ran.zipIdx.map fun (pass, index) =>
      { file := path, status := .working, pass, step := index + 1
        steps := options.pipeline.passes.length }

/-! ### Replaying -/

def Verdict.stored (verdict : Verdict) (files : Files) : StoredOutcome :=
  { ran := verdict.ran, errors := verdict.errors, warnings := verdict.warnings
    diagnostics := verdict.bag.items.map (.of files) }

/-- The verdict of a stored outcome, in the files of a program that was just loaded. -/
def StoredOutcome.replay (stored : StoredOutcome) (limit : Int) (files : Files) :
    Verdict × Files :=
  let (diagnostics, files) := StoredDiagnostic.restoreAll stored.diagnostics files
  ({ ran := stored.ran, errors := stored.errors, warnings := stored.warnings
     bag := ({ limit } : Bag).addAll diagnostics, phases := [] }, files)

/-! ### Checking -/

/-- What checks share: the disk, the trace, and what was told so far. -/
structure CheckState where
  disk : Disk
  trace : Trace.Recorder := {}
  events : Array CheckEvent := #[]

abbrev CheckM := StateM CheckState

namespace CheckM

def tell (event : CheckEvent) : CheckM Unit :=
  modify fun state => { state with events := state.events.push event }

def startSpan (name : String) (parent : Nat) : CheckM Trace.OpenSpan :=
  modifyGet fun state =>
    let (span, trace) := state.trace.start .driver name parent
    (span, { state with trace })

def endSpan (span : Trace.OpenSpan) (detail : String) : CheckM Unit :=
  modify fun state => { state with trace := state.trace.finish span detail }

end CheckM

/-- Loads a program with the imports next to it. -/
def loadProgram (disk : Disk) (path : String) : Except ProgramError (UnitId × Loader) := do
  let document ← (TreeFile.read disk path).mapError .file
  match Loader.load document { source := TreeFile.siblings disk path } with
  | .error failure _ => throw (.load failure)
  | .ok root loader => return (root, loader)

/-- The cache of a check, with the key of its outcome in it. -/
def CheckOptions.slot? (options : CheckOptions) (disk : Disk) (path : String) (loader : Loader) :
    Option (Cache × Digest) :=
  options.cache.map fun cache =>
    (cache, CacheKey.of (TreeFile.sources disk path loader.asked.toList) options.fingerprint)

/-- Replays the outcome of an identical check, or runs the pipeline and stores its outcome. -/
def judge (options : CheckOptions) (path : String) (root : UnitId) (loader : Loader)
    (parent : Nat) : CheckM (Except ProgramError CheckedProgram) := do
  let state ← get
  let loading : Phase := ⟨"load", ""⟩
  let slot := options.slot? state.disk path loader
  match slot.bind fun (cache, key) => cache.get? state.disk key with
  | some stored =>
    let (verdict, files) := stored.replay options.limit loader.files
    return .ok
      { root, tree := loader.tree, files, verdict := { verdict with phases := [loading] }
        cached := true }
  | none =>
    let run := if options.interactive then runInteractive else runBatch
    match run options loader root state.trace parent with
    | .error failure => return .error failure
    | .ok (verdict, trace) =>
      let disk := match slot with
        | some (cache, key) => cache.put state.disk key (verdict.stored loader.files)
        | none => state.disk
      set { state with disk, trace, events := state.events ++ workingEvents options path verdict }
      return .ok
        { root, tree := loader.tree, files := loader.files
          verdict := { verdict with phases := loading :: verdict.phases } }

/-- Checks the program of a tree file, under a span of the trace. -/
def checkProgram (options : CheckOptions) (parent : Nat) (path : String) :
    CheckM ProgramResult := do
  let span ← CheckM.startSpan "check" parent
  let span := span.withExtra "path" path
  CheckM.tell { file := path, status := .loading }
  match loadProgram (← get).disk path with
  | .error failure =>
    let result : ProgramResult := ⟨path, .error failure⟩
    CheckM.tell result.finalEvent
    CheckM.endSpan span "load failed"
    return result
  | .ok (root, loader) =>
    let result : ProgramResult := ⟨path, ← judge options path root loader span.id⟩
    CheckM.tell result.finalEvent
    CheckM.endSpan span <| match result.outcome with
      | .error failure => failure.message
      | .ok program =>
        if program.cached then "cached"
        else s!"{program.verdict.errors} errors, {program.verdict.warnings} warnings"
    return result

/-- Checks independent programs; all of them are announced before the first one is checked. -/
def checkPrograms (options : CheckOptions) (paths : List String) : CheckM (List ProgramResult) := do
  if paths.isEmpty then return []
  let span ← CheckM.startSpan "check-all" 0
  paths.forM fun path => CheckM.tell { file := path, status := .queued }
  let results ← paths.mapM (checkProgram options span.id)
  CheckM.endSpan span ""
  return results

end TreeCheck
