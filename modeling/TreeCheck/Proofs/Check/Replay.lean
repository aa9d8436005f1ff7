/-
Outcomes that are replayed. A stored outcome keeps positions with the paths of their files,
and a replay looks these up in the files of a program that was loaded again. As the files of a
loaded program are indexed by their paths, every position in a file comes back as it was, and
so does every diagnostic that was kept.

What does not come back is how many diagnostics a full bag had refused: that number is not
stored. The report of a replayed outcome therefore is the report of the outcome exactly if
nothing was refused.
-/

import TreeCheck.Proofs.Check.Workers
import TreeCheck.Proofs.Loading.Registering
import TreeCheck.Proofs.Pipeline.Integrity
import TreeCheck.Proofs.Reporting.Delivery
import TreeCheck.Report.Export

namespace TreeCheck

variable {path : String} {root : UnitId} {loader : Loader} {verdict : Verdict} {files : Files}
  {limit : Int} {bag : Bag}

/-! ### Files under their paths -/

/-- Every file is found under its own path. -/
def Files.Indexed (files : Files) : Prop :=
  ∀ id file, files.get? id = some file → files.find? file.path = some id

namespace Files

theorem indexed_empty : ({} : Files).Indexed := by
  intro id file found
  have bound := Arena.get?_eq_some_le found
  exact absurd (bound.1.trans bound.2) (by decide)

/-- Files that were there before keep their numbers. -/
theorem find?_push (file : SourceFile) {id : FileId} (found : files.find? path = some id) :
    ({ files with entries := files.entries.push file } : Files).find? path = some id := by
  obtain ⟨index, isIndex, rfl⟩ := Option.map_eq_some_iff.mp found
  simp only [find?, Arena.push, Array.findIdx?_push, isIndex, Option.some_or, Option.map_some]

/-- A new file is found under its path. -/
theorem find?_push_self (flags : FileFlags) (absent : files.find? path = none) :
    ({ files with entries := files.entries.push ⟨Text.Path.clean path, flags⟩ } : Files).find?
      (Text.Path.clean path) = some files.entries.next := by
  have nowhere := Option.map_eq_none_iff.mp absent
  simp only [find?, Arena.push, Array.findIdx?_push, Text.Path.clean_clean, nowhere,
    Option.none_or, decide_true, if_true, Option.map_some]
  rfl

theorem Indexed.add (indexed : files.Indexed) (path : String) (flags : FileFlags) :
    (files.add path flags).2.Indexed := by
  unfold Files.add
  cases known : files.find? path with
  | some id => exact indexed
  | none =>
    intro id file found
    by_cases isNew : id = files.entries.next
    · obtain rfl : file = ⟨Text.Path.clean path, flags⟩ := by
        rw [isNew] at found
        exact (Option.some.inj ((Arena.get?_push_self _ _).symm.trans found)).symm
      rw [isNew]
      exact find?_push_self flags known
    · have old : files.get? id = some file :=
        (Arena.get?_push_other _ _ isNew).symm.trans found
      exact find?_push _ (indexed id file old)

end Files

/-! ### Loading keeps files under their paths -/

namespace LoadM

/-- An action that keeps the files indexed, however it ends. -/
def Indexes {α : Type} (action : LoadM α) : Prop :=
  ∀ loader, loader.files.Indexed → (Loader.behind (action loader)).files.Indexed

namespace Indexes

variable {α β : Type} {action : LoadM α} {next : α → LoadM β}

theorem pure (value : α) : Indexes (Pure.pure value) := fun _ indexed => indexed

theorem throw (fault : LoadError) : Indexes (MonadExcept.throw fault : LoadM α) :=
  fun _ indexed => indexed

theorem bind (first : Indexes action) (second : ∀ value, Indexes (next value)) :
    Indexes (action >>= next) := by
  intro loader indexed
  have after := first loader indexed
  cases ran : action loader with
  | ok value middle =>
    rw [ran] at after
    rw [run_bind_ok next ran]
    exact second value middle after
  | error fault middle =>
    rw [ran] at after
    rw [run_bind_error next ran]
    exact after

theorem read {next : Loader → LoadM β} (each : ∀ loader, Indexes (next loader)) :
    Indexes (get >>= next) :=
  fun loader => each loader loader

/-- Plain actions leave the files alone. -/
theorem of_plain {held : List Node} {gives : α → List Node}
    (plain : Plain True True [] held action gives) : Indexes action := by
  intro loader indexed
  rw [(plain.steady loader).files]
  exact indexed

theorem registerUnit (path : String) (flags : FileFlags) :
    Indexes (LoadM.registerUnit path flags) :=
  fun _ indexed => indexed.add path flags

end Indexes

end LoadM

namespace Build

open LoadM

theorem indexes_appendEach {α : Type} (unit : UnitId) {build : α → LoadM DeclId}
    (builds : ∀ item, Indexes (build item)) (append : DeclId → ProgramUnit → ProgramUnit)
    (items : List (Option α)) : Indexes (appendEach unit build append items) := by
  induction items with
  | nil => exact .pure _
  | cons item rest inductionHypothesis =>
    cases item with
    | none => exact .throw _
    | some item =>
      exact (builds item).bind fun id => .bind (fun _ indexed => indexed) fun _ =>
        inductionHypothesis

theorem indexes_appendVariables (place : BuildPlace) (unit : UnitId) (kind : VariableKind)
    (other : kind ≠ .enumConst) (append : DeclId → ProgramUnit → ProgramUnit)
    (items : List (Option Doc.Variable)) : Indexes (appendVariables place unit kind append items) := by
  induction items with
  | nil => exact .pure _
  | cons item rest inductionHypothesis =>
    have first : Indexes (optionalVariable place kind item) :=
      .of_plain (plain_optionalVariable place kind other item fun _ => trivial)
    exact first.bind fun id => .bind (fun _ indexed => indexed) fun _ => inductionHypothesis

theorem indexes_importOf {fuel : Nat} {byPath : UnitsByPath}
    (builds : ∀ isImported item, Indexes (Build.unit fuel byPath isImported item))
    (place : BuildPlace) (item : Doc.Import) : Indexes (importOf fuel byPath place item) := by
  have found (target : Option UnitId) : Indexes (importDecl place item target) :=
    .of_plain (plain_importDecl place item target)
  unfold importOf
  refine .read fun loader => ?_
  dsimp only
  split
  · exact found _
  · split
    · exact (builds true _).bind fun _ => found _
    · refine .bind (fun _ indexed => indexed) fun answer => ?_
      split
      · exact .bind (.throw _) fun _ => found _
      · exact found _
      · exact (builds true _).bind fun _ => found _

theorem indexes_unit (fuel : Nat) (byPath : UnitsByPath) (isImported : Bool) (item : Doc.Unit) :
    Indexes (Build.unit fuel byPath isImported item) := by
  induction fuel generalizing isImported item with
  | zero =>
    unfold Build.unit
    refine .read fun loader => ?_
    split
    · exact .pure _
    · exact .throw _
  | succ fuel inductionHypothesis =>
    have isFunction (place : BuildPlace) (item : Doc.Function) :
        Indexes (Build.function place false item) :=
      .of_plain (plain_function place false item fun _ => trivial)
    unfold Build.unit
    refine .read fun loader => ?_
    split
    · exact .pure _
    · refine .bind (.registerUnit _ _) fun registered => ?_
      dsimp only
      refine .bind (indexes_appendEach _ (indexes_importOf inductionHypothesis _) _ _) fun _ =>
        .bind (indexes_appendEach _
          (fun item => .of_plain (plain_enumDecl _ item fun _ => trivial)) _ _) fun _ =>
        .bind (indexes_appendVariables _ _ .global (by simp) _ _) fun _ =>
        .bind (indexes_appendEach _
          (fun item => .of_plain (plain_classDecl _ item fun _ => trivial)) _ _) fun _ =>
        .bind (indexes_appendEach _ (isFunction _) _ _) fun _ => ?_
      split
      · exact .pure _
      · exact .bind (isFunction _ _) fun main => .bind (fun _ indexed => indexed) fun _ => .pure _

end Build

theorem Loader.indexes_load (document : Doc.Document) : LoadM.Indexes (load document) := by
  unfold load
  split
  · exact .throw _
  · exact .throw _
  · exact .read fun loader => Build.indexes_unit _ _ _ _

/-- The files of a program that was loaded are indexed. -/
theorem indexed_loadProgram {disk : Disk} (loaded : loadProgram disk path = .ok (root, loader)) :
    loader.files.Indexed := by
  unfold loadProgram at loaded
  cases readable : (TreeFile.read disk path).mapError ProgramError.file with
  | error failure =>
    rw [readable] at loaded
    nomatch loaded
  | ok document =>
    rw [readable] at loaded
    have kept := Loader.indexes_load document { source := TreeFile.siblings disk path }
      Files.indexed_empty
    simp only [Bind.bind, Except.bind] at loaded
    split at loaded
    · nomatch loaded
    · next found after loads =>
      cases loaded
      rw [loads] at kept
      exact kept

/-! ### Positions come back -/

/-- No position, or one in a file that is known by a path. -/
def Span.Placed (files : Files) (span : Span) : Prop :=
  span = {} ∨ ∃ file, files.get? span.file = some file ∧ file.path ≠ ""

/-- All that a diagnostic points at has its place in the files. -/
structure Diagnostic.Placed (files : Files) (diagnostic : Diagnostic) : Prop where
  span : diagnostic.span.Placed files
  notes : ∀ note ∈ diagnostic.notes, note.span.Placed files

section

variable {files : Files} (indexed : files.Indexed)
include indexed

theorem StoredSpan.restore_of {span : Span} (placed : span.Placed files) :
    (StoredSpan.of files span).restore files = (span, files) := by
  obtain rfl | ⟨file, found, named⟩ := placed
  · rfl
  · have stored : StoredSpan.of files span = ⟨file.path, span.start, span.stop⟩ := by
      simp only [StoredSpan.of, found, Option.map_some, Option.getD_some]
    have known : files.add file.path FileFlags.imported = (span.file, files) := by
      simp only [Files.add, indexed span.file file found]
    rw [stored, StoredSpan.restore, if_neg named]
    simp only [known]

namespace StoredDiagnostic

theorem restoreNotes_of {notes : List Note} (placed : ∀ note ∈ notes, note.span.Placed files) :
    restoreNotes (notes.map fun note => ⟨.of files note.span, note.message⟩) files =
      (notes, files) := by
  induction notes with
  | nil => rfl
  | cons note rest inductionHypothesis =>
    have first := StoredSpan.restore_of indexed (placed note (.head _))
    have others := inductionHypothesis fun other member =>
      placed other (.tail _ member)
    rw [List.map_cons, restoreNotes]
    simp only [first, others]

theorem restore_of {diagnostic : Diagnostic} (placed : diagnostic.Placed files) :
    (StoredDiagnostic.of files diagnostic).restore files = (diagnostic, files) := by
  have span := StoredSpan.restore_of indexed placed.span
  have notes := restoreNotes_of indexed placed.notes
  unfold StoredDiagnostic.of restore
  simp only [span, notes]

theorem restoreAll_of {diagnostics : List Diagnostic}
    (placed : ∀ diagnostic ∈ diagnostics, diagnostic.Placed files) :
    restoreAll (diagnostics.map (.of files)) files = (diagnostics, files) := by
  induction diagnostics with
  | nil => rfl
  | cons diagnostic rest inductionHypothesis =>
    have first := restore_of indexed (placed diagnostic (.head _))
    have others := inductionHypothesis fun other member =>
      placed other (.tail _ member)
    rw [List.map_cons, restoreAll]
    simp only [first, others]

end StoredDiagnostic

end

/-! ### Bags within their limit -/

/-- A bag that has a limit and keeps it. -/
structure Bag.Within (limit : Int) (bag : Bag) : Prop where
  isLimit : bag.limit = limit
  fits : limit ≤ 0 ∨ (bag.items.length : Int) ≤ limit

namespace Bag

theorem within_empty (limit : Int) : ({ limit } : Bag).Within limit := by
  refine ⟨rfl, ?_⟩
  rw [List.length_nil]
  omega

theorem Within.add (within : bag.Within limit) (diagnostic : Diagnostic) :
    (bag.add diagnostic).Within limit := by
  unfold Bag.add
  split
  · next room =>
    refine ⟨within.isLimit, ?_⟩
    simp only [hasRoom, within.isLimit, Bool.or_eq_true, decide_eq_true_eq] at room
    rw [List.length_append, List.length_singleton]
    omega
  · exact ⟨within.isLimit, within.fits⟩

theorem Within.addAll (within : bag.Within limit) (diagnostics : List Diagnostic) :
    (bag.addAll diagnostics).Within limit := by
  induction diagnostics generalizing bag with
  | nil => exact within
  | cons diagnostic rest inductionHypothesis => exact inductionHypothesis (within.add diagnostic)

theorem Within.sort (within : bag.Within limit) : bag.sort.Within limit := by
  refine ⟨within.isLimit, ?_⟩
  rw [Bag.sort, Diagnostic.sort, List.length_mergeSort]
  exact within.fits

/-- A bag with room for all that is added keeps all of it. -/
theorem addAll_of_room (bag : Bag) (diagnostics : List Diagnostic)
    (room : bag.limit ≤ 0 ∨ ((bag.items ++ diagnostics).length : Int) ≤ bag.limit) :
    bag.addAll diagnostics = { bag with items := bag.items ++ diagnostics } := by
  induction diagnostics generalizing bag with
  | nil =>
    rw [List.append_nil]
    rfl
  | cons diagnostic rest inductionHypothesis =>
    have taken : bag.add diagnostic = { bag with items := bag.items ++ [diagnostic] } := by
      rw [List.length_append, List.length_cons] at room
      refine if_pos ?_
      simp only [hasRoom, Bool.or_eq_true, decide_eq_true_eq]
      omega
    show (bag.add diagnostic).addAll rest = _
    rw [taken, inductionHypothesis { bag with items := bag.items ++ [diagnostic] } ?_]
    · simp only [List.append_assoc, List.singleton_append]
    · simpa only [List.append_assoc, List.singleton_append] using room

end Bag

/-- What adding keeps up about a bag, a report keeps up. -/
theorem Sink.bag_reportThrough {holds : Bag → Prop}
    (adds : ∀ bag diagnostic, holds bag → holds (bag.add diagnostic)) (length : Nat)
    (stages : List Stage) (bag : Bag) (diagnostic : Diagnostic) (kept : holds bag) :
    holds (reportThrough length stages bag diagnostic).1.bag := by
  induction length generalizing stages bag diagnostic with
  | zero => exact adds bag diagnostic kept
  | succ length inductionHypothesis =>
    cases stages with
    | nil => exact adds bag diagnostic kept
    | cons stage rest =>
      cases stage with
      | dedup seen =>
        unfold reportThrough
        simp only
        split
        · exact kept
        · exact inductionHypothesis rest bag diagnostic kept
      | promote => exact inductionHypothesis rest bag diagnostic.promote kept
      | raise => exact inductionHypothesis rest bag diagnostic kept
      | count errors warnings => exact inductionHypothesis rest bag diagnostic kept
      | twice =>
        have once := inductionHypothesis rest bag diagnostic kept
        unfold reportThrough
        simp only
        split
        · exact once
        · exact inductionHypothesis _ _ diagnostic once
      | discard => exact kept

/-! ### Verdicts -/

/-- What every report keeps up about the sink, submissions one after the other keep up. -/
theorem submitAll_keeps {holds : Sink → Prop}
    (reports : ∀ sink diagnostic, holds sink → holds (sink.report diagnostic).1) {tree : Tree}
    {decls : List DeclId} {session after : Session} {aborted : Nat}
    (kept : holds session.analysis.sink)
    (ran : submitAll tree decls session = .ok (aborted, after)) : holds after.analysis.sink := by
  induction decls generalizing session aborted with
  | nil =>
    cases ran
    exact kept
  | cons decl rest inductionHypothesis =>
    have once : holds (session.submitDecl tree decl).1.analysis.sink := by
      obtain ⟨-, same⟩ | ⟨-, what, label, same⟩ :=
        Session.submit_cases session tree (.decl decl)
      · exact same ▸ kept
      · have submitted : holds (session.submit tree (.decl decl)).1.analysis.sink := by
          rw [same]
          have begun : holds session.begun.sink := kept
          exact Session.submitThrough_keeps reports session.unit (.decl decl)
            session.pipeline.passes begun
        exact submitted
    unfold submitAll at ran
    split at ran
    · nomatch ran
    · next middle failure _ submitted =>
      rw [submitted] at once
      rcases later : submitAll tree rest middle with deeper | ⟨left, last⟩
      · rw [later] at ran
        nomatch ran
      · rw [later] at ran
        cases ran
        exact inductionHypothesis once later

/-- The bag of a verdict is one with the limit that was asked for. -/
theorem CheckOptions.within_analyse {options : CheckOptions} {trace after : Trace.Recorder}
    {parent : Nat} (ran : options.analyse loader root trace parent = .ok (verdict, after)) :
    verdict.bag.Within options.limit := by
  unfold analyse at ran
  split at ran
  · simp only [runInteractive] at ran
    rcases submitted : submitAll loader.tree
        (((loader.tree.units.get? root).map ProgramUnit.topLevel).getD [])
        (Session.start options.pipeline root
          { stages := [.dedup [], .count 0 0], bag := { limit := options.limit } }
          options.warningsAsErrors trace parent) with failure | ⟨aborted, session⟩
    · rw [submitted] at ran
      cases ran
    · rw [submitted] at ran
      cases ran
      have reports (sink : Sink) (diagnostic : Diagnostic) (within : sink.bag.Within options.limit) :
          (sink.report diagnostic).1.bag.Within options.limit :=
        Sink.bag_reportThrough (fun _ diagnostic within => within.add diagnostic) _ sink.stages
          sink.bag diagnostic within
      refine (submitAll_keeps reports ?_ submitted).sort
      cases options.warningsAsErrors <;> exact Bag.within_empty options.limit
  · rw [runBatch_eq] at ran
    split at ran
    · cases ran
    · cases ran
      exact (Bag.within_empty options.limit).addAll _

/-! ### Replays -/

/-- A replay has all that was stored; of what a bag refused nothing was. -/
theorem replay_stored (indexed : files.Indexed) (within : verdict.bag.Within limit)
    (placed : ∀ diagnostic ∈ verdict.bag.items, diagnostic.Placed files) :
    (verdict.stored files).replay limit files =
      ({ ran := verdict.ran, errors := verdict.errors, warnings := verdict.warnings
         bag := { limit, items := verdict.bag.items }, phases := [] }, files) := by
  have restored := StoredDiagnostic.restoreAll_of indexed placed
  have kept : Bag.addAll { limit } verdict.bag.items = { limit, items := verdict.bag.items } :=
    Bag.addAll_of_room _ _ within.fits
  unfold Verdict.stored StoredOutcome.replay
  simp only [restored, kept]

/-- Whether a report shows that something was refused. -/
theorem JsonReport.json_eq_iff (report : JsonReport) {other : Bag} (same : other.items = bag.items)
    (complete : other.dropped = 0) : report.json other = report.json bag ↔ bag.dropped = 0 := by
  unfold json
  rw [same, if_pos complete]
  by_cases none : bag.dropped = 0
  · simp [none]
  · simp [none]

/-- An outcome that is stored and replayed in the files of a program that was loaded from the
same documents is the same, down to the report, unless a full bag refused something. -/
theorem replayed_in_full_iff {options : CheckOptions} {disk : Disk} {path : String}
    {root : UnitId} {loader : Loader} (loaded : loadProgram disk path = .ok (root, loader))
    {trace after : Trace.Recorder} {parent : Nat} {verdict : Verdict}
    (ran : options.analyse loader root trace parent = .ok (verdict, after))
    (placed : ∀ diagnostic ∈ verdict.bag.items, diagnostic.Placed loader.files) :
    ∃ replayed,
      (verdict.stored loader.files).replay options.limit loader.files = (replayed, loader.files) ∧
        replayed.bag.items = verdict.bag.items ∧ replayed.ran = verdict.ran ∧
        replayed.errors = verdict.errors ∧ replayed.warnings = verdict.warnings ∧
        ∀ report : JsonReport,
          report.json replayed.bag = report.json verdict.bag ↔ verdict.bag.dropped = 0 :=
  ⟨_, replay_stored (indexed_loadProgram loaded) (options.within_analyse ran) placed, rfl, rfl,
    rfl, rfl, fun report => report.json_eq_iff rfl rfl⟩

/-- Two globals whose types are missing. -/
def untypedGlobals : Disk :=
  { entries := [(["a.json"], .file (Text.Utf8.encode
      ("\x7b\"version\":1,\"units\":[\x7b\"path\":\"a.sb\",\"globals\":[" ++
        "\x7b\"name\":\"g\",\"type\":\x7b\"kind\":\"named\",\"name\":\"M\"\x7d\x7d," ++
        "\x7b\"name\":\"h\",\"type\":\x7b\"kind\":\"named\",\"name\":\"N\"\x7d\x7d]\x7d]\x7d")))] }

/-- Submitted one after the other, each is reported; the bag takes one report. -/
def oneReport : CheckOptions := { interactive := true, limit := 1 }

instance (files : Files) (span : Span) : Decidable (span.Placed files) :=
  match found : files.get? span.file with
  | some file =>
    decidable_of_iff (span = {} ∨ file.path ≠ "") (or_congr Iff.rfl
      ⟨fun named => ⟨file, found, named⟩, fun ⟨_, isOther, named⟩ =>
        Option.some.inj (found.symm.trans isOther) ▸ named⟩)
  | none =>
    decidable_of_iff (span = {}) ⟨.inl, fun placed => placed.elim id fun ⟨_, isOther, _⟩ =>
      nomatch found.symm.trans isOther⟩

theorem replayed_in_full_iff_oneReport :
    ∃ root loader verdict after,
      loadProgram untypedGlobals "a.json" = .ok (root, loader) ∧
        oneReport.analyse loader root {} 0 = .ok (verdict, after) ∧
        (∀ diagnostic ∈ verdict.bag.items, diagnostic.Placed loader.files) ∧
        verdict.bag.dropped = 1 ∧
        ∃ replayed,
          (verdict.stored loader.files).replay 1 loader.files = (replayed, loader.files) ∧
            replayed.bag.items = verdict.bag.items ∧
            ∀ report : JsonReport, report.json replayed.bag ≠ report.json verdict.bag := by
  have refuses : (loadProgram untypedGlobals "a.json").toOption.any (fun (root, loader) =>
      (oneReport.analyse loader root {} 0).toOption.any fun (verdict, _) =>
        verdict.bag.dropped = 1 ∧ verdict.bag.items.all fun diagnostic =>
          decide (diagnostic.span.Placed loader.files ∧ diagnostic.notes = [])) := by
    simp only [loadProgram, Loader.load_eq_loadWithin]
    decide +kernel
  cases loaded : loadProgram untypedGlobals "a.json" with
  | error failure =>
    rw [loaded] at refuses
    nomatch refuses
  | ok program =>
    obtain ⟨root, loader⟩ := program
    rw [loaded] at refuses
    have refuses : (oneReport.analyse loader root {} 0).toOption.any _ = true := refuses
    cases ran : oneReport.analyse loader root {} 0 with
    | error failure =>
      rw [ran] at refuses
      nomatch refuses
    | ok judged =>
      obtain ⟨verdict, after⟩ := judged
      rw [ran] at refuses
      obtain ⟨dropped, all⟩ := of_decide_eq_true refuses
      have placed (diagnostic : Diagnostic) (member : diagnostic ∈ verdict.bag.items) :
          diagnostic.Placed loader.files := by
        obtain ⟨span, noNotes⟩ := of_decide_eq_true (List.all_eq_true.mp all diagnostic member)
        exact ⟨span, by simp [noNotes]⟩
      obtain ⟨replayed, same, items, -, -, -, reports⟩ := replayed_in_full_iff loaded ran placed
      refine ⟨root, loader, verdict, after, rfl, ran, placed, dropped, replayed, same, items,
        fun report alike => ?_⟩
      exact absurd ((reports report).mp alike) (by omega)

end TreeCheck
