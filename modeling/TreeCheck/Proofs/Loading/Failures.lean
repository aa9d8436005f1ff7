/-
What a failed call of a loader leaves behind. The nodes it had built stay in their arenas,
but nothing leads to them; if it registered no unit, every later call goes as it would
have gone without it, and gives the same up to the numbers of nodes.

A unit is registered before its contents are built, though, and a failure does not take
that back. Its path is then taken: whoever asks for it gets what there is of the unit.
-/

import TreeCheck.Proofs.Loading.Building
import TreeCheck.Proofs.Loading.Totality

namespace TreeCheck

open LoadM Text.Path Build

variable {names : NamesPair} {first second : Loader} {α : Type} {unit id : UnitId}
  {document : Doc.Document} {root : Doc.Unit} {others : List (Option Doc.Unit)}
  {item : Doc.TopLevel}

/-! ### Arenas -/

namespace Arena

variable {α : Type} {alike alike' : α → α → Prop}

/-- What an arena has gained is taken for added. -/
theorem Beside.widened {arena after : Arena α} (beside : arena.Beside 0 alike after after) :
    arena.Beside (after.size - arena.size) alike' arena after where
  grown := Nat.le_refl _
  size := by
    have grown := beside.grown
    omega
  firstKept _ _ := rfl
  secondKept := beside.firstKept
  twins _ _ new found := absurd (get?_eq_some_le found).2 (Nat.not_le.mpr new)

end Arena

/-! ### Calls on two loaders -/

namespace LoadM

variable {α : Type} {origin : Origin}
variable {action action' : LoadM α} {gives : α → α → Prop}

/-- The two results are values that belong together, or one fault; either way the loaders stay side
by side. After a fault no unit is changed that was there before. -/
def Agrees (origin : Origin) (first : Loader) (gives : α → α → Prop) :
    EStateM.Result LoadError Loader α → EStateM.Result LoadError Loader α → Prop
  | .ok value after, .ok twin after' => gives value twin ∧ origin.Beside after after'
  | .error fault after, .error fault' after' => fault' = fault ∧ origin.Beside after after' ∧
      Loader.Later origin.loader.tree.units.size first after
  | _, _ => False

theorem Twins.agrees (twins : Twins origin names action action' fun _ => gives)
    (beside : origin.Beside first second) (known : names.Extends (first.namesBeside second)) :
    Agrees origin first gives (action first) (action' second) := by
  have done := twins.run first second beside known
  generalize action first = ran, action' second = ran' at done
  match ran, ran', done with
  | .ok _ _, .ok _ _, ⟨goes, given⟩ => exact ⟨given, goes.beside⟩
  | .error _ _, .error _ _, ⟨same, goes⟩ => exact ⟨same, goes.beside, goes.later⟩

theorem Agrees.map {β : Type} {result : β → β → Prop} {change : α → β}
    (agrees : Agrees origin first gives (action first) (action' second))
    (maps : ∀ value twin, gives value twin → result (change value) (change twin)) :
    Agrees origin first result ((action >>= fun value => pure (change value)) first)
      ((action' >>= fun value => pure (change value)) second) := by
  cases ran : action first with
  | ok value after =>
    cases ran' : action' second with
    | ok twin after' =>
      rw [ran, ran'] at agrees
      rw [run_bind_ok _ ran, run_bind_ok _ ran']
      exact ⟨maps value twin agrees.1, agrees.2⟩
    | error fault after' =>
      rw [ran, ran'] at agrees
      exact agrees.elim
  | error fault after =>
    cases ran' : action' second with
    | ok twin after' =>
      rw [ran, ran'] at agrees
      exact agrees.elim
    | error fault' after' =>
      rw [ran, ran'] at agrees
      rw [run_bind_error _ ran, run_bind_error _ ran']
      exact agrees

end LoadM

namespace Loader

variable {origin : Origin} {first second : Loader}
variable {build : LoadM α}

theorem twins_load (names : NamesPair) (document : Doc.Document) :
    Twins origin names (load document) (load document) fun _ id twin => twin = id := by
  unfold load
  split
  · exact .throw _
  · exact .throw _
  · refine .read fun first second beside => ?_
    rw [unitBound, unitBound, beside.source']
    exact twins_unit ..

theorem twins_newUnit (names : NamesPair) (path : String) :
    Twins origin names (newUnit path) (newUnit path) fun _ id twin => twin = id := by
  refine .bind (.registerUnit ..) ?_
  rintro _ _ made _ ⟨rfl, _⟩
  exact .pure fun _ _ => rfl

/-! ### Additions -/

/-- Something that was added, and its twin. -/
inductive Added.Alike (origin : Origin) : Added → Added → Prop
  | decl {id twin : DeclId} (moved : origin.Decl id twin) : Alike origin (.decl id) (.decl twin)
  | stmt {id twin : StmtId} (moved : origin.Stmt id twin) : Alike origin (.stmt id) (.stmt twin)

/-- Something is built and then appended to a unit, which cannot fail. -/
theorem agrees_append {build' : LoadM α} {gives : α → α → Prop}
    (twins : Twins origin names build build' fun _ => gives) (beside : origin.Beside first second)
    (known : names.Extends (first.namesBeside second)) (unit : UnitId)
    {append : α → ProgramUnit → ProgramUnit} {added : α → Added}
    (appends : ∀ id twin, gives id twin → ∀ unit unit', unit.Alike origin unit' →
      (append id unit).Alike origin (append twin unit'))
    (adds : ∀ id twin, gives id twin → (added id).Alike origin (added twin)) :
    Agrees origin first (Added.Alike origin)
      ((build >>= fun id => modifyUnit unit (append id) >>= fun _ => pure (added id)) first)
      ((build' >>= fun id => modifyUnit unit (append id) >>= fun _ => pure (added id)) second) := by
  have built := twins.agrees beside known
  show Agrees origin first (Added.Alike origin) (EStateM.bind build _ first)
    (EStateM.bind build' _ second)
  unfold EStateM.bind
  generalize build first = ran, build' second = ran' at built
  match ran, ran', built with
  | .ok id _, .ok twin _, ⟨moved, beside⟩ =>
    exact ⟨adds id twin moved, beside.modifyUnit unit (appends id twin moved)⟩
  | .error _ _, .error _ _, failed => exact failed

theorem alike_addStmt (id twin : StmtId) (moved : origin.Stmt id twin) (unit unit' : ProgramUnit)
    (alike : unit.Alike origin unit') : (unit.addStmt id).Alike origin (unit'.addStmt twin) :=
  { alike with stmts := List.rel_append alike.stmts (.cons (.inr moved) .nil) }

/-- Units are there in both loaders or in none. -/
theorem units_get?_eq_none (beside : origin.Beside first second)
    (missing : first.tree.units.get? unit = none) : second.tree.units.get? unit = none := by
  rw [← Option.not_isSome_iff_eq_none, Arena.isSome_get?_iff] at missing ⊢
  rw [beside.unitCount]
  exact missing

theorem agrees_addTopLevel (beside : origin.Beside first second) (unit : UnitId)
    (item : Doc.TopLevel) : Agrees origin first (Added.Alike origin)
      (addTopLevel unit item first) (addTopLevel unit item second) := by
  have declared {append : DeclId → ProgramUnit → ProgramUnit} {build build' : LoadM DeclId}
      (twins : Twins origin (first.namesBeside second) build build' fun _ => origin.Decl)
      (appends : Build.AppendsAlike origin append) :=
    agrees_append twins beside (.refl _) unit appends fun _ _ => .decl
  unfold addTopLevel
  rw [run_get, run_get]
  cases found : first.tree.units.get? unit with
  | none =>
    rw [units_get?_eq_none beside found]
    exact ⟨rfl, beside, .refl _ _⟩
  | some node =>
    obtain ⟨twin, found', alike⟩ := beside.units unit node found
    rw [found']
    dsimp only
    rw [run_get, run_get, alike.file, beside.files]
    cases item.stmt with
    | some stmt =>
      exact agrees_append (twins_stmt ..) beside (.refl _) unit alike_addStmt fun _ _ => .stmt
    | none =>
      dsimp only
      split
      · rw [run_get, run_get, unitBound, unitBound, beside.source']
        exact declared (twins_importOf _ (twins_unit _ _) ..) alike_addImport
      · exact declared (twins_enumDecl ..) alike_addEnum
      · exact declared (twins_variableDecl ..) alike_addGlobal
      · exact declared (twins_classDecl ..) alike_addClass
      · exact declared (twins_function ..) alike_addFunction
      · exact declared (twins_function ..) alike_setMain
      · exact ⟨rfl, beside, .refl _ _⟩

/-! ### Calls -/

/-- A call of a loader. -/
inductive Call where
  | load (document : Doc.Document)
  | newUnit (path : String)
  | addTopLevel (unit : UnitId) (item : Doc.TopLevel)

/-- What a call gives. -/
inductive Made where
  | unit (id : UnitId)
  | added (added : Added)

namespace Call

def run : Call → LoadM Made
  | .load document => do return .unit (← Loader.load document)
  | .newUnit path => do return .unit (← Loader.newUnit path)
  | .addTopLevel unit item => do return .added (← Loader.addTopLevel unit item)

end Call

/-- The loader after some calls, whatever came of each. -/
def afterAll (loader : Loader) (calls : List Call) : Loader :=
  calls.foldl (fun loader call => behind (call.run loader)) loader

/-- The same unit, or something added and its twin. -/
inductive Made.Alike (origin : Origin) : Made → Made → Prop
  | unit (id : UnitId) : Alike origin (.unit id) (.unit id)
  | added {added twin : Added} (alike : added.Alike origin twin) :
      Alike origin (.added added) (.added twin)

theorem agrees_run (beside : origin.Beside first second) (call : Call) :
    Agrees origin first (Made.Alike origin) (call.run first) (call.run second) := by
  cases call with
  | load document =>
    refine ((twins_load _ document).agrees beside (.refl _)).map ?_
    rintro id _ rfl
    exact .unit _
  | newUnit path =>
    refine ((twins_newUnit _ path).agrees beside (.refl _)).map ?_
    rintro id _ rfl
    exact .unit _
  | addTopLevel unit item =>
    exact (agrees_addTopLevel beside unit item).map fun _ _ => .added

theorem beside_afterAll (beside : origin.Beside first second) (calls : List Call) :
    origin.Beside (first.afterAll calls) (second.afterAll calls) := by
  induction calls generalizing first second with
  | nil => exact beside
  | cons call rest inductionHypothesis =>
    refine inductionHypothesis ?_
    show origin.Beside (behind (call.run first)) (behind (call.run second))
    have agrees := agrees_run beside call
    generalize call.run first = ran, call.run second = ran' at agrees
    match ran, ran', agrees with
    | .ok _ _, .ok _ _, ⟨_, beside⟩ => exact beside
    | .error _ _, .error _ _, ⟨_, beside, _⟩ => exact beside

/-! ### The loader that is left -/

variable {loader left : Loader} {call : Call} {fault : LoadError}

/-- If no unit was registered, the loader that is left is beside the one there was. -/
theorem beside_left (forest : loader.tree.Forest []) (failed : call.run loader = .error fault left)
    (same : left.units = loader.units) :
    ∃ origin : Origin, origin.loader = loader ∧ origin.Beside loader left := by
  have sound := sound_of_forest forest
  have agrees := agrees_run sound.beside call
  rw [failed] at agrees
  obtain ⟨_, beside, later⟩ := agrees
  obtain ⟨added, isAdded, size, files⟩ := later.registers
  have none : added = [] := by
    rw [same] at isAdded
    exact List.self_eq_append_left.mp isAdded
  refine ⟨⟨loader, left.tree.decls.size - loader.tree.decls.size,
    left.tree.stmts.size - loader.tree.stmts.size, left.tree.exprs.size - loader.tree.exprs.size,
    left.tree.types.size - loader.tree.types.size⟩, rfl, ?_⟩
  constructor
  case source => rfl
  case source' => exact beside.source
  case files => exact files none
  case registered => exact same
  case unitCount => rw [size, none]; rfl
  case unitsGrown => exact Nat.le_refl _
  case units =>
    intro id unit found
    refine ⟨unit, ?_, sound.alike _ rfl found⟩
    rw [later.kept id (Arena.get?_eq_some_le found).2]
    exact found
  case decls => exact .widened beside.decls
  case stmts => exact .widened beside.stmts
  case exprs => exact .widened beside.exprs
  case types => exact .widened beside.types

/-! ### Paths that stay taken -/

/-- A load takes the path of its root, whatever comes of it. -/
theorem unit?_behind_load (isRoot : document.units = some root :: others)
    (isFree : loader.unit? (clean root.path) = none) :
    (behind (load document loader)).unit? (clean root.path) =
      some loader.tree.units.next := by
  have unbounded : (loader.supply others).Bounded (fun _ => True) True :=
    ⟨fun _ _ => trivial, fun _ _ _ => trivial⟩
  have lasts : Adds.Lasts (fun _ => True) fun _ => True := fun _ _ _ _ => trivial
  have grows (fuel : Nat) (place : BuildPlace) (id : UnitId) (middle : Loader)
      (fixed : middle.source = loader.source) : middle.Grows (fun _ => True)
        (behind (contents fuel (unitsByPath others) place id root middle)) :=
    (adds_contents lasts (fun isImported unit _ =>
      adds_unit unbounded fuel isImported unit trivial fun _ => trivial) place id root
      fun _ => trivial).grows middle fixed trivial
  rw [load_eq isRoot, unitBound, unit_succ isFree, run_bind_ok _ (run_registerUnit ..)]
  exact (grows _ _ _ (behind (registerUnit (clean root.path) _ loader)) rfl).unit?
    (unit?_registerUnit root.path _ loader)

/-- A load of a unit that is registered gives what there is of it. -/
theorem load_of_registered (isRoot : document.units = some root :: others)
    (registered : loader.unit? (clean root.path) = some id) :
    load document loader = .ok id loader := by
  rw [load_eq isRoot, unit_of_registered registered]

theorem units_append {gives : α → List Node} (plain : Plain True True [] [] build gives)
    (unit : UnitId) (append : α → ProgramUnit → ProgramUnit) (added : α → Added) :
    (behind ((build >>= fun id => modifyUnit unit (append id) >>= fun _ => pure (added id))
      loader)).units
      = loader.units := by
  have steady := plain.steady loader
  cases ran : build loader with
  | ok id middle =>
    rw [ran] at steady
    rw [run_bind_ok _ ran]
    exact steady.units
  | error fault middle =>
    rw [ran] at steady
    rw [run_bind_error _ ran]
    exact steady.units

/-- An addition of anything but an import registers no unit. -/
theorem units_of_addTopLevel (noImport : item.stmt.isSome ∨ item.importItem = none) :
    (behind (addTopLevel unit item loader)).units = loader.units := by
  have gap {missing : Prop} : missing → True := fun _ => trivial
  unfold addTopLevel
  rw [run_get]
  cases loader.tree.units.get? unit with
  | none => rfl
  | some node =>
    dsimp only
    rw [run_get]
    cases given : item.stmt with
    | some stmt => exact units_append (plain_stmt _ stmt gap) unit .addStmt .stmt
    | none =>
      dsimp only
      split
      · dsimp only at given noImport
        rw [given] at noImport
        nomatch noImport
      · exact units_append (plain_enumDecl _ _ gap) unit .addEnum .decl
      · exact units_append (plain_variableDecl _ .global nofun _ gap) unit .addGlobal .decl
      · exact units_append (plain_classDecl _ _ gap) unit .addClass .decl
      · exact units_append (plain_function _ _ _ gap) unit .addFunction .decl
      · exact units_append (plain_function _ _ _ gap) unit .setMain .decl
      · rfl

/-- An import of a registered path leads to its unit, of which nothing is built. -/
theorem addTopLevel_import {imported : Doc.Import} (noStmt : item.stmt = none)
    (isImport : item.importItem = some imported) (there : (loader.tree.units.get? unit).isSome)
    (registered : loader.unit? (clean imported.path) = some id) :
    ∃ decl after, addTopLevel unit item loader = .ok (.decl loader.tree.decls.next) after ∧
      after.tree.decls.get? loader.tree.decls.next = some decl ∧
      decl.form = .importDecl imported.path (some id) := by
  obtain ⟨node, found⟩ := Option.isSome_iff_exists.mp there
  obtain ⟨_, enum, global, classItem, function, main, _⟩ := item
  dsimp only at noStmt isImport
  subst noStmt isImport
  have targets (place : BuildPlace) : ∃ decl after,
      importOf (loader.unitBound 0) [] place imported loader =
        .ok loader.tree.decls.next after ∧
      after.tree.decls.get? loader.tree.decls.next = some decl ∧
      decl.form = .importDecl imported.path (some id) := by
    unfold importOf
    rw [run_get, registered]
    exact ⟨_, _, rfl, Arena.get?_push_self _ _, rfl⟩
  obtain ⟨decl, after, ran, isDecl, form⟩ := targets ⟨node.file, loader.files.display node.file⟩
  unfold addTopLevel
  rw [run_get, found]
  dsimp only
  rw [run_get, run_get, run_bind_ok _ ran]
  exact ⟨decl, _, rfl, isDecl, form⟩

/-! ### What a failed call leaves behind -/

/-- Every later call goes on one loader as on the other, and gives the same up to the numbers of
nodes; whatever was called before. -/
def GoesOnLike (loader left : Loader) : Prop :=
  ∃ origin : Origin, origin.loader = loader ∧ ∀ calls : List Call,
    origin.Beside (loader.afterAll calls) (left.afterAll calls) ∧
    ∀ next : Call, Agrees origin (loader.afterAll calls) (Made.Alike origin)
      (next.run (loader.afterAll calls)) (next.run (left.afterAll calls))

/-- A path is taken by a unit: whoever loads or imports it gets the unit as it stands. -/
structure Taken (loader : Loader) (path : String) (id : UnitId) : Prop where
  loads : ∀ document root others, document.units = some root :: others →
    clean root.path = path → load document loader = .ok id loader
  imports : ∀ unit item imported, (loader.tree.units.get? unit).isSome → item.stmt = none →
    item.importItem = some imported → clean imported.path = path →
    ∃ decl after, addTopLevel unit item loader = .ok (.decl loader.tree.decls.next) after ∧
      after.tree.decls.get? loader.tree.decls.next = some decl ∧
      decl.form = .importDecl imported.path (some id)

theorem taken_of_registered {path : String} (registered : loader.unit? path = some id) :
    loader.Taken path id where
  loads _ _ _ isRoot same := load_of_registered isRoot (same ▸ registered)
  imports _ _ _ there noStmt isImport same :=
    addTopLevel_import noStmt isImport there (same ▸ registered)

theorem goesOnLike_left (reached : Reached loader) (failed : call.run loader = .error fault left)
    (same : left.units = loader.units) : loader.GoesOnLike left := by
  obtain ⟨origin, isOrigin, beside⟩ := beside_left reached.forest failed same
  refine ⟨origin, isOrigin, fun calls => ?_⟩
  have beside := beside_afterAll beside calls
  exact ⟨beside, fun next => agrees_run beside next⟩

theorem behind_map {β : Type} (action : LoadM α) (change : α → β) (loader : Loader) :
    behind ((action >>= fun value => pure (change value)) loader) = behind (action loader) := by
  cases ran : action loader with
  | ok value after => rw [run_bind_ok _ ran]; rfl
  | error fault after => rw [run_bind_error _ ran]; rfl

/-- A failed call that registered no unit leaves no trace, and neither does any addition but that of
an import. But a load takes the path of its root even if it fails, and a path that is taken stays
so: the unit that was not completed stands in for what is loaded or imported under its path. -/
theorem failed_call_leaves_registrations (reached : Reached loader)
    (failed : call.run loader = .error fault left) :
    (left.units = loader.units → loader.GoesOnLike left) ∧
    (∀ unit item, call = .addTopLevel unit item → item.stmt.isSome ∨ item.importItem = none →
      left.units = loader.units) ∧
    (∀ document root others, call = .load document → document.units = some root :: others →
      loader.unit? (clean root.path) = none →
      left.unit? (clean root.path) = some loader.tree.units.next) ∧
    ∀ path id, left.unit? path = some id → left.Taken path id := by
  have isLeft : left = behind (call.run loader) := by rw [failed]; rfl
  refine ⟨goesOnLike_left reached failed, ?_, ?_, fun path id => taken_of_registered⟩
  · rintro unit item rfl noImport
    rw [isLeft, Call.run, behind_map]
    exact units_of_addTopLevel noImport
  · rintro document root others rfl isRoot isFree
    rw [isLeft, Call.run, behind_map]
    exact unit?_behind_load isRoot isFree

/-- A unit with an enum, and a global without a name. -/
def namelessGlobal : Doc.Document where
  version := 1
  units := [some { path := "a.sb", enums := [some { name := "E", span := { line := 1, column := 1 } }],
                   globals := [some { span := { line := 2, column := 1 } }] }]

/-- The same unit with a name for the global. -/
def namedGlobal : Doc.Document where
  version := 1
  units := [some { path := "a.sb", enums := [some { name := "E", span := { line := 1, column := 1 } }],
                   globals := [some { name := "g", span := { line := 2, column := 1 } }] }]

/-- The global is missing from what the second load gives. -/
theorem failed_call_leaves_registrations_namelessGlobal :
    ∃ left, (Call.load namelessGlobal).run {} =
        .error (.node "a.sb" 2 1 "global" .missingName) left ∧
      load namedGlobal left = .ok 1 left ∧
      (left.tree.units.get? 1).map (fun unit => (unit.enums.length, unit.globals)) = some (1, []) := by
  have failed : (Call.load namelessGlobal).run {} = .error (.node "a.sb" 2 1 "global" .missingName)
      (behind ((Call.load namelessGlobal).run {})) := by
    have fault : (match (Call.load namelessGlobal).run {} with
        | .ok _ _ => none
        | .error fault _ => some fault) = some (.node "a.sb" 2 1 "global" .missingName) := by
      simp only [Call.run, load_eq_loadWithin]
      decide +kernel
    cases ran : (Call.load namelessGlobal).run {} with
    | ok made after =>
      rw [ran] at fault
      nomatch fault
    | error found left =>
      rw [ran] at fault
      rw [Option.some.inj fault]
      rfl
  have partly : ((behind ((Call.load namelessGlobal).run {})).tree.units.get? 1).map
      (fun unit => (unit.enums.length, unit.globals)) = some (1, []) := by
    simp only [Call.run, load_eq_loadWithin]
    decide +kernel
  obtain ⟨_, _, takes, taken⟩ := failed_call_leaves_registrations (.fresh {}) failed
  exact ⟨_, failed, (taken _ _ (takes _ _ _ rfl rfl rfl)).loads _ _ _ rfl rfl, partly⟩

end Loader

end TreeCheck
