/-
A unit that was built is whole: its declarations sit in it, and its imports lead to the
units that the paths stand for. While a unit is under construction the units it imports
are built, so what is carried along is that every unit registered since some moment is whole
as far as it has been built, and that the units from before are left alone.
-/

import TreeCheck.Proofs.Loading.Registering
import TreeCheck.Proofs.Loading.Sitting

namespace TreeCheck

open LoadM Text.Path

variable {path : String} {id : DeclId} {earlier : Tree} {change : ProgramUnit → ProgramUnit}
  {action : LoadM DeclId} {result : PUnit} {place : BuildPlace} {fuel : Nat} {item : Doc.Unit}
  {built : UnitId}

/-! ### Where imports lead -/

namespace Supply

/-- A unit of the document is listed under its own path. -/
def Keyed (supply : Supply) : Prop :=
  ∀ path unit, supply.byPath.lookup path = some unit → clean unit.path = path

/-- Where an import leads: to the unit of its path; or, when that path is neither taken nor in the
document, to what the source answers for it. -/
inductive Leads (supply : Supply) (taken : String → Prop) (after : Loader) (path : String) :
    Option UnitId → Prop
  | registered {id : UnitId} (found : after.unit? (clean path) = some id) :
      Leads supply taken after path (some id)
  | outside {unit : Doc.Unit} {id : UnitId} (free : ¬taken (clean path))
      (lacking : supply.byPath.lookup (clean path) = none)
      (answered : supply.source.find path = .ok (some unit))
      (found : after.unit? (clean unit.path) = some id) :
      Leads supply taken after path (some id)
  | nowhere (free : ¬taken (clean path))
      (lacking : supply.byPath.lookup (clean path) = none)
      (answered : supply.source.find path = .ok none) : Leads supply taken after path none

theorem Leads.grows {supply : Supply} {known taken : String → Prop} {before after : Loader}
    {target : Option UnitId} (leads : supply.Leads taken before path target)
    (grows : Loader.Grows known before after) : supply.Leads taken after path target := by
  cases leads with
  | registered found => exact .registered (grows.unit? found)
  | outside free lacking answered found => exact .outside free lacking answered (grows.unit? found)
  | nowhere free lacking answered => exact .nowhere free lacking answered

end Supply

/-! ### Whole units -/

namespace Tree

structure ImportSits (tree : Tree) (leads : String → Option UnitId → Prop) (file : FileId)
    (id : DeclId) : Prop where
  self : tree.Sits file .importDecl none id
  leads : ∃ path target, (tree.decls.get? id).map Decl.form = some (.importDecl path target) ∧
    leads path target

/-- Every declaration of a unit sits in it. -/
structure UnitSits (tree : Tree) (leads : String → Option UnitId → Prop) (unit : ProgramUnit) :
    Prop where
  imports : ∀ id ∈ unit.imports, tree.ImportSits leads unit.file id
  enums : ∀ id ∈ unit.enums, tree.EnumSits unit.file id
  globals : ∀ id ∈ unit.globals, tree.Sits unit.file .global none id
  classes : ∀ id ∈ unit.classes, tree.ClassSits unit.file id
  functions : ∀ id ∈ unit.functions, tree.CallableSits unit.file .function none id
  main : ∀ id ∈ unit.main, tree.CallableSits unit.file .function none id

variable {before after : Tree} {leads leads' : String → Option UnitId → Prop}

theorem ImportSits.keep {file : FileId} (sits : before.ImportSits leads file id)
    (keeps : before.KeepsDecls after)
    (lasts : ∀ path target, leads path target → leads' path target) :
    after.ImportSits leads' file id := by
  obtain ⟨path, target, form, isTarget⟩ := sits.leads
  obtain ⟨decl, found, isForm⟩ := Option.map_eq_some_iff.mp form
  exact ⟨sits.self.keep keeps, path, target, by rw [keeps id decl found, Option.map_some, isForm],
    lasts path target isTarget⟩

theorem UnitSits.keep {unit : ProgramUnit} (sits : before.UnitSits leads unit)
    (keeps : before.KeepsDecls after) (lasts : ∀ path target, leads path target → leads' path target) :
    after.UnitSits leads' unit where
  imports id member := (sits.imports id member).keep keeps lasts
  enums id member := (sits.enums id member).keep keeps
  globals id member := (sits.globals id member).keep keeps
  classes id member := (sits.classes id member).keep keeps
  functions id member := (sits.functions id member).keep keeps
  main id member := (sits.main id member).keep keeps

/-! ### Units that are registered or changed -/

theorem Covered.pushUnit {tree : Tree} (unit : ProgramUnit) (covered : earlier.Covered tree []) :
    earlier.Covered { tree with units := tree.units.push unit } [] := by
  show earlier.Covered _ ([] ++ [])
  have covered : earlier.Covered tree ([] ++ []) := covered
  refine covered.step (fun whole node _ member => ?_) nofun
    fun node inner holds => ?_
  · cases whole with
    | unit id => exact Arena.mem_parts_push unit member
    | _ => exact member
  · cases node with
    | unit id => exact inner.elim
    | _ => exact .inl holds

theorem Covered.modifyUnit {tree : Tree} (id : UnitId)
    (keeps : ∀ unit : ProgramUnit, ∀ stmt ∈ unit.stmts, stmt ∈ (change unit).stmts)
    (covered : earlier.Covered tree []) :
    earlier.Covered { tree with units := tree.units.modify id change } [] := by
  show earlier.Covered _ ([] ++ [])
  have covered : earlier.Covered tree ([] ++ []) := covered
  refine covered.step (fun whole node inner member => ?_) nofun
    fun node inner holds => ?_
  · cases whole with
    | unit other =>
      refine Arena.mem_parts_modify id (fun unit isPart => ?_) member
      cases node with
      | stmt stmt =>
        have isStmt : stmt ∈ unit.stmts := by simpa [ProgramUnit.parts] using isPart
        simpa [ProgramUnit.parts] using keeps unit stmt isStmt
      | _ => simp [ProgramUnit.parts, Node.Inner] at isPart inner
    | _ => exact member
  · cases node with
    | unit id => exact inner.elim
    | _ => exact .inl holds

end Tree

/-! ### Completing units -/

namespace Loader

variable {supply : Supply} {known taken : String → Prop}

/-- Units may have been registered, and those are whole; the ones from before are left alone. -/
structure Completes (supply : Supply) (known taken : String → Prop) (before after : Loader) :
    Prop where
  grows : Grows known before after
  onward : Onward before after
  kept : ∀ id ≤ before.tree.units.size, after.tree.units.get? id = before.tree.units.get? id
  covers : ∀ earlier : Tree, earlier.Covered before.tree [] → earlier.Covered after.tree []
  whole : ∀ id unit, before.tree.units.size < id → after.tree.units.get? id = some unit →
    after.tree.UnitSits (supply.Leads taken after) unit

namespace Completes

variable {before middle after : Loader}

theorem of_steady (steady : Steady before after) (onward : Onward before after)
    (covers : ∀ earlier : Tree, earlier.Covered before.tree [] → earlier.Covered after.tree []) :
    Completes supply known taken before after where
  grows := .of_steady steady
  onward := onward
  kept id _ := by rw [steady.nodes]
  covers := covers
  whole id unit new found := by
    rw [steady.nodes] at found
    exact absurd (Arena.get?_eq_some_le found).2 (Nat.not_le.mpr new)

theorem refl (loader : Loader) : Completes supply known taken loader loader :=
  .of_steady (.refl loader) (.refl loader) fun _ => id

theorem trans (first : Completes supply known taken before middle)
    (second : Completes supply known taken middle after) :
    Completes supply known taken before after := by
  have size : before.tree.units.size ≤ middle.tree.units.size := by
    obtain ⟨_, _, size, _⟩ := first.grows.registers
    omega
  refine ⟨first.grows.trans second.grows, first.onward.trans second.onward, fun id old => ?_,
    fun earlier covered => second.covers earlier (first.covers earlier covered),
    fun id unit new found => ?_⟩
  · rw [second.kept id (Nat.le_trans old size), first.kept id old]
  · obtain newer | older := Nat.lt_or_ge middle.tree.units.size id
    · exact second.whole id unit newer found
    · rw [second.kept id older] at found
      exact (first.whole id unit new found).keep second.onward.keeps
        fun _ _ leads => leads.grows second.grows

/-- What builds a declaration is plain and leaves the others alone. -/
theorem of_plain {gap owners : Prop} {kind : DeclKind}
    (plain : Plain gap owners [] [] action fun id => [.decl kind id])
    (ran : action before = .ok id after) (onward : Onward before after) :
    Completes supply known taken before after := by
  have steady := plain.steady before
  rw [ran] at steady
  exact .of_steady steady onward fun earlier covered =>
    (plain.covers covered ran).of_outer fun _ member => List.mem_singleton.mp member ▸ nofun

/-- A declaration was built in a plain way. -/
theorem of_declares {fits : Tree → DeclId → Prop} {kind : DeclKind}
    (plain : Plain True True [] [] action fun id => [.decl kind id])
    (declares : Declares fits before after [id]) (ran : action before = .ok id after) :
    Completes supply known taken before after ∧ fits after.tree id :=
  ⟨.of_plain plain ran declares.onward, (declares.each id (.head _)).2⟩

end Completes

/-- A unit is under construction that was registered after some moment. -/
structure Constructs (supply : Supply) (known taken : String → Prop) (start : Loader) (id : UnitId)
    (file : FileId) (loader : Loader) : Prop where
  completes : Completes supply known taken start loader
  registered : ∀ path, taken path → loader.unit? path ≠ none
  new : start.tree.units.size < id
  self : ∃ unit, loader.tree.units.get? id = some unit ∧ unit.file = file

namespace Constructs

variable {start loader middle : Loader} {id : UnitId} {file : FileId}

/-- More is built, and added to the unit. -/
theorem append (constructs : Constructs supply known taken start id file loader)
    (built : Completes supply known taken loader middle)
    (frame : ∀ unit, (change unit).file = unit.file ∧ (change unit).stmts = unit.stmts)
    (fits : ∀ unit, unit.file = file → middle.tree.UnitSits (supply.Leads taken middle) unit →
      middle.tree.UnitSits (supply.Leads taken middle) (change unit)) :
    Constructs supply known taken start id file (behind (modifyUnit id change middle)) := by
  obtain ⟨completes, registered, new, unit, found, isUnit⟩ := constructs
  have found' := found
  rw [← built.kept id (Arena.get?_eq_some_le found).2] at found'
  have whole := completes.trans built
  have changed (other : UnitId) : (behind (modifyUnit id change middle)).tree.units.get? other =
      if other = id then (middle.tree.units.get? other).map change
      else middle.tree.units.get? other := Arena.get?_modify ..
  have toChanged : Grows known middle (behind (modifyUnit id change middle)) :=
    grows_modifyUnit id change middle
  refine ⟨⟨whole.grows.trans toChanged, whole.onward.trans (.of_eq rfl), fun other old => ?_,
    fun earlier covered => (whole.covers earlier covered).modifyUnit id fun unit stmt member => ?_,
    fun other unit' newer found => ?_⟩,
    fun path isTaken none => registered path isTaken (built.grows.unit?_eq_none none), new,
    change unit, ?_, ?_⟩
  · rw [changed, if_neg (Nat.ne_of_lt (Nat.lt_of_le_of_lt old new)), whole.kept other old]
  · rwa [(frame unit).2]
  · rw [changed] at found
    split at found
    · obtain ⟨former, isFormer, rfl⟩ := Option.map_eq_some_iff.mp found
      subst other
      have isFile : former.file = file := by
        rw [found'] at isFormer
        rw [← Option.some.inj isFormer, isUnit]
      exact (fits former isFile (whole.whole id former newer isFormer)).keep (fun _ _ found => found)
        fun _ _ leads => leads.grows toChanged
    · exact (whole.whole other unit' newer found).keep (fun _ _ found => found)
        fun _ _ leads => leads.grows toChanged
  · rw [changed, if_pos rfl, found', Option.map_some]
  · rw [(frame unit).1, isUnit]

end Constructs

end Loader

/-! ### Building units -/

namespace Build

open Loader

variable {supply : Supply} {known taken : String → Prop} {start loader after : Loader}
  {id : UnitId} {file : FileId}

/-- Declarations are built one by one, and each is added to the unit. -/
theorem constructs_appendEach {α : Type} {build : α → LoadM DeclId}
    (append : DeclId → ProgramUnit → ProgramUnit)
    (frame : ∀ decl unit, (append decl unit).file = unit.file ∧
      (append decl unit).stmts = unit.stmts)
    (builds : ∀ item decl before middle, Constructs supply known taken start id file before →
      build item before = .ok decl middle → Completes supply known taken before middle ∧
        ∀ unit, unit.file = file → middle.tree.UnitSits (supply.Leads taken middle) unit →
          middle.tree.UnitSits (supply.Leads taken middle) (append decl unit))
    {items : List (Option α)} (constructs : Constructs supply known taken start id file loader)
    (ran : appendEach id build append items loader = .ok result after) :
    Constructs supply known taken start id file after := by
  induction items generalizing loader with
  | nil =>
    cases ran
    exact constructs
  | cons item items inductionHypothesis =>
    cases item with
    | none => nomatch ran
    | some item =>
      obtain ⟨decl, middle, ranFirst, ran⟩ := ok_of_bind ran
      obtain ⟨_, changed, ranChange, ran⟩ := ok_of_bind ran
      obtain ⟨_, isChanged⟩ := EStateM.Result.ok.inj ranChange
      obtain ⟨built, fits⟩ := builds item decl loader middle constructs ranFirst
      refine inductionHypothesis ?_ ran
      rw [← isChanged]
      exact constructs.append built (frame decl) fits

theorem constructs_appendVariables (isPlace : place.file = file)
    {items : List (Option Doc.Variable)}
    (constructs : Constructs supply known taken start id file loader)
    (ran : appendVariables place id .global .addGlobal items loader = .ok result after) :
    Constructs supply known taken start id file after := by
  induction items generalizing loader with
  | nil =>
    cases ran
    exact constructs
  | cons item items inductionHypothesis =>
    cases item with
    | none => nomatch ran
    | some item =>
      obtain ⟨decl, middle, ranFirst, ran⟩ := ok_of_bind ran
      obtain ⟨_, changed, ranChange, ran⟩ := ok_of_bind ran
      obtain ⟨_, isChanged⟩ := EStateM.Result.ok.inj ranChange
      obtain ⟨built, sits⟩ := Completes.of_declares
        (plain_variableDecl place .global nofun item fun _ => trivial) (declares_variableDecl ranFirst)
        ranFirst
      refine inductionHypothesis ?_ ran
      rw [← isChanged]
      refine constructs.append built (fun _ => ⟨rfl, rfl⟩) fun unit isUnit unitSits =>
        { unitSits with
          globals := List.forall_mem_append.mpr
            ⟨unitSits.globals, List.forall_mem_singleton.mpr ?_⟩ }
      rw [isPlace, ← isUnit] at sits
      exact sits

theorem completes_importOf (keyed : supply.Keyed)
    (builds : ∀ unit built before middle, supply.Offers unit → before.source = supply.source →
      (∀ path, taken path → before.unit? path ≠ none) →
      Build.unit fuel supply.byPath true unit before = .ok built middle →
        Completes supply known taken before middle ∧
          middle.unit? (clean unit.path) = some built) {item : Doc.Import} {decl : DeclId}
    (fixed : loader.source = supply.source)
    (isTaken : ∀ path, taken path → loader.unit? path ≠ none)
    (ran : importOf fuel supply.byPath place item loader = .ok decl after) :
    Completes supply known taken loader after ∧
      after.tree.ImportSits (supply.Leads taken after) place.file decl := by
  -- Whatever was found, the import itself is built last.
  have found {before : Loader} {target : Option UnitId}
      (completes : Completes supply known taken loader before)
      (leads : supply.Leads taken before item.path target)
      (ran : importDecl place item target before = .ok decl after) :
      Completes supply known taken loader after ∧
        after.tree.ImportSits (supply.Leads taken after) place.file decl := by
    have onward := (plain_importDecl place item target : Plain True False [] [] _ _).onward ran
    have declared : Completes supply known taken before after :=
      .of_plain (plain_importDecl place item target : Plain True False [] [] _ _) ran onward
    obtain ⟨name, named, ranName, ran⟩ := ok_of_bind ran
    obtain ⟨_, _, isImport⟩ := run_newDecl ran
    exact ⟨completes.trans declared, ⟨_, isImport, rfl, rfl, place.file_span _⟩, item.path, target,
      by rw [isImport]; rfl, leads.grows declared.grows⟩
  unfold importOf at ran
  rw [run_get] at ran
  dsimp only at ran
  cases registered : loader.unit? (clean item.path) with
  | some id =>
    rw [registered] at ran
    exact found (.refl _) (.registered registered) ran
  | none =>
    rw [registered] at ran
    have notTaken : ¬taken (clean item.path) := fun isKey => isTaken _ isKey registered
    cases inside : supply.byPath.lookup (clean item.path) with
    | some unit =>
      rw [inside] at ran
      obtain ⟨built, middle, ranUnit, ran⟩ := ok_of_bind ran
      obtain ⟨completes, isBuilt⟩ := builds unit built loader middle (.inl ⟨_, inside⟩) fixed
        isTaken ranUnit
      rw [keyed _ unit inside] at isBuilt
      exact found completes (.registered isBuilt) ran
    | none =>
      rw [inside] at ran
      obtain ⟨answer, asked, ranAsk, ran⟩ := ok_of_bind ran
      obtain ⟨isAnswer, isAsked⟩ := EStateM.Result.ok.inj ranAsk
      have toAsked : Completes supply known taken loader asked := by
        rw [← isAsked]
        exact ⟨⟨rfl, [], rfl, rfl, rfl, .nil, nofun⟩, .of_eq rfl, fun _ _ => rfl,
          fun _ covered => covered,
          fun id unit new found => absurd (Arena.get?_eq_some_le found).2 (Nat.not_le.mpr new)⟩
      rw [fixed] at isAnswer
      match answer with
      | .error message => nomatch ran
      | .ok none => exact found toAsked (.nowhere notTaken inside isAnswer) ran
      | .ok (some unit) =>
        obtain ⟨built, middle, ranUnit, ran⟩ := ok_of_bind ran
        obtain ⟨completes, isBuilt⟩ := builds unit built asked middle (.inr ⟨_, isAnswer⟩)
          (toAsked.grows.source.trans fixed)
          (fun path isPath none => isTaken path isPath (toAsked.grows.unit?_eq_none none)) ranUnit
        exact found (toAsked.trans completes) (.outside notTaken inside isAnswer isBuilt) ran

theorem completes_contents (keyed : supply.Keyed)
    (builds : ∀ unit built before middle, supply.Offers unit → before.source = supply.source →
      (∀ path, taken path → before.unit? path ≠ none) →
      Build.unit fuel supply.byPath true unit before = .ok built middle →
        Completes supply known taken before middle ∧
          middle.unit? (clean unit.path) = some built)
    (fixed : start.source = supply.source)
    (constructs : Constructs supply known taken start id place.file loader)
    (ran : contents fuel supply.byPath place id item loader = .ok built after) :
    built = id ∧ Completes supply known taken start after := by
  unfold contents at ran
  obtain ⟨_, imported, ranImports, ran⟩ := ok_of_bind ran
  obtain ⟨_, listed, ranEnums, ran⟩ := ok_of_bind ran
  obtain ⟨_, valued, ranGlobals, ran⟩ := ok_of_bind ran
  obtain ⟨_, classed, ranClasses, ran⟩ := ok_of_bind ran
  obtain ⟨_, functioned, ranFunctions, ran⟩ := ok_of_bind ran
  have withImports : Constructs supply known taken start id place.file imported := by
    refine constructs_appendEach .addImport (fun _ _ => ⟨rfl, rfl⟩)
      (fun item decl before middle constructs ran => ?_) constructs ranImports
    obtain ⟨built, sits⟩ := completes_importOf keyed builds
      (constructs.completes.grows.source.trans fixed) constructs.registered ran
    refine ⟨built, fun unit isUnit unitSits => { unitSits with
      imports := List.forall_mem_append.mpr
        ⟨unitSits.imports, List.forall_mem_singleton.mpr ?_⟩ }⟩
    rw [← isUnit] at sits
    exact sits
  have withEnums : Constructs supply known taken start id place.file listed := by
    refine constructs_appendEach .addEnum (fun _ _ => ⟨rfl, rfl⟩)
      (fun item decl before middle constructs ran => ?_) withImports ranEnums
    obtain ⟨built, sits⟩ := Completes.of_declares (plain_enumDecl place item fun _ => trivial)
      (declares_enumDecl ran) ran
    refine ⟨built, fun unit isUnit unitSits => { unitSits with
      enums := List.forall_mem_append.mpr
        ⟨unitSits.enums, List.forall_mem_singleton.mpr ?_⟩ }⟩
    rw [← isUnit] at sits
    exact sits
  have withGlobals := constructs_appendVariables rfl withEnums ranGlobals
  have withClasses : Constructs supply known taken start id place.file classed := by
    refine constructs_appendEach .addClass (fun _ _ => ⟨rfl, rfl⟩)
      (fun item decl before middle constructs ran => ?_) withGlobals ranClasses
    obtain ⟨built, sits⟩ := Completes.of_declares (plain_classDecl place item fun _ => trivial)
      (declares_classDecl ran) ran
    refine ⟨built, fun unit isUnit unitSits => { unitSits with
      classes := List.forall_mem_append.mpr
        ⟨unitSits.classes, List.forall_mem_singleton.mpr ?_⟩ }⟩
    rw [← isUnit] at sits
    exact sits
  have withFunctions : Constructs supply known taken start id place.file functioned := by
    refine constructs_appendEach .addFunction (fun _ _ => ⟨rfl, rfl⟩)
      (fun item decl before middle constructs ran => ?_) withClasses ranFunctions
    obtain ⟨built, sits⟩ := Completes.of_declares (plain_function place false item fun _ => trivial)
      (declares_function ran) ran
    refine ⟨built, fun unit isUnit unitSits => { unitSits with
      functions := List.forall_mem_append.mpr
        ⟨unitSits.functions, List.forall_mem_singleton.mpr ?_⟩ }⟩
    rw [← isUnit] at sits
    exact sits
  split at ran
  · cases ran
    exact ⟨rfl, withFunctions.completes⟩
  · next main _ =>
    obtain ⟨decl, middle, ranMain, ran⟩ := ok_of_bind ran
    obtain ⟨_, changed, ranChange, ran⟩ := ok_of_bind ran
    obtain ⟨_, isChanged⟩ := EStateM.Result.ok.inj ranChange
    obtain ⟨rfl, rfl⟩ := EStateM.Result.ok.inj ran
    obtain ⟨built, sits⟩ := Completes.of_declares
      (plain_function place false main fun _ => trivial) (declares_function ranMain) ranMain
    rw [← isChanged]
    have whole : Constructs supply known taken start id place.file
        (behind (modifyUnit id (.setMain decl) middle)) := by
      refine withFunctions.append built (fun _ => ⟨rfl, rfl⟩) fun unit isUnit unitSits =>
        { unitSits with main := fun other member => ?_ }
      obtain rfl := Option.mem_some.mp member
      rw [← isUnit] at sits
      exact sits
    exact ⟨rfl, whole.completes⟩

/-- An empty unit is registered. -/
theorem constructs_registerUnit (isKnown : known (clean path))
    (isFree : loader.unit? (clean path) = none) (flags : FileFlags)
    (isTaken : ∀ path', taken path' → loader.unit? path' ≠ none ∨ path' = clean path) :
    Constructs supply known taken loader loader.tree.units.next
      (loader.files.add (clean path) flags).1
      (behind (registerUnit (clean path) flags loader)) := by
  have grows := grows_registerUnit isKnown isFree flags
  refine ⟨⟨grows, .of_eq rfl, fun id old => ?_, fun earlier covered => covered.pushUnit _,
    fun id unit new isUnit => ?_⟩, fun path' isPath none => ?_, Nat.lt_succ_self _,
    _, Arena.get?_push_self _ _, rfl⟩
  · exact Arena.get?_push_other _ _ (Nat.ne_of_lt (Nat.lt_succ_of_le old))
  · obtain old | rfl := Arena.isSome_get?_of_push (Option.isSome_of_eq_some isUnit)
    · exact absurd ((Arena.isSome_get?_iff _ _).mp old).2 (Nat.not_le.mpr new)
    · cases (Arena.get?_push_self _ _).symm.trans isUnit
      exact ⟨nofun, nofun, nofun, nofun, nofun, nofun⟩
  · obtain there | rfl := isTaken path' isPath
    · exact there (grows.unit?_eq_none none)
    · rw [unit?_registerUnit] at none
      nomatch none

/-- A unit that is built comes out whole, with all that it imports. -/
theorem completes_unit (keyed : supply.Keyed) (bounded : supply.Bounded known True)
    {isImported : Bool} (isKnown : known (clean item.path))
    (fixed : loader.source = supply.source)
    (isTaken : ∀ path, taken path → loader.unit? path ≠ none ∨ path = clean item.path)
    (ran : Build.unit fuel supply.byPath isImported item loader = .ok built after) :
    Completes supply known taken loader after := by
  induction fuel generalizing loader after isImported item built with
  | zero =>
    cases registered : loader.unit? (clean item.path) with
    | some id =>
      rw [unit_of_registered registered] at ran
      cases ran
      exact .refl _
    | none =>
      rw [unit_zero registered] at ran
      nomatch ran
  | succ fuel inductionHypothesis =>
    cases registered : loader.unit? (clean item.path) with
    | some id =>
      rw [unit_of_registered registered] at ran
      cases ran
      exact .refl _
    | none =>
      rw [unit_succ registered, run_bind_ok _ (run_registerUnit ..)] at ran
      refine (completes_contents keyed (fun unit built before middle offered fixed isTaken ran => ?_)
        fixed (constructs_registerUnit isKnown registered _ isTaken) ran).2
      have isKnown := bounded.known unit offered
      exact ⟨inductionHypothesis isKnown fixed (fun path isPath => .inl (isTaken path isPath)) ran,
        (adds_unit bounded fuel true unit isKnown fun _ => trivial).gives before built middle fixed
          trivial ran⟩

end Build

end TreeCheck
