/-
Loading builds a forest. Every function of the loader hands over the node it built, loose
and complete, and takes the parts of that node from what was loose; a load that fails
leaves its unfinished nodes lying about, which are then parts of nothing. So every
program that was loaded is a forest, whatever was loaded, added or refused before.
-/

import TreeCheck.Proofs.Loading.Builders

namespace TreeCheck

open Build

namespace LoadM

/-- A forest is left; after success with what was given among the loose nodes. -/
def Leaves {α : Type} (loose : List Node) (gives : α → List Node) :
    EStateM.Result LoadError Loader α → Prop
  | .ok value after => after.tree.Forest (gives value ++ loose)
  | .error _ after => after.tree.Forest loose

/-- An action that turns the held nodes into others, and leaves a forest even if it fails, in
which every node is where it was. -/
structure Builds {α : Type} (held : List Node) (action : LoadM α) (gives : α → List Node) :
    Prop where
  leaves : ∀ (loader : Loader) loose, loader.tree.Forest (held ++ loose) →
    Leaves loose gives (action loader)
  keeps : ∀ (loader : Loader) loose, loader.tree.Forest (held ++ loose) →
    loader.tree.Keeps (Loader.behind (action loader)).tree

namespace Builds

variable {α β : Type} {held : List Node} {loader : Loader} {action : LoadM α} {next : α → LoadM β}
  {gives : α → List Node} {result : β → List Node}

theorem loosen {left loose : List Node}
    (forest : loader.tree.Forest (held ++ loose))
    (fewer : ∀ node, left.count node ≤ held.count node) : loader.tree.Forest (left ++ loose) := by
  refine forest.loosen fun node => ?_
  rw [List.count_append, List.count_append]
  exact Nat.add_le_add_right (fewer node) _

/-- What was held is lost. -/
theorem lose {loose : List Node} (forest : loader.tree.Forest (held ++ loose)) :
    loader.tree.Forest loose := by
  rw [← List.nil_append loose]
  exact loosen forest fun _ => Nat.zero_le _

theorem pure {value : α}
    (enough : ∀ node, (gives value).count node ≤ held.count node) :
    Builds held (Pure.pure value) gives :=
  ⟨fun _ _ forest => loosen forest enough, fun _ _ _ => .refl _⟩

theorem throw (fault : LoadError) :
    Builds held (MonadExcept.throw fault) gives :=
  ⟨fun _ _ forest => lose forest, fun _ _ _ => .refl _⟩

theorem bind {kept : List Node}
    (first : Builds held action gives)
    (second : ∀ value, Builds (gives value ++ kept) (next value) result) :
    Builds (held ++ kept) (action >>= next) result := by
  have halves (loader : Loader) (loose : List Node)
      (forest : loader.tree.Forest (held ++ kept ++ loose)) :
      Leaves loose result ((action >>= next) loader) ∧
        loader.tree.Keeps (Loader.behind ((action >>= next) loader)).tree := by
    rw [List.append_assoc] at forest
    have done := first.leaves loader (kept ++ loose) forest
    have there := first.keeps loader (kept ++ loose) forest
    cases ran : action loader with
    | ok value after =>
      rw [ran] at done there
      rw [run_bind_ok next ran]
      have forest : after.tree.Forest (gives value ++ kept ++ loose) := by
        rw [List.append_assoc]
        exact done
      exact ⟨(second value).leaves after loose forest,
        there.trans ((second value).keeps after loose forest)⟩
    | error fault after =>
      rw [ran] at done there
      rw [run_bind_error next ran]
      exact ⟨lose done, there⟩
  exact ⟨fun loader loose forest => (halves loader loose forest).1,
    fun loader loose forest => (halves loader loose forest).2⟩

/-- An action that needs nothing leaves what is held alone. -/
theorem andThen
    (first : Builds [] action gives)
    (second : ∀ value, Builds (gives value ++ held) (next value) result) :
    Builds held (action >>= next) result :=
  first.bind second

/-- An action takes all that is held. -/
theorem takeAll
    (first : Builds held action gives)
    (second : ∀ value, Builds (gives value) (next value) result) :
    Builds held (action >>= next) result := by
  rw [← List.append_nil held]
  exact first.bind fun value => by rw [List.append_nil]; exact second value

theorem failThen (place : BuildPlace)
    (subject : String) (extent : Doc.Extent) (fault : NodeFault) :
    Builds held (place.fail subject extent fault >>= next) result :=
  ⟨fun _ _ forest => lose forest, fun _ _ _ => .refl _⟩

theorem read {next : Loader → LoadM β}
    (each : ∀ loader, Builds held (next loader) result) :
    Builds held (get >>= next) result :=
  ⟨fun loader loose forest => (each loader).leaves loader loose forest,
    fun loader loose forest => (each loader).keeps loader loose forest⟩

end Builds

/-! ### Plain actions -/

/-- A plain action is told nothing wrong by what was found, and leaves a forest. -/
theorem Plain.leaves {gap owners : Prop} {α : Type} {found : List Finding} {held : List Node}
    {action : LoadM α} {gives : α → List Node} (plain : Plain gap owners found held action gives)
    {loader : Loader} {loose : List Node} (known : ∀ finding ∈ found, finding.Holds loader.tree)
    (forest : loader.tree.Forest (held ++ loose)) :
    Leaves loose gives (action loader) ∧
      loader.tree.Keeps (Loader.behind (action loader)).tree := by
  have enough {parts held : List Node} (uses : ∀ node, parts.count node = held.count node)
      (node : Node) : parts.count node ≤ held.count node := Nat.le_of_eq (uses node)
  have lasts {before after : Tree} (keeps : before.Keeps after) {findings : List Finding}
      (known : ∀ finding ∈ findings, finding.Holds before) :
      ∀ finding ∈ findings, finding.Holds after := by
    rintro (name | id) member
    · exact known (.named name) member
    · exact keeps.unset (known (.unset id) member)
  induction plain generalizing loader loose with
  | pure kept => exact ⟨Builds.loosen forest (enough kept), .refl _⟩
  | fail => exact ⟨Builds.lose forest, .refl _⟩
  | failThen => exact ⟨Builds.lose forest, .refl _⟩
  | crash => exact ⟨Builds.lose forest, .refl _⟩
  | @telling _ _ found held kept action next gives _ tells _ told _ firstLeaves secondLeaves =>
    rw [List.append_assoc] at forest
    obtain ⟨done, keeps⟩ := firstLeaves known forest
    cases ran : action loader with
    | ok value after =>
      rw [ran] at done keeps
      rw [run_bind_ok next ran]
      have done : after.tree.Forest (gives value ++ kept ++ loose) := by
        rw [List.append_assoc]
        exact done
      obtain ⟨leaves, keeps'⟩ := secondLeaves value (List.forall_mem_append.mpr
        ⟨told loader value after forest.emptyName ran, lasts keeps known⟩) done
      exact ⟨leaves, keeps.trans keeps'⟩
    | error fault after =>
      rw [ran] at done keeps
      rw [run_bind_error next ran]
      exact ⟨Builds.lose done, keeps⟩
  | intern text =>
    refine ⟨?_, .of_eq (fun node holds => by cases node <;> exact holds) rfl rfl⟩
    exact { forest with
      present := fun node mentioned => by cases node <;> exact forest.present _ mentioned
      emptyName := Names.intern_empty forest.emptyName text }
  | newExpr uses =>
    exact ⟨(Builds.loosen forest (enough uses)).pushExpr,
      .of_eq (fun _ holds => holds.pushExpr _) rfl rfl⟩
  | newStmt uses loops =>
    exact ⟨(Builds.loosen forest (enough uses)).pushStmt, .pushStmt _ fun counter _ _ _ isLoop =>
      known (.unset counter) (loops _ _ _ _ isLoop)⟩
  | newType uses =>
    exact ⟨(Builds.loosen forest (enough uses)).pushType,
      .of_eq (fun _ holds => holds.pushType _) rfl rfl⟩
  | @newDecl _ _ decl uses named _ =>
    refine ⟨(Builds.loosen forest (enough uses)).pushDecl fun some => ?_,
      .pushDecl _ fun isConst => ?_⟩
    · exact ⟨known _ (named some).1, (named some).2.1⟩
    · cases init : decl.init with
      | none => rfl
      | some value => exact absurd isConst (named (by rw [init]; rfl)).2.2
  | modifyDecl id _ kind name init fewer =>
    exact ⟨forest.modifyDecl id kind name init fewer, .modifyDecl _ id kind init⟩

theorem Plain.builds {α : Type} {held : List Node} {action : LoadM α} {gives : α → List Node}
    (plain : Plain True True [] held action gives) : Builds held action gives :=
  ⟨fun _ _ forest => (plain.leaves nofun forest).1, fun _ _ forest => (plain.leaves nofun forest).2⟩

end LoadM

open LoadM

namespace Build

variable (place : BuildPlace)

/-! ### Units -/

/-- A change of a unit that makes one more declaration of a kind a part of it. -/
def Appends (kind : DeclKind) (append : DeclId → ProgramUnit → ProgramUnit) : Prop :=
  ∀ id unit node, (append id unit).parts.count node ≤
    unit.parts.count node + [Node.decl kind id].count node

theorem builds_append {kind : DeclKind} {append : DeclId → ProgramUnit → ProgramUnit}
    (appends : Appends kind append) (unit : UnitId) (id : DeclId) :
    Builds [.decl kind id] (modifyUnit unit (append id)) fun _ => [] :=
  ⟨fun _ _ forest => forest.modifyUnit unit (appends id),
    fun _ _ _ => .of_eq (fun _ holds => holds.modifyUnit unit (append id)) rfl rfl⟩

theorem builds_appendEach {α : Type} {kind : DeclKind} {build : α → LoadM DeclId}
    {append : DeclId → ProgramUnit → ProgramUnit}
    (builds : ∀ item, Builds [] (build item) fun id => [.decl kind id])
    (appends : Appends kind append) (unit : UnitId) (items : List (Option α)) :
    Builds [] (appendEach unit build append items) fun _ => [] := by
  induction items with
  | nil => exact .pure fun _ => Nat.le_refl _
  | cons item rest inductionHypothesis =>
    cases item with
    | none => exact .throw _
    | some item =>
      exact .andThen (builds item) fun id => .takeAll (builds_append appends unit id) fun _ =>
        inductionHypothesis

theorem builds_appendVariables {append : DeclId → ProgramUnit → ProgramUnit} (unit : UnitId)
    (kind : VariableKind) (other : kind ≠ .enumConst) (appends : Appends kind.declKind append)
    (items : List (Option Doc.Variable)) :
    Builds [] (appendVariables place unit kind append items) fun _ => [] := by
  induction items with
  | nil => exact .pure fun _ => Nat.le_refl _
  | cons item rest inductionHypothesis =>
    exact .andThen (plain_optionalVariable place kind other item fun _ => trivial).builds fun id =>
      .takeAll (builds_append appends unit id) fun _ => inductionHypothesis

theorem appends_addImport : Appends .importDecl .addImport := by
  intro id unit node
  simp only [ProgramUnit.addImport, ProgramUnit.parts, List.map_append, List.count_append,
    List.map_singleton]
  omega

theorem appends_addEnum : Appends .enum .addEnum := by
  intro id unit node
  simp only [ProgramUnit.addEnum, ProgramUnit.parts, List.map_append, List.count_append,
    List.map_singleton]
  omega

theorem appends_addGlobal : Appends .global .addGlobal := by
  intro id unit node
  simp only [ProgramUnit.addGlobal, ProgramUnit.parts, List.map_append, List.count_append,
    List.map_singleton]
  omega

theorem appends_addClass : Appends .classDecl .addClass := by
  intro id unit node
  simp only [ProgramUnit.addClass, ProgramUnit.parts, List.map_append, List.count_append,
    List.map_singleton]
  omega

theorem appends_addFunction : Appends .function .addFunction := by
  intro id unit node
  simp only [ProgramUnit.addFunction, ProgramUnit.parts, List.map_append, List.count_append,
    List.map_singleton]
  omega

/-- The former main function, if there was one, is a part of nothing afterwards. -/
theorem appends_setMain : Appends .function .setMain := by
  intro id unit node
  simp only [ProgramUnit.setMain, ProgramUnit.parts, List.count_append, Option.map_some,
    Option.toList_some]
  omega

theorem builds_registerUnit (path : String) (flags : FileFlags) :
    Builds [] (registerUnit path flags) fun _ => [] :=
  ⟨fun _ _ forest => forest.pushUnit rfl,
    fun _ _ _ => .of_eq (fun _ holds => holds.pushUnit _) rfl rfl⟩

theorem builds_ask (path : String) : Builds [] (ask path) fun _ => [] :=
  ⟨fun _ _ forest => forest, fun _ _ _ => .refl _⟩

theorem builds_importOf {fuel : Nat} {byPath : UnitsByPath}
    (builds : ∀ isImported item, Builds [] (unit fuel byPath isImported item) fun _ => [])
    (place : BuildPlace) (item : Doc.Import) :
    Builds [] (importOf fuel byPath place item) fun id => [.decl .importDecl id] := by
  unfold importOf
  refine .read fun loader => ?_
  have found (item : Doc.Import) (target : Option UnitId) :
      Builds [] (Pure.pure target >>= importDecl place item) fun id => [.decl .importDecl id] :=
    (plain_importDecl place item target).builds
  dsimp only
  split
  · exact found item _
  · split
    · exact .andThen (builds true _) fun _ => found item _
    · refine .andThen (builds_ask _) fun answer => ?_
      split
      · exact .failThen ..
      · exact found item _
      · exact .andThen (builds true _) fun _ => found item _

theorem builds_unit (fuel : Nat) (byPath : UnitsByPath) (isImported : Bool) (item : Doc.Unit) :
    Builds [] (unit fuel byPath isImported item) fun _ => [] := by
  have gap {missing : Prop} : missing → True := fun _ => trivial
  induction fuel generalizing isImported item with
  | zero =>
    unfold unit
    refine .read fun loader => ?_
    split
    · exact .pure fun _ => Nat.le_refl _
    · exact .throw _
  | succ fuel inductionHypothesis =>
    unfold unit
    refine .read fun loader => ?_
    split
    · exact .pure fun _ => Nat.le_refl _
    · refine .andThen (builds_registerUnit ..) fun registered => ?_
      dsimp only
      refine .andThen (builds_appendEach (builds_importOf inductionHypothesis _)
        appends_addImport ..) fun _ =>
        .andThen (builds_appendEach (fun item => (plain_enumDecl _ item gap).builds)
          appends_addEnum ..) fun _ =>
        .andThen (builds_appendVariables _ _ .global (by simp) appends_addGlobal _) fun _ =>
        .andThen (builds_appendEach (fun item => (plain_classDecl _ item gap).builds)
          appends_addClass ..) fun _ =>
        .andThen (builds_appendEach (fun item => (plain_function _ false item gap).builds)
          appends_addFunction ..) fun _ => ?_
      split
      · exact .pure fun _ => Nat.le_refl _
      · exact .andThen (plain_function _ false _ gap).builds fun main =>
          .takeAll (builds_append appends_setMain registered.1 main) fun _ => .pure fun _ =>
            Nat.le_refl _

end Build

/-! ### Loaders -/

namespace Loader

/-- A loader after any number of loads and additions, whether or not they succeeded. -/
inductive Reached : Loader → Prop
  | fresh (source : ImportSource) : Reached { source }
  | load {loader : Loader} (document : Doc.Document) :
      Reached loader → Reached (behind (Loader.load document loader))
  | newUnit {loader : Loader} (path : String) :
      Reached loader → Reached (behind (Loader.newUnit path loader))
  | addTopLevel {loader : Loader} (unit : UnitId) (item : Doc.TopLevel) :
      Reached loader → Reached (behind (Loader.addTopLevel unit item loader))

theorem builds_load (document : Doc.Document) : Builds [] (load document) fun _ => [] := by
  unfold load
  split
  · exact .throw _
  · exact .throw _
  · exact .read fun loader => builds_unit ..

theorem builds_newUnit (path : String) : Builds [] (newUnit path) fun _ => [] :=
  .andThen (builds_registerUnit ..) fun _ => .pure fun _ => Nat.le_refl _

theorem builds_addStmt (unit : UnitId) (id : StmtId) :
    Builds [.stmt id] (modifyUnit unit (.addStmt id)) fun _ => [] := by
  refine ⟨fun loader loose forest => forest.modifyUnit unit fun unit node => ?_,
    fun _ _ _ => .of_eq (fun _ holds => holds.modifyUnit unit _) rfl rfl⟩
  simp only [ProgramUnit.addStmt, ProgramUnit.parts, List.map_append, List.count_append,
    List.map_singleton]
  omega

theorem builds_addTopLevel (unit : UnitId) (item : Doc.TopLevel) :
    Builds [] (addTopLevel unit item) fun _ => [] := by
  have added {kind : DeclKind} {append : DeclId → ProgramUnit → ProgramUnit}
      (appends : Build.Appends kind append) (id : DeclId) : Builds [.decl kind id] (do
        modifyUnit unit (append id)
        return Added.decl id) fun _ => [] :=
    .takeAll (builds_append appends unit id) fun _ => .pure fun _ => Nat.le_refl _
  have gap {missing : Prop} : missing → True := fun _ => trivial
  unfold addTopLevel
  refine .read fun loader => ?_
  split
  · exact .throw _
  · refine .read fun loader => ?_
    dsimp only
    split
    · exact .andThen (plain_stmt _ _ gap).builds fun id => .takeAll (builds_addStmt unit id) fun _ =>
        .pure fun _ => Nat.le_refl _
    · split
      · exact .read fun loader => .andThen
          (builds_importOf (fun isImported item => builds_unit ..) ..)
          (added appends_addImport)
      · exact .andThen (plain_enumDecl _ _ gap).builds (added appends_addEnum)
      · exact .andThen (plain_variableDecl _ .global nofun _ gap).builds
          (added appends_addGlobal)
      · exact .andThen (plain_classDecl _ _ gap).builds (added appends_addClass)
      · exact .andThen (plain_function _ _ _ gap).builds (added appends_addFunction)
      · exact .andThen (plain_function _ _ _ gap).builds (added appends_setMain)
      · exact .throw _

/-- What an action builds is a forest with nothing loose, in which nodes are where they were. -/
theorem forest_behind {α : Type} {before : Loader} {action : LoadM α}
    (forest : before.tree.Forest []) (builds : Builds [] action fun _ => []) :
    (behind (action before)).tree.Forest [] := by
  have left := builds.leaves before [] forest
  cases ran : action before with
  | ok value after =>
    rw [ran] at left
    exact left
  | error fault after =>
    rw [ran] at left
    exact left

/-- Every tree that was loaded is a forest. -/
theorem Reached.forest {loader : Loader} (reached : Reached loader) : loader.tree.Forest [] := by
  induction reached with
  | fresh source => exact Tree.forest_empty
  | load document _ inductionHypothesis => exact forest_behind inductionHypothesis (builds_load document)
  | newUnit path _ inductionHypothesis => exact forest_behind inductionHypothesis (builds_newUnit path)
  | addTopLevel unit item _ inductionHypothesis =>
    exact forest_behind inductionHypothesis (builds_addTopLevel unit item)

/-- In a tree that was loaded neither constants of enums nor counters of loops have initial
values. -/
theorem Reached.bare {loader : Loader} (reached : Reached loader) : loader.tree.Bare := by
  induction reached with
  | fresh source =>
    refine ⟨fun {id _} found => ?_, fun {id _ _ _ _ _} found => ?_⟩
    · cases id <;> simp [Arena.get?] at found
    · cases id <;> simp [Arena.get?] at found
  | load document reached inductionHypothesis =>
    exact ((builds_load document).keeps _ [] reached.forest).bare inductionHypothesis
  | newUnit path reached inductionHypothesis =>
    exact ((builds_newUnit path).keeps _ [] reached.forest).bare inductionHypothesis
  | addTopLevel unit item reached inductionHypothesis =>
    exact ((builds_addTopLevel unit item).keeps _ [] reached.forest).bare inductionHypothesis

end Loader

/-! ### Loads by their fuel -/

namespace Build

/-- Builds an import, with whatever builds the units behind imports. -/
def importThrough (build : Doc.Unit → LoadM UnitId) (byPath : UnitsByPath) (place : BuildPlace)
    (item : Doc.Import) : LoadM DeclId := do
  let key := Text.Path.clean item.path
  let target ← match (← get).unit? key with
    | some id => pure (some id)
    | none =>
      match byPath.lookup key with
      | some found => do
        let id ← build found
        pure (some id)
      | none =>
        match ← ask item.path with
        | .error message => place.fail "import" item.span (.importFailed message)
        | .ok none => pure none
        | .ok (some found) => do
          let id ← build found
          pure (some id)
  importDecl place item target

/-- Builds a unit by recursion on the fuel alone, which the kernel can evaluate: in `Build.unit` the
recursion goes through imports. -/
def unitWithin : Nat → UnitsByPath → Bool → Doc.Unit → LoadM UnitId
  | fuel, byPath, isImported, item => do
    let key := Text.Path.clean item.path
    match (← get).unit? key with
    | some id => return id
    | none =>
      match fuel with
      | 0 => throw .crash
      | fuel + 1 =>
        let (id, file) ← registerUnit key (if isImported then .imported else 0)
        let place : BuildPlace := ⟨file, key⟩
        appendEach id (importThrough (unitWithin fuel byPath true) byPath place) .addImport
          item.imports
        appendEach id (enumDecl place) .addEnum item.enums
        appendVariables place id .global .addGlobal item.globals
        appendEach id (classDecl place) .addClass item.classes
        appendEach id (function place false) .addFunction item.functions
        match item.main with
        | none => pure ⟨⟩
        | some main =>
          let main ← function place false main
          modifyUnit id (.setMain main)
        return id

theorem importOf_eq (fuel : Nat) (byPath : UnitsByPath) :
    importOf fuel byPath = importThrough (unit fuel byPath true) byPath := by
  funext place item
  unfold importOf importThrough
  rfl

theorem unit_eq (fuel : Nat) (byPath : UnitsByPath) :
    unit fuel byPath = unitWithin fuel byPath := by
  induction fuel with
  | zero =>
    funext isImported item
    unfold unit unitWithin
    rfl
  | succ fuel inductionHypothesis =>
    funext isImported item
    have imports := importOf_eq fuel byPath
    rw [inductionHypothesis] at imports
    rw [unit, unitWithin]
    generalize importOf fuel byPath = importing at imports ⊢
    subst imports
    rfl

end Build

namespace Loader

/-- Loads a document by recursion on how many units may be under construction. -/
def loadWithin (document : Doc.Document) : LoadM UnitId :=
  match document.units with
  | [] => throw .emptyDocument
  | none :: _ => throw .crash
  | some root :: others => do
    unitWithin ((← get).unitBound document.units.length) (unitsByPath others) false root

theorem load_eq_loadWithin : load = loadWithin := by
  have same : unit = unitWithin := by
    funext fuel byPath
    exact unit_eq fuel byPath
  funext document
  unfold load loadWithin
  exact same ▸ rfl

end Loader

end TreeCheck
