/-
Resolving a program, step by step. A unit is met and waits for its imports; an import leads
nowhere, or back to a unit that waits, or to a unit that is finished by then; and a unit
whose imports are done has its contents resolved and is finished. Whatever one such step
keeps up, a whole run keeps up: the modules about imports, classes and their members owe a
lemma about steps and need not look at the recursion again.
-/

import TreeCheck.Proofs.Imports.Visibility
import TreeCheck.Proofs.Scoping.Bases

namespace TreeCheck

open Resolve

variable {tree : Tree} {loose : List Node}
variable {before after : Analysis} {holds : Stage → Prop} {home : ScopeId} {found : ProgramUnit}
  {checked : Bool} {typing : Typing} {trace : Trace.Recorder}

/-- Resolving the contents of a unit stays on valid ground. -/
theorem Resolve.stays_contents (forest : tree.Forest loose) {state : Analysis}
    (inside : Inside tree state) {id : UnitId} {unit : ProgramUnit}
    (found : tree.units.get? id = some unit) :
    Stays tree Resolve.Anywhere state Any (do
      unitDeclarations tree unit
      unitClasses tree unit
      unitBodies tree unit) := by
  have closed := closed_anywhere tree
  refine .bind (stays_unitDeclarations forest closed inside found (fun _ _ => trivial)
    fun _ _ => .inr ⟨.classDecl, trivial⟩) fun _ _ leads stack _ => ?_
  have inside := inside.leads leads stack
  exact .bind (stays_unitClasses forest inside unit) fun _ _ leads stack _ =>
    stays_unitBodies forest closed (inside.leads leads stack) fun _ _ => trivial

namespace Lexical

open AnalysisM

/-! ### Stages -/

/-- Where a run has come to: the units that wait, innermost first, each with the imports that
were done, and what was found. -/
structure Stage where
  pending : List (UnitId × List DeclId)
  world : World
  state : Analysis

/-- The state stands for what was found, and the innermost unit that waits is the one that is
being resolved. -/
structure Stage.Sound (tree : Tree) (stage : Stage) : Prop where
  mirrors : Mirrors tree stage.world stage.state
  valid : stage.world.Valid tree
  names : stage.state.names.Valid tree
  waiting : stage.world.waiting = stage.pending.map Prod.fst
  entered : ∀ id ∈ stage.world.waiting.head?, ∃ below,
    stage.state.names.scopes.stack = homeOf stage.state.names id :: below

/-- A unit is met as the root of the program, or because the innermost unit that waits imports
it. -/
def Enters (tree : Tree) (root : UnitId) (pending : List (UnitId × List DeclId)) (id : UnitId) :
    Prop :=
  match pending with
  | [] => id = root
  | (outer, _) :: _ => tree.Imports outer id

/-- The path that an import is written with. -/
def importPath (tree : Tree) (id : DeclId) : String :=
  match (tree.decls.get? id).map Decl.form with
  | some (.importDecl path _) => path
  | _ => ""

/-- What is reported of an import that leads back to a unit that waits. -/
def cycleReport (tree : Tree) (id : DeclId) : Diagnostic :=
  .error .importCycle (spanOf tree id) [importPath tree id]

/-- What is reported of an import that leads nowhere. -/
def missingReport (tree : Tree) (id : DeclId) : Diagnostic :=
  .error .unresolvedImport (spanOf tree id) [importPath tree id]

/-- Scopes were opened, entered or linked, and nothing else was found out but reports. -/
structure Idles (tree : Tree) (before after : Analysis) : Prop
    extends Evolves tree (tree.Below []) before after where
  order : after.names.order = before.names.order
  keys : after.names.keys = before.names.keys
  cyclic : after.cyclic = before.cyclic
  entries : before.names.scopes.Gains (fun _ => False) after.names.scopes

theorem Idles.trans {middle : Analysis} (first : Idles tree before middle)
    (second : Idles tree middle after) : Idles tree before after :=
  ⟨first.toEvolves.trans second.toEvolves, second.order.trans first.order,
    second.keys.trans first.keys, second.cyclic.trans first.cyclic,
    first.entries.trans second.entries⟩

theorem Idles.bases_eq (idles : Idles tree before after) (id : DeclId) :
    after.names.bases[id]? = before.names.bases[id]? :=
  (idles.bases id).resolve_right fun ⟨_, member, _⟩ => nomatch member

/-- What one step does. -/
inductive Change (tree : Tree) (root : UnitId) : Stage → Stage → Prop where
  /-- It is noted where an import stands. -/
  | note {pending : List (UnitId × List DeclId)} {world : World} {state after : Analysis} :
      Idles tree state after → after.sink = state.sink →
      Change tree root ⟨pending, world, state⟩ ⟨pending, world, after⟩
  /-- A unit starts to wait. -/
  | meet {pending : List (UnitId × List DeclId)} {world : World} {state after : Analysis}
      {id : UnitId} :
      Enters tree root pending id → id ∉ world.met → (tree.units.get? id).isSome →
      Idles tree state after → after.sink = state.sink →
      Change tree root ⟨pending, world, state⟩
        ⟨(id, []) :: pending, { world with waiting := id :: world.waiting }, after⟩
  /-- An import leads nowhere. -/
  | skip {unit : UnitId} {done : List DeclId} {pending : List (UnitId × List DeclId)}
      {world : World} {state after : Analysis} {id : DeclId} :
      importTarget? tree id = none → Idles tree state after →
      after.sink = state.sink ∨ after.sink = (state.sink.report (missingReport tree id)).1 →
      Change tree root ⟨(unit, done) :: pending, world, state⟩
        ⟨(unit, done ++ [id]) :: pending, world, after⟩
  /-- An import leads back to a unit that waits. -/
  | turnBack {unit : UnitId} {done : List DeclId} {pending : List (UnitId × List DeclId)}
      {world : World} {state after : Analysis} {id : DeclId} {target : UnitId} :
      importTarget? tree id = some target → target ∈ world.waiting → Idles tree state after →
      after.sink = (state.sink.report (cycleReport tree id)).1 →
      Change tree root ⟨(unit, done) :: pending, world, state⟩
        ⟨(unit, done ++ [id]) :: pending, world, after⟩
  /-- A unit that is finished is put on an import chain. -/
  | attach {unit : UnitId} {done : List DeclId} {pending : List (UnitId × List DeclId)}
      {world : World} {state after : Analysis} {id : DeclId} {target : UnitId} :
      importTarget? tree id = some target → target ∈ world.finished.map Prod.fst →
      Idles tree state after → after.sink = state.sink →
      Change tree root ⟨(unit, done) :: pending, world, state⟩
        ⟨(unit, done ++ [id]) :: pending, world.attach tree unit target, after⟩
  /-- The contents of a unit whose imports are done are resolved. -/
  | finish {id : UnitId} {unit : ProgramUnit} {pending : List (UnitId × List DeclId)}
      {world : World} {state inside after : Analysis} :
      tree.units.get? id = some unit →
      (do
        unitDeclarations tree unit
        unitClasses tree unit
        unitBodies tree unit) state = .ok () inside →
      Idles tree inside after → after.sink = inside.sink →
      Change tree root ⟨(id, unit.imports) :: pending, world, state⟩
        ⟨pending, world.contents tree id unit, after⟩

/-- What is current where a unit waits is the global scope of the innermost one. -/
theorem Stage.Sound.current {stage : Stage} (sound : stage.Sound tree) {id : UnitId}
    (waits : stage.world.waiting.head? = some id) :
    stage.state.names.scopes.current = homeOf stage.state.names id ∧
      stage.state.names.scopes.stack ≠ [] := by
  obtain ⟨below, stack⟩ := sound.entered id waits
  rw [ScopeTable.current, stack]
  exact ⟨rfl, List.cons_ne_nil _ _⟩

/-- A step from one sound stage to another. -/
structure Step (tree : Tree) (root : UnitId) (before after : Stage) : Prop where
  change : Change tree root before after
  sound : before.Sound tree
  sound' : after.Sound tree

/-- What every step keeps up, a run keeps up. -/
theorem keeps_of_steps {root : UnitId}
    (keeps : ∀ {before after : Stage}, Step tree root before after → holds before → holds after)
    {before after : Stage} (steps : Relation.ReflTransGen (Step tree root) before after)
    (held : holds before) : holds after := by
  induction steps with
  | refl => exact held
  | tail _ step inductionHypothesis => exact keeps step inductionHypothesis

/-! ### What idles -/

/-- Where an import stands is noted. -/
def noting (id : DeclId) (state : Analysis) : Analysis :=
  { state with
    names := { state.names with
      declScope := state.names.declScope.insert id state.names.scopes.current } }

section

variable {pending : List (UnitId × List DeclId)} {world : World} {state after : Analysis}
variable {id : DeclId} {unit root : UnitId} {resolveUnit : UnitId → AnalysisM ScopeId}
  {done : List DeclId} {walkUnit : World → UnitId → World}

theorem idles_noting (names : state.names.Valid tree)
    (isImport : tree.kindOf? id = some .importDecl) : Idles tree state (noting id state) :=
  ⟨evolves_importHome names isImport _, rfl, rfl, rfl, .refl _⟩

theorem mirrors_noting (mirrors : Mirrors tree world state) (id : DeclId) :
    Mirrors tree world (noting id state) :=
  mirrors.untouched ⟨rfl, rfl, rfl, rfl, rfl, rfl, fun _ _ _ => rfl, rfl, mirrors.logged.isOpen⟩

theorem idles_report (names : state.names.Valid tree) (diagnostic : Diagnostic) :
    Idles tree state (state.withSink (state.sink.report diagnostic).1) :=
  ⟨.of_same names rfl rfl (fun _ => .inl rfl) (fun _ => .inl rfl) rfl rfl rfl, rfl, rfl, rfl, .refl _⟩

/-- A report that is not about a name makes no difference to what a state stands for. -/
theorem mirrors_report (mirrors : Mirrors tree world state) {diagnostic : Diagnostic}
    (other : diagnostic.concernsName = false) :
    Mirrors tree world (state.withSink (state.sink.report diagnostic).1) := by
  obtain ⟨value, final, runs, untouched⟩ :=
    (Silent.report other : Silent tree _).runs state mirrors.logged.isOpen
  obtain rfl := report_eq_ok runs
  exact mirrors.untouched untouched

theorem idles_ensureGlobal (names : state.names.Valid tree) {id : UnitId}
    (ran : ensureGlobal tree id state = .ok home after) :
    Idles tree state after ∧ after.sink = state.sink := by
  have stays : Stays tree (tree.Below []) state _ (ensureGlobal tree id) :=
    .of_restores (restores_ensureGlobal names id)
  have leads := (stays.of_ok ran).1
  have same : after.names.order = state.names.order ∧ after.names.keys = state.names.keys ∧
      after.cyclic = state.cyclic ∧
      state.names.scopes.Gains (fun _ => False) after.names.scopes ∧ after.sink = state.sink := by
    rw [ensureGlobal, bind_eq (rfl : (get : AnalysisM Analysis) state = .ok state state)] at ran
    cases found : state.names.units[id]? with
    | some scope =>
      rw [found] at ran
      cases ran
      exact ⟨rfl, rfl, rfl, .refl _, rfl⟩
    | none =>
      rw [found] at ran
      cases ran
      exact ⟨rfl, rfl, rfl, ScopeTable.gains_newRoot rfl, rfl⟩
  exact ⟨⟨leads, same.1, same.2.1, same.2.2.1, same.2.2.2.1⟩, same.2.2.2.2⟩

/-- Another stack of open scopes. -/
theorem idles_restack (names : state.names.Valid tree) {stack : List ScopeId}
    (opened : ∀ id ∈ stack, (state.names.scopes.get? id).isSome) :
    Idles tree state { state with names :=
      { state.names with scopes := { state.names.scopes with stack } } } :=
  ⟨.ofScopes (names.withStack opened) (.refl _) (.refl _) (.refl _), rfl, rfl, rfl,
    fun _ scope found _ member => .inl ⟨scope, found, member⟩⟩

/-- Attaching a global scope to the import chain of a unit. -/
theorem idles_attach (names : state.names.Valid tree) {target : UnitId}
    (isHome : state.names.units[target]? = some home)
    (ran : modifyNames (fun names =>
      match names.scopes.attachImport? (names.units.getD unit 0) home with
      | some (_, table) => { names with scopes := table }
      | none => names) state = .ok () after) :
    Idles tree state after ∧ after.sink = state.sink := by
  cases ran
  obtain ⟨scope, there, top⟩ := names.units target home isHome
  dsimp only
  split
  · next attached table attaches =>
    obtain ⟨valid, grows, -⟩ := names.attach there top (isGlobal_units names unit) attaches
    exact ⟨⟨.ofScopes valid grows (ScopeTable.gains_attachImport? attaches)
      (ScopeTable.gains_attachImport? attaches), rfl, rfl, rfl,
        ScopeTable.gains_attachImport? attaches⟩, rfl⟩
  · exact ⟨⟨.refl names, rfl, rfl, rfl, .refl _⟩, rfl⟩

/-! ### Imports -/

/-- The same units wait, and the same scopes are open. -/
theorem Stage.Sound.goesOn (sound : Stage.Sound tree ⟨pending, world, state⟩)
    {pending' : List (UnitId × List DeclId)} {world' : World}
    (mirrors : Mirrors tree world' after) (valid : world'.Valid tree)
    (names : after.names.Valid tree) (same : pending'.map Prod.fst = pending.map Prod.fst)
    (waiting : world'.waiting = world.waiting)
    (stack : after.names.scopes.stack = state.names.scopes.stack)
    (homes : ∀ (id : UnitId) (home : ScopeId), state.names.units[id]? = some home →
      after.names.units[id]? = some home) : Stage.Sound tree ⟨pending', world', after⟩ := by
  refine ⟨mirrors, valid, names, waiting.trans (sound.waiting.trans same.symm), fun id isHead => ?_⟩
  replace isHead : id ∈ world.waiting.head? := waiting ▸ isHead
  obtain ⟨below, isStack⟩ := sound.entered id isHead
  have waits : id ∈ world.waiting := List.mem_of_mem_head? isHead
  have home := sound.mirrors.homes.of_met (List.mem_append_left _ waits)
  refine ⟨below, ?_⟩
  show after.names.scopes.stack = homeOf after.names id :: below
  rw [stack, homeOf_eq (homes id _ home)]
  exact isStack

/-- What resolving an import does, when it was noted where it stands. -/
theorem importUnit_eq (resolveUnit : UnitId → AnalysisM ScopeId) (unit : UnitId) (id : DeclId)
    (state : Analysis) :
    (importTarget? tree id = none ∧ Resolve.importUnit tree resolveUnit unit id state = .ok () state) ∨
      tree.kindOf? id = some .importDecl ∧
        Resolve.importUnit tree resolveUnit unit id state =
          (match importTarget? tree id with
            | none => AnalysisM.report (missingReport tree id)
            | some target =>
              if target = unit ∨ state.progress[target]? = some UnitProgress.visiting then
                AnalysisM.report (cycleReport tree id)
              else do
                let home ← resolveUnit target
                modifyNames fun names =>
                  match names.scopes.attachImport? (names.units.getD unit 0) home with
                  | some (_, table) => { names with scopes := table }
                  | none => names) (noting id state) := by
  unfold Resolve.importUnit
  cases found : tree.decls.get? id with
  | none => exact .inl ⟨by simp [importTarget?, found], rfl⟩
  | some decl =>
    obtain ⟨form, name, type, init, mods, owner, span⟩ := decl
    cases form with
    | importDecl path target =>
      have isImport : tree.kindOf? id = some .importDecl := by simp [Tree.kindOf?, found, Decl.kind]
      have isTarget : importTarget? tree id =
          target.filter fun target => (tree.units.get? target).isSome := by
        simp [importTarget?, found]
      have missing : missingReport tree id = .error .unresolvedImport span [path] := by
        simp [missingReport, Resolve.spanOf, importPath, found]
      have cycle : cycleReport tree id = .error .importCycle span [path] := by
        simp [cycleReport, Resolve.spanOf, importPath, found]
      refine .inr ⟨isImport, ?_⟩
      rw [missing, cycle, isTarget]
      dsimp only
      cases target.filter fun target => (tree.units.get? target).isSome with
      | none => rfl
      | some target => rfl
    | _ => exact .inl ⟨by simp [importTarget?, found], rfl⟩

/-- Everything that resolving an import can come to. -/
theorem importUnit_cases (ran : Resolve.importUnit tree resolveUnit unit id state = .ok () after) :
    (importTarget? tree id = none ∧ after = state) ∨
      tree.kindOf? id = some .importDecl ∧
        ((importTarget? tree id = none ∧
            after = (noting id state).withSink (state.sink.report (missingReport tree id)).1) ∨
          ∃ target, importTarget? tree id = some target ∧
            (((target = unit ∨ state.progress[target]? = some .visiting) ∧
                after = (noting id state).withSink (state.sink.report (cycleReport tree id)).1) ∨
              ¬ (target = unit ∨ state.progress[target]? = some .visiting) ∧ ∃ home middle,
                resolveUnit target (noting id state) = .ok home middle ∧
                modifyNames (fun names =>
                  match names.scopes.attachImport? (names.units.getD unit 0) home with
                  | some (_, table) => { names with scopes := table }
                  | none => names) middle = .ok () after)) := by
  rcases importUnit_eq resolveUnit unit id state with ⟨nowhere, same⟩ | ⟨isImport, same⟩
  · rw [same] at ran
    exact .inl ⟨nowhere, (EStateM.Result.ok.inj ran).2.symm⟩
  · refine .inr ⟨isImport, ?_⟩
    rw [same] at ran
    cases leads : importTarget? tree id with
    | none =>
      rw [leads] at ran
      exact .inl ⟨rfl, report_eq_ok ran⟩
    | some target =>
      rw [leads] at ran
      refine .inr ⟨target, rfl, ?_⟩
      dsimp only at ran
      split at ran
      · next waits => exact .inl ⟨waits, report_eq_ok ran⟩
      · next idle =>
        obtain ⟨home, imported, imports, attaches⟩ := bind_eq_ok ran
        exact .inr ⟨idle, home, imported, imports, attaches⟩

/-- What the resolution of an imported unit comes to. -/
def Resolves (tree : Tree) (root : UnitId) (pending : List (UnitId × List DeclId))
    (resolveUnit : UnitId → AnalysisM ScopeId) (walkUnit : World → UnitId → World) : Prop :=
  ∀ {world : World} {state after : Analysis} {target : UnitId} {home : ScopeId},
    Stage.Sound tree ⟨pending, world, state⟩ → Enters tree root pending target →
    (tree.units.get? target).isSome → target ∉ world.waiting →
    resolveUnit target state = .ok home after →
    Relation.ReflTransGen (Step tree root) ⟨pending, world, state⟩
        ⟨pending, walkUnit world target, after⟩ ∧
      Stage.Sound tree ⟨pending, walkUnit world target, after⟩ ∧
      after.names.scopes.stack = state.names.scopes.stack ∧
      target ∈ (walkUnit world target).finished.map Prod.fst ∧
      after.names.units[target]? = some home

/-- Resolving an import takes a step, and before it those of the imported unit. -/
theorem importUnit_steps (isUnit : tree.units.get? unit = some found)
    (resolves : Resolves tree root ((unit, done) :: pending) resolveUnit walkUnit)
    (sound : Stage.Sound tree ⟨(unit, done) :: pending, world, state⟩)
    (isImport : id ∈ found.imports)
    (ran : Resolve.importUnit tree resolveUnit unit id state = .ok () after) :
    Relation.ReflTransGen (Step tree root) ⟨(unit, done) :: pending, world, state⟩
        ⟨(unit, done ++ [id]) :: pending, importUnit tree walkUnit unit world id, after⟩ ∧
      Stage.Sound tree
        ⟨(unit, done ++ [id]) :: pending, importUnit tree walkUnit unit world id, after⟩ ∧
      after.names.scopes.stack = state.names.scopes.stack := by
  have waits : unit ∈ world.waiting := by rw [sound.waiting]; exact .head _
  unfold importUnit
  rcases importUnit_cases ran with ⟨nowhere, rfl⟩ | ⟨isDecl, cases⟩
  · have sound' : Stage.Sound tree ⟨(unit, done ++ [id]) :: pending, world, after⟩ :=
      sound.goesOn sound.mirrors sound.valid sound.names rfl rfl rfl fun _ _ isHome => isHome
    rw [nowhere]
    exact ⟨.single ⟨.skip nowhere ⟨.refl sound.names, rfl, rfl, rfl, .refl _⟩ (.inl rfl), sound, sound'⟩,
      sound', rfl⟩
  · have noted := idles_noting sound.names isDecl
    have reported (diagnostic : Diagnostic) := noted.trans (idles_report noted.valid diagnostic)
    have mirrors (diagnostic : Diagnostic) (other : diagnostic.concernsName = false) :=
      mirrors_report (mirrors_noting sound.mirrors id) other
    rcases cases with ⟨nowhere, rfl⟩ | ⟨target, isTarget,
      ⟨back, rfl⟩ | ⟨idle, home, middle, imports, attaches⟩⟩
    · have idles := reported (missingReport tree id)
      have sound' : Stage.Sound tree ⟨(unit, done ++ [id]) :: pending, world, _⟩ :=
        sound.goesOn (mirrors _ rfl) sound.valid idles.valid rfl rfl rfl idles.homes
      rw [nowhere]
      exact ⟨.single ⟨.skip nowhere idles (.inr rfl), sound, sound'⟩, sound', rfl⟩
    · have idles := reported (cycleReport tree id)
      have sound' : Stage.Sound tree ⟨(unit, done ++ [id]) :: pending, world, _⟩ :=
        sound.goesOn (mirrors _ rfl) sound.valid idles.valid rfl rfl rfl idles.homes
      have isWaiting : target ∈ world.waiting :=
        back.elim (fun same => same ▸ waits) (sound.mirrors.mem_waiting_iff target).mp
      rw [isTarget, Option.filter_some_neg (by simpa using isWaiting)]
      exact ⟨.single ⟨.turnBack isTarget isWaiting idles rfl, sound, sound'⟩, sound', rfl⟩
    · have fresh : target ∉ world.waiting := fun waits =>
        idle (.inr ((sound.mirrors.mem_waiting_iff target).mpr waits))
      have started : Stage.Sound tree ⟨(unit, done) :: pending, world, noting id state⟩ :=
        sound.goesOn (mirrors_noting sound.mirrors id) sound.valid noted.valid rfl rfl rfl noted.homes
      obtain ⟨steps, imported, stack, isDone, isHome⟩ := resolves started
        ⟨found, isUnit, id, isImport, isTarget⟩ (holds_importTarget isTarget) fresh imports
      have waits' : unit ∈ (walkUnit world target).waiting := by
        rw [imported.waiting]
        exact .head _
      obtain ⟨after', attaches', attached⟩ :=
        imported.mirrors.attach_spec imported.valid waits' isDone isHome
      obtain ⟨-, rfl⟩ := EStateM.Result.ok.inj (attaches'.symm.trans attaches)
      obtain ⟨idles, sink⟩ := idles_attach imported.names isHome attaches
      have sound' : Stage.Sound tree ⟨(unit, done ++ [id]) :: pending, _, after'⟩ :=
        imported.goesOn attached.mirrors (imported.valid.attach waits' isDone) idles.valid rfl rfl
          attached.stack idles.homes
      rw [isTarget, Option.filter_some_pos (by simpa using fresh)]
      refine ⟨?_, sound', attached.stack.trans stack⟩
      exact (Relation.ReflTransGen.single ⟨.note noted rfl, sound, started⟩).trans
        (steps.tail ⟨.attach isTarget isDone idles sink, imported, sound'⟩)

/-- The imports of a unit, one after the other. -/
theorem imports_steps (isUnit : tree.units.get? unit = some found)
    (resolves : ∀ done, Resolves tree root ((unit, done) :: pending) resolveUnit walkUnit)
    {imports : List DeclId} (areImports : imports ⊆ found.imports)
    (sound : Stage.Sound tree ⟨(unit, done) :: pending, world, state⟩)
    (ran : imports.forM (Resolve.importUnit tree resolveUnit unit) state = .ok () after) :
    Relation.ReflTransGen (Step tree root) ⟨(unit, done) :: pending, world, state⟩
        ⟨(unit, done ++ imports) :: pending, imports.foldl (importUnit tree walkUnit unit) world,
          after⟩ ∧
      Stage.Sound tree ⟨(unit, done ++ imports) :: pending,
        imports.foldl (importUnit tree walkUnit unit) world, after⟩ ∧
      after.names.scopes.stack = state.names.scopes.stack := by
  induction imports generalizing world state done with
  | nil =>
    cases ran
    rw [List.append_nil]
    exact ⟨.refl, sound, rfl⟩
  | cons first rest inductionHypothesis =>
    obtain ⟨_, middle, runs, goesOn⟩ := bind_eq_ok ran
    obtain ⟨isFirst, areRest⟩ := List.cons_subset.mp areImports
    obtain ⟨steps, sound', stack⟩ := importUnit_steps isUnit (resolves done) sound isFirst runs
    obtain ⟨steps', sound'', stack'⟩ := inductionHypothesis areRest sound' goesOn
    rw [List.append_assoc, List.singleton_append] at steps' sound''
    exact ⟨steps.trans steps', sound'', stack'.trans stack⟩

/-! ### Units -/

theorem within_eq_ok {scope : ScopeId} {action : AnalysisM Unit} {state final : Analysis}
    (ran : AnalysisM.within scope action state = .ok () final) :
    ∃ after, action (state.entering scope) = .ok () after ∧
      final = after.backTo state.names.scopes.depth := by
  rw [AnalysisM.within_eq, AnalysisM.ensuring] at ran
  cases runs : action (state.entering scope) with
  | ok value after =>
    rw [runs] at ran
    exact ⟨after, rfl, (EStateM.Result.ok.inj ran).2.symm⟩
  | error abort after =>
    rw [runs] at ran
    cases ran

/-- Resolving a unit takes steps from a stage to another at which the same units wait. -/
theorem unitWithin_steps (forest : tree.Forest loose) (root : UnitId) (fuel : Nat)
    {pending : List (UnitId × List DeclId)} {world : World} {state after : Analysis} {id : UnitId}
    (sound : Stage.Sound tree ⟨pending, world, state⟩) (enters : Enters tree root pending id)
    (holds : (tree.units.get? id).isSome) (fresh : id ∉ world.waiting)
    (enough : tree.units.size < world.waiting.length + fuel)
    (ran : Resolve.unitWithin tree fuel id state = .ok home after) :
    Relation.ReflTransGen (Step tree root) ⟨pending, world, state⟩
      ⟨pending, unitWithin tree fuel world id, after⟩ ∧
    Stage.Sound tree ⟨pending, unitWithin tree fuel world id, after⟩ ∧
      after.names.scopes.stack = state.names.scopes.stack ∧
      id ∈ (unitWithin tree fuel world id).finished.map Prod.fst ∧
      after.names.units[id]? = some home := by
  induction fuel generalizing pending world state id home after with
  | zero =>
    have := sound.valid.length_le
    rw [World.met, List.length_append] at this
    dsimp only at this
    omega
  | succ fuel inductionHypothesis =>
    have walked := unitWithin_walked forest _ sound.valid holds fresh enough
    obtain ⟨home', after', runs, advances, isHome⟩ :=
      unitWithin_spec forest _ sound.mirrors sound.valid holds fresh enough
    obtain ⟨rfl, rfl⟩ := EStateM.Result.ok.inj (runs.symm.trans ran)
    have restores : Restores tree (Resolve.Anywhere) state _ _ :=
      Resolve.restores_unitWithin forest sound.names (fuel + 1) id
    have leads := ((Stays.of_restores restores).of_ok runs).1
    have sound' : Stage.Sound tree ⟨pending, unitWithin tree (fuel + 1) world id, after'⟩ :=
      sound.goesOn advances.mirrors walked.valid leads.valid rfl walked.waiting advances.stack
        advances.units
    refine ⟨?_, sound', advances.stack, walked.done, isHome⟩
    obtain ⟨unit, found⟩ := Option.isSome_iff_exists.mp holds
    have start : Resolve.unitWithin tree (fuel + 1) id state = _ :=
      bind_eq (rfl : (get : AnalysisM Analysis) state = .ok _ state)
    by_cases done : id ∈ world.finished.map Prod.fst
    · have met : id ∈ world.met := List.mem_append_right _ done
      rw [start, if_pos ((sound.mirrors.mem_met_iff id).mpr met)] at runs
      cases runs
      have same : unitWithin tree (fuel + 1) world id = world := by
        unfold unitWithin
        simp only [found, if_pos done]
      rw [same]
    · have unmet : id ∉ world.met := by simpa [World.met, fresh] using done
      rw [start, if_neg (mt (sound.mirrors.mem_met_iff id).mp unmet)] at runs
      simp only [found] at runs
      -- The unit starts to wait and gets a global scope, which is entered.
      obtain ⟨_, started, starts, runs⟩ := bind_eq_ok runs
      cases starts
      obtain ⟨global, met, meets, runs⟩ := bind_eq_ok runs
      obtain ⟨global', met', meets', stands, isGlobal⟩ := sound.mirrors.meet_spec sound.valid unmet
      obtain ⟨rfl, rfl⟩ := EStateM.Result.ok.inj (meets'.symm.trans meets)
      have waits : Idles tree state
          { state with progress := state.progress.insert id .visiting } :=
        ⟨.of_same sound.names rfl rfl (fun _ => .inl rfl) (fun _ => .inl rfl) rfl rfl rfl, rfl, rfl, rfl,
          .refl _⟩
      obtain ⟨opens, sink⟩ := idles_ensureGlobal waits.valid meets
      obtain ⟨scope, there, -⟩ := opens.valid.units id global' isGlobal
      have opened : ∀ other ∈ global' :: met'.names.scopes.stack,
          (met'.names.scopes.get? other).isSome := fun other member =>
        (List.mem_cons.mp member).elim (fun same => by rw [same, there]; rfl)
          (opens.valid.opened other)
      have enters' : Idles tree met' (met'.entering global') := idles_restack opens.valid opened
      have valid := sound.valid.wait unmet holds
      have met : Stage.Sound tree
          ⟨(id, []) :: pending, { world with waiting := id :: world.waiting },
            met'.entering global'⟩ := by
        refine ⟨stands.mirrors.restack _, valid, enters'.valid, ?_, fun other isHead => ?_⟩
        · exact congrArg (id :: ·) sound.waiting
        · obtain rfl : id = other := Option.some.inj isHead
          exact ⟨met'.names.scopes.stack,
            congrArg (· :: met'.names.scopes.stack) (homeOf_eq isGlobal).symm⟩
      have meeting : Step tree root ⟨pending, world, state⟩ _ :=
        ⟨.meet enters unmet holds ((waits.trans opens).trans enters') sink, sound, met⟩
      -- Its imports are done one after the other.
      obtain ⟨_, final, within, finishes⟩ := bind_eq_ok runs
      obtain ⟨finished, resolves, rfl⟩ := within_eq_ok within
      cases finishes
      obtain ⟨_, inside, contents, finishes⟩ := bind_eq_ok resolves
      obtain ⟨_, imported, imports, contents⟩ := bind_eq_ok contents
      cases finishes
      have resolves (done : List DeclId) : Resolves tree root ((id, done) :: pending)
          (Resolve.unitWithin tree fuel) (unitWithin tree fuel) := by
        intro world' _ _ _ _ sound' enters holds fresh ran
        have isWaiting : world'.waiting = id :: pending.map Prod.fst := sound'.waiting
        have before : world.waiting = pending.map Prod.fst := sound.waiting
        refine inductionHypothesis sound' enters holds fresh ?_ ran
        rw [isWaiting, ← before, List.length_cons]
        omega
      obtain ⟨steps, sound'', -⟩ := imports_steps found resolves (.refl _) met imports
      -- Its contents are resolved and the scope is left.
      have same : unitWithin tree (fuel + 1) world id = World.contents tree id unit
          (unit.imports.foldl (importUnit tree (unitWithin tree fuel) id)
            { world with waiting := id :: world.waiting }) := by
        unfold unitWithin
        simp only [found, if_neg done]
      rw [same] at sound' ⊢
      have leaves : Idles tree inside _ :=
        ⟨.of_scopes sound'.names (.refl _) (.refl _) (fun keyed => keyed) rfl rfl rfl
          (fun _ _ isHome => isHome)
          fun _ => .inl rfl, rfl, rfl, rfl,
          fun _ scope found _ member => .inl ⟨scope, found, member⟩⟩
      exact (steps.head meeting).tail ⟨.finish found contents leaves rfl, sound'', sound'⟩

/-! ### Programs -/

theorem sound_empty (tree : Tree) (typing : Typing) (trace : Trace.Recorder) :
    Stage.Sound tree ⟨[], {}, { typing, trace }⟩ where
  mirrors := mirrors_empty tree typing trace
  valid := World.valid_empty tree
  names := .empty tree
  waiting := rfl
  entered := nofun

/-- Checking the table of scopes changes nothing: there are no faults in it. -/
theorem validate_eq_ok (names : state.names.Valid tree)
    (ran : validate tree root state = .ok () after) : after = state := by
  have none : state.names.scopes.faults = [] :=
    names.table.faults_eq_nil fun id scope found entry member =>
      (names.holds id scope found entry member).ne_zero
  obtain ⟨table, same, reads, reports⟩ := bind_eq_ok ran
  cases reads
  rw [none] at reports
  exact (EStateM.Result.ok.inj reports).2.symm

/-- Without a root unit nothing happens. -/
theorem program_absent (absent : tree.units.get? root = none)
    (ran : Resolve.program tree root checked { typing, trace } = .ok () after) :
    after = { typing, trace } := by
  have nothing : Resolve.unit tree root { typing, trace } = .ok 0 { typing, trace } := by
    unfold Resolve.unit Resolve.unitWithin
    rw [bind_eq (rfl : (get : AnalysisM Analysis) _ = .ok _ _)]
    simp only [Std.TreeMap.getElem?_emptyc, Option.isSome_none, Bool.false_eq_true, if_false, absent]
    rfl
  have discards : discard (Resolve.unit tree root) { typing, trace } = .ok () { typing, trace } := by
    show EStateM.map _ (Resolve.unit tree root) _ = _
    rw [EStateM.map, nothing]
  unfold Resolve.program at ran
  rw [bind_eq discards] at ran
  cases checked with
  | false => exact (EStateM.Result.ok.inj ran).2.symm
  | true => exact validate_eq_ok (.empty tree) ran

/-- With an empty sink, resolving a program takes steps to a stage at which no unit waits. -/
theorem program_steps (forest : tree.Forest loose) (holds : (tree.units.get? root).isSome)
    (ran : Resolve.program tree root checked { typing, trace } = .ok () after) :
    Relation.ReflTransGen (Step tree root) ⟨[], {}, { typing, trace }⟩
        ⟨[], program tree root, after⟩ ∧ Stage.Sound tree ⟨[], program tree root, after⟩ := by
  obtain ⟨_, middle, resolves, validates⟩ := bind_eq_ok ran
  change EStateM.map _ (Resolve.unit tree root) _ = _ at resolves
  unfold EStateM.map at resolves
  split at resolves
  · next home final ends =>
    cases resolves
    obtain ⟨steps, sound, -⟩ := unitWithin_steps forest root _ (sound_empty tree typing trace) rfl
      holds List.not_mem_nil (by simp) ends
    cases checked with
    | false =>
      cases validates
      exact ⟨steps, sound⟩
    | true =>
      obtain rfl := validate_eq_ok sound.names validates
      exact ⟨steps, sound⟩
  · nomatch resolves

/-- What holds at first and what every step keeps up holds of what a program comes to, which is
the same for every sink that does not raise. -/
theorem program_keeps (forest : tree.Forest loose) (present : (tree.units.get? root).isSome)
    (checked : Bool) (first : holds ⟨[], {}, { typing, trace }⟩)
    (keeps : ∀ {before after : Stage}, Step tree root before after → holds before → holds after) :
    ∃ after : Analysis, Stage.Sound tree ⟨[], program tree root, after⟩ ∧
      holds ⟨[], program tree root, after⟩ ∧
      (∀ sink : Sink, sink.Quiet → ∃ final,
        Resolve.program tree root checked { typing, trace, sink } = .ok () final) ∧
      ∀ (sink : Sink) (final : Analysis),
        Resolve.program tree root checked { typing, trace, sink } = .ok () final →
          final.names = after.names ∧ final.sink = sink.reportAll after.sink.bag.items := by
  obtain ⟨model, -, ends, uniform⟩ := program_ends forest root checked typing trace
  obtain ⟨after, ran⟩ := ends {} Sink.quiet_open
  obtain ⟨steps, sound⟩ := program_steps forest present ran
  obtain ⟨names, sink⟩ := uniform {} after ran
  have items : after.sink.bag.items = model.sink.bag.items := by
    rw [sink, Sink.items_reportAll_open]
  refine ⟨after, sound, keeps_of_steps keeps steps first, ends, ?_⟩
  rw [names, items]
  exact uniform

end

/-- What is known of a program whatever the sink is known of what it comes to with an open one. -/
theorem known_of_uniform {known : Resolution → List Diagnostic → Prop} {checked : Bool}
    (held : ∃ (names : Resolution) (reports : List Diagnostic), known names reports ∧
      (∀ sink : Sink, sink.Quiet → ∃ final,
        Resolve.program tree root checked { typing, trace, sink } = .ok () final) ∧
      ∀ (sink : Sink) (final : Analysis),
        Resolve.program tree root checked { typing, trace, sink } = .ok () final →
          final.names = names ∧ final.sink = sink.reportAll reports) :
    known (Acts.behind (Resolve.program tree root checked { typing, trace })).names
      (Acts.behind (Resolve.program tree root checked { typing, trace })).sink.bag.items := by
  obtain ⟨names, reports, holds, ends, uniform⟩ := held
  obtain ⟨final, ran⟩ := ends {} Sink.quiet_open
  obtain ⟨rfl, delivered⟩ := uniform {} final ran
  have items : final.sink.bag.items = reports := by rw [delivered, Sink.items_reportAll_open]
  rw [ran]
  exact items ▸ holds

end Lexical

end TreeCheck
