/-
The order of units. A unit is finished behind the units it imports, unless an import leads
back to a unit that still waits; that import is reported, and no other. Whatever waits
leads by imports to the unit that is being resolved, so an import that leads back closes a
cycle of the import graph. Where no import leads back, imports go from later to earlier
units only, and there is no cycle.
-/

import TreeCheck.Proofs.Scoping.Sparing
import TreeCheck.Proofs.Scoping.Steps

namespace TreeCheck

variable {tree : Tree} {loose : List Node}

open Relation (ReflTransGen TransGen)

variable {unit target : UnitId} {order : List UnitId}

namespace Lexical

/-! ### Imports that lead back -/

/-- The imports of a unit that is there. -/
def importsOf (tree : Tree) (unit : UnitId) : List DeclId :=
  ((tree.units.get? unit).map ProgramUnit.imports).getD []

theorem imports_iff :
    tree.Imports unit target ↔ ∃ id ∈ importsOf tree unit, importTarget? tree id = some target := by
  unfold Tree.Imports importsOf
  cases tree.units.get? unit with
  | none => simp
  | some found => simp

/-- The imports of some units that lead to units that do not come earlier in an order. -/
def backImports (tree : Tree) (order units : List UnitId) : List DeclId :=
  units.flatMap fun unit => (importsOf tree unit).filter fun id =>
    (importTarget? tree id).any fun target => order.idxOf unit ≤ order.idxOf target

theorem mem_backImports {units : List UnitId} {id : DeclId} :
    id ∈ backImports tree order units ↔ ∃ unit ∈ units, id ∈ importsOf tree unit ∧
      ∃ target, importTarget? tree id = some target ∧ order.idxOf unit ≤ order.idxOf target := by
  simp only [backImports, List.mem_flatMap, List.mem_filter, Option.any_eq_true, decide_eq_true_eq]

/-- For units that have their place, it makes no difference what is put behind. -/
theorem idxOf_append_le_iff (member : unit ∈ order) (more : List UnitId) (target : UnitId) :
    (order ++ more).idxOf unit ≤ (order ++ more).idxOf target ↔
      order.idxOf unit ≤ order.idxOf target := by
  have inside := List.idxOf_lt_length_iff.mpr member
  rw [List.idxOf_append_of_mem member]
  by_cases among : target ∈ order
  · rw [List.idxOf_append_of_mem among]
  · rw [List.idxOf_append_of_notMem among, List.idxOf_eq_length_iff.mpr among]
    omega

/-- The imports among some that lead back to a unit that waits. -/
def leadingBack (tree : Tree) (waiting : List UnitId) (imports : List DeclId) : List DeclId :=
  imports.filter fun id => (importTarget? tree id).any (· ∈ waiting)

/-- The imports of the waiting units that were done and led back to a unit that waited. -/
def turnedBack (tree : Tree) : List (UnitId × List DeclId) → List DeclId
  | [] => []
  | (unit, done) :: outer =>
    leadingBack tree (unit :: outer.map Prod.fst) done ++ turnedBack tree outer

/-- What is known of the imports of the units that were met: all these units are imported from
the root, and what waits leads to whatever was met later; imports lead back only where they
close a cycle, and these are the ones that were reported. -/
structure Stage.Charted (tree : Tree) (root : UnitId) (stage : Stage) : Prop where
  reached : ∀ unit ∈ stage.world.met, ReflTransGen tree.Imports root unit
  path : stage.world.waiting.Pairwise fun inner outer => TransGen tree.Imports outer inner
  outermost : ∀ unit ∈ stage.world.waiting.getLast?, unit = root
  last : stage.world.waiting = [] →
    ∀ unit ∈ (stage.world.finished.map Prod.fst).getLast?, unit = root
  done : ∀ unit done, (unit, done) ∈ stage.pending → ∀ id ∈ done, ∀ target,
    importTarget? tree id = some target → target ∈ stage.world.met
  closed : ∀ unit ∈ stage.world.finished.map Prod.fst, ∀ target, tree.Imports unit target →
    target ∈ stage.world.met
  back : ∀ unit ∈ stage.world.finished.map Prod.fst, ∀ target, tree.Imports unit target →
    (stage.world.finished.map Prod.fst).idxOf unit ≤
        (stage.world.finished.map Prod.fst).idxOf target → ReflTransGen tree.Imports target unit
  reports : (stage.state.sink.bag.items.filter (·.code = .importCycle)).Perm
    ((backImports tree (stage.world.finished.map Prod.fst) (stage.world.finished.map Prod.fst) ++
      turnedBack tree stage.pending).map (cycleReport tree))

theorem charted_empty (tree : Tree) (root : UnitId) (typing : Typing) (trace : Trace.Recorder) :
    Stage.Charted tree root ⟨[], {}, { typing, trace }⟩ where
  reached := fun _ member => nomatch member
  path := .nil
  outermost := fun _ member => nomatch member
  last := fun _ _ member => nomatch member
  done := fun _ _ member => nomatch member
  closed := fun _ member => nomatch member
  back := fun _ member => nomatch member
  reports := .nil

section

variable {root : UnitId} {pending : List (UnitId × List DeclId)} {world : World}
  {state after : Analysis}
variable {id : UnitId}

/-- A unit starts to wait: whatever waits leads to it. -/
theorem Stage.Charted.meet (charted : Stage.Charted tree root ⟨pending, world, state⟩)
    (sound : Stage.Sound tree ⟨pending, world, state⟩) (enters : Enters tree root pending id)
    (sink : after.sink = state.sink) :
    Stage.Charted tree root
      ⟨(id, []) :: pending, { world with waiting := id :: world.waiting }, after⟩ := by
  have waiting : world.waiting = pending.map Prod.fst := sound.waiting
  have behind : ∀ outer ∈ world.waiting, TransGen tree.Imports outer id := by
    intro outer member
    cases pending with
    | nil => rw [waiting] at member; nomatch member
    | cons first rest =>
      have path := charted.path
      rw [show world.waiting = first.1 :: rest.map Prod.fst from waiting] at path member
      rcases List.mem_cons.mp member with rfl | further
      · exact .single enters
      · exact ((List.pairwise_cons.mp path).1 outer further).tail enters
  refine ⟨fun unit member => ?_, List.pairwise_cons.mpr ⟨behind, charted.path⟩, fun unit isLast => ?_,
    nofun, fun unit done member id isDone target isTarget => ?_, fun unit isDone target imports =>
      .tail _ (charted.closed unit isDone target imports), charted.back, ?_⟩
  · rcases List.mem_cons.mp member with rfl | met
    · cases pending with
      | nil => exact enters ▸ .refl
      | cons first rest =>
        have isWaiting : first.1 ∈ world.waiting := by rw [waiting]; exact .head _
        exact (charted.reached first.1 (List.mem_append_left _ isWaiting)).tail enters
    · exact charted.reached unit met
  · cases pending with
    | nil =>
      rw [show ({ world with waiting := id :: world.waiting } : World).waiting = [id] from
        congrArg (id :: ·) waiting] at isLast
      exact (Option.some.inj isLast).symm.trans enters
    | cons first rest =>
      refine charted.outermost unit ?_
      have isLast : unit ∈ (id :: world.waiting).getLast? := isLast
      rw [show world.waiting = first.1 :: rest.map Prod.fst from waiting] at isLast ⊢
      rwa [List.getLast?_cons_cons] at isLast
  · rcases List.mem_cons.mp member with same | older
    · cases same
      nomatch isDone
    · exact .tail _ (charted.done unit done older id isDone target isTarget)
  · show (after.sink.bag.items.filter _).Perm _
    rw [sink]
    exact charted.reports

/-- An import was done: it is reported if it leads back. -/
theorem Stage.Charted.import (charted : Stage.Charted tree root ⟨pending, world, state⟩)
    {unit : UnitId} {done : List DeclId} {outer : List (UnitId × List DeclId)}
    (isPending : pending = (unit, done) :: outer) {id : DeclId} {world' : World}
    (finished : world'.finished = world.finished) (waiting : world'.waiting = world.waiting)
    (met : ∀ target, importTarget? tree id = some target → target ∈ world.met)
    (items : after.sink.bag.items.filter (·.code = .importCycle) =
      state.sink.bag.items.filter (·.code = .importCycle) ++
        (leadingBack tree (unit :: outer.map Prod.fst) [id]).map (cycleReport tree)) :
    Stage.Charted tree root ⟨(unit, done ++ [id]) :: outer, world', after⟩ := by
  subst isPending
  have same : world'.met = world.met := by rw [World.met, World.met, finished, waiting]
  constructor
  case reached => exact fun unit member => charted.reached unit (same ▸ member)
  case path => exact waiting ▸ charted.path
  case outermost => exact waiting ▸ charted.outermost
  case last => exact waiting ▸ finished ▸ charted.last
  case done =>
    intro unit' done' member id' isDone target isTarget
    show target ∈ world'.met
    rw [same]
    rcases List.mem_cons.mp member with isHead | further
    · obtain ⟨rfl, rfl⟩ := Prod.mk.inj isHead
      rcases List.mem_append.mp isDone with old | new
      · exact charted.done unit' done (.head _) id' old target isTarget
      · exact met target (List.mem_singleton.mp new ▸ isTarget)
    · exact charted.done unit' done' (.tail _ further) id' isDone target isTarget
  case closed =>
    intro unit' member target imports
    show target ∈ world'.met
    exact same ▸ charted.closed unit' (finished ▸ member) target imports
  case back => exact finished ▸ charted.back
  case reports =>
    show (after.sink.bag.items.filter _).Perm _
    rw [items, show world'.finished = world.finished from finished]
    refine (charted.reports.append_right _).trans ?_
    rw [← List.map_append]
    refine List.Perm.map _ ?_
    simp only [turnedBack, leadingBack, List.filter_append, List.append_assoc]
    exact List.Perm.append_left _ (List.Perm.append_left _ List.perm_append_comm)

/-- What leads back does not depend on what is put behind. -/
theorem backImports_append {order : List UnitId} (more : List UnitId) :
    backImports tree (order ++ more) order = backImports tree order order := by
  refine List.flatMap_congr fun unit member => List.filter_congr fun id _ => ?_
  refine congrArg (Option.any · (importTarget? tree id)) (funext fun target => ?_)
  exact decide_eq_decide.mpr (idxOf_append_le_iff member more target)

/-- Of a unit that is finished last, the imports that lead to units that waited lead back. -/
theorem backImports_last {order waiting : List UnitId} (fresh : id ∉ order)
    (apart : ∀ target ∈ waiting, target ∉ order)
    (met : ∀ decl ∈ importsOf tree id, ∀ target, importTarget? tree decl = some target →
      target ∈ waiting ∨ target ∈ order) :
    backImports tree (order ++ [id]) [id] = leadingBack tree waiting (importsOf tree id) := by
  have place : (order ++ [id]).idxOf id = order.length := by
    rw [List.idxOf_append_of_notMem fresh, List.idxOf_cons_self, Nat.add_zero]
  rw [backImports, List.flatMap_singleton, leadingBack]
  refine List.filter_congr fun decl member => ?_
  cases isTarget : importTarget? tree decl with
  | none => rfl
  | some target =>
    simp only [Option.any_some, place]
    refine decide_eq_decide.mpr ?_
    by_cases early : target ∈ order
    · have less := List.idxOf_lt_length_iff.mpr early
      rw [List.idxOf_append_of_mem early]
      exact ⟨fun late => absurd late (Nat.not_le.mpr less), fun waits =>
        absurd early (apart target waits)⟩
    · rw [List.idxOf_append_of_notMem early]
      exact ⟨fun _ => (met decl member target isTarget).resolve_right early, fun _ => by omega⟩

/-- With a unit that is finished last come the imports of it that lead to units that waited. -/
theorem backImports_finish {order waiting : List UnitId} (fresh : id ∉ order)
    (apart : ∀ target ∈ waiting, target ∉ order)
    (met : ∀ decl ∈ importsOf tree id, ∀ target, importTarget? tree decl = some target →
      target ∈ waiting ∨ target ∈ order) :
    backImports tree (order ++ [id]) (order ++ [id]) =
      backImports tree order order ++ leadingBack tree waiting (importsOf tree id) :=
  calc backImports tree (order ++ [id]) (order ++ [id])
    _ = backImports tree (order ++ [id]) order ++ backImports tree (order ++ [id]) [id] :=
      List.flatMap_append
    _ = _ := by rw [backImports_append, backImports_last fresh apart met]

/-- A unit that is finished stays met. -/
theorem World.mem_met_contents {rest : List UnitId} (waits : world.waiting = id :: rest)
    (unit : ProgramUnit) (other : UnitId) :
    other ∈ (world.contents tree id unit).met ↔ other ∈ world.met := by
  obtain ⟨finished, waiting, -, -⟩ := World.contents_frame tree id unit world
  rw [waits, List.erase_cons_head] at waiting
  rw [World.met, World.met, finished, waiting, waits]
  simp only [List.mem_append, List.mem_cons, List.not_mem_nil, or_false]
  tauto

section

variable {unit : ProgramUnit}
  (charted : Stage.Charted tree root ⟨(id, unit.imports) :: pending, world, state⟩)
  (sound : Stage.Sound tree ⟨(id, unit.imports) :: pending, world, state⟩)
  (found : tree.units.get? id = some unit)

include charted sound

/-- All that the innermost unit imports waits or is finished. -/
theorem Stage.Charted.imported (member : decl ∈ unit.imports) {target : UnitId}
    (isTarget : importTarget? tree decl = some target) :
    target ∈ id :: pending.map Prod.fst ∨ target ∈ world.finished.map Prod.fst := by
  have isMet : target ∈ world.waiting ++ world.finished.map Prod.fst :=
    charted.done id unit.imports (.head _) decl member target isTarget
  rw [show world.waiting = id :: pending.map Prod.fst from sound.waiting] at isMet
  exact List.mem_append.mp isMet

include found

/-- The innermost unit imports units that are finished, and units that lead to it. -/
theorem Stage.Charted.leads (isImport : tree.Imports id target) :
    target ∈ world.finished.map Prod.fst ∨ ReflTransGen tree.Imports target id := by
  obtain ⟨decl, among, isTarget⟩ := imports_iff.mp isImport
  have among : decl ∈ unit.imports := by simpa [importsOf, found] using among
  refine (charted.imported sound among isTarget).symm.imp_right fun waits => ?_
  rcases List.mem_cons.mp waits with rfl | further
  · exact .refl
  · have path := charted.path
    rw [show (⟨(id, unit.imports) :: pending, world, state⟩ : Stage).world.waiting = _ from
      sound.waiting] at path
    exact ((List.pairwise_cons.mp path).1 target further).to_reflTransGen

/-- A unit is finished: the imports of it that led back are those to units that still wait. -/
theorem Stage.Charted.finish
    (items : after.sink.bag.items.filter (·.code = .importCycle) =
      state.sink.bag.items.filter (·.code = .importCycle)) :
    Stage.Charted tree root ⟨pending, world.contents tree id unit, after⟩ := by
  have waits : world.waiting = id :: pending.map Prod.fst := sound.waiting
  have valid : world.Valid tree := sound.valid
  obtain ⟨finished, waiting, -, -⟩ := World.contents_frame tree id unit world
  rw [waits, List.erase_cons_head] at waiting
  have met (other : UnitId) : other ∈ (world.contents tree id unit).met ↔ other ∈ world.met :=
    World.mem_met_contents waits unit other
  have imports : importsOf tree id = unit.imports := by simp [importsOf, found]
  have apart (target : UnitId) (isWaiting : target ∈ id :: pending.map Prod.fst) :
      target ∉ world.finished.map Prod.fst := valid.unfinished (waits ▸ isWaiting)
  have fresh := apart id (.head _)
  constructor
  case reached => exact fun other member => charted.reached other ((met other).mp member)
  case path =>
    have path := charted.path
    rw [show (⟨(id, unit.imports) :: pending, world, state⟩ : Stage).world.waiting =
      _ from waits] at path
    exact waiting ▸ (List.pairwise_cons.mp path).2
  case outermost =>
    intro other isLast
    refine charted.outermost other ?_
    show other ∈ world.waiting.getLast?
    rw [waits]
    cases rest : pending.map Prod.fst with
    | nil => rw [waiting, rest] at isLast; cases isLast
    | cons first later =>
      rw [waiting, rest] at isLast
      rwa [List.getLast?_cons_cons]
  case last =>
    intro noneWaits other isLast
    refine charted.outermost other ?_
    show other ∈ world.waiting.getLast?
    have noneWaits : (world.contents tree id unit).waiting = [] := noneWaits
    rw [waits, ← waiting, noneWaits]
    have isLast : other ∈ ((world.contents tree id unit).finished.map Prod.fst).getLast? := isLast
    rw [finished, List.getLast?_append] at isLast
    exact isLast
  case done =>
    exact fun other done member decl isDone target isTarget => (met target).mpr
      (charted.done other done (.tail _ member) decl isDone target isTarget)
  case closed =>
    intro other member target isImport
    refine (met target).mpr ?_
    have member : other ∈ (world.contents tree id unit).finished.map Prod.fst := member
    rw [finished] at member
    rcases List.mem_append.mp member with old | new
    · exact charted.closed other old target isImport
    · rw [List.mem_singleton.mp new] at isImport
      obtain ⟨decl, among, isTarget⟩ := imports_iff.mp isImport
      exact charted.done id unit.imports (.head _) decl (imports ▸ among) target isTarget
  case back =>
    intro other member target isImport
    have member : other ∈ (world.contents tree id unit).finished.map Prod.fst := member
    show List.idxOf other ((world.contents tree id unit).finished.map Prod.fst) ≤ _ → _
    rw [finished] at member ⊢
    rcases List.mem_append.mp member with old | new
    · rw [idxOf_append_le_iff old]
      exact charted.back other old target isImport
    · obtain rfl := List.mem_singleton.mp new
      intro late
      refine (charted.leads sound found isImport).resolve_left fun done => ?_
      rw [List.idxOf_append_of_notMem fresh, List.idxOf_cons_self, Nat.add_zero,
        List.idxOf_append_of_mem done] at late
      exact absurd (List.idxOf_lt_length_iff.mpr done) (Nat.not_lt.mpr late)
  case reports =>
    show (after.sink.bag.items.filter _).Perm _
    rw [items, show (world.contents tree id unit).finished.map Prod.fst = _ from finished,
      backImports_finish fresh apart fun decl member target isTarget =>
        charted.imported sound (imports ▸ member) isTarget, imports, List.append_assoc]
    exact charted.reports

end

/-- Every step keeps up what is known of imports. -/
theorem Step.charted (forest : tree.Forest loose) {before after : Stage}
    (step : Step tree root before after) (charted : before.Charted tree root) :
    after.Charted tree root := by
  obtain ⟨change, sound, sound'⟩ := step
  have isOpen := sound.mirrors.logged.isOpen
  cases change with
  | note idles sink =>
    refine { charted with reports := ?_ }
    dsimp only
    rw [sink]
    exact charted.reports
  | meet enters _ _ _ sink => exact charted.meet sound enters sink
  | @skip unit done outer world state after id nowhere _ sink =>
    refine charted.import rfl rfl rfl
      (fun target isTarget => by rw [nowhere] at isTarget; nomatch isTarget) ?_
    have none : leadingBack tree (unit :: outer.map Prod.fst) [id] = [] := by
      simp [leadingBack, nowhere]
    rw [none, List.map_nil, List.append_nil]
    rcases sink with same | reported
    · rw [same]
    · obtain ⟨final, reports, -, items⟩ := isOpen.report (missingReport tree id)
      rw [reported, reports, items, List.filter_append]
      have apart : Code.unresolvedImport ≠ Code.importCycle := by decide
      simp [missingReport, Diagnostic.error, apart]
  | @turnBack unit done outer world state after id target isTarget waits _ sink =>
    refine charted.import rfl rfl rfl (fun other isOther => ?_) ?_
    · rw [isTarget] at isOther
      exact Option.some.inj isOther ▸ List.mem_append_left _ waits
    · have back : leadingBack tree (unit :: outer.map Prod.fst) [id] = [id] := by
        rw [show world.waiting = unit :: outer.map Prod.fst from sound.waiting] at waits
        simpa [leadingBack, isTarget] using waits
      obtain ⟨final, reports, -, items⟩ := isOpen.report (cycleReport tree id)
      rw [back, sink, reports, items, List.filter_append]
      simp [cycleReport, Diagnostic.error]
  | @attach unit done outer world state after id target isTarget isDone _ sink =>
    refine charted.import rfl rfl rfl (fun other isOther => ?_) ?_
    · rw [isTarget] at isOther
      exact Option.some.inj isOther ▸ List.mem_append_right _ isDone
    · have idle : target ∉ unit :: outer.map Prod.fst := by
        rw [← show world.waiting = unit :: outer.map Prod.fst from sound.waiting]
        exact fun waits => sound.valid.unfinished waits isDone
      have none : leadingBack tree (unit :: outer.map Prod.fst) [id] = [] := by
        simpa [leadingBack, isTarget] using idle
      rw [none, List.map_nil, List.append_nil, sink]
  | finish found ran _ sink =>
    refine charted.finish sound found ?_
    obtain ⟨_, _, _, cyclic, -, -, -, -, -, items⟩ :=
      Resolve.contents_account forest found isOpen ran
    rw [sink, items .importCycle rfl, List.filter_append]
    have apart : Code.inheritanceCycle ≠ Code.importCycle := by decide
    simp [Resolve.inheritanceReport, Diagnostic.error, apart]

end

/-! ### Programs -/

/-- The order of units of a program, and the reports about its imports. -/
structure ImportOrder (tree : Tree) (root : UnitId) (order : List UnitId)
    (reports : List Diagnostic) : Prop where
  /-- Every unit that is imported from the root, at any distance, has one place. -/
  once : order.Nodup
  reachable : ∀ unit, unit ∈ order ↔ ReflTransGen tree.Imports root unit
  rootLast : order.getLast? = some root
  /-- The imports that lead to units that do not come earlier are reported, each of them once, and
  no others are. -/
  reported : (reports.filter (·.code = .importCycle)).Perm
    ((backImports tree order order).map (cycleReport tree))
  importedFirst : ∀ unit ∈ order, ∀ id ∈ importsOf tree unit, ∀ target,
    importTarget? tree id = some target → cycleReport tree id ∈ reports ∨
      order.idxOf target < order.idxOf unit
  /-- There is a report exactly if a unit that is imported from the root leads back to itself. -/
  cyclic : (∃ report ∈ reports, report.code = .importCycle) ↔
    ∃ unit, ReflTransGen tree.Imports root unit ∧ TransGen tree.Imports unit unit

/-- If no import leads back, imports lead to earlier units. -/
theorem idxOf_lt_of_transGen (nowhere : backImports tree order order = [])
    (closed : ∀ unit ∈ order, ∀ target, tree.Imports unit target → target ∈ order)
    (member : unit ∈ order) (leads : TransGen tree.Imports unit target) :
    target ∈ order ∧ order.idxOf target < order.idxOf unit := by
  have earlier {unit target : UnitId} (member : unit ∈ order) (imports : tree.Imports unit target) :
      order.idxOf target < order.idxOf unit := by
    by_contra late
    obtain ⟨id, among, isTarget⟩ := imports_iff.mp imports
    have back : id ∈ backImports tree order order :=
      mem_backImports.mpr ⟨unit, member, among, target, isTarget, Nat.not_lt.mp late⟩
    rw [nowhere] at back
    nomatch back
  induction leads with
  | single imports => exact ⟨closed unit member _ imports, earlier member imports⟩
  | tail _ imports inductionHypothesis =>
    obtain ⟨inside, less⟩ := inductionHypothesis
    exact ⟨closed _ inside _ imports, (earlier inside imports).trans less⟩

/-- At a stage at which no unit waits, all that is charted is about finished units. -/
theorem Stage.Charted.importOrder {root : UnitId} {world : World} {state : Analysis}
    (charted : Stage.Charted tree root ⟨[], world, state⟩)
    (sound : Stage.Sound tree ⟨[], world, state⟩) (done : root ∈ world.finished.map Prod.fst) :
    ImportOrder tree root state.names.unitOrder state.sink.bag.items := by
  have noneWaits : world.waiting = [] := sound.waiting
  have met : world.met = world.finished.map Prod.fst := by rw [World.met, noneWaits, List.nil_append]
  rw [sound.mirrors.unitOrder]
  obtain ⟨reached, -, -, last, -, closed, back, reports⟩ := charted
  have valid : world.Valid tree := sound.valid
  dsimp only at reached closed back reports last ⊢
  rw [met] at reached closed
  rw [turnedBack, List.append_nil] at reports
  have isReport (id : DeclId) (isBack : id ∈ backImports tree (world.finished.map Prod.fst)
      (world.finished.map Prod.fst)) : cycleReport tree id ∈ state.sink.bag.items :=
    (List.mem_filter.mp (reports.mem_iff.mpr (List.mem_map_of_mem isBack))).1
  constructor
  case once => exact met ▸ valid.once
  case reachable =>
    refine fun unit => ⟨reached unit, fun leads => ?_⟩
    induction leads with
    | refl => exact done
    | tail _ imports inductionHypothesis => exact closed _ inductionHypothesis _ imports
  case rootLast =>
    obtain ⟨unit, isLast⟩ := Option.isSome_iff_exists.mp
      (List.getLast?_isSome.mpr (List.ne_nil_of_mem done))
    rw [isLast, last noneWaits unit isLast]
  case reported => exact reports
  case importedFirst =>
    intro unit member id among target isTarget
    by_cases late : (world.finished.map Prod.fst).idxOf unit ≤
        (world.finished.map Prod.fst).idxOf target
    · exact .inl (isReport id (mem_backImports.mpr ⟨unit, member, among, target, isTarget, late⟩))
    · exact .inr (Nat.not_le.mp late)
  case cyclic =>
    constructor
    · rintro ⟨report, isReported, isCycle⟩
      have among := reports.mem_iff.mp (List.mem_filter.mpr ⟨isReported, decide_eq_true isCycle⟩)
      obtain ⟨id, isBack, -⟩ := List.mem_map.mp among
      obtain ⟨unit, member, imported, target, isTarget, late⟩ := mem_backImports.mp isBack
      have imports : tree.Imports unit target := imports_iff.mpr ⟨id, imported, isTarget⟩
      exact ⟨unit, reached unit member, .head' imports (back unit member target imports late)⟩
    · rintro ⟨unit, leads, cycle⟩
      by_contra silent
      have nowhere : backImports tree (world.finished.map Prod.fst)
          (world.finished.map Prod.fst) = [] := by
        refine List.eq_nil_iff_forall_not_mem.mpr fun id isBack => ?_
        exact silent ⟨_, isReport id isBack, rfl⟩
      have member : unit ∈ world.finished.map Prod.fst := by
        clear cycle
        induction leads with
        | refl => exact done
        | tail _ imports inductionHypothesis => exact closed _ inductionHypothesis _ imports
      exact Nat.lt_irrefl _ (idxOf_lt_of_transGen nowhere closed member cycle).2

/-- Resolving a loaded program orders its units, the root last, and reports the imports that lead
back in that order: there is one exactly if the imports from the root on have a cycle. -/
theorem program_orders_units {loader : Loader} (reached : Loader.Reached loader) {root : UnitId}
    (present : (loader.tree.units.get? root).isSome) (checked : Bool) (typing : Typing)
    (trace : Trace.Recorder) :
    ∃ (names : Resolution) (reports : List Diagnostic),
      ImportOrder loader.tree root names.unitOrder reports ∧
      (∀ sink : Sink, sink.Quiet → ∃ final,
        Resolve.program loader.tree root checked { typing, trace, sink } = .ok () final) ∧
      ∀ (sink : Sink) (final : Analysis),
        Resolve.program loader.tree root checked { typing, trace, sink } = .ok () final →
          final.names = names ∧ final.sink = sink.reportAll reports := by
  have forest := reached.forest
  obtain ⟨after, sound, charted, ends, uniform⟩ := program_keeps forest present checked
    (charted_empty loader.tree root typing trace) (Step.charted forest)
  exact ⟨after.names, after.sink.bag.items,
    charted.importOrder sound (program_walked forest present).done, ends, uniform⟩

/-- The first unit imports the second one, which imports the first one and itself. -/
def mutualImports : Doc.Document :=
  { version := 1
    units := [some { path := "a", imports := [some { path := "b" }] },
      some { path := "b", imports := [some { path := "a" }, some { path := "b" }] }] }

theorem program_orders_units_mutualImports :
    let loader := Loader.behind (Loader.load mutualImports {})
    let final := Acts.behind (Resolve.program loader.tree 1 true {})
    (loader.tree.units.get? 1).isSome ∧
      ImportOrder loader.tree 1 final.names.unitOrder final.sink.bag.items ∧
      final.names.unitOrder = [2, 1] ∧
      final.sink.bag.items = [cycleReport loader.tree 1, cycleReport loader.tree 2] := by
  intro loader final
  obtain ⟨present, order, items⟩ : (loader.tree.units.get? 1).isSome ∧
      final.names.unitOrder = [2, 1] ∧
      final.sink.bag.items = [cycleReport loader.tree 1, cycleReport loader.tree 2] := by
    simp only [loader, final, Loader.load_eq_loadWithin]
    decide +kernel
  exact ⟨present,
    known_of_uniform (program_orders_units (.load mutualImports (.fresh _)) present true {} {}),
    order, items⟩

end Lexical

end TreeCheck
