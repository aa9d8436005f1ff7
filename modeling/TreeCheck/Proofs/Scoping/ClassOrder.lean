/-
The order of classes. Every unit puts its classes behind those of the units that were
finished before it. What the name of a base means in the scope of its unit does not change
any more once the classes of the unit are put in order, so the circles that are found there
are those of the names in the end. Where no class inherits from itself, every base that was
recorded was walked before its class, and so it comes first in the order of all classes.
-/

import TreeCheck.Proofs.Scoping.Circles
import TreeCheck.Proofs.Scoping.Members

namespace TreeCheck

variable {tree : Tree} {loose : List Node}

open Relation (ReflTransGen TransGen)

variable {frame later : Frame} {owner base : DeclId} {stage : Stage} {unit : ProgramUnit}
  {after state : Analysis}

namespace Lexical

open AnalysisM

/-! ### Names of bases -/

/-- The classes of a unit that is there. -/
def classesOf (tree : Tree) (unit : UnitId) : List DeclId :=
  ((tree.units.get? unit).map ProgramUnit.classes).getD []

/-- The name that the base of a class is written with. -/
def baseName? (tree : Tree) (id : DeclId) : Option String :=
  match (((tree.classBody? id).bind ClassBody.base).bind tree.types.get?).map TypeExpr.form with
  | some (.named name _) => some (tree.text name)
  | _ => none

theorem baseCandidate?_eq (tree : Tree) (env : Env) (id : DeclId) :
    baseCandidate? tree env id = (baseName? tree id).bind fun name => env.find? (.ofName name) := by
  unfold baseCandidate? baseName?
  generalize (((tree.classBody? id).bind ClassBody.base).bind tree.types.get?).map TypeExpr.form = form
  cases form with
  | none => rfl
  | some form => cases form <;> rfl

/-- Among some classes, the name of the base of one means another one in a frame. -/
def NamesBase (tree : Tree) (classes : List DeclId) (frame : Frame) (owner base : DeclId) : Prop :=
  owner ∈ classes ∧ base ∈ classes ∧
    ∃ name, baseName? tree owner = some name ∧ frame.lookup (.ofName name) = some base

theorem mem_of_namesBase {classes : List DeclId}
    (circle : TransGen (NamesBase tree classes frame) owner owner)
    (leads : ReflTransGen (NamesBase tree classes frame) owner base) : base ∈ classes := by
  obtain ⟨_, _, names⟩ := TransGen.tail'_iff.mp (circle.trans_left leads)
  exact names.2.1

theorem lookup_of_grows (grows : frame <+: later) {key : Key} {decl : DeclId}
    (held : frame.lookup key = some decl) : later.lookup key = some decl := by
  obtain ⟨rest, rfl⟩ := grows
  rw [List.lookup_append, held]
  rfl

section

variable {world : World} {id : UnitId} {unit : ProgramUnit}

/-- A name means a class of a unit that waits through the frame of the unit only. -/
theorem lookup_of_find? (forest : tree.Forest loose) (found : tree.units.get? id = some unit)
    (settled : world.Settled tree)
    (unwalked : ∀ decl ∈ unit.classes, world.classes.frames.lookup decl = none) {key : Key}
    (isClass : base ∈ unit.classes)
    (means : (declarations tree unit (world.globalEnv tree id)).1.find? key = some base) :
    ((declarations tree unit (world.globalEnv tree id)).1.headD []).lookup key = some base := by
  have outer := (adds_declarations forest found).outer (world.globalEnv tree id)
  cases walked : (declarations tree unit (world.globalEnv tree id)).1 with
  | nil => rw [walked] at means; cases means
  | cons first rest =>
    rw [walked] at means outer
    rw [Env.find?, List.findSome?_cons] at means
    cases held : first.lookup key with
    | some other =>
      rw [held] at means
      exact held.trans means
    | none =>
      rw [held] at means
      obtain ⟨frame, member, held'⟩ := List.exists_of_findSome?_eq_some means
      obtain ⟨front, back, same, -⟩ := List.lookup_eq_some_iff.mp held'
      have among : (key, base) ∈ frame := by simp [same]
      have around : frame ∈ world.globalEnv tree id := by
        have outer : rest = (world.globalEnv tree id).tail := outer
        exact List.mem_of_mem_tail (outer ▸ member)
      have isPart : .decl .classDecl base ∈ unit.parts := by simp [ProgramUnit.parts, isClass]
      have isWalked := settled.mem_globalEnv around among (holds_unitPart forest found isPart)
      rw [unwalked base isClass] at isWalked
      cases isWalked

/-- What the name of a base means where classes are put in order is what it means in the frame of
the unit later on. -/
theorem leadsTo_eq_namesBase (forest : tree.Forest loose) (found : tree.units.get? id = some unit)
    (settled : world.Settled tree)
    (unwalked : ∀ decl ∈ unit.classes, world.classes.frames.lookup decl = none)
    (grows : (declarations tree unit (world.globalEnv tree id)).1.headD [] <+: later)
    (noClass : ∀ entry ∈ later,
      entry ∈ (declarations tree unit (world.globalEnv tree id)).1.headD [] ∨
        tree.kindOf? entry.2 ≠ some .classDecl) :
    LeadsTo (unitBase? tree (declarations tree unit (world.globalEnv tree id)).1 unit.classes) =
      NamesBase tree unit.classes later := by
  ext owner base
  unfold LeadsTo NamesBase
  rw [unitBase?_eq_some, baseCandidate?_eq, Option.bind_eq_some_iff]
  constructor
  · rintro ⟨⟨name, isName, means⟩, isClass, inside⟩
    exact ⟨isClass, inside, name, isName,
      lookup_of_grows grows (lookup_of_find? forest found settled unwalked inside means)⟩
  · rintro ⟨isClass, inside, name, isName, held⟩
    refine ⟨⟨name, isName, ?_⟩, isClass, inside⟩
    have isPart : .decl .classDecl base ∈ unit.parts := by simp [ProgramUnit.parts, inside]
    have isClass' : tree.kindOf? base = some .classDecl := holds_unitPart forest found isPart
    obtain ⟨front, back, same, -⟩ := List.lookup_eq_some_iff.mp held
    have early := (noClass (.ofName name, base) (by simp [same])).resolve_right (not_not.mpr isClass')
    obtain ⟨other, held'⟩ := Option.isSome_iff_exists.mp
      (isSome_lookup_iff_mem.mpr (List.mem_map_of_mem (f := Prod.fst) early))
    obtain rfl := Option.some.inj ((lookup_of_grows grows held').symm.trans held)
    cases walked : (declarations tree unit (world.globalEnv tree id)).1 with
    | nil => rw [walked] at held'; cases held'
    | cons first rest =>
      rw [walked] at held'
      have held' : first.lookup (.ofName name) = some other := held'
      rw [Env.find?, List.findSome?_cons, held']

end

/-! ### Finishing a unit -/

/-- Classes are kept with the one that was walked last in front. -/
theorem frames_foldl_walkClass (env : Env) (order : List DeclId) (world : World) :
    ((order.foldl (World.walkClass tree env) world).classes.frames.map Prod.fst) =
        order.reverse ++ world.classes.frames.map Prod.fst ∧
      (order.foldl (World.walkClass tree env) world).classes.cyclic = world.classes.cyclic := by
  induction order generalizing world with
  | nil => exact ⟨rfl, rfl⟩
  | cons id rest inductionHypothesis =>
    obtain ⟨frames, cyclic⟩ := inductionHypothesis (world.walkClass tree env id)
    refine ⟨?_, cyclic⟩
    rw [List.foldl_cons, frames]
    simp [World.walkClass, Classes.add]

/-- What a finished unit leaves behind: its classes were put in an order, one of every circle was
found to inherit from itself and reported, and the frame of the unit tells of the circles. -/
structure Finishes (tree : Tree) (classes : List DeclId) (frame : Frame) (before after : Classes)
    (names names' : Resolution) (items items' : List Diagnostic) : Prop where
  ordered : ∃ placed : List DeclId, placed.Perm classes ∧ names'.order = names.order ++ placed ∧
    after.frames.map Prod.fst = placed.reverse ++ before.frames.map Prod.fst
  circles : ∃ found : List DeclId, after.cyclic = found ++ before.cyclic ∧ found.Nodup ∧
    items' = items ++ found.reverse.map (Resolve.inheritanceReport tree) ∧
    (∀ id ∈ found, TransGen (NamesBase tree classes frame) id id) ∧
    ∀ id, TransGen (NamesBase tree classes frame) id id →
      ∃! first, first ∈ found ∧ ReflTransGen (NamesBase tree classes frame) id first

/-- The reports of classes that inherit from themselves. -/
def circleReports (state : Analysis) : List Diagnostic :=
  state.sink.bag.items.filter (·.code = .inheritanceCycle)

theorem contents_finishes (forest : tree.Forest loose) (sound : stage.Sound tree)
    (ordered : stage.Ordered tree) {id : UnitId} (found : tree.units.get? id = some unit)
    (waits : stage.world.waiting.head? = some id)
    (known : ∀ decl ∈ stage.world.classes.cyclic, (stage.world.classes.frames.lookup decl).isSome)
    (ran : (do
      Resolve.unitDeclarations tree unit
      Resolve.unitClasses tree unit
      Resolve.unitBodies tree unit) stage.state = .ok () after) :
    Finishes tree unit.classes ((stage.world.contents tree id unit).frameOf id) stage.world.classes
      (stage.world.contents tree id unit).classes stage.state.names after.names
      (circleReports stage.state) (circleReports after) := by
  have unwalked := unwalked_of_waits forest sound found waits
  have nodup := forest.nodup_classes found
  obtain ⟨declared, resolved, contents⟩ := contents_cases forest sound found waits ran
  obtain ⟨declared', placed, ordered', cyclic, declares, orders, order, isCyclic, same, items⟩ :=
    Resolve.contents_account forest found sound.mirrors.logged.isOpen ran
  cases contents.declares.symm.trans declares
  obtain ⟨middle, orders', cyclic', -⟩ := classOrder_spec contents.stands unit.classes
  cases orders'.symm.trans orders
  rw [contents.known.cyclic] at orders cyclic' order
  have perm := classOrder_perm tree
    (declarations tree unit (stage.world.globalEnv tree id)).1 nodup stage.world.classes.cyclic
  -- The frames of the classes.
  obtain ⟨frames, keepsCyclic⟩ := frames_foldl_walkClass
    (declarations tree unit (stage.world.globalEnv tree id)).1
    (classOrder tree (declarations tree unit (stage.world.globalEnv tree id)).1 unit.classes
      stage.world.classes.cyclic).placed
    { (stage.world.walk (declarations tree unit) (stage.world.globalEnv tree id)).2 with
      classes := { stage.world.classes with
        cyclic := (classOrder tree (declarations tree unit (stage.world.globalEnv tree id)).1
          unit.classes stage.world.classes.cyclic).cyclic } }
  refine ⟨⟨_, perm, order, frames⟩, ?_⟩
  -- The circles.
  have apart (decl : DeclId) (isClass : decl ∈ unit.classes) : decl ∉ stage.world.classes.cyclic := by
    intro member
    have walked := known decl member
    rw [unwalked decl isClass] at walked
    cases walked
  obtain ⟨firsts, isFirsts, once, onCircle, each⟩ := classOrder_counts tree
    (declarations tree unit (stage.world.globalEnv tree id)).1 nodup apart
  obtain rfl : firsts = cyclic.reverse := by
    rw [← cyclic', same, isCyclic, sound.mirrors.known.cyclic] at isFirsts
    exact (List.append_cancel_right isFirsts).symm
  -- The frame of the unit holds what was declared, and no more classes.
  obtain ⟨resolved', resolves', stands', -, -⟩ := unitClasses_spec forest found
    (stage.world.walk (declarations tree unit) (stage.world.globalEnv tree id)).2
    unwalked contents.stands contents.known
  cases resolves'.symm.trans contents.resolves
  obtain ⟨after', finishes', ends, kept⟩ := (follows_unitBodies forest unit).runs _ _ _ stands'
  cases finishes'.symm.trans contents.finishes
  have frame : (stage.world.contents tree id unit).frameOf id =
      (bodies tree unit (declarations tree unit (stage.world.globalEnv tree id)).1).1.headD [] := by
    rw [World.frameOf_of_finished (World.finished_contents tree id unit stage.world)
      (sound.valid.unfinished (List.mem_of_mem_head? waits)), if_pos rfl]
  have grows : (declarations tree unit (stage.world.globalEnv tree id)).1.headD [] <+:
      (stage.world.contents tree id unit).frameOf id := by
    obtain ⟨scope, there⟩ := stands'.inside
    obtain ⟨scope', there', grows⟩ := contents.late.grows _ scope there
    rw [frame, ← stands'.frameOf_current, ← ends.frameOf_current, kept.current,
      ScopeTable.frameOf, ScopeTable.frameOf, there, there']
    exact grows.entries
  have noClass : ∀ entry ∈ (stage.world.contents tree id unit).frameOf id,
      entry ∈ (declarations tree unit (stage.world.globalEnv tree id)).1.headD [] ∨
        tree.kindOf? entry.2 ≠ some .classDecl := by
    rw [frame]
    have adds : Adds tree [] (bodies tree unit) := adds_bodies forest unit
    refine fun entry member => (adds.head _ entry member).imp_right fun fits isClass => ?_
    cases fits isClass
  have relation := leadsTo_eq_namesBase forest found ordered.settled unwalked grows noClass
  rw [relation] at onCircle each
  refine ⟨cyclic.reverse, ?_, once, ?_, onCircle, each⟩
  · exact keepsCyclic.trans isFirsts
  · have reports := items .inheritanceCycle rfl
    rw [circleReports, circleReports, reports, List.filter_append, List.reverse_reverse]
    congr 1
    refine List.filter_eq_self.mpr fun report member => ?_
    obtain ⟨decl, -, rfl⟩ := List.mem_map.mp member
    rfl

/-! ### Steps -/

/-- What every step keeps up about the order of classes: it lists the classes of the finished
units as they were walked, and one class was found and reported for every circle of theirs. -/
structure Stage.Listed (tree : Tree) (stage : Stage) : Prop extends stage.Accounted tree where
  walked : stage.state.names.order = (stage.world.classes.frames.map Prod.fst).reverse
  classes : stage.state.names.order.Perm
    ((stage.world.finished.map Prod.fst).flatMap (classesOf tree))
  once : stage.state.names.order.Nodup
  known : ∀ id ∈ stage.world.classes.cyclic, (stage.world.classes.frames.lookup id).isSome
  distinct : stage.world.classes.cyclic.Nodup
  reports : circleReports stage.state =
    stage.world.classes.cyclic.reverse.map (Resolve.inheritanceReport tree)
  onCircle : ∀ id ∈ stage.world.classes.cyclic, ∃ unit ∈ stage.world.finished.map Prod.fst,
    TransGen (NamesBase tree (classesOf tree unit) (stage.world.frameOf unit)) id id
  each : ∀ unit ∈ stage.world.finished.map Prod.fst, ∀ id,
    TransGen (NamesBase tree (classesOf tree unit) (stage.world.frameOf unit)) id id →
      ∃! first, first ∈ stage.world.classes.cyclic ∧
        ReflTransGen (NamesBase tree (classesOf tree unit) (stage.world.frameOf unit)) id first

theorem listed_empty (tree : Tree) (typing : Typing) (trace : Trace.Recorder) :
    Stage.Listed tree ⟨[], {}, { typing, trace }⟩ where
  toAccounted := accounted_empty tree typing trace
  walked := rfl
  classes := .refl _
  once := .nil
  known := fun _ member => nomatch member
  distinct := .nil
  reports := rfl
  onCircle := fun _ member => nomatch member
  each := fun _ member => nomatch member

section

variable {pending pending' : List (UnitId × List DeclId)} {world world' : World}
  {state after : Analysis}

theorem Stage.Listed.classesOf_walked (listed : Stage.Listed tree ⟨pending, world, state⟩)
    {unit : UnitId} (done : unit ∈ world.finished.map Prod.fst) {id : DeclId}
    (isClass : id ∈ classesOf tree unit) : (world.classes.frames.lookup id).isSome := by
  have member : id ∈ state.names.order :=
    listed.classes.mem_iff.mpr (List.mem_flatMap_of_mem done isClass)
  rw [listed.walked] at member
  exact isSome_lookup_iff_mem.mpr (List.mem_reverse.mp member)

/-- Where no class is walked, nothing changes. -/
theorem Stage.Listed.idle (listed : Stage.Listed tree ⟨pending, world, state⟩)
    (accounted : Stage.Accounted tree ⟨pending', world', after⟩)
    (finished : world'.finished = world.finished) (classes : world'.classes = world.classes)
    (order : after.names.order = state.names.order)
    (reports : circleReports after = circleReports state) :
    Stage.Listed tree ⟨pending', world', after⟩ := by
  obtain ⟨_, _, _, _, _, _⟩ := world'
  obtain rfl : _ = world.finished := finished
  obtain rfl : _ = world.classes := classes
  exact
    { listed with
      toAccounted := accounted
      walked := order.trans listed.walked
      classes := order ▸ listed.classes
      once := order ▸ listed.once
      reports := reports.trans listed.reports }

end

/-- A finished unit puts its classes behind, and its circles are told from the older ones. -/
theorem Stage.Listed.finish (forest : tree.Forest loose) (listed : stage.Listed tree)
    (sound : stage.Sound tree) {pending' : List (UnitId × List DeclId)} {id : UnitId}
    (found : tree.units.get? id = some unit) (waits : stage.world.waiting.head? = some id)
    (accounted : Stage.Accounted tree ⟨pending', stage.world.contents tree id unit, after⟩)
    (finishes : Finishes tree unit.classes ((stage.world.contents tree id unit).frameOf id)
      stage.world.classes (stage.world.contents tree id unit).classes stage.state.names after.names
      (circleReports stage.state) (circleReports after)) :
    Stage.Listed tree ⟨pending', stage.world.contents tree id unit, after⟩ := by
  obtain ⟨pending, world, state⟩ := stage
  have unwalked := unwalked_of_waits forest sound found waits
  have unfinished : id ∉ world.finished.map Prod.fst :=
    sound.valid.unfinished (List.mem_of_mem_head? waits)
  obtain ⟨placed, perm, order, frames⟩ := finishes.ordered
  obtain ⟨fresh, cyclic, distinct, items, onCircle, each⟩ := finishes.circles
  obtain ⟨finished, -, -, -⟩ := World.contents_frame tree id unit world
  have own : classesOf tree id = unit.classes := by simp [classesOf, found]
  have frameOf (other : UnitId) (done : other ∈ world.finished.map Prod.fst) :
      (world.contents tree id unit).frameOf other = world.frameOf other := by
    rw [World.frameOf_of_finished (World.finished_contents tree id unit world) unfinished,
      if_neg (by rintro rfl; exact unfinished done)]
  -- New classes are not walked, those of older units are.
  have isNew (decl : DeclId) (member : decl ∈ fresh) : decl ∈ unit.classes :=
    mem_of_namesBase (onCircle decl member) .refl
  have apart (decl : DeclId) (isClass : decl ∈ unit.classes) :
      decl ∉ world.classes.frames.map Prod.fst := by
    intro walked
    have walked := isSome_lookup_iff_mem.mpr walked
    rw [show world.classes.frames.lookup decl = none from unwalked decl isClass] at walked
    nomatch walked
  have grows (decl : DeclId) (walked : (world.classes.frames.lookup decl).isSome) :
      ((world.contents tree id unit).classes.frames.lookup decl).isSome := by
    rw [isSome_lookup_iff_mem] at walked ⊢
    rw [frames]
    exact List.mem_append_right _ walked
  constructor
  case toAccounted => exact accounted
  case walked =>
    show after.names.order = ((world.contents tree id unit).classes.frames.map Prod.fst).reverse
    rw [order, frames, List.reverse_append, List.reverse_reverse, ← listed.walked]
  case classes =>
    show after.names.order.Perm (((world.contents tree id unit).finished.map Prod.fst).flatMap _)
    rw [order, finished, List.flatMap_append, List.flatMap_singleton, own]
    exact listed.classes.append perm
  case once =>
    show after.names.order.Nodup
    rw [order]
    refine List.nodup_append.mpr ⟨listed.once, perm.nodup_iff.mpr (forest.nodup_classes found),
      fun old isOld new isNew same => ?_⟩
    rw [listed.walked, List.mem_reverse] at isOld
    exact apart new (perm.mem_iff.mp isNew) (same ▸ isOld)
  case known =>
    intro decl member
    have member : decl ∈ (world.contents tree id unit).classes.cyclic := member
    rw [cyclic] at member
    rcases List.mem_append.mp member with new | old
    · rw [isSome_lookup_iff_mem, frames]
      exact List.mem_append_left _ (List.mem_reverse.mpr (perm.mem_iff.mpr (isNew decl new)))
    · exact grows decl (listed.known decl old)
  case distinct =>
    show (world.contents tree id unit).classes.cyclic.Nodup
    rw [cyclic]
    refine List.nodup_append.mpr ⟨distinct, listed.distinct, fun new member old isOld same => ?_⟩
    exact apart new (isNew new member) (isSome_lookup_iff_mem.mp (same ▸ listed.known old isOld))
  case reports =>
    show circleReports after = (world.contents tree id unit).classes.cyclic.reverse.map _
    rw [items, cyclic, List.reverse_append, List.map_append, ← listed.reports]
  case onCircle =>
    intro decl member
    have member : decl ∈ (world.contents tree id unit).classes.cyclic := member
    show ∃ other ∈ (world.contents tree id unit).finished.map Prod.fst, _
    rw [cyclic] at member
    rw [finished]
    rcases List.mem_append.mp member with new | old
    · exact ⟨id, List.mem_append_right _ (.head _), own ▸ onCircle decl new⟩
    · obtain ⟨other, done, circle⟩ := listed.onCircle decl old
      exact ⟨other, List.mem_append_left _ done, by rwa [frameOf other done]⟩
  case each =>
    intro other member decl circle
    have member : other ∈ (world.contents tree id unit).finished.map Prod.fst := member
    show ∃! first, first ∈ (world.contents tree id unit).classes.cyclic ∧ _
    dsimp only at circle ⊢
    rw [finished] at member
    rw [cyclic]
    rcases List.mem_append.mp member with old | new
    · rw [frameOf other old] at circle ⊢
      obtain ⟨first, ⟨among, leads⟩, only⟩ := listed.each other old decl circle
      refine ⟨first, ⟨List.mem_append_right _ among, leads⟩, fun second ⟨among', leads'⟩ => ?_⟩
      rcases List.mem_append.mp among' with new | older
      · have isClass := mem_of_namesBase circle leads'
        exact absurd (isSome_lookup_iff_mem.mp (listed.classesOf_walked old isClass))
          (apart second (isNew second new))
      · exact only second ⟨older, leads'⟩
    · obtain rfl := List.mem_singleton.mp new
      rw [own] at circle ⊢
      obtain ⟨first, ⟨among, leads⟩, only⟩ := each decl circle
      refine ⟨first, ⟨List.mem_append_left _ among, leads⟩, fun second ⟨among', leads'⟩ => ?_⟩
      rcases List.mem_append.mp among' with new | old
      · exact only second ⟨new, leads'⟩
      · exact absurd (isSome_lookup_iff_mem.mp (listed.known second old))
          (apart second (mem_of_namesBase circle leads'))

/-- A report about an import is none about a circle of classes. -/
theorem circleReports_report (isOpen : state.sink.IsOpen) {report : Diagnostic}
    (other : report.code ≠ .inheritanceCycle) (sink : after.sink = (state.sink.report report).1) :
    circleReports after = circleReports state := by
  obtain ⟨final, reports, -, items⟩ := isOpen.report report
  rw [circleReports, sink, reports, items, List.filter_append]
  simp [circleReports, other]

theorem Step.listed (forest : tree.Forest loose) {root : UnitId} {before after : Stage}
    (step : Step tree root before after) (listed : before.Listed tree) : after.Listed tree := by
  have accounted := step.accounted forest listed.toAccounted
  obtain ⟨change, sound, sound'⟩ := step
  have isOpen := sound.mirrors.logged.isOpen
  have same {state after : Analysis} (sink : after.sink = state.sink) :
      circleReports after = circleReports state := by rw [circleReports, circleReports, sink]
  cases change with
  | note idles sink => exact listed.idle accounted rfl rfl idles.order (same sink)
  | meet _ _ _ idles sink => exact listed.idle accounted rfl rfl idles.order (same sink)
  | skip _ idles sink =>
    refine listed.idle accounted rfl rfl idles.order ?_
    have other (decl : DeclId) : (missingReport tree decl).code ≠ .inheritanceCycle := nofun
    exact sink.elim same (circleReports_report isOpen (other _))
  | turnBack _ _ idles sink =>
    have other (decl : DeclId) : (cycleReport tree decl).code ≠ .inheritanceCycle := nofun
    exact listed.idle accounted rfl rfl idles.order (circleReports_report isOpen (other _) sink)
  | attach _ _ idles sink => exact listed.idle accounted rfl rfl idles.order (same sink)
  | finish found ran idles sink =>
    have waits := congrArg List.head? sound.waiting
    obtain ⟨⟨placed, perm, order, frames⟩, circles⟩ :=
      contents_finishes forest sound listed.toOrdered found waits listed.known ran
    refine listed.finish forest sound found waits accounted ⟨⟨placed, perm, ?_, frames⟩, ?_⟩
    · exact idles.order.trans order
    · rwa [same sink]

/-! ### Programs -/

/-- What a class is written to inherit from, among the classes of a unit and in its global scope. -/
def WritesBase (tree : Tree) (names : Resolution) (unit : UnitId) : DeclId → DeclId → Prop :=
  NamesBase tree (classesOf tree unit) (names.scopes.frameOf (homeOf names unit))

/-- The order of classes of a program, and the reports about classes that inherit from
themselves. -/
structure ClassOrder (tree : Tree) (names : Resolution) (reports : List Diagnostic) : Prop where
  /-- Every class of every unit has one place. -/
  classes : names.order.Perm (names.unitOrder.flatMap (classesOf tree))
  once : names.order.Nodup
  acyclic : ∀ id, ¬ TransGen (fun owner base : DeclId => names.bases[owner]? = some base) id id
  /-- The classes that are reported are on circles, and every circle has one of them. -/
  circles : ∃ firsts : List DeclId, firsts.Nodup ∧
    reports.filter (·.code = .inheritanceCycle) = firsts.map (Resolve.inheritanceReport tree) ∧
    (∀ id ∈ firsts, ∃ unit ∈ names.unitOrder, TransGen (WritesBase tree names unit) id id) ∧
    ∀ unit ∈ names.unitOrder, ∀ id, TransGen (WritesBase tree names unit) id id →
      ∃! first, first ∈ firsts ∧ ReflTransGen (WritesBase tree names unit) id first
  basesFirst : (∀ report ∈ reports, report.code ≠ .inheritanceCycle) →
    ∀ owner base : DeclId, names.bases[owner]? = some base →
      owner ∈ names.order ∧ base ∈ names.order ∧ names.order.idxOf base < names.order.idxOf owner

/-- Where the classes of a frame list come later in the list, they come earlier in the order. -/
theorem idxOf_reverse_lt {later earlier : List DeclId}
    (once : (later ++ owner :: earlier).reverse.Nodup) (member : base ∈ earlier) :
    (later ++ owner :: earlier).reverse.idxOf base <
      (later ++ owner :: earlier).reverse.idxOf owner := by
  have split : (later ++ owner :: earlier).reverse = earlier.reverse ++ owner :: later.reverse := by
    simp
  rw [split] at once ⊢
  have early := List.mem_reverse.mpr member
  have absent : owner ∉ earlier.reverse :=
    fun again => (List.nodup_append.mp once).2.2 owner again owner (.head _) rfl
  rw [List.idxOf_append_of_mem early, List.idxOf_append_of_notMem absent, List.idxOf_cons_self,
    Nat.add_zero]
  exact List.idxOf_lt_length_iff.mpr early

/-- Where no class is reported to inherit from itself, none does. -/
theorem Stage.Listed.cyclic_eq_nil (listed : stage.Listed tree)
    (silent : ∀ id, Resolve.inheritanceReport tree id ∉ stage.state.sink.bag.items) :
    stage.world.classes.cyclic = [] := by
  refine List.eq_nil_iff_forall_not_mem.mpr fun id member => silent id ?_
  have reported : Resolve.inheritanceReport tree id ∈ circleReports stage.state := by
    rw [listed.reports]
    exact List.mem_map_of_mem (List.mem_reverse.mpr member)
  exact (List.mem_filter.mp reported).1

theorem Stage.Listed.classOrder {world : World} (listed : Stage.Listed tree ⟨[], world, state⟩)
    (sound : Stage.Sound tree ⟨[], world, state⟩) :
    ClassOrder tree state.names state.sink.bag.items := by
  have mirrors : Mirrors tree world state := sound.mirrors
  have inherits (unit : UnitId) (done : unit ∈ world.finished.map Prod.fst) :
      WritesBase tree state.names unit = NamesBase tree (classesOf tree unit) (world.frameOf unit) := by
    rw [WritesBase, mirrors.homes.frameOf_eq (List.mem_append_right _ done)]
  have reports : state.sink.bag.items.filter (·.code = .inheritanceCycle) =
    world.classes.cyclic.reverse.map (Resolve.inheritanceReport tree) := listed.reports
  refine ⟨?_, listed.once, fun id circle => ?_, ?_, fun silent owner base isBase => ?_⟩
  · rw [mirrors.unitOrder]
    exact listed.classes
  · obtain ⟨chain, lineage⟩ := (listed.based.rooted sound.names).lineage id
    exact lineage.notMem (lineage.mem_of_transGen circle)
  · refine ⟨world.classes.cyclic.reverse, List.nodup_reverse.mpr listed.distinct, reports, ?_, ?_⟩
    · intro id member
      obtain ⟨unit, done, circle⟩ := listed.onCircle id (List.mem_reverse.mp member)
      exact ⟨unit, mirrors.unitOrder ▸ done, by rwa [inherits unit done]⟩
    · intro unit done id circle
      rw [mirrors.unitOrder] at done
      rw [inherits unit done] at circle ⊢
      simpa only [List.mem_reverse] using listed.each unit done id circle
  · obtain ⟨later, frame, earlier, split, cyclic | ⟨inherited, walked, -⟩⟩ :=
      listed.account.based owner base isBase
    · have noCircle : world.classes.cyclic = [] :=
        listed.cyclic_eq_nil fun _ reported => silent _ reported rfl
      rw [noCircle] at cyclic
      nomatch cyclic
    · have early : base ∈ earlier.map Prod.fst :=
        isSome_lookup_iff_mem.mp (Option.isSome_of_mem walked)
      have order : state.names.order =
          (later.map Prod.fst ++ owner :: earlier.map Prod.fst).reverse := by
        rw [listed.walked, show world.classes.frames = _ from split, List.map_append, List.map_cons]
      have once : state.names.order.Nodup := listed.once
      rw [order] at once ⊢
      refine ⟨by simp, ?_, idxOf_reverse_lt once early⟩
      exact List.mem_reverse.mpr (List.mem_append_right _ (.tail _ early))

/-- Resolving a loaded program orders its classes, bases first, unless they inherit from
themselves: then one class of every such circle is reported, and no bases are recorded that lead
back. -/
theorem program_orders_classes {loader : Loader} (reached : Loader.Reached loader) {root : UnitId}
    (present : (loader.tree.units.get? root).isSome) (checked : Bool) (typing : Typing)
    (trace : Trace.Recorder) :
    ∃ (names : Resolution) (reports : List Diagnostic), ClassOrder loader.tree names reports ∧
      (∀ sink : Sink, sink.Quiet → ∃ final,
        Resolve.program loader.tree root checked { typing, trace, sink } = .ok () final) ∧
      ∀ (sink : Sink) (final : Analysis),
        Resolve.program loader.tree root checked { typing, trace, sink } = .ok () final →
          final.names = names ∧ final.sink = sink.reportAll reports := by
  have forest := reached.forest
  obtain ⟨after, sound, listed, ends, uniform⟩ := program_keeps forest present checked
    (listed_empty loader.tree typing trace) (Step.listed forest)
  exact ⟨after.names, after.sink.bag.items, listed.classOrder sound, ends, uniform⟩

/-- Two classes that inherit from each other, and one that inherits from one of them. -/
def classCircle : Doc.Document :=
  let derived (name base : String) : Option Doc.Class :=
    some { name, base := some { kind := "named", name := base } }
  { version := 1
    units := [some { path := "a",
                     classes := [derived "A" "B", derived "B" "A", derived "C" "A"] }] }

theorem program_orders_classes_classCircle :
    let loader := Loader.behind (Loader.load classCircle {})
    let final := Acts.behind (Resolve.program loader.tree 1 true {})
    (loader.tree.units.get? 1).isSome ∧
      ClassOrder loader.tree final.names final.sink.bag.items ∧
      final.names.order = [2, 1, 3] ∧ final.names.bases.toList = [(2, 1), (3, 1)] ∧
      final.sink.bag.items = [Resolve.inheritanceReport loader.tree 1] := by
  intro loader final
  obtain ⟨present, shown⟩ : (loader.tree.units.get? 1).isSome ∧
      final.names.order = [2, 1, 3] ∧ final.names.bases.toList = [(2, 1), (3, 1)] ∧
      final.sink.bag.items = [Resolve.inheritanceReport loader.tree 1] := by
    simp only [loader, final, Loader.load_eq_loadWithin]
    decide +kernel
  exact ⟨present,
    known_of_uniform (program_orders_classes (.load classCircle (.fresh _)) present true {} {}),
    shown⟩

end Lexical

end TreeCheck
