/-
What a walk through a program keeps up. Units are walked once; links lead to finished
units only; a class has a frame when its unit was walked; and the names that were come
by are those below the finished units, each of them once.
-/

import TreeCheck.Proofs.Scoping.Coverage

namespace TreeCheck.Lexical

variable {tree : Tree}
variable {order : Order} {classes : List DeclId} {id target root : UnitId} {after world : World}
  {unit : ProgramUnit}

/-! ### The order of classes -/

/-- The classes that were placed are among those that were met, and these are classes of the
unit. -/
structure Order.Fits (order : Order) (classes : List DeclId) : Prop where
  nodup : order.met.Nodup
  inside : order.met ⊆ classes
  placedNodup : order.placed.Nodup
  placedMet : order.placed ⊆ order.met

/-- What placing a class comes to: whatever is met on the way is placed, and what was being
placed is not placed yet. -/
structure Order.Places (order order' : Order) (id : DeclId) : Prop where
  met : id ∈ order'.met
  metMore : order.met ⊆ order'.met
  placedNew : ∀ other ∈ order'.met, other ∉ order.met → other ∈ order'.placed
  placedOld : ∀ other ∈ order.met, other ∈ order'.placed ↔ other ∈ order.placed

theorem Order.Fits.meet (fits : order.Fits classes) {id : DeclId} (isClass : id ∈ classes)
    (unmet : id ∉ order.met) :
    Order.Fits { order with met := id :: order.met } classes where
  nodup := List.nodup_cons.mpr ⟨unmet, fits.nodup⟩
  inside := List.cons_subset.mpr ⟨isClass, fits.inside⟩
  placedNodup := fits.placedNodup
  placedMet := fun _ member => .tail _ (fits.placedMet member)

theorem Order.Fits.place (fits : order.Fits classes) {id : DeclId} (met : id ∈ order.met)
    (unplaced : id ∉ order.placed) :
    Order.Fits { order with placed := order.placed ++ [id] } classes where
  nodup := fits.nodup
  inside := fits.inside
  placedNodup := List.Nodup.append fits.placedNodup (List.nodup_singleton _)
    (by simpa using unplaced)
  placedMet := List.append_subset.mpr ⟨fits.placedMet, by simpa using met⟩

/-- Placing a class after its base: `after` is what placing the base comes to. -/
theorem Order.Places.place {after : Order} {id : DeclId} (fits : after.Fits classes)
    (unmet : id ∉ order.met) (unplaced : id ∉ order.placed) (metMore : id :: order.met ⊆ after.met)
    (placedNew : ∀ other ∈ after.met, other ∉ id :: order.met → other ∈ after.placed)
    (placedOld : ∀ other ∈ id :: order.met, other ∈ after.placed ↔ other ∈ order.placed) :
    Order.Fits { after with placed := after.placed ++ [id] } classes ∧
      order.Places { after with placed := after.placed ++ [id] } id := by
  have met : id ∈ after.met := metMore (.head _)
  have waiting : id ∉ after.placed := by
    rw [placedOld id (.head _)]
    exact unplaced
  refine ⟨fits.place met waiting, met, ?_, ?_, ?_⟩
  · exact fun other member => metMore (.tail _ member)
  · intro other member fresh
    by_cases same : other = id
    · exact List.mem_append_right _ (by simp [same])
    · exact List.mem_append_left _ (placedNew other member (by simp [same, fresh]))
  · intro other member
    have different : other ≠ id := fun same => unmet (same ▸ member)
    simp [different, placedOld other (.tail _ member)]

theorem placeWithin_spec (tree : Tree) (env : Env) (fuel : Nat) (fits : order.Fits classes)
    {id : DeclId} (isClass : id ∈ classes) (enough : classes.length < fuel + order.met.length) :
    (placeWithin tree env classes fuel order id).Fits classes ∧
      order.Places (placeWithin tree env classes fuel order id) id := by
  induction fuel generalizing order id with
  | zero =>
    have := (List.subperm_of_subset fits.nodup fits.inside).length_le
    omega
  | succ fuel inductionHypothesis =>
    unfold placeWithin
    split
    · next placed =>
      exact ⟨fits, fits.placedMet placed, .refl _,
        fun _ member unmet => absurd member unmet, fun _ _ => Iff.rfl⟩
    · next unplaced =>
      split
      · next met =>
        exact ⟨⟨fits.nodup, fits.inside, fits.placedNodup, fits.placedMet⟩, met,
          List.Subset.refl _, fun _ member unmet => absurd member unmet,
          fun _ _ => Iff.rfl⟩
      · next unmet =>
        have waits := fits.meet isClass unmet
        dsimp only
        split
        · next base isBase =>
          have inside : base ∈ classes := by simpa using (Option.filter_eq_some_iff.mp isBase).2
          obtain ⟨fits', places⟩ := inductionHypothesis waits inside
            (by simp only [List.length_cons]; omega)
          exact Order.Places.place fits' unmet unplaced places.metMore places.placedNew
            places.placedOld
        · exact Order.Places.place waits unmet unplaced (.refl _)
            (fun other member fresh => absurd member fresh) (fun _ _ => Iff.rfl)

/-- The order of the classes of a unit is a permutation of them. -/
theorem classOrder_perm (tree : Tree) (env : Env) (nodup : classes.Nodup) (cyclic : List DeclId) :
    (classOrder tree env classes cyclic).placed.Perm classes := by
  have fold (remaining : List DeclId) {order : Order} (fits : order.Fits classes)
      (inside : remaining ⊆ classes) (settled : order.met ⊆ order.placed) :
      (remaining.foldl (placeWithin tree env classes (classes.length + 1)) order).Fits classes ∧
        ∀ id, id ∈ remaining ∨ id ∈ order.placed →
          id ∈ (remaining.foldl (placeWithin tree env classes (classes.length + 1)) order).placed := by
    induction remaining generalizing order with
    | nil => exact ⟨fits, fun id member => member.resolve_left (by simp)⟩
    | cons first rest inductionHypothesis =>
      obtain ⟨fits', places⟩ := placeWithin_spec tree env (classes.length + 1) fits
        (inside (.head _)) (by omega)
      have stays (id : DeclId) (member : id ∈ order.placed) :
          id ∈ (placeWithin tree env classes (classes.length + 1) order first).placed :=
        (places.placedOld id (fits.placedMet member)).mpr member
      have settled' : (placeWithin tree env classes (classes.length + 1) order first).met ⊆
          (placeWithin tree env classes (classes.length + 1) order first).placed := by
        intro id member
        by_cases old : id ∈ order.met
        · exact stays id (settled old)
        · exact places.placedNew id member old
      obtain ⟨fits'', all⟩ := inductionHypothesis fits'
        (fun id member => inside (.tail _ member)) settled'
      refine ⟨fits'', fun id member => all id ?_⟩
      rcases member with member | placed
      · rcases List.mem_cons.mp member with rfl | later
        · exact .inr (settled' places.met)
        · exact .inl later
      · exact .inr (stays id placed)
  have empty : Order.Fits { cyclic } classes :=
    ⟨List.nodup_nil, List.nil_subset _, List.nodup_nil, List.nil_subset _⟩
  obtain ⟨fits, all⟩ := fold classes empty (.refl _) (.refl _)
  refine (List.perm_ext_iff_of_nodup fits.placedNodup nodup).mpr fun id => ?_
  exact ⟨fun placed => fits.inside (fits.placedMet placed), fun member => all id (.inl member)⟩

/-! ### Classes -/

section

variable {loose : List Node} (forest : tree.Forest loose)

/-- Walking classes touches nothing but the classes and the outcomes. -/
theorem foldl_walkClass_frame (env : Env) (order : List DeclId) (world : World) :
    (order.foldl (World.walkClass tree env) world).finished = world.finished ∧
      (order.foldl (World.walkClass tree env) world).waiting = world.waiting ∧
      (order.foldl (World.walkClass tree env) world).links = world.links ∧
      (order.foldl (World.walkClass tree env) world).imports = world.imports := by
  induction order generalizing world with
  | nil => exact ⟨rfl, rfl, rfl, rfl⟩
  | cons id rest inductionHypothesis => exact inductionHypothesis (world.walkClass tree env id)

theorem isSome_lookup_foldl_walkClass (env : Env) (order : List DeclId) (world : World)
    (id : DeclId) :
    ((order.foldl (World.walkClass tree env) world).classes.frames.lookup id).isSome ↔
      id ∈ order ∨ (world.classes.frames.lookup id).isSome := by
  induction order generalizing world with
  | nil => simp
  | cons first rest inductionHypothesis =>
    rw [List.foldl_cons, inductionHypothesis, World.walkClass, Classes.lookup_add]
    by_cases same : id = first <;> simp [same]

include forest

theorem spots_foldl_walkClass (env : Env) {order : List DeclId}
    (holds : ∀ id ∈ order, tree.Holds (.decl .classDecl id)) (world : World) :
    (order.foldl (World.walkClass tree env) world).entries.map Entry.spot =
      world.entries.map Entry.spot ++
        order.flatMap fun id => tree.visit none (.decl .classDecl id) := by
  induction order generalizing world with
  | nil => simp
  | cons first rest inductionHypothesis =>
    have covers := covers_classBody forest (holds first (.head _)) world.classes
    rw [List.foldl_cons, inductionHypothesis fun id member => holds id (.tail _ member),
      World.walkClass, List.map_append, covers.spots, List.flatMap_cons, List.append_assoc]

/-! ### Units -/

theorem holds_unitPart (found : tree.units.get? id = some unit) {part : Node}
    (member : part ∈ unit.parts) : tree.Holds part := by
  have isPart : part ∈ tree.parts (.unit id) := by simpa [Tree.parts, found] using member
  exact forest.holds_part isPart

theorem covers_declarations (found : tree.units.get? id = some unit) :
    Covers (declarations tree unit) ((unit.enums.flatMap fun id => tree.visit none (.decl .enum id)) ++
      unit.globals.flatMap fun id => tree.visit none (.decl .global id)) := by
  refine Covers.congr
    (.andThen (.each fun enum member => covers_enum forest (holds_unitPart forest found ?_)) <|
    .andThen (.eachChange _ _) <| .andThen (.eachChange _ _)
      (.each fun id member => covers_declared forest .global rfl (holds_unitPart forest found ?_))) ?_
  · simp [ProgramUnit.parts, member]
  · simp [ProgramUnit.parts, member]
  · simp

theorem covers_bodies (found : tree.units.get? id = some unit) :
    Covers (bodies tree unit)
      (((unit.functions ++ unit.main.toList).flatMap fun id => tree.visit none (.decl .function id)) ++
        unit.stmts.flatMap fun id => tree.visit none (.stmt id)) := by
  refine Covers.andThen (.each fun id member =>
    covers_callableBody forest (.inl rfl) (holds_unitPart forest found ?_))
    (.each fun id member => covers_stmt forest (holds_unitPart forest found ?_))
  · simp only [List.mem_append, Option.mem_toList] at member
    rcases member with member | member <;> simp [ProgramUnit.parts, member]
  · simp [ProgramUnit.parts, member]

omit forest in
theorem flatMap_unitParts {α : Type} (unit : ProgramUnit) (view : Node → List α) :
    unit.parts.flatMap view =
      (unit.imports.flatMap fun id => view (.decl .importDecl id)) ++
      ((unit.enums.flatMap fun id => view (.decl .enum id)) ++
      (unit.globals.flatMap fun id => view (.decl .global id)) ++
      (unit.classes.flatMap fun id => view (.decl .classDecl id)) ++
      ((unit.functions ++ unit.main.toList).flatMap fun id => view (.decl .function id)) ++
      unit.stmts.flatMap fun id => view (.stmt id)) := by
  simp [ProgramUnit.parts, List.flatMap_map, Option.toList_map]

/-- The names below a unit, by its parts. -/
theorem visit_unit_eq (found : tree.units.get? id = some unit) :
    tree.visit none (.unit id) =
      (unit.enums.flatMap fun id => tree.visit none (.decl .enum id)) ++
      (unit.globals.flatMap fun id => tree.visit none (.decl .global id)) ++
      (unit.classes.flatMap fun id => tree.visit none (.decl .classDecl id)) ++
      ((unit.functions ++ unit.main.toList).flatMap fun id => tree.visit none (.decl .function id)) ++
      unit.stmts.flatMap fun id => tree.visit none (.stmt id) := by
  have imports : (unit.imports.flatMap fun id => tree.visit none (.decl .importDecl id)) = [] := by
    refine List.flatMap_eq_nil_iff.mpr fun decl isImport => ?_
    refine visit_leaf forest (.inr rfl) (holds_unitPart forest found ?_)
    simp [ProgramUnit.parts, isImport]
  have holds : tree.Holds (.unit id) := by simp [Tree.Holds, found]
  have parts : tree.parts (.unit id) = unit.parts := by simp [Tree.parts, found]
  rw [visit_unit forest holds, parts, flatMap_unitParts, imports, List.nil_append]

end

/-! ### Worlds -/

namespace World

/-- The units that were met. -/
def met (world : World) : List UnitId := world.waiting ++ world.finished.map Prod.fst

/-- What a walk through a program keeps up. -/
structure Valid (tree : Tree) (world : World) : Prop where
  once : world.met.Nodup
  units : ∀ id ∈ world.met, (tree.units.get? id).isSome
  linksFrom : ∀ id other, world.links id = some other → id ∈ world.met
  linksTo : ∀ id other, world.links id = some other → other ∈ world.finished.map Prod.fst
  linked : world.links = linksAfter tree.units.size world.imports
  imports : ∀ pair ∈ world.imports, pair.1 ≠ pair.2 ∧ pair.2 ∈ world.finished.map Prod.fst
  classes : ∀ id, (world.classes.frames.lookup id).isSome →
    ∃ unit ∈ world.finished.map Prod.fst, .decl .classDecl id ∈ tree.parts (.unit unit)
  covered : (world.entries.map Entry.spot).Perm
    ((world.finished.map Prod.fst).flatMap fun id => tree.visit none (.unit id))

variable {world : World}

theorem valid_empty (tree : Tree) : Valid tree {} where
  once := List.nodup_nil
  units := fun _ member => nomatch member
  linksFrom := fun _ _ led => nomatch led
  linksTo := fun _ _ led => nomatch led
  linked := rfl
  imports := fun _ member => nomatch member
  classes := fun _ walked => nomatch walked
  covered := .nil

/-- There are no more met units than units. -/
theorem Valid.length_le (valid : world.Valid tree) : world.met.length ≤ tree.units.size := by
  have inside : world.met ⊆ tree.units.ids := fun id member =>
    (tree.units.mem_ids_iff id).mpr (valid.units id member)
  have := (List.subperm_of_subset valid.once inside).length_le
  rwa [Arena.ids, List.length_range'] at this

/-- A unit starts to wait. -/
theorem Valid.wait (valid : world.Valid tree) (unmet : id ∉ world.met)
    (holds : (tree.units.get? id).isSome) :
    Valid tree { world with waiting := id :: world.waiting } where
  once := List.nodup_cons.mpr ⟨unmet, valid.once⟩
  units := List.forall_mem_cons.mpr ⟨holds, valid.units⟩
  linksFrom := fun item other led => .tail _ (valid.linksFrom item other led)
  linksTo := valid.linksTo
  linked := valid.linked
  imports := valid.imports
  classes := valid.classes
  covered := valid.covered

theorem Valid.unfinished (valid : world.Valid tree) (waits : id ∈ world.waiting) :
    id ∉ world.finished.map Prod.fst := fun done =>
  (List.nodup_append.mp valid.once).2.2 id waits id done rfl

/-- Chains lead through finished units. -/
theorem Valid.chain_subset (valid : world.Valid tree) (bound : Nat) (id : UnitId) :
    chain world.links bound id ⊆ world.finished.map Prod.fst := by
  intro other member
  obtain ⟨_, before, led⟩ := mem_chain member
  exact valid.linksTo before other led

theorem lookup_finished (unfinished : id ∉ world.finished.map Prod.fst) :
    world.finished.lookup id = none := by
  refine List.lookup_eq_none_iff.mpr fun entry member => ?_
  have different : id ≠ entry.1 := fun same => unfinished (same ▸ List.mem_map_of_mem member)
  simpa using different

theorem frameOf_eq_nil (unfinished : id ∉ world.finished.map Prod.fst) : world.frameOf id = [] := by
  rw [frameOf, lookup_finished unfinished]
  rfl

theorem frameOf_of_finished {frame : Frame}
    (finished : after.finished = world.finished ++ [(id, frame)])
    (unfinished : id ∉ world.finished.map Prod.fst) (other : UnitId) :
    after.frameOf other = if other = id then frame else world.frameOf other := by
  rw [frameOf, finished, List.lookup_append]
  by_cases same : other = id
  · subst same
    simp [lookup_finished unfinished]
  · have different : (other == id) = false := by simpa using same
    simp [List.lookup_cons, same, different, frameOf]

/-- Where a chain ends. -/
theorem Valid.last_met (valid : world.Valid tree) (met : id ∈ world.met) :
    lastOf id (chain world.links tree.units.size id) ∈ world.met := by
  unfold lastOf
  cases isLast : (chain world.links tree.units.size id).getLast? with
  | none => exact met
  | some last =>
    exact List.mem_append_right _ (valid.chain_subset _ id (List.mem_of_getLast? isLast))

theorem Valid.attach (valid : world.Valid tree) (waits : id ∈ world.waiting)
    (done : target ∈ world.finished.map Prod.fst) : (world.attach tree id target).Valid tree := by
  have last := valid.last_met (List.mem_append_left _ waits : id ∈ world.met)
  have different : id ≠ target := fun same => valid.unfinished waits (same ▸ done)
  have led (item other : UnitId) (led : (world.attach tree id target).links item = some other) :
      world.links item = some other ∨ item ∈ world.met ∧ other ∈ world.finished.map Prod.fst := by
    simp only [World.attach, attachLink] at led
    split at led
    · exact .inl led
    · rw [Function.update_apply] at led
      split at led
      · next same => exact .inr ⟨same ▸ last, Option.some.inj led ▸ done⟩
      · exact .inl led
  refine ⟨valid.once, valid.units, fun item other isLed => ?_, fun item other isLed => ?_, ?_,
    fun pair member => ?_, valid.classes, valid.covered⟩
  · exact (led item other isLed).elim (valid.linksFrom item other) And.left
  · exact (led item other isLed).elim (valid.linksTo item other) And.right
  · show attachLink tree.units.size world.links (id, target) = _
    rw [valid.linked, ← linksAfter_append]
    rfl
  · rcases List.mem_append.mp member with old | new
    · exact valid.imports pair old
    · rw [List.mem_singleton.mp new]
      exact ⟨different, done⟩

/-! ### Runs -/

section

variable {loose : List Node} (forest : tree.Forest loose) {id : UnitId} {unit : ProgramUnit}

omit forest in
theorem finished_contents (tree : Tree) (id : UnitId) (unit : ProgramUnit) (world : World) :
    (world.contents tree id unit).finished = world.finished ++
      [(id, (bodies tree unit (declarations tree unit (world.globalEnv tree id)).1).1.headD [])] := by
  simp only [contents, walk, walkClasses, foldl_walkClass_frame]

omit forest in
/-- What a walk through the contents of a unit leaves behind. -/
theorem contents_frame (tree : Tree) (id : UnitId) (unit : ProgramUnit) (world : World) :
    ((world.contents tree id unit).finished.map Prod.fst) = world.finished.map Prod.fst ++ [id] ∧
      (world.contents tree id unit).waiting = world.waiting.erase id ∧
      (world.contents tree id unit).links = world.links ∧
      (world.contents tree id unit).imports = world.imports := by
  refine ⟨by rw [finished_contents, List.map_append]; rfl, ?_⟩
  simp only [contents, walk, walkClasses, foldl_walkClass_frame, and_self]

omit forest in
theorem lookup_contents (tree : Tree) (id : UnitId) {unit : ProgramUnit} (nodup : unit.classes.Nodup)
    (world : World) (decl : DeclId) :
    ((world.contents tree id unit).classes.frames.lookup decl).isSome ↔
      decl ∈ unit.classes ∨ (world.classes.frames.lookup decl).isSome := by
  simp only [contents, walk, walkClasses, isSome_lookup_foldl_walkClass]
  rw [(classOrder_perm tree _ nodup _).mem_iff]

include forest

theorem spots_contents (found : tree.units.get? id = some unit) (world : World) :
    ((world.contents tree id unit).entries.map Entry.spot).Perm
      (world.entries.map Entry.spot ++ tree.visit none (.unit id)) := by
  have nodup := forest.nodup_classes found
  have holds (env : Env) (cyclic : List DeclId) :
      ∀ decl ∈ (classOrder tree env unit.classes cyclic).placed, tree.Holds (.decl .classDecl decl) := by
    intro decl member
    have isClass := (classOrder_perm tree env nodup cyclic).mem_iff.mp member
    exact holds_unitPart forest found (by simp [ProgramUnit.parts, isClass])
  simp only [contents, walk, walkClasses, List.map_append, (covers_bodies forest found).spots,
    spots_foldl_walkClass forest _ (holds _ _), (covers_declarations forest found).spots]
  rw [visit_unit_eq forest found]
  simp only [List.append_assoc]
  refine List.Perm.append_left _ (List.Perm.append_left _ (List.Perm.append_left _ ?_))
  exact List.Perm.append_right _ ((classOrder_perm tree _ nodup _).flatMap_right _)

/-- A unit that waits is finished by the walk through its contents. -/
theorem Valid.contents (valid : world.Valid tree) {rest : List UnitId}
    (found : tree.units.get? id = some unit) (waits : world.waiting = id :: rest) :
    (world.contents tree id unit).Valid tree ∧ (world.contents tree id unit).waiting = rest := by
  obtain ⟨finished, waiting, links, imports⟩ := contents_frame tree id unit world
  have waiting' : (world.contents tree id unit).waiting = rest := by
    rw [waiting, waits, List.erase_cons_head]
  have met : (world.contents tree id unit).met.Perm world.met := by
    rw [World.met, World.met, finished, waiting', waits]
    exact (List.append_assoc .. ▸ List.perm_append_singleton ..)
  refine ⟨⟨met.nodup_iff.mpr valid.once, ?_, ?_, ?_, ?_, ?_, ?_, ?_⟩, waiting'⟩
  · exact fun item member => valid.units item (met.mem_iff.mp member)
  · rw [links]
    exact fun item other led => met.mem_iff.mpr (valid.linksFrom item other led)
  · rw [links, finished]
    exact fun item other led => List.mem_append_left _ (valid.linksTo item other led)
  · rw [links, imports, valid.linked]
  · rw [imports, finished]
    exact fun pair member => ⟨(valid.imports pair member).1,
      List.mem_append_left _ (valid.imports pair member).2⟩
  · intro decl walked
    rw [finished]
    rcases (lookup_contents tree id (forest.nodup_classes found) world decl).mp walked with
      here | before
    · exact ⟨id, List.mem_append_right _ (.head _), by
        simp [Tree.parts, found, ProgramUnit.parts, here]⟩
    · obtain ⟨other, done, isPart⟩ := valid.classes decl before
      exact ⟨other, List.mem_append_left _ done, isPart⟩
  · rw [finished, List.flatMap_append, List.flatMap_singleton]
    exact (spots_contents forest found world).trans (valid.covered.append_right _)

end

end World

/-- A walk has gone on while the same units wait. -/
structure World.Grows (tree : Tree) (world after : World) : Prop where
  valid : after.Valid tree
  waiting : after.waiting = world.waiting
  finished : world.finished.map Prod.fst ⊆ after.finished.map Prod.fst
  imports : world.imports ⊆ after.imports

theorem World.Valid.grows (valid : world.Valid tree) : world.Grows tree world :=
  ⟨valid, rfl, .refl _, .refl _⟩

theorem World.Grows.trans {middle : World} (first : world.Grows tree middle)
    (second : middle.Grows tree after) : world.Grows tree after :=
  ⟨second.valid, second.waiting.trans first.waiting, List.Subset.trans first.finished second.finished,
    List.Subset.trans first.imports second.imports⟩

/-- What walking through a unit comes to. -/
structure World.Walked (tree : Tree) (world : World) (id : UnitId) (after : World) : Prop
    extends World.Grows tree world after where
  done : id ∈ after.finished.map Prod.fst

theorem holds_importTarget {id : DeclId} (isTarget : importTarget? tree id = some target) :
    (tree.units.get? target).isSome := by
  unfold importTarget? at isTarget
  split at isTarget
  · exact (Option.filter_eq_some_iff.mp isTarget).2
  · nomatch isTarget

section

variable {walkUnit : World → UnitId → World} {unit : UnitId} {world : World}

theorem importUnit_grows (valid : world.Valid tree) (waits : unit ∈ world.waiting)
    (walks : ∀ target, (tree.units.get? target).isSome → target ∉ world.waiting →
      world.Walked tree target (walkUnit world target)) (id : DeclId) :
    world.Grows tree (importUnit tree walkUnit unit world id) := by
  unfold importUnit
  split
  · exact valid.grows
  · next target isTarget =>
    obtain ⟨isTarget', fresh⟩ := Option.filter_eq_some_iff.mp isTarget
    have walked := walks target (holds_importTarget isTarget') (by simpa using fresh)
    exact ⟨walked.valid.attach (walked.waiting ▸ waits) walked.done, walked.waiting,
      walked.finished, fun pair member => List.mem_append_left _ (walked.imports member)⟩

/-- Imports are done one after the other while the same units wait. -/
theorem importUnits_grows (imports : List DeclId) (valid : world.Valid tree)
    (waits : unit ∈ world.waiting)
    (walks : ∀ (current : World) (target : UnitId), current.Valid tree →
      current.waiting = world.waiting → (tree.units.get? target).isSome →
      target ∉ world.waiting → current.Walked tree target (walkUnit current target)) :
    world.Grows tree (imports.foldl (importUnit tree walkUnit unit) world) := by
  have fold {current : World} (grows : world.Grows tree current) :
      world.Grows tree (imports.foldl (importUnit tree walkUnit unit) current) := by
    induction imports generalizing current with
    | nil => exact grows
    | cons first rest inductionHypothesis =>
      refine inductionHypothesis (grows.trans (importUnit_grows grows.valid
        (grows.waiting ▸ waits) (fun target holds fresh => ?_) first))
      exact walks current target grows.valid grows.waiting holds (grows.waiting ▸ fresh)
  exact fold valid.grows

end

section

variable {loose : List Node} (forest : tree.Forest loose)

include forest

/-- A walk through a unit finishes the unit and leaves the units that wait alone. -/
theorem unitWithin_walked (fuel : Nat) (valid : world.Valid tree)
    (holds : (tree.units.get? id).isSome) (fresh : id ∉ world.waiting)
    (enough : tree.units.size < world.waiting.length + fuel) :
    world.Walked tree id (unitWithin tree fuel world id) := by
  induction fuel generalizing world id with
  | zero =>
    have := valid.length_le
    rw [World.met, List.length_append] at this
    omega
  | succ fuel inductionHypothesis =>
    obtain ⟨unit, found⟩ := Option.isSome_iff_exists.mp holds
    unfold unitWithin
    simp only [found]
    split
    · next done => exact ⟨valid.grows, done⟩
    · next undone =>
      have unmet : id ∉ world.met := by simpa [World.met, fresh] using undone
      have grows := importUnits_grows unit.imports (valid.wait unmet holds) (.head _)
        fun current target valid waiting holds fresh => inductionHypothesis valid holds
          (waiting ▸ fresh) (by rw [waiting, List.length_cons]; omega)
      obtain ⟨valid', waiting⟩ := grows.valid.contents forest found grows.waiting
      obtain ⟨finished, _, _, imports⟩ := World.contents_frame tree id unit
        (unit.imports.foldl (importUnit tree (unitWithin tree fuel) id)
          { world with waiting := id :: world.waiting })
      refine ⟨⟨valid', waiting, ?_, ?_⟩, ?_⟩
      · rw [finished]
        exact fun other member => List.mem_append_left _ (grows.finished member)
      · rw [imports]
        exact grows.imports
      · rw [finished]
        exact List.mem_append_right _ (.head _)

theorem program_walked (holds : (tree.units.get? root).isSome) :
    World.Walked tree {} root (program tree root) :=
  unitWithin_walked forest (tree.units.size + 1) (World.valid_empty tree) holds List.not_mem_nil
    (by simp)

omit forest in
theorem program_eq_empty (absent : tree.units.get? root = none) : program tree root = {} := by
  unfold program unitWithin
  simp only [absent]

theorem program_grows (root : UnitId) : World.Grows tree {} (program tree root) := by
  cases found : tree.units.get? root with
  | none =>
    rw [program_eq_empty found]
    exact (World.valid_empty tree).grows
  | some unit => exact (program_walked forest (by rw [found]; rfl)).toGrows

end

end TreeCheck.Lexical
