/-
Bases first. In the order in which the classes of a unit are walked, the base of a class
comes before the class, unless it was met again before it had a place and is one of those
that inherit from themselves. A base from another unit was walked with that unit: the
frames of finished units hold no classes but those that were walked.
-/

import TreeCheck.Proofs.Scoping.Worlds

namespace TreeCheck.Lexical

variable {tree : Tree}
variable {classes : List DeclId} {order : Order} {id : DeclId} {frame : Frame}
  {entry : Key × DeclId}

/-! ### The order of classes -/

/-- In front of every placed class stands its base, if that is a class of the unit and not known
to inherit from itself. -/
def Order.BasesFirst (tree : Tree) (env : Env) (classes : List DeclId) (order : Order) : Prop :=
  ∀ earlier id later base, order.placed = earlier ++ id :: later →
    baseCandidate? tree env id = some base → base ∈ classes →
    base ∈ earlier ∨ base ∈ order.cyclic

theorem Order.BasesFirst.place {env : Env} (first : order.BasesFirst tree env classes)
    (ready : ∀ base, baseCandidate? tree env id = some base → base ∈ classes →
      base ∈ order.placed ∨ base ∈ order.cyclic) :
    Order.BasesFirst tree env classes { order with placed := order.placed ++ [id] } := by
  intro earlier other later base placed isBase inside
  rcases List.eq_nil_or_concat later with rfl | ⟨later, last, rfl⟩
  · obtain ⟨rfl, same⟩ := List.append_inj' placed rfl
    obtain rfl : id = other := List.singleton_inj.mp same
    exact ready base isBase inside
  · have placed : order.placed ++ [id] = (earlier ++ other :: later) ++ [last] := by simpa using placed
    exact first earlier other later base (List.append_inj' placed rfl).1 isBase inside

theorem placeWithin_basesFirst (tree : Tree) (env : Env) (fuel : Nat) (fits : order.Fits classes)
    (isClass : id ∈ classes) (enough : classes.length < fuel + order.met.length)
    (first : order.BasesFirst tree env classes) :
    (placeWithin tree env classes fuel order id).BasesFirst tree env classes ∧
      (id ∈ (placeWithin tree env classes fuel order id).placed ∨
        id ∈ (placeWithin tree env classes fuel order id).cyclic) := by
  induction fuel generalizing order id with
  | zero =>
    have := (List.subperm_of_subset fits.nodup fits.inside).length_le
    omega
  | succ fuel inductionHypothesis =>
    unfold placeWithin
    split
    · next placed => exact ⟨first, .inl placed⟩
    · split
      · refine ⟨fun earlier other later base placed isBase inside => ?_, .inr ?_⟩
        · exact (first earlier other later base placed isBase inside).imp_right
            List.mem_insert_of_mem
        · exact List.mem_insert_self
      · next unmet =>
        have waits := fits.meet isClass unmet
        dsimp only
        split
        · next base isBase =>
          obtain ⟨isCandidate, inside⟩ := Option.filter_eq_some_iff.mp isBase
          obtain ⟨first', found⟩ := inductionHypothesis waits (by simpa using inside)
            (by simp only [List.length_cons]; omega) first
          refine ⟨first'.place fun other isOther _ => ?_, .inl (by simp)⟩
          rw [isCandidate] at isOther
          exact Option.some.inj isOther ▸ found
        · next noBase =>
          refine ⟨Order.BasesFirst.place first fun base isBase inside => ?_, .inl (by simp)⟩
          rw [isBase, Option.filter_some_pos (by simpa using inside)] at noBase
          nomatch noBase

/-- Only classes of the unit are found to inherit from themselves. -/
theorem cyclic_placeWithin (tree : Tree) (env : Env) (fuel : Nat) (order : Order)
    (isClass : id ∈ classes) :
    order.cyclic ⊆ (placeWithin tree env classes fuel order id).cyclic ∧
      (placeWithin tree env classes fuel order id).cyclic ⊆ order.cyclic ++ classes := by
  induction fuel generalizing order id with
  | zero => exact ⟨.refl _, List.subset_append_left _ _⟩
  | succ fuel inductionHypothesis =>
    unfold placeWithin
    split
    · exact ⟨.refl _, List.subset_append_left _ _⟩
    · split
      · refine ⟨fun other => List.mem_insert_of_mem, fun other member => ?_⟩
        rcases List.mem_insert_iff.mp member with rfl | old
        · exact List.mem_append_right _ isClass
        · exact List.mem_append_left _ old
      · dsimp only
        split
        · next base isBase =>
          have inside : base ∈ classes := by simpa using (Option.filter_eq_some_iff.mp isBase).2
          exact inductionHypothesis { order with met := id :: order.met } inside
        · exact ⟨.refl _, List.subset_append_left _ _⟩

/-- The order in which the classes of a unit are walked has bases first. -/
theorem classOrder_basesFirst (tree : Tree) (env : Env) (classes cyclic : List DeclId) :
    (classOrder tree env classes cyclic).BasesFirst tree env classes := by
  have fold (remaining : List DeclId) {order : Order} (fits : order.Fits classes)
      (inside : remaining ⊆ classes) (first : order.BasesFirst tree env classes) :
      (remaining.foldl (placeWithin tree env classes (classes.length + 1)) order).BasesFirst tree env
        classes := by
    induction remaining generalizing order with
    | nil => exact first
    | cons id rest inductionHypothesis =>
      have isClass := inside (.head _)
      have enough : classes.length < classes.length + 1 + order.met.length := by omega
      exact inductionHypothesis (placeWithin_spec tree env _ fits isClass enough).1
        (fun other member => inside (.tail _ member))
        (placeWithin_basesFirst tree env _ fits isClass enough first).1
  refine fold classes ⟨List.nodup_nil, List.nil_subset _, List.nodup_nil, List.nil_subset _⟩
    (.refl _) fun earlier id later base placed => ?_
  simp at placed

theorem cyclic_classOrder (tree : Tree) (env : Env) (classes cyclic : List DeclId) :
    cyclic ⊆ (classOrder tree env classes cyclic).cyclic ∧
      (classOrder tree env classes cyclic).cyclic ⊆ cyclic ++ classes := by
  have fold (remaining : List DeclId) (order : Order) (inside : remaining ⊆ classes) :
      order.cyclic ⊆
          (remaining.foldl (placeWithin tree env classes (classes.length + 1)) order).cyclic ∧
        (remaining.foldl (placeWithin tree env classes (classes.length + 1)) order).cyclic ⊆
          order.cyclic ++ classes := by
    induction remaining generalizing order with
    | nil => exact ⟨.refl _, List.subset_append_left _ _⟩
    | cons id rest inductionHypothesis =>
      obtain ⟨more, fewer⟩ :=
        cyclic_placeWithin tree env (classes.length + 1) order (inside (.head _))
      obtain ⟨more', fewer'⟩ := inductionHypothesis
        (placeWithin tree env classes (classes.length + 1) order id)
        fun other member => inside (.tail _ member)
      refine ⟨List.Subset.trans more more', List.Subset.trans fewer' ?_⟩
      exact List.append_subset.mpr ⟨fewer, List.subset_append_right _ _⟩
  exact fold classes { cyclic } (.refl _)

/-! ### The classes in a frame -/

/-- A walk adds no class to the frame it is in but those of a list, and leaves the frames
around it alone. -/
structure Adds (tree : Tree) (classes : List DeclId) (walk : Walk) : Prop where
  outer : ∀ env, (walk env).1.tail = env.tail
  head : ∀ env, ∀ entry ∈ (walk env).1.headD [], entry ∈ env.headD [] ∨
    (tree.kindOf? entry.2 = some .classDecl → entry.2 ∈ classes)

namespace Adds

variable {classes : List DeclId} {walk next : Walk}

theorem skip : Adds tree classes Walk.skip := ⟨fun _ => rfl, fun _ _ => .inl⟩

theorem andThen (first : Adds tree classes walk) (second : Adds tree classes next) :
    Adds tree classes (walk.andThen next) where
  outer env := (second.outer _).trans (first.outer env)
  head env entry member := (second.head _ entry member).elim (first.head env entry) .inr

theorem each {α : Type} {items : List α} {walks : α → Walk}
    (adds : ∀ item ∈ items, Adds tree classes (walks item)) :
    Adds tree classes (Walk.each items walks) := by
  induction items with
  | nil => exact skip
  | cons item rest inductionHypothesis =>
    exact (adds item (.head _)).andThen
      (inductionHypothesis fun other member => adds other (.tail _ member))

theorem nested (inner : Walk) : Adds tree classes inner.nested := ⟨fun _ => rfl, fun _ _ => .inl⟩

theorem names (declaring : Option NameId) (id : ExprId) :
    Adds tree classes (Walk.names tree declaring id) :=
  ⟨fun _ => rfl, fun _ _ => .inl⟩

/-- The frame may get one declaration. -/
theorem change {step : Env → Env}
    (declares : ∀ env, step env = env ∨ ∃ key, step env = env.declare key id)
    (fits : tree.kindOf? id = some .classDecl → id ∈ classes) :
    Adds tree classes (Walk.change step) := by
  have declared (env : Env) (key : Key) : (env.declare key id).tail = env.tail ∧
      ∀ entry ∈ (env.declare key id).headD [], entry ∈ env.headD [] ∨ entry.2 = id := by
    unfold Env.declare
    cases env with
    | nil => exact ⟨rfl, fun entry member => nomatch member⟩
    | cons frame outer =>
      dsimp only
      split
      · exact ⟨rfl, fun entry => .inl⟩
      · refine ⟨rfl, fun entry member => ?_⟩
        rcases List.mem_append.mp member with old | new
        · exact .inl old
        · exact .inr (List.mem_singleton.mp new ▸ rfl)
  constructor
  · intro env
    show (step env).tail = env.tail
    rcases declares env with same | ⟨key, same⟩
    · rw [same]
    · rw [same, (declared env key).1]
  · intro env entry member
    have member : entry ∈ (step env).headD [] := member
    rcases declares env with same | ⟨key, same⟩
    · exact .inl (same ▸ member)
    · rw [same] at member
      refine ((declared env key).2 entry member).imp_right fun isId => ?_
      rwa [isId]

end Adds

section

variable {loose : List Node} {classes : List DeclId}

theorem adds_name {id : DeclId} (fits : tree.kindOf? id = some .classDecl → id ∈ classes) :
    Adds tree classes (Walk.change (Env.declareName tree id)) :=
  .change (fun _ => .inr ⟨_, rfl⟩) fits

theorem adds_signature {id : DeclId} (fits : tree.kindOf? id = some .classDecl → id ∈ classes) :
    Adds tree classes (Walk.change (Env.declareSignature tree id)) := by
  refine .change (fun env => ?_) fits
  unfold Env.declareSignature
  split
  · exact .inl rfl
  · exact .inr ⟨_, rfl⟩

theorem adds_declared {id : DeclId} (fits : tree.kindOf? id = some .classDecl → id ∈ classes) :
    Adds tree classes (declared tree id) := by
  unfold declared
  split
  · exact .skip
  · refine .andThen (.each fun _ _ => .names _ _) (.change (fun env => ?_) fits)
    unfold Env.declareVariable
    split
    · exact .inl rfl
    · exact .inr ⟨_, rfl⟩

theorem adds_inOwnFrame {walk : StmtId → Walk} (id : StmtId) (adds : Adds tree classes (walk id)) :
    Adds tree classes (inOwnFrame tree walk id) := by
  unfold inOwnFrame
  split
  · exact .skip
  · exact adds
  · exact .nested _

theorem fits_of_part (forest : tree.Forest loose) {whole : Node} {kind : DeclKind} {id : DeclId}
    (isPart : .decl kind id ∈ tree.parts whole) (other : kind ≠ .classDecl) :
    tree.kindOf? id = some .classDecl → id ∈ classes := by
  intro isClass
  have isKind : tree.kindOf? id = some kind := forest.holds_part isPart
  exact absurd (Option.some.inj (isKind.symm.trans isClass)) other

/-- A statement declares local variables at most. -/
theorem adds_stmtWithin (forest : tree.Forest loose) (fuel : Nat) (id : StmtId) :
    Adds tree classes (stmtWithin tree fuel id) := by
  induction fuel generalizing id with
  | zero => exact .skip
  | succ fuel inductionHypothesis =>
    have own (id : StmtId) : Adds tree classes (inOwnFrame tree (stmtWithin tree fuel) id) :=
      adds_inOwnFrame id (inductionHypothesis id)
    unfold stmtWithin
    dsimp only
    split
    · exact .skip
    · exact .nested _
    · next decl isForm =>
      obtain ⟨stmt, found, form⟩ := Option.map_eq_some_iff.mp isForm
      have isPart : .decl .localVar decl ∈ tree.parts (.stmt id) := by
        simp [Tree.parts, found, form, StmtForm.parts]
      exact adds_declared (fits_of_part forest isPart (by decide))
    · exact .names _ _
    · exact .andThen (.names _ _) (.names _ _)
    · exact .andThen (.names _ _) <| .andThen (own _) <| .each fun _ _ => own _
    · exact .andThen (.names _ _) (own _)
    · exact .andThen (.names _ _) <| .andThen (.names _ _) (.nested _)
    · exact .andThen (.names _ _) <|
        .andThen (.each fun _ _ => .andThen (.each fun _ _ => .names _ _) (own _)) <|
          .each fun _ _ => own _
    · exact .each fun _ _ => .names _ _

theorem adds_callableBody (id : DeclId) : Adds tree classes (callableBody tree id) := by
  unfold callableBody
  split
  · exact .skip
  · exact .nested _

variable {id : UnitId} {unit : ProgramUnit}

theorem adds_declarations (forest : tree.Forest loose) (found : tree.units.get? id = some unit) :
    Adds tree unit.classes (declarations tree unit) := by
  have fits {kind : DeclKind} (decl : DeclId) (other : kind ≠ .classDecl)
      (member : .decl kind decl ∈ unit.parts) :
      tree.kindOf? decl = some .classDecl → decl ∈ unit.classes := by
    have isPart : .decl kind decl ∈ tree.parts (.unit id) := by simp [Tree.parts, found, member]
    exact fits_of_part forest isPart other
  refine .andThen (.each fun enum member => ?_) <| .andThen (.each fun decl member => ?_) <|
    .andThen (.each fun function member => ?_) (.each fun global member => ?_)
  · have isEnum : .decl .enum enum ∈ unit.parts := by simp [ProgramUnit.parts, member]
    refine .andThen (adds_name (fits enum (by decide) isEnum)) (.each fun const among => ?_)
    cases consts : (tree.decls.get? enum).bind Decl.consts? with
    | none => simp [consts] at among
    | some found =>
      rw [consts, Option.getD_some] at among
      exact adds_declared (fits_of_part forest (tree.const_mem_parts consts among) (by decide))
  · exact adds_name fun _ => member
  · have isFunction : .decl .function function ∈ unit.parts := by
      simp only [List.mem_append, Option.mem_toList] at member
      rcases member with member | member <;> simp [ProgramUnit.parts, member]
    exact adds_signature (fits function (by decide) isFunction)
  · have isGlobal : .decl .global global ∈ unit.parts := by simp [ProgramUnit.parts, member]
    exact adds_declared (fits global (by decide) isGlobal)

theorem adds_bodies (forest : tree.Forest loose) (unit : ProgramUnit) :
    Adds tree classes (bodies tree unit) :=
  .andThen (.each fun function _ => adds_callableBody function)
    (.each fun stmt _ => adds_stmtWithin forest _ stmt)

end

/-! ### Finished units -/

/-- The frames of finished units hold no classes but walked ones. -/
def World.Settled (tree : Tree) (world : World) : Prop :=
  ∀ frame ∈ world.finished, ∀ entry ∈ frame.2, tree.kindOf? entry.2 = some .classDecl →
    (world.classes.frames.lookup entry.2).isSome

namespace World

variable {world : World} {loose : List Node} {id : UnitId} {unit : ProgramUnit}

theorem settled_empty (tree : Tree) : Settled tree {} := nofun

/-- A class in the frames around the top level of a unit was walked. -/
theorem Settled.mem_globalEnv (settled : world.Settled tree) {id : UnitId}
    (member : frame ∈ world.globalEnv tree id) (among : entry ∈ frame)
    (isClass : tree.kindOf? entry.2 = some .classDecl) :
    (world.classes.frames.lookup entry.2).isSome := by
  rcases List.mem_cons.mp member with rfl | outer
  · nomatch among
  · obtain ⟨other, -, rfl⟩ := List.mem_map.mp outer
    unfold frameOf at among
    cases found : world.finished.lookup other with
    | none => simp [found] at among
    | some frame =>
      obtain ⟨before, behind, same, -⟩ := List.lookup_eq_some_iff.mp found
      rw [found, Option.getD_some] at among
      have member : (other, frame) ∈ world.finished := by simp [same]
      exact settled _ member entry among isClass

/-- What is declared in a unit that waits is a class of the unit, or no class. -/
theorem mem_declarations (forest : tree.Forest loose) (found : tree.units.get? id = some unit)
    (settled : world.Settled tree)
    (member : frame ∈ (declarations tree unit (world.globalEnv tree id)).1) (among : entry ∈ frame)
    (isClass : tree.kindOf? entry.2 = some .classDecl) :
    entry.2 ∈ unit.classes ∨ (world.classes.frames.lookup entry.2).isSome := by
  have adds := adds_declarations forest found
  have outer := adds.outer (world.globalEnv tree id)
  have head := adds.head (world.globalEnv tree id) entry
  cases walked : (declarations tree unit (world.globalEnv tree id)).1 with
  | nil => rw [walked] at member; nomatch member
  | cons first rest =>
    rw [walked] at member outer head
    rcases List.mem_cons.mp member with rfl | inside
    · exact .inl ((head among).elim (fun fresh => nomatch fresh) fun fits => fits isClass)
    · have outer : rest = (world.globalEnv tree id).tail := outer
      have around : frame ∈ world.globalEnv tree id := List.mem_of_mem_tail (outer ▸ inside)
      exact .inr (settled.mem_globalEnv around among isClass)

/-- A unit that is finished is settled. -/
theorem Settled.contents (forest : tree.Forest loose) (found : tree.units.get? id = some unit)
    (settled : world.Settled tree) : (world.contents tree id unit).Settled tree := by
  have nodup := forest.nodup_classes found
  intro frame member entry among isClass
  rw [finished_contents] at member
  rw [lookup_contents tree id nodup]
  rcases List.mem_append.mp member with old | new
  · exact .inr (settled frame old entry among isClass)
  · obtain rfl := List.mem_singleton.mp new
    have declared := (adds_declarations forest found).head (world.globalEnv tree id) entry
    refine ((adds_bodies forest unit).head _ entry among).elim (fun before => ?_) fun fits =>
      .inl (fits isClass)
    exact .inl ((declared before).elim (fun fresh => nomatch fresh) fun fits => fits isClass)

end World

end TreeCheck.Lexical
