/-
Circles of classes. When a class is placed, the classes on the way along its bases are met
one after the other, until the way ends at a class without a base in the unit, at a class
that was placed before, or at a class that it came by itself. In the last case that class
stands for the circle the way has closed. A class has one base at most, so a circle is
closed by one way only: for every circle of bases one class is found to inherit from
itself.
-/

import TreeCheck.Proofs.Scoping.Order

namespace TreeCheck.Lexical

open Relation (ReflTransGen TransGen)

variable {tree : Tree}
variable {next : DeclId → Option DeclId} {id other base back : DeclId} {classes known : List DeclId}
  {order : Order}

/-! ### Ways along bases -/

/-- What leads from a class to its base. -/
def LeadsTo (next : DeclId → Option DeclId) (id base : DeclId) : Prop := next id = some base

/-- The way of a visit: the classes that are met from one on, and the class at which the way comes
back to one that was met and is not placed yet. -/
inductive Way (next : DeclId → Option DeclId) (placed : List DeclId) :
    List DeclId → DeclId → List DeclId → Option DeclId → Prop where
  | done {met : List DeclId} {id : DeclId} : id ∈ placed → Way next placed met id [] none
  | back {met : List DeclId} {id : DeclId} :
      id ∉ placed → id ∈ met → Way next placed met id [] (some id)
  | last {met : List DeclId} {id : DeclId} :
      id ∉ placed → id ∉ met → next id = none → Way next placed met id [id] none
  | on {met : List DeclId} {id base : DeclId} {way : List DeclId} {closing : Option DeclId} :
      id ∉ placed → id ∉ met → next id = some base → Way next placed (id :: met) base way closing →
      Way next placed met id (id :: way) closing

namespace Way

variable {next : DeclId → Option DeclId} {placed met way : List DeclId} {id : DeclId}
  {closing : Option DeclId}

section

variable (isWay : Way next placed met id way closing)

include isWay

/-- All classes of a way are new. -/
theorem fresh :
    ∀ other ∈ way, other ∉ placed ∧ other ∉ met := by
  induction isWay with
  | done _ => exact fun _ member => nomatch member
  | back _ _ => exact fun _ member => nomatch member
  | last unplaced unmet _ =>
    intro other member
    obtain rfl := List.mem_singleton.mp member
    exact ⟨unplaced, unmet⟩
  | on unplaced unmet _ _ inductionHypothesis =>
    intro other member
    rcases List.mem_cons.mp member with rfl | later
    · exact ⟨unplaced, unmet⟩
    · obtain ⟨unplaced', unmet'⟩ := inductionHypothesis other later
      exact ⟨unplaced', fun old => unmet' (.tail _ old)⟩

/-- A way starts with its class, unless that was placed or leads back. -/
theorem start :
    id ∈ way ∨ id ∈ placed ∨ closing = some id := by
  cases isWay with
  | done isPlaced => exact .inr (.inl isPlaced)
  | back _ _ => exact .inr (.inr rfl)
  | last _ _ _ => exact .inl (.head _)
  | on _ _ _ _ => exact .inl (.head _)

/-- The base of a class of a way is on the way, was placed, or is where the way comes back. -/
theorem follows (member : other ∈ way)
    (isBase : next other = some base) : base ∈ way ∨ base ∈ placed ∨ closing = some base := by
  induction isWay with
  | done _ => nomatch member
  | back _ _ => nomatch member
  | last _ _ none =>
    obtain rfl := List.mem_singleton.mp member
    nomatch none.symm.trans isBase
  | on _ _ isBase' rest inductionHypothesis =>
    rcases List.mem_cons.mp member with rfl | later
    · cases isBase'.symm.trans isBase
      exact rest.start.imp_left (List.mem_cons_of_mem _)
    · exact (inductionHypothesis later).imp_left (List.mem_cons_of_mem _)

/-- The way comes back to a class that was met. -/
theorem closing_met (closes : closing = some back) :
    back ∉ placed ∧ (back ∈ way ∨ back ∈ met) := by
  induction isWay with
  | done _ => nomatch closes
  | back unplaced isMet =>
    cases closes
    exact ⟨unplaced, .inr isMet⟩
  | last _ _ _ => nomatch closes
  | on _ _ _ _ inductionHypothesis =>
    obtain ⟨unplaced, there⟩ := inductionHypothesis closes
    refine ⟨unplaced, ?_⟩
    rcases there with later | isMet
    · exact .inl (.tail _ later)
    · rcases List.mem_cons.mp isMet with rfl | before
      · exact .inl (.head _)
      · exact .inr before

/-- All classes of a way lead to where it comes back. -/
theorem leads_back (closes : closing = some back) :
    ReflTransGen (LeadsTo next) id back ∧ ∀ other ∈ way, TransGen (LeadsTo next) other back := by
  induction isWay with
  | done _ => nomatch closes
  | back _ _ =>
    cases closes
    exact ⟨.refl, fun _ member => nomatch member⟩
  | last _ _ _ => nomatch closes
  | @on _ id base _ _ _ _ isBase _ inductionHypothesis =>
    obtain ⟨leads, all⟩ := inductionHypothesis closes
    have step : LeadsTo next id base := isBase
    have here := TransGen.head' step leads
    exact ⟨here.to_reflTransGen, List.forall_mem_cons.mpr ⟨here, all⟩⟩

end

end Way

/-- What is closed under taking bases holds whatever is led to. -/
theorem mem_of_leads {inside : List DeclId}
    (closed : ∀ id ∈ inside, ∀ base, next id = some base → base ∈ inside) (member : id ∈ inside)
    (leads : ReflTransGen (LeadsTo next) id other) : other ∈ inside := by
  induction leads with
  | refl => exact member
  | tail _ isBase inductionHypothesis => exact closed _ inductionHypothesis _ isBase

/-- A way that does not come back is on no circle. -/
theorem Way.straight {placed met way : List DeclId} (isWay : Way next placed met id way none)
    (closed : ∀ id ∈ placed, ∀ base, next id = some base → base ∈ placed) :
    ∀ other ∈ way, ¬ TransGen (LeadsTo next) other other := by
  generalize isNone : (none : Option DeclId) = closing at isWay
  induction isWay with
  | done _ => exact fun _ member => nomatch member
  | back _ _ => nomatch isNone
  | last _ _ noBase =>
    intro other member cycle
    obtain rfl := List.mem_singleton.mp member
    obtain ⟨base, isBase, -⟩ := TransGen.head'_iff.mp cycle
    nomatch noBase.symm.trans isBase
  | @on met id base way closing unplaced unmet isBase rest inductionHypothesis =>
    refine List.forall_mem_cons.mpr ⟨fun cycle => ?_, inductionHypothesis isNone⟩
    -- What the base leads to is further on the way or was placed, and the class is neither.
    have closed' : ∀ other ∈ way ++ placed, ∀ base, next other = some base → base ∈ way ++ placed := by
      intro other member base isBase
      rcases List.mem_append.mp member with onWay | isPlaced
      · rcases rest.follows onWay isBase with further | done | back
        · exact List.mem_append_left _ further
        · exact List.mem_append_right _ done
        · exact nomatch isNone.trans back
      · exact List.mem_append_right _ (closed other isPlaced base isBase)
    obtain ⟨base', isBase', leads⟩ := TransGen.head'_iff.mp cycle
    cases isBase.symm.trans isBase'
    have starts : base ∈ way ++ placed := by
      rcases rest.start with onWay | isPlaced | back
      · exact List.mem_append_left _ onWay
      · exact List.mem_append_right _ isPlaced
      · exact nomatch isNone.trans back
    rcases List.mem_append.mp (mem_of_leads closed' starts leads) with onWay | isPlaced
    · exact (rest.fresh id onWay).2 (.head _)
    · exact unplaced isPlaced

/-- On a circle there is always a way back. -/
theorem leads_back_of_cycle (cycle : TransGen (LeadsTo next) id id)
    (leads : ReflTransGen (LeadsTo next) id other) : ReflTransGen (LeadsTo next) other id := by
  induction leads with
  | refl => exact .refl
  | @tail middle last _ isBase inductionHypothesis =>
    have around : TransGen (LeadsTo next) middle id :=
      (ReflTransGen.cases_head inductionHypothesis).elim (fun same => same ▸ cycle)
        fun ⟨_, isBase', rest⟩ => .head' isBase' rest
    obtain ⟨base, isBase', rest⟩ := TransGen.head'_iff.mp around
    cases isBase.symm.trans isBase'
    exact rest

/-! ### Placing a class -/

/-- The base of a class of a unit if it belongs to the same unit, as far as names tell. -/
def unitBase? (tree : Tree) (env : Env) (classes : List DeclId) (id : DeclId) : Option DeclId :=
  (baseCandidate? tree env id).filter fun base => id ∈ classes ∧ base ∈ classes

theorem unitBase?_eq_some {env : Env} :
    unitBase? tree env classes id = some base ↔
      baseCandidate? tree env id = some base ∧ id ∈ classes ∧ base ∈ classes := by
  simp [unitBase?, Option.filter_eq_some_iff]

/-- Placing a class goes a way and places the classes on it, the last one first. -/
theorem placeWithin_way (tree : Tree) (env : Env) (fuel : Nat) (fits : order.Fits classes)
    (isClass : id ∈ classes) (enough : classes.length < fuel + order.met.length) :
    ∃ way closing, Way (unitBase? tree env classes) order.placed order.met id way closing ∧
      placeWithin tree env classes fuel order id =
        { met := way.reverse ++ order.met, placed := order.placed ++ way.reverse,
          cyclic := closing.elim order.cyclic order.cyclic.insert } := by
  induction fuel generalizing order id with
  | zero =>
    have := (List.subperm_of_subset fits.nodup fits.inside).length_le
    omega
  | succ fuel inductionHypothesis =>
    unfold placeWithin
    by_cases placed : id ∈ order.placed
    · rw [if_pos placed]
      exact ⟨[], none, .done placed, by simp⟩
    rw [if_neg placed]
    by_cases met : id ∈ order.met
    · rw [if_pos met]
      exact ⟨[], some id, .back placed met, by simp⟩
    rw [if_neg met]
    have asUnitBase : (baseCandidate? tree env id).filter (· ∈ classes) =
        unitBase? tree env classes id := by simp [unitBase?, isClass]
    rw [asUnitBase]
    cases isBase : unitBase? tree env classes id with
    | none => exact ⟨[id], none, .last placed met isBase, by simp⟩
    | some base =>
      obtain ⟨way, closing, isWay, same⟩ := inductionHypothesis (fits.meet isClass met)
        (unitBase?_eq_some.mp isBase).2.2 (by simp only [List.length_cons]; omega)
      refine ⟨id :: way, closing, .on placed met isBase isWay, ?_⟩
      simp [same]

/-! ### Putting classes in order -/

/-- Where all classes that were met are placed, one class was found for every circle among
them. -/
structure Order.Counts (next : DeclId → Option DeclId) (known : List DeclId) (order : Order)
    (found : List DeclId) : Prop where
  cyclic : order.cyclic = found ++ known
  settled : order.met ⊆ order.placed
  closed : ∀ id ∈ order.placed, ∀ base, next id = some base → base ∈ order.placed
  once : found.Nodup
  onCircle : ∀ id ∈ found, id ∈ order.placed ∧ TransGen (LeadsTo next) id id
  each : ∀ id ∈ order.placed, TransGen (LeadsTo next) id id →
    ∃ first ∈ found, ReflTransGen (LeadsTo next) id first
  apart : ∀ id ∈ found, ∀ other ∈ found, ReflTransGen (LeadsTo next) id other → id = other

theorem Order.Counts.place {env : Env} {found : List DeclId}
    (counts : order.Counts (unitBase? tree env classes) known found) (fits : order.Fits classes)
    (apart : ∀ id ∈ classes, id ∉ known) (isClass : id ∈ classes) :
    ∃ found', Order.Counts (unitBase? tree env classes) known
      (placeWithin tree env classes (classes.length + 1) order id) found' := by
  obtain ⟨way, closing, isWay, same⟩ := placeWithin_way tree env _ fits isClass
    (by omega : classes.length < classes.length + 1 + order.met.length)
  have fresh := isWay.fresh
  have settled : way.reverse ++ order.met ⊆ order.placed ++ way.reverse := by
    intro other member
    rcases List.mem_append.mp member with new | old
    · exact List.mem_append_right _ new
    · exact List.mem_append_left _ (counts.settled old)
  rw [same]
  cases closing with
  | none =>
    have straight := isWay.straight counts.closed
    refine ⟨found, counts.cyclic, settled, fun other member base isBase => ?_, counts.once,
      fun other member => ?_, fun other member cycle => ?_, counts.apart⟩
    · rcases List.mem_append.mp member with old | new
      · exact List.mem_append_left _ (counts.closed other old base isBase)
      · rcases isWay.follows (List.mem_reverse.mp new) isBase with further | done | back
        · exact List.mem_append_right _ (List.mem_reverse.mpr further)
        · exact List.mem_append_left _ done
        · nomatch back
    · obtain ⟨isPlaced, cycle⟩ := counts.onCircle other member
      exact ⟨List.mem_append_left _ isPlaced, cycle⟩
    · rcases List.mem_append.mp member with old | new
      · exact counts.each other old cycle
      · exact absurd cycle (straight other (List.mem_reverse.mp new))
  | some back =>
    obtain ⟨unplaced, there⟩ := isWay.closing_met rfl
    have onWay : back ∈ way := there.resolve_right fun met => unplaced (counts.settled met)
    have leads := (isWay.leads_back rfl).2
    have cycle := leads back onWay
    have isNew : back ∉ found ++ known := by
      intro member
      rcases List.mem_append.mp member with old | old
      · exact unplaced (counts.onCircle back old).1
      · obtain ⟨base, -, rest⟩ := TransGen.tail'_iff.mp cycle
        exact apart back (unitBase?_eq_some.mp rest).2.2 old
    refine ⟨back :: found, ?_, settled, fun other member base isBase => ?_,
      List.nodup_cons.mpr ⟨fun old => isNew (List.mem_append_left _ old), counts.once⟩,
      List.forall_mem_cons.mpr ⟨⟨?_, cycle⟩, fun other member => ?_⟩, fun other member cycle' => ?_, ?_⟩
    · show order.cyclic.insert back = _
      rw [counts.cyclic, List.insert_of_not_mem isNew, List.cons_append]
    · rcases List.mem_append.mp member with old | new
      · exact List.mem_append_left _ (counts.closed other old base isBase)
      · rcases isWay.follows (List.mem_reverse.mp new) isBase with further | done | closes
        · exact List.mem_append_right _ (List.mem_reverse.mpr further)
        · exact List.mem_append_left _ done
        · exact List.mem_append_right _ (List.mem_reverse.mpr (Option.some.inj closes ▸ onWay))
    · exact List.mem_append_right _ (List.mem_reverse.mpr onWay)
    · obtain ⟨isPlaced, cycle'⟩ := counts.onCircle other member
      exact ⟨List.mem_append_left _ isPlaced, cycle'⟩
    · rcases List.mem_append.mp member with old | new
      · obtain ⟨first, isFirst, leads'⟩ := counts.each other old cycle'
        exact ⟨first, .tail _ isFirst, leads'⟩
      · exact ⟨back, .head _,
          (leads other (List.mem_reverse.mp new)).to_reflTransGen⟩
    · -- Nothing leads from a class that was placed to one that was not.
      have outside (other : DeclId) (member : other ∈ found) :
          ¬ ReflTransGen (LeadsTo (unitBase? tree env classes)) other back := fun leads' =>
        unplaced (mem_of_leads counts.closed (counts.onCircle other member).1 leads')
      intro first isFirst second isSecond leads'
      rcases List.mem_cons.mp isFirst with rfl | old <;> rcases List.mem_cons.mp isSecond with rfl | old'
      · rfl
      · exact absurd (leads_back_of_cycle cycle leads') (outside second old')
      · exact absurd leads' (outside first old)
      · exact counts.apart first old second old' leads'

/-- One class is found for every circle among the classes of a unit. -/
theorem classOrder_counts (tree : Tree) (env : Env) (nodup : classes.Nodup)
    (apart : ∀ id ∈ classes, id ∉ known) :
    ∃ found, (classOrder tree env classes known).cyclic = found ++ known ∧ found.Nodup ∧
      (∀ id ∈ found, TransGen (LeadsTo (unitBase? tree env classes)) id id) ∧
      ∀ id, TransGen (LeadsTo (unitBase? tree env classes)) id id →
        ∃! first, first ∈ found ∧ ReflTransGen (LeadsTo (unitBase? tree env classes)) id first := by
  have fold (remaining : List DeclId) {order : Order} {found : List DeclId}
      (fits : order.Fits classes) (inside : remaining ⊆ classes)
      (counts : order.Counts (unitBase? tree env classes) known found) :
      ∃ found', Order.Counts (unitBase? tree env classes) known
        (remaining.foldl (placeWithin tree env classes (classes.length + 1)) order) found' := by
    induction remaining generalizing order found with
    | nil => exact ⟨found, counts⟩
    | cons id rest inductionHypothesis =>
      have isClass := inside (.head _)
      obtain ⟨_, counts'⟩ := counts.place fits apart isClass
      exact inductionHypothesis (placeWithin_spec tree env _ fits isClass (by omega)).1
        (fun other member => inside (.tail _ member)) counts'
  have none : Order.Counts (unitBase? tree env classes) known { cyclic := known } [] :=
    ⟨rfl, .refl _, nofun, List.nodup_nil, nofun, nofun, nofun⟩
  obtain ⟨found, counts⟩ := fold classes
    ⟨List.nodup_nil, List.nil_subset _, List.nodup_nil, List.nil_subset _⟩ (.refl _) none
  refine ⟨found, counts.cyclic, counts.once, fun id member => (counts.onCircle id member).2,
    fun id cycle => ?_⟩
  obtain ⟨base, -, isBase⟩ := TransGen.tail'_iff.mp cycle
  have isPlaced : id ∈ (classOrder tree env classes known).placed :=
    (classOrder_perm tree env nodup known).mem_iff.mpr (unitBase?_eq_some.mp isBase).2.2
  obtain ⟨first, isFirst, leads⟩ := counts.each id isPlaced cycle
  refine ⟨first, ⟨isFirst, leads⟩, fun other ⟨isOther, leads'⟩ => ?_⟩
  exact counts.apart other isOther first isFirst ((leads_back_of_cycle cycle leads').trans leads)

end TreeCheck.Lexical
