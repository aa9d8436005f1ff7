/-
What a ring keeps. The slots hold the end of all that was ever emitted: the event with some
place in the account stands in the slot with the same number, counted around the circle, until
the circle has been gone around once more. The slot that is written next and the number of
written slots say how long the account is, up to whole rounds, and how much of it is left.

So the newest events of a ring are the end of the account, however often the circle was gone
around and however many are asked for, and no slot is asked for that does not exist.
-/

import Mathlib.Data.Nat.ModEq
import TreeCheck.Trace.Tracer

namespace TreeCheck.Trace.Ring

variable {ring : Ring} {account : List Event}

/-- Emits events one after the other. -/
def emitAll (ring : Ring) (events : List Event) : Ring := events.foldl emit ring

/-! ### The account of a ring -/

/-- The slots of a ring were written with the events of an account, one after the other. -/
structure Records (ring : Ring) (account : List Event) : Prop where
  next : (ring.next : Nat) = account.length % ring.capacity
  count : ring.count = min account.length ring.capacity
  slots : ∀ index event, account[index]? = some event → account.length ≤ index + ring.capacity →
    ring.slots[index % ring.capacity]? = some event

theorem records_ofCapacity (capacity : Int) (level : Level) :
    (ofCapacity capacity level).Records [] := by
  unfold ofCapacity
  split
  · exact ⟨(Nat.zero_mod _).symm, (Nat.zero_min _).symm, nofun⟩
  · exact ⟨rfl, rfl, nofun⟩

theorem capacity_ofCapacity (capacity : Int) (level : Level) :
    (ofCapacity capacity level).capacity =
      if 0 < capacity then capacity.toNat else defaultCapacity := by
  unfold ofCapacity
  split <;> rfl

theorem level_ofCapacity (capacity : Int) (level : Level) :
    (ofCapacity capacity level).level = level := by
  unfold ofCapacity
  split <;> rfl

@[simp]
theorem capacity_emit (ring : Ring) (event : Event) : (ring.emit event).capacity = ring.capacity := by
  unfold emit
  split <;> rfl

@[simp]
theorem level_emit (ring : Ring) (event : Event) : (ring.emit event).level = ring.level := by
  unfold emit
  split <;> rfl

theorem capacity_emitAll (ring : Ring) (events : List Event) :
    (ring.emitAll events).capacity = ring.capacity := by
  induction events generalizing ring with
  | nil => rfl
  | cons event rest inductionHypothesis =>
    exact (inductionHypothesis (ring.emit event)).trans (capacity_emit ring event)

/-- Places less than a round apart have different slots. -/
theorem mod_ne_of_within_round {index length capacity : Nat} (earlier : index < length)
    (within : length < index + capacity) : index % capacity ≠ length % capacity := by
  intro same
  have whole : (length - index) % capacity = 0 :=
    Nat.sub_mod_eq_zero_of_mod_eq same.symm
  rw [Nat.mod_eq_of_lt (by omega)] at whole
  omega

/-- An event that is admitted is put at the end of the account. -/
theorem Records.emit (records : ring.Records account) {event : Event}
    (admitted : ring.level.admits event.grain) : (ring.emit event).Records (account ++ [event]) := by
  have room : 0 < ring.capacity := ring.next.pos
  rw [Ring.emit, if_pos admitted]
  refine ⟨?_, ?_, fun index found isFound recent => ?_⟩
  · simp [records.next]
  · have := records.count
    simp only [List.length_append, List.length_singleton]
    split <;> omega
  · simp only [List.length_append, List.length_singleton] at recent
    dsimp only at recent ⊢
    rw [Vector.getElem?_set]
    rcases Nat.lt_or_ge index account.length with earlier | last
    · rw [List.getElem?_append_left earlier] at isFound
      have elsewhere :=
          mod_ne_of_within_round earlier (by omega : account.length < index + ring.capacity)
      rw [if_neg (records.next ▸ elsewhere.symm)]
      exact records.slots index found isFound (by omega)
    · have isLast : index = account.length := by
        have := (List.getElem?_eq_some_iff.mp isFound).1
        rw [List.length_append, List.length_singleton] at this
        omega
      rw [isLast, List.getElem?_concat_length] at isFound
      rw [isLast, if_pos records.next, isFound]

/-- Whatever is emitted, the account goes on with what is admitted of it. -/
theorem Records.emitAll (records : ring.Records account) (events : List Event) :
    (ring.emitAll events).Records (account ++ events.filter (ring.level.admits ·.grain)) := by
  induction events generalizing ring account with
  | nil => simpa [Ring.emitAll] using records
  | cons event rest inductionHypothesis =>
    have goes : ring.emitAll (event :: rest) = (ring.emit event).emitAll rest := rfl
    rw [goes, List.filter_cons]
    by_cases admitted : ring.level.admits event.grain
    · have goesOn := inductionHypothesis (records.emit admitted)
      rw [level_emit, List.append_assoc, List.singleton_append] at goesOn
      rwa [if_pos admitted]
    · have same : ring.emit event = ring := if_neg admitted
      rw [if_neg admitted, same]
      exact inductionHypothesis records

/-! ### Reading the slots -/

/-- Reads that give the events of a list, one after the other, give the list. -/
theorem mapM_range_eq_some {read : Nat → Option Event} {events : List Event}
    (reads : ∀ index event, events[index]? = some event → read index = some event) :
    (List.range events.length).mapM read = some events := by
  induction events generalizing read with
  | nil => rfl
  | cons event rest inductionHypothesis =>
    have first := reads 0 event rfl
    have others : (List.range rest.length).mapM (fun index => read (index + 1)) = some rest :=
      inductionHypothesis fun index found isFound => reads (index + 1) found isFound
    rw [List.length_cons, List.range_succ_eq_map, List.mapM_cons, List.mapM_map, first]
    simp only [Function.comp_def, others, Option.bind_eq_bind, Option.bind_some, Option.pure_def]

/-- The slot that a read comes to when it goes back from the next slot and on from there. -/
theorem slot_of_offset {next length wanted index capacity : Nat} (isNext : next = length % capacity)
    (few : wanted ≤ min length capacity) :
    (((next - wanted + capacity : Int).tmod capacity + index).tmod capacity) =
      ((length - wanted + index) % capacity : Nat) := by
  have start : (next - wanted + capacity : Int) = (next + (capacity - wanted) : Nat) := by omega
  rw [start, Int.tmod_eq_emod_of_nonneg (Int.natCast_nonneg _), ← Int.natCast_emod,
    ← Int.natCast_add, Int.tmod_eq_emod_of_nonneg (Int.natCast_nonneg _), ← Int.natCast_emod,
    Nat.mod_add_mod, isNext]
  congr 1
  calc (length % capacity + (capacity - wanted) + index) % capacity
      = (length + (capacity - wanted) + index) % capacity := by
        rw [Nat.add_assoc, Nat.mod_add_mod, Nat.add_assoc]
    _ = (length - wanted + index + capacity) % capacity := by congr 1; omega
    _ = (length - wanted + index) % capacity := Nat.add_mod_right _ _

/-- How many events a request is for, when so many are kept. -/
def granted (kept : Nat) (wanted : Int) : Nat :=
  if wanted ≤ 0 then kept else min wanted.toNat kept

/-- The newest events are the end of the account. -/
theorem Records.last? (records : ring.Records account) (wanted : Int) :
    ring.last? wanted = some (account.drop
      (account.length - granted (min account.length ring.capacity) wanted)) := by
  obtain ⟨count, isCount⟩ :
      ∃ count, count = granted (min account.length ring.capacity) wanted := ⟨_, rfl⟩
  have few : count ≤ min account.length ring.capacity := by
    rw [isCount, granted]
    split <;> omega
  have isWanted :
      (if wanted ≤ 0 ∨ (ring.count : Int) < wanted then (ring.count : Int) else wanted) = count := by
    rw [isCount, granted, records.count]
    split <;> split <;> omega
  have length : count = (account.drop (account.length - count)).length := by
    rw [List.length_drop]
    omega
  rw [← isCount]
  unfold Ring.last?
  simp only [isWanted, Int.toNat_natCast]
  rw [show List.range count = List.range (account.drop (account.length - count)).length by
    rw [← length]]
  refine mapM_range_eq_some fun index event isEvent => ?_
  rw [slot_of_offset records.next few, slot?, if_neg (by omega), Int.toNat_natCast]
  rw [List.getElem?_drop] at isEvent
  exact records.slots _ event isEvent (by omega)

/-- A ring keeps the newest of the events that its level admits: asked for some of them, it gives
the last ones in the order in which they were emitted, as many as were asked for, admitted, and
fit into the slots; a number that is not positive asks for all. No slot is asked for that does
not exist. -/
theorem newest_kept (capacity : Int) (level : Level) (emitted : List Event) (wanted : Int) :
    let slots := if 0 < capacity then capacity.toNat else 4096
    let admitted := emitted.filter (level.admits ·.grain)
    let count := if wanted ≤ 0 then min admitted.length slots
      else min wanted.toNat (min admitted.length slots)
    ((ofCapacity capacity level).emitAll emitted).last? wanted =
      some (admitted.drop (admitted.length - count)) := by
  have records := (records_ofCapacity capacity level).emitAll emitted
  rw [List.nil_append, level_ofCapacity] at records
  have reads := records.last? wanted
  rwa [capacity_emitAll, capacity_ofCapacity] at reads

/-- A ring of three slots that was gone around. -/
example :
    let event (name : String) : Event := { seq := 0, kind := .point, grain := .node, name }
    ((ofCapacity 3 ⟨4⟩).emitAll [event "a", event "b", event "c", event "d"]).events.map Event.name =
      ["b", "c", "d"] := by decide

end TreeCheck.Trace.Ring
