/-
Append-only storage with numbers from one. Every node of a program tree, every file and
every scope lives in an arena and is named by its number; numbers are handed out in the
order of allocation and stay valid for ever, so a look-up after later allocations finds
the same node.
-/

namespace TreeCheck

structure Arena (α : Type) where
  items : Array α := #[]

namespace Arena

variable {α : Type}

/-- How many nodes were allocated; also the last number handed out. -/
def size (arena : Arena α) : Nat := arena.items.size

def get? (arena : Arena α) : Nat → Option α
  | 0 => none
  | index + 1 => arena.items[index]?

/-- The number the next node will get. -/
def next (arena : Arena α) : Nat := arena.size + 1

def push (arena : Arena α) (item : α) : Arena α := ⟨arena.items.push item⟩

/-- Changes the node of a number in place; an unknown number changes nothing. -/
def modify (arena : Arena α) (id : Nat) (change : α → α) : Arena α :=
  match id with
  | 0 => arena
  | index + 1 => ⟨arena.items.modify index change⟩

/-- The numbers in use, in order of allocation. -/
def ids (arena : Arena α) : List Nat := List.range' 1 arena.size

/-! ### Look-up after an operation -/

@[simp] theorem size_push (arena : Arena α) (item : α) :
    (arena.push item).size = arena.size + 1 := by
  simp [size, push]

@[simp] theorem get?_push_self (arena : Arena α) (item : α) :
    (arena.push item).get? arena.next = some item := by
  simp [get?, push, next, size]

theorem get?_push_other (arena : Arena α) (item : α) {id : Nat} (old : id ≠ arena.next) :
    (arena.push item).get? id = arena.get? id := by
  cases id with
  | zero => rfl
  | succ index =>
    simp only [get?, push, Array.getElem?_push]
    split
    · next same => exact absurd (by simp [next, size, same]) old
    · rfl

theorem get?_eq_some_le {arena : Arena α} {id : Nat} {item : α}
    (found : arena.get? id = some item) : 1 ≤ id ∧ id ≤ arena.size := by
  cases id with
  | zero => simp [get?] at found
  | succ index =>
    simp only [get?] at found
    have := (Array.getElem?_eq_some_iff.1 found).1
    exact ⟨by omega, Nat.succ_le_of_lt this⟩

theorem isSome_get?_iff (arena : Arena α) (id : Nat) :
    (arena.get? id).isSome ↔ 1 ≤ id ∧ id ≤ arena.size := by
  cases id with
  | zero => simp [get?]
  | succ index =>
    rw [get?, Option.isSome_iff_ne_none, ne_eq, Array.getElem?_eq_none_iff, size]
    omega

theorem mem_ids_iff (arena : Arena α) (id : Nat) : id ∈ arena.ids ↔ (arena.get? id).isSome := by
  rw [isSome_get?_iff, ids, List.mem_range'_1]
  omega

@[simp] theorem size_modify (arena : Arena α) (id : Nat) (change : α → α) :
    (arena.modify id change).size = arena.size := by
  cases id <;> simp [size, modify]

theorem get?_push_of_some {arena : Arena α} {id : Nat} {item : α} (added : α)
    (found : arena.get? id = some item) : (arena.push added).get? id = some item := by
  have bound := get?_eq_some_le found
  rw [get?_push_other arena added (by simp only [next]; omega)]
  exact found

theorem get?_modify (arena : Arena α) (id other : Nat) (change : α → α) :
    (arena.modify id change).get? other =
      if other = id then (arena.get? other).map change else arena.get? other := by
  cases id with
  | zero =>
    cases other with
    | zero => rfl
    | succ index => rfl
  | succ target =>
    cases other with
    | zero => rfl
    | succ index =>
      simp only [modify, get?, Array.getElem?_modify, Nat.succ.injEq, eq_comm]

end Arena

end TreeCheck
