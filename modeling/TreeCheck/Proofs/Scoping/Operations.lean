/-
The operations on a table of scopes, in any order. A scope that is entered has to be
there, and so has one that is attached as an import; nothing else is asked. Parents are
then older than the scopes in them, so the walk outwards ends. Import links may lead
round in circles, with the scope they start from or without it; the walk along them ends
because it stops at the first scope that it meets again.

`ScopeTable.Outwards` and `ScopeTable.Imports` are the walks without a bound on their
steps. `ScopeTable.Operated.walks_end_and_attaching_adds` says that they end at every
scope, that look-ups take from them what they find, and that an import that is attached
takes nothing away from what was found and adds what it binds itself.
-/

import TreeCheck.Proofs.Scoping.Growth

namespace TreeCheck

variable {attachable : ScopeTable → ScopeId → ScopeId → Prop} {id root tail other global : ScopeId}
  {scope added : Scope}

theorem map_some_filterMap {α β : Type} {f : α → Option β} {items : List α}
    (known : ∀ item ∈ items, (f item).isSome) : (items.filterMap f).map some = items.map f := by
  induction items with
  | nil => rfl
  | cons item rest inductionHypothesis =>
    obtain ⟨value, found⟩ := Option.isSome_iff_exists.mp (known item (.head _))
    rw [List.filterMap_cons_some found, List.map_cons, List.map_cons, found,
      inductionHypothesis fun other member => known other (.tail _ member)]

namespace ScopeTable

/-! ### Operations -/

/-- One operation. Which scopes may be attached to which is left open. -/
inductive Operation (attachable : ScopeTable → ScopeId → ScopeId → Prop) :
    ScopeTable → ScopeTable → Prop
  | newRoot (table : ScopeTable) (unit : UnitId) (span : Span) :
    Operation attachable table (table.newRoot unit span).2
  | openScope (table : ScopeTable) (kind : ScopeKind) (owner : DeclId) (span : Span) :
    Operation attachable table (table.openScope kind owner span).2
  | enter {table : ScopeTable} {id : ScopeId} (known : (table.get? id).isSome) :
    Operation attachable table (table.enter id)
  | leave (table : ScopeTable) : Operation attachable table table.leave
  | close (table : ScopeTable) : Operation attachable table table.close
  | truncate (table : ScopeTable) (depth : Nat) : Operation attachable table (table.truncate depth)
  | bindIn {table after : ScopeTable} {id : ScopeId} {key : Key} {decl : DeclId}
    (ok : table.bindIn id key decl = .ok after) : Operation attachable table after
  | attach {table after : ScopeTable} {global other : ScopeId} {joined : Bool}
    (allowed : attachable table global other)
    (attaches : table.attachImport? global other = some (joined, after)) :
    Operation attachable table after

/-- A table that comes about through operations. -/
def Operated (attachable : ScopeTable → ScopeId → ScopeId → Prop) (table : ScopeTable) : Prop :=
  Relation.ReflTransGen (Operation attachable) {} table

theorem Operated.empty : Operated attachable {} :=
  .refl

theorem Operated.step {before after : ScopeTable} (operated : before.Operated attachable)
    (operation : Operation attachable before after) : after.Operated attachable :=
  .tail operated operation

/-- A scope that is attached is there, or it is none and nothing happens. -/
def Known (table : ScopeTable) (_ other : ScopeId) : Prop := other = 0 ∨ (table.get? other).isSome

/-- A scope of the table with a new one is the new one, which is empty, or was there. -/
theorem newScope_cases {table : ScopeTable} {kind : ScopeKind} {parent : ScopeId} {owner : DeclId}
    {span : Span} (found : (table.newScope kind parent owner span).2.get? id = some scope) :
    (id = table.scopes.next ∧ scope.Sound ∧ scope.importLink = 0 ∧ scope.parent = parent) ∨
      ∃ old, table.get? id = some old ∧ old.Like scope := by
  rcases get?_newScope_cases found with ⟨same, rfl⟩ | ⟨old, there, like, -⟩
  · exact .inl ⟨same, Scope.sound_empty rfl rfl rfl, rfl, rfl⟩
  · exact .inr ⟨old, there, like⟩

namespace Operation

variable {attachable : ScopeTable → ScopeId → ScopeId → Prop} {before after : ScopeTable}

theorem grows (operation : Operation attachable before after) : before.Grows after := by
  cases operation with
  | newRoot unit span =>
    exact (grows_newScope before .global 0 0 span).trans
      (grows_modify _ fun _ _ => ⟨rfl, rfl, rfl, rfl, List.prefix_rfl, List.prefix_rfl⟩)
  | openScope kind owner span => exact grows_newScope before kind before.current owner span
  | enter => exact .refl before
  | leave => exact .refl before
  | close =>
    exact grows_modify _ fun _ _ => ⟨rfl, rfl, rfl, rfl, List.prefix_rfl, List.prefix_rfl⟩
  | truncate depth => exact .refl before
  | bindIn ok =>
    obtain ⟨-, -, -, rfl⟩ := bindIn_eq_ok ok
    exact grows_modify _ fun scope _ => Scope.grows_insert scope _ _
  | attach _ attaches =>
    rcases attachImport?_cases attaches with ⟨-, rfl⟩ | ⟨chain, -, -, -, -, -, -, rfl⟩
    · exact .refl _
    · exact grows_relink _ _ _

theorem stack (operation : Operation attachable before after) (member : id ∈ after.stack) :
    id ∈ before.stack ∨ (after.get? id).isSome := by
  cases operation with
  | newRoot unit span => exact .inl member
  | openScope kind owner span =>
    rcases List.mem_cons.mp member with rfl | older
    · exact .inr (Option.isSome_iff_exists.mpr
        ⟨_, (get?_newScope before kind before.current owner span _).trans (if_pos rfl)⟩)
    · exact .inl older
  | enter known =>
    rcases List.mem_cons.mp member with rfl | older
    · exact .inr known
    · exact .inl older
  | leave => exact .inl (List.mem_of_mem_tail member)
  | close => exact .inl (List.mem_of_mem_tail member)
  | truncate depth => exact .inl (List.mem_of_mem_drop member)
  | bindIn ok =>
    obtain ⟨-, -, -, rfl⟩ := bindIn_eq_ok ok
    exact .inl member
  | attach _ attaches =>
    rcases attachImport?_cases attaches with ⟨-, rfl⟩ | ⟨chain, -, -, -, -, -, -, rfl⟩ <;>
      exact .inl member

/-- A scope behind an operation is a new and empty one in the current scope or in none, or it
was there: it has the parent that it had, it is as sound as it was, and its import link is what
it was or leads to a scope that could be attached. -/
theorem scope_cases (operation : Operation attachable before after)
    (found : after.get? id = some scope) :
    (id = before.scopes.next ∧ scope.Sound ∧ scope.importLink = 0 ∧
      (scope.parent = 0 ∨ scope.parent = before.current)) ∨
    ∃ old, before.get? id = some old ∧ scope.parent = old.parent ∧ (old.Sound → scope.Sound) ∧
      (scope.importLink = old.importLink ∨ ∃ global, attachable before global scope.importLink) := by
  have unchanged (found : before.get? id = some scope) := (⟨scope, found, rfl, fun sound => sound,
    .inl rfl⟩ : ∃ old, before.get? id = some old ∧ scope.parent = old.parent ∧
      (old.Sound → scope.Sound) ∧
      (scope.importLink = old.importLink ∨ ∃ global, attachable before global scope.importLink))
  cases operation with
  | newRoot unit span =>
    obtain ⟨scope, there, rfl | ⟨-, rfl⟩⟩ := get?_of_modify found <;>
      rcases newScope_cases there with ⟨new, sound, unlinked, top⟩ | ⟨old, there, like⟩
    · exact .inl ⟨new, sound, unlinked, .inl top⟩
    · exact .inr ⟨old, there, like.parent, like.sound, .inl like.importLink⟩
    · exact .inl ⟨new, sound.of_same rfl rfl rfl, unlinked, .inl top⟩
    · exact .inr ⟨old, there, like.parent, fun sound => (like.sound sound).of_same rfl rfl rfl,
        .inl like.importLink⟩
  | openScope kind owner span =>
    rcases newScope_cases found with ⟨new, sound, unlinked, inner⟩ | ⟨old, there, like⟩
    · exact .inl ⟨new, sound, unlinked, .inr inner⟩
    · exact .inr ⟨old, there, like.parent, like.sound, .inl like.importLink⟩
  | enter => exact .inr (unchanged found)
  | leave => exact .inr (unchanged found)
  | close =>
    obtain ⟨old, there, rfl | ⟨-, rfl⟩⟩ := get?_of_modify found
    · exact .inr (unchanged there)
    · exact .inr ⟨old, there, rfl, fun sound => sound.of_same rfl rfl rfl, .inl rfl⟩
  | truncate depth => exact .inr (unchanged found)
  | bindIn ok =>
    obtain ⟨bound, isScope, free, rfl⟩ := bindIn_eq_ok ok
    obtain ⟨old, there, rfl | ⟨rfl, rfl⟩⟩ := get?_of_modify found
    · exact .inr (unchanged there)
    · obtain rfl := Option.some.inj (there.symm.trans isScope)
      exact .inr ⟨old, there, rfl, fun sound => sound.insert free _, .inl rfl⟩
  | attach allowed attaches =>
    rcases attachImport?_cases attaches with ⟨-, rfl⟩ | ⟨chain, -, -, -, -, -, -, rfl⟩
    · exact .inr (unchanged found)
    · obtain ⟨old, there, rfl | ⟨-, rfl⟩⟩ := get?_of_modify found
      · exact .inr (unchanged there)
      · exact .inr ⟨old, there, rfl, fun sound => sound.of_same rfl rfl rfl, .inr ⟨_, allowed⟩⟩

end Operation

namespace Operated

variable {attachable : ScopeTable → ScopeId → ScopeId → Prop} {table : ScopeTable}

/-- A number on the stack is that of a scope. -/
theorem known_of_mem_stack (operated : table.Operated attachable) (member : id ∈ table.stack) :
    (table.get? id).isSome := by
  induction operated with
  | refl => nomatch member
  | tail _ operation inductionHypothesis =>
    rcases operation.stack member with older | known
    · exact operation.grows.isSome (inductionHypothesis older)
    · exact known

theorem current_le (operated : table.Operated attachable) : table.current ≤ table.scopes.size := by
  rw [current]
  cases isStack : table.stack with
  | nil => exact Nat.zero_le _
  | cons id rest =>
    have known := operated.known_of_mem_stack (isStack ▸ List.mem_cons_self)
    exact ((table.isSome_get?_iff id).mp known).2

theorem sound (operated : table.Operated attachable) {id : ScopeId} {scope : Scope}
    (found : table.get? id = some scope) : scope.Sound := by
  induction operated generalizing id scope with
  | refl => exact absurd found absent_empty
  | tail _ operation inductionHypothesis =>
    rcases operation.scope_cases found with ⟨-, sound, -⟩ | ⟨old, there, -, kept, -⟩
    · exact sound
    · exact kept (inductionHypothesis there)

theorem parent_lt (operated : table.Operated attachable) (found : table.get? id = some scope) :
    scope.parent < id := by
  induction operated generalizing id scope with
  | refl => exact absurd found absent_empty
  | tail before operation inductionHypothesis =>
    rcases operation.scope_cases found with ⟨rfl, -, -, top | inner⟩ | ⟨old, there, parent, -⟩
    · rw [top, Arena.next]
      lia
    · rw [inner]
      exact Nat.lt_succ_of_le (current_le before)
    · rw [parent]
      exact inductionHypothesis there

/-- Where only scopes are attached that are there, every link leads to a scope. -/
theorem anchored (operated : table.Operated Known) : table.Anchored := by
  refine ⟨fun id scope => operated.sound, fun id scope => operated.parent_lt, ?_⟩
  suffices linked : ∀ id scope, table.get? id = some scope → scope.importLink ≠ 0 →
      (table.get? scope.importLink).isSome from
    fun id scope found nonzero => Option.isSome_iff_exists.mp (linked id scope found nonzero)
  induction operated with
  | refl => exact fun id scope found => absurd found absent_empty
  | tail _ operation inductionHypothesis =>
    intro id scope found nonzero
    rcases operation.scope_cases found with ⟨-, -, unlinked, -⟩ | ⟨old, there, -, -, same | ⟨_, allowed⟩⟩
    · exact absurd unlinked nonzero
    · rw [same] at nonzero ⊢
      exact operation.grows.isSome (inductionHypothesis id old there nonzero)
    · exact operation.grows.isSome (allowed.resolve_left nonzero)

end Operated

/-! ### Walks without a bound -/

/-- The scopes from one outwards, all of them there. -/
inductive Outwards (table : ScopeTable) : ScopeId → List ScopeId → Prop
  | out : Outwards table 0 []
  | further {id : ScopeId} {scope : Scope} {rest : List ScopeId} (nonzero : id ≠ 0)
    (found : table.get? id = some scope) (goes : Outwards table scope.parent rest) :
    Outwards table id (id :: rest)

/-- The scopes along import links behind those that were passed, until there is no link, or one
that leads to where the walk started or to what was passed. -/
inductive Follows (table : ScopeTable) (root : ScopeId) :
    List ScopeId → ScopeId → List ScopeId → Prop
  | stop {passed : List ScopeId} {id : ScopeId} (ends : id = 0 ∨ id = root ∨ id ∈ passed) :
    Follows table root passed id passed
  | further {passed chain : List ScopeId} {id : ScopeId} {scope : Scope}
    (fresh : ¬ (id = 0 ∨ id = root ∨ id ∈ passed)) (found : table.get? id = some scope)
    (goes : Follows table root (passed ++ [id]) scope.importLink chain) :
    Follows table root passed id chain

/-- The chain of imports that starts from a scope; from no scope there is none. -/
inductive Imports (table : ScopeTable) : ScopeId → List ScopeId → Prop
  | none : Imports table 0 []
  | from {root : ScopeId} {scope : Scope} {chain : List ScopeId}
    (found : table.get? root = some scope) (goes : Follows table root [] scope.importLink chain) :
    Imports table root chain

namespace Anchored

variable {table : ScopeTable}

section

variable (anchored : table.Anchored)

include anchored

theorem outwards (found : table.get? id = some scope) :
    table.Outwards id ((table.outward id).scopes.map Prod.fst) := by
  refine anchored.induction
    (motive := fun id _ => table.Outwards id ((table.outward id).scopes.map Prod.fst)) ?_ ?_ id
    scope found
  · intro id scope found top
    rw [anchored.outward_eq found, top, outward_zero]
    exact .further (Nat.ne_of_gt (le_size found).1) found (top ▸ .out)
  · intro id scope outer found _ _ goes
    rw [anchored.outward_eq found]
    exact .further (Nat.ne_of_gt (le_size found).1) found goes

/-- The walk along import links ends before it has made a step for every scope, since it passes
none twice. -/
theorem follows {steps : Nat} {passed : List ScopeId}
    (nodup : passed.Nodup) (inside : passed ⊆ table.scopes.ids)
    (known : id = 0 ∨ (table.get? id).isSome)
    (enough : table.scopes.ids.length < steps + passed.length) :
    table.Follows root passed id (chainWithin table.next? root steps passed (link? id)) := by
  induction steps generalizing passed id with
  | zero =>
    have := (List.subperm_of_subset nodup inside).length_le
    lia
  | succ steps inductionHypothesis =>
    by_cases zero : id = 0
    · rw [link?, if_pos zero]
      exact .stop (.inl zero)
    · obtain ⟨scope, found⟩ := Option.isSome_iff_exists.mp (known.resolve_left zero)
      rw [link?, if_neg zero, chainWithin]
      split
      · next met => exact .stop (.inr met)
      · next fresh =>
        have next : table.next? id = link? scope.importLink := by rw [next?, found, Option.bind_some]
        have known' : scope.importLink = 0 ∨ (table.get? scope.importLink).isSome := by
          by_cases last : scope.importLink = 0
          · exact .inl last
          · exact .inr (Option.isSome_iff_exists.mpr (anchored.linked id scope found last))
        rw [next]
        refine .further (not_or.mpr ⟨zero, fresh⟩) found (inductionHypothesis ?_ ?_ known' ?_)
        · exact List.Nodup.append nodup (List.nodup_singleton _)
            (by simpa using (not_or.mp fresh).2)
        · exact List.append_subset.mpr ⟨inside, by simpa using table.mem_ids_iff.mpr ⟨scope, found⟩⟩
        · rw [List.length_append, List.length_singleton]
          lia

theorem isWhole (root : ScopeId) :
    IsWhole table.next? root (table.importsOf root) :=
  isWhole_chain (fun _ _ => anchored.mem_ids_of_next?) table.length_ids_le root

theorem imports (found : table.get? root = some scope) :
    table.Imports root (table.importsOf root) := by
  have known : scope.importLink = 0 ∨ (table.get? scope.importLink).isSome := by
    by_cases last : scope.importLink = 0
    · exact .inl last
    · exact .inr (Option.isSome_iff_exists.mpr (anchored.linked root scope found last))
  have next : table.next? root = link? scope.importLink := by rw [next?, found, Option.bind_some]
  rw [importsOf, chain, next]
  exact .from found (anchored.follows List.nodup_nil (List.nil_subset _) known
    (Nat.lt_succ_of_le table.length_ids_le))

theorem length_importsOf_le (root : ScopeId) :
    (table.importsOf root).length ≤ table.scopes.size := by
  refine (List.subperm_of_subset (List.nodup_cons.mp (anchored.isWhole root).nodup).2
    fun id member => ?_).length_le.trans table.length_ids_le
  exact table.mem_ids_iff.mpr (anchored.exists_of_mem_importsOf member)

end

end Anchored

/-! ### Attaching -/

section

variable {table : ScopeTable}

theorem frameOf_relink (table : ScopeTable) (tail other id : ScopeId) :
    (table.relink tail other).frameOf id = table.frameOf id := by
  unfold frameOf relink
  rw [get?_modify]
  split
  · cases table.get? id <;> rfl
  · rfl

theorem next?_relink (known : (table.get? tail).isSome) (nonzero : other ≠ 0) :
    (table.relink tail other).next? = Function.update table.next? tail (some other) := by
  funext id
  unfold next? relink
  rw [get?_modify]
  by_cases same : id = tail
  · subst same
    obtain ⟨scope, found⟩ := Option.isSome_iff_exists.mp known
    rw [Function.update_self, if_pos rfl, found]
    exact if_neg nonzero
  · rw [Function.update_of_ne same, if_neg same]

namespace Anchored

theorem relink (anchored : table.Anchored) (known : (table.get? other).isSome) (tail : ScopeId) :
    (table.relink tail other).Anchored := by
  have kept {id : ScopeId} (known : (table.get? id).isSome) :
      ∃ scope, (table.relink tail other).get? id = some scope :=
    Option.isSome_iff_exists.mp ((table.grows_relink tail other).isSome known)
  constructor
  · intro id scope found
    obtain ⟨old, there, rfl | ⟨-, rfl⟩⟩ := get?_of_modify found
    · exact anchored.scopes id scope there
    · exact (anchored.scopes id old there).of_same rfl rfl rfl
  · intro id scope found
    obtain ⟨old, there, rfl | ⟨-, rfl⟩⟩ := get?_of_modify found
    · exact anchored.outward id scope there
    · exact anchored.outward id old there
  · intro id scope found nonzero
    obtain ⟨old, there, rfl | ⟨-, rfl⟩⟩ := get?_of_modify found
    · exact kept (Option.isSome_iff_exists.mpr (anchored.linked id scope there nonzero))
    · exact kept known

theorem outward_relink (anchored : table.Anchored) (anchored' : (table.relink tail other).Anchored)
    (found : table.get? id = some scope) :
    ((table.relink tail other).outward id).scopes.map Prod.fst =
      (table.outward id).scopes.map Prod.fst := by
  refine anchored.induction (motive := fun id _ =>
    ((table.relink tail other).outward id).scopes.map Prod.fst =
      (table.outward id).scopes.map Prod.fst) ?_ ?_ id scope found
  · intro id scope found top
    obtain ⟨scope', found', parent, -⟩ := get?_relink found tail other
    rw [anchored.outward_eq found, anchored'.outward_eq found', parent, top, outward_zero,
      outward_zero]
    rfl
  · intro id scope outer found _ _ inductionHypothesis
    obtain ⟨scope', found', parent, -⟩ := get?_relink found tail other
    rw [anchored.outward_eq found, anchored'.outward_eq found', parent, List.map_cons,
      inductionHypothesis]
    rfl

/-- The last scope on the chain of a scope, or that scope itself, is there. -/
theorem exists_last (anchored : table.Anchored) (found : table.get? root = some scope) :
    ∃ last, table.get? (lastOf root (table.importsOf root)) = some last := by
  rw [lastOf]
  cases ends : (table.importsOf root).getLast? with
  | none => exact ⟨scope, found⟩
  | some id => exact anchored.exists_of_mem_importsOf (List.mem_of_getLast? ends)

theorem getLast?_outward (table : ScopeTable) (id : ScopeId) :
    table.rootOf id = ((table.outward id).scopes.map Prod.fst).getLast?.getD 0 := by
  rw [rootOf, List.getLast?_map]

/-- A look-up sees what it saw, then what is newly attached, then perhaps more. -/
theorem frames_relink (anchored : table.Anchored) (found : table.get? id = some scope)
    (below : table.rootOf id = global) (there : table.get? other = some added)
    (fresh : other ∉ global :: table.importsOf global) :
    table.frames id ++ [added.entries] <+:
      (table.relink (lastOf global (table.importsOf global)) other).frames id := by
  generalize isTail : lastOf global (table.importsOf global) = tail
  have anchored' := anchored.relink (Option.isSome_iff_exists.mpr ⟨added, there⟩) tail
  have outward := anchored.outward_relink anchored' found
  have known : (table.get? tail).isSome := by
    obtain ⟨root, isRoot, -⟩ := anchored.root_isGlobal found
    rw [below] at isRoot
    exact isTail ▸ Option.isSome_iff_exists.mpr (anchored.exists_last isRoot)
  have ahead : table.importsOf global ++ [other] <+: (table.relink tail other).importsOf global := by
    have size : (table.relink tail other).scopes.size = table.scopes.size := Arena.size_modify ..
    rw [importsOf, importsOf, next?_relink known (Nat.ne_of_gt (le_size there).1), size, ← isTail]
    exact (anchored.isWhole global).prefix_update fresh (anchored.length_importsOf_le global)
  have path : table.path id ++ [other] <+: (table.relink tail other).path id := by
    have below' : (table.relink tail other).rootOf id = global := by
      rw [getLast?_outward, outward, ← getLast?_outward, below]
    rw [ScopeTable.path, ScopeTable.path, outward, below, below', List.append_assoc]
    exact (List.prefix_append_right_inj _).mpr ahead
  have held : table.frameOf other = added.entries := by rw [frameOf, there]; rfl
  have frames := path.map table.frameOf
  rw [List.map_append, List.map_singleton, held] at frames
  rw [ScopeTable.frames, ScopeTable.frames, List.map_congr_left fun id _ =>
    frameOf_relink table tail other id]
  exact frames

end Anchored

/-- Attaching answers whether the other scope is one that is new to the chain. -/
theorem Anchored.attachImport?_eq (anchored : table.Anchored)
    (found : table.get? global = some scope) (top : scope.parent = 0) (other : ScopeId) :
    table.attachImport? global other = some
      (if other ≠ 0 ∧ other ∉ global :: table.importsOf global then
        (true, table.relink (lastOf global (table.importsOf global)) other)
      else (false, table)) := by
  have nonzero : global ≠ 0 := Nat.ne_of_gt (le_size found).1
  unfold attachImport?
  rw [anchored.importChain?_eq found, anchored.rootOf_global found top]
  by_cases none : other = 0
  · simp [none]
  by_cases same : global = other
  · simp [same]
  rw [if_neg (by simp [nonzero, none, same])]
  simp only [Option.bind_eq_bind, Option.bind_some]
  by_cases member : other ∈ table.importsOf global
  · simp [member]
  rw [if_neg member, if_pos ⟨none, by simp [member, Ne.symm same]⟩]
  obtain ⟨last, there⟩ := anchored.exists_last found
  rw [lastOf] at there
  simp only [there]
  rfl

theorem known_of_root? (isRoot : table.root? id = some root) (nonzero : root ≠ 0) :
    ∃ scope, table.get? id = some scope := by
  by_contra absent
  by_cases zero : id = 0
  · subst zero
    rw [root?, outward_zero] at isRoot
    exact nonzero (Option.some.inj isRoot).symm
  · have missing : table.get? id = none := by
      cases found : table.get? id with
      | none => rfl
      | some scope => exact absurd ⟨scope, found⟩ absent
    rw [root?, outward, outwardWithin, if_neg zero, missing] at isRoot
    cases isRoot

/-- What was found is found again, and the new import adds what it binds. -/
theorem Anchored.findFrom?_relink (anchored : table.Anchored) (nonzero : global ≠ 0)
    (below : table.root? id = some global) (there : table.get? other = some added)
    (fresh : other ∉ global :: table.importsOf global) (key : Key) :
    ∃ meaning more, table.findFrom? id key = some meaning ∧
      (table.relink (lastOf global (table.importsOf global)) other).findFrom? id key =
        some ((meaning.or (added.find? key)).or more) := by
  obtain ⟨scope, found⟩ := known_of_root? below nonzero
  have isRoot : table.rootOf id = global := Option.some.inj ((anchored.root?_eq found).symm.trans below)
  obtain ⟨rest, frames⟩ := anchored.frames_relink found isRoot there fresh
  have anchored' := anchored.relink (Option.isSome_iff_exists.mpr ⟨added, there⟩)
    (lastOf global (table.importsOf global))
  obtain ⟨scope', found', -⟩ :=
    table.grows_relink (lastOf global (table.importsOf global)) other id scope found
  refine ⟨_, Lexical.Env.find? rest key, anchored.findFrom?_eq found key, ?_⟩
  rw [anchored'.findFrom?_eq found', ← frames]
  simp only [Lexical.Env.find?, List.findSome?_append, List.findSome?_singleton]
  rfl

/-- The walks from a scope end, and what look-ups may visit is what they meet. -/
theorem Anchored.walks_end (anchored : table.Anchored) (known : id = 0 ∨ (table.get? id).isSome) :
    ∃ outer chain scopes,
      table.Outwards id outer ∧ table.root? id = some (outer.getLast?.getD 0) ∧
      table.Imports (outer.getLast?.getD 0) chain ∧ table.importChain? id = some chain ∧
      chain.Nodup ∧ outer.getLast?.getD 0 ∉ chain ∧
      (outer ++ chain).map table.get? = scopes.map some ∧ table.visible? id = some scopes := by
  rcases known with rfl | known
  · have absent : table.get? 0 = none := rfl
    exact ⟨[], [], [], .out, by simp [root?, outward_zero], .none,
      by simp [importChain?, root?, outward_zero, absent], List.nodup_nil, List.not_mem_nil, rfl,
      by simp [visible?, importChain?, root?, outward_zero, absent]⟩
  · obtain ⟨scope, found⟩ := Option.isSome_iff_exists.mp known
    obtain ⟨root, isRoot, -⟩ := anchored.root_isGlobal found
    obtain ⟨apart, nodup⟩ := List.nodup_cons.mp (anchored.isWhole (table.rootOf id)).nodup
    refine ⟨(table.outward id).scopes.map Prod.fst, table.importsOf (table.rootOf id), _,
      anchored.outwards found, ?_, ?_, anchored.importChain?_eq found, nodup, ?_, ?_,
      anchored.visible?_eq found⟩
    · rw [anchored.root?_eq found, getLast?_outward]
    · rw [← getLast?_outward]
      exact anchored.imports isRoot
    · rw [← getLast?_outward]
      exact apart
    · exact (map_some_filterMap fun other member => Option.isSome_iff_exists.mpr
        (anchored.exists_of_mem_path found member)).symm

/-- Wherever operations have led, walks end. Outwards a walk comes to the outermost scope, and
along imports it meets neither that one nor any scope twice; look-ups take the scopes met, in
this order. Attaching answers whether the other scope is new to the chain; if it is, everything
that had a meaning keeps it, and what the other scope binds has a meaning too. -/
theorem Operated.walks_end_and_attaching_adds (operated : table.Operated Known) :
    (∀ id, id = 0 ∨ (table.get? id).isSome → ∃ outer chain scopes,
      table.Outwards id outer ∧ table.root? id = some (outer.getLast?.getD 0) ∧
      table.Imports (outer.getLast?.getD 0) chain ∧ table.importChain? id = some chain ∧
      chain.Nodup ∧ outer.getLast?.getD 0 ∉ chain ∧
      (outer ++ chain).map table.get? = scopes.map some ∧
      (∀ key, table.findFrom? id key = some (scopes.findSome? (·.find? key))) ∧
      (∀ name, table.overloads? id name = some (unseenOverloads name [] scopes)) ∧
      table.visibleNames? id = some ((scopes.flatMap (·.keys.map Key.name)).foldr insertName [])) ∧
    ∀ global scope other, table.get? global = some scope → scope.parent = 0 →
      other = 0 ∨ (table.get? other).isSome → ∃ chain joined after,
        table.importChain? global = some chain ∧
        table.attachImport? global other = some (joined, after) ∧
        (joined = true ↔ other ≠ 0 ∧ other ≠ global ∧ other ∉ chain) ∧
        (joined = true → ∀ id key, table.root? id = some global →
          (∀ decl, table.findFrom? id key = some (some decl) →
            after.findFrom? id key = some (some decl)) ∧
          ∀ added decl, table.get? other = some added → added.find? key = some decl →
            table.findFrom? id key = some none → after.findFrom? id key = some (some decl)) := by
  have anchored := operated.anchored
  constructor
  · intro id known
    obtain ⟨outer, chain, scopes, outwards, root, imports, isChain, nodup, apart, met, visible⟩ :=
      anchored.walks_end known
    refine ⟨outer, chain, scopes, outwards, root, imports, isChain, nodup, apart, met,
      findFrom?_of_visible? visible, fun name => ?_, ?_⟩
    · rw [overloads?, visible, Option.map_some]
    · rw [visibleNames?, visible]
      rfl
  · intro global scope other found top known
    have nonzero : global ≠ 0 := Nat.ne_of_gt (le_size found).1
    have isChain := anchored.importChain?_eq found
    rw [anchored.rootOf_global found top] at isChain
    have attaches := anchored.attachImport?_eq found top other
    split at attaches
    · next fresh =>
      have new : other ≠ 0 ∧ other ≠ global ∧ other ∉ table.importsOf global := by simpa using fresh
      refine ⟨_, _, _, isChain, attaches, iff_of_true rfl new, fun _ id key below => ?_⟩
      obtain ⟨added, there⟩ := Option.isSome_iff_exists.mp (known.resolve_left new.1)
      obtain ⟨meaning, more, before, after⟩ :=
        anchored.findFrom?_relink nonzero below there fresh.2 key
      rw [before, after]
      constructor
      · intro decl means
        rw [Option.some.inj means]
        rfl
      · intro added' decl there' bound unbound
        cases there.symm.trans there'
        rw [Option.some.inj unbound, bound]
        rfl
    · next old =>
      have stale : ¬ (other ≠ 0 ∧ other ≠ global ∧ other ∉ table.importsOf global) := by
        simpa using old
      exact ⟨_, _, _, isChain, attaches, iff_of_false Bool.false_ne_true stale,
        fun joined => absurd joined Bool.false_ne_true⟩

/-- Three global scopes import each other in a circle, and a look-up from a callable in the first
of them finds what a fourth one binds as soon as that one is attached. -/
theorem walks_end_and_attaching_adds_circle : ∃ table : ScopeTable, table.Operated Known ∧
    table.importChain? 5 = some [2, 3] ∧ table.importChain? 3 = some [1, 2] ∧
    table.findFrom? 5 (.ofName "far") = some none ∧ ∃ after,
      table.attachImport? 1 4 = some (true, after) ∧
      after.findFrom? 5 (.ofName "far") = some (some 9) := by
  have empty : Operated Known {} := .empty
  have roots := ((empty.step (.newRoot _ 1 {})).step (.newRoot _ 2 {})).step (.newRoot _ 3 {})
  have far := (roots.step (.newRoot _ 4 {})).step
    (@Operation.bindIn Known _ _ 4 (.ofName "far") 9 rfl)
  have inner := (far.step (@Operation.enter Known _ 1 rfl)).step (.openScope _ .function 0 {})
  have circle := ((inner.step (@Operation.attach Known _ _ 1 2 true (.inr rfl) rfl)).step
    (@Operation.attach Known _ _ 2 3 true (.inr rfl) rfl)).step
    (@Operation.attach Known _ _ 3 1 true (.inr rfl) rfl)
  obtain ⟨chain, joined, after, isChain, attached, iff, adds⟩ :=
    circle.walks_end_and_attaching_adds.2 1 _ 4 rfl rfl (.inr rfl)
  have same : [2, 3] = chain := Option.some.inj isChain
  obtain rfl : joined = true := iff.mpr ⟨by decide, by decide, same ▸ by decide⟩
  exact ⟨_, circle, rfl, rfl, rfl, after, attached, (adds rfl 5 _ rfl).2 _ 9 rfl rfl rfl⟩

end

end ScopeTable

end TreeCheck
