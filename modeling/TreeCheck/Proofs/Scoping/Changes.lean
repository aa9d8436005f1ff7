/-
What changes of a table do to paths and frames. Binding adds to the frame of one scope;
opening puts a scope in front of the path of the current one; closing takes it away
again. Links of scopes that are there already stay as they are, and so do their paths.
-/

import TreeCheck.Proofs.Scoping.Tables

namespace TreeCheck

open Lexical (Frame Env)

variable {scope : Scope} {other id linked : ScopeId} {change : Scope → Scope}

namespace Scope

/-- Two scopes hold the same and have the same links. -/
structure Like (scope other : Scope) : Prop where
  entries : other.entries = scope.entries
  keys : other.keys = scope.keys
  overloads : other.overloads = scope.overloads
  parent : other.parent = scope.parent
  importLink : other.importLink = scope.importLink

theorem Like.sound {other : Scope} (like : scope.Like other) (sound : scope.Sound) : other.Sound :=
  sound.of_same like.entries like.keys like.overloads

theorem sound_empty (entries : scope.entries = []) (keys : scope.keys = [])
    (overloads : scope.overloads = []) : scope.Sound where
  keys := by rw [entries, keys]; rfl
  nodup := by rw [keys]; exact List.nodup_nil
  indexed := by simp [overloadKeys, overloads, keys]

end Scope

namespace ScopeTable

theorem mem_ids_iff (table : ScopeTable) :
    id ∈ table.scopes.ids ↔ ∃ scope, table.get? id = some scope := by
  rw [← Option.isSome_iff_exists]
  exact table.scopes.mem_ids_iff id

theorem Anchored.mem_ids_of_next? {table : ScopeTable} (anchored : table.Anchored)
    (led : table.next? id = some other) : other ∈ table.scopes.ids := by
  obtain ⟨scope, found, rfl, nonzero⟩ := next?_eq_some.mp led
  exact table.mem_ids_iff.mpr (anchored.linked id scope found nonzero)

theorem length_ids_le (table : ScopeTable) : table.scopes.ids.length ≤ table.scopes.size :=
  Nat.le_of_eq (List.length_range' ..)

theorem absent_empty : ¬ get? {} id = some scope := by
  intro found
  have := le_size found
  simp only [Arena.size, List.size_toArray, List.length_nil] at this
  lia

theorem sound_empty : Sound {} :=
  ⟨fun _ _ found => absurd found absent_empty, fun _ _ found => absurd found absent_empty,
    fun _ _ found => absurd found absent_empty⟩

/-- A table has become another one: no scope is lost, no link is changed, and no entry unless
it is one of a certain scope. -/
def Keeps (changing : ScopeId) (before after : ScopeTable) : Prop :=
  ∀ id scope, before.get? id = some scope → ∃ scope', after.get? id = some scope' ∧
    scope'.parent = scope.parent ∧ scope'.importLink = scope.importLink ∧
    (id ≠ changing → scope'.entries = scope.entries)

namespace Keeps

variable {changing : ScopeId} {before middle after : ScopeTable}

theorem refl (changing : ScopeId) (table : ScopeTable) : Keeps changing table table :=
  fun _ scope found => ⟨scope, found, rfl, rfl, fun _ => rfl⟩

theorem trans (first : Keeps changing before middle) (second : Keeps changing middle after) :
    Keeps changing before after := by
  intro id scope found
  obtain ⟨scope', found', parent, link, same⟩ := first id scope found
  obtain ⟨scope'', found'', parent', link', same'⟩ := second id scope' found'
  exact ⟨scope'', found'', parent'.trans parent, link'.trans link, fun other =>
    (same' other).trans (same other)⟩

theorem of_zero (keeps : Keeps 0 before after) : Keeps changing before after := by
  intro id scope found
  obtain ⟨scope', found', parent, link, same⟩ := keeps id scope found
  have := le_size found
  exact ⟨scope', found', parent, link, fun _ => same (by lia)⟩

section

variable (keeps : Keeps changing before after)

include keeps

/-- What changes in a scope that was not there before does not count. -/
theorem of_fresh (fresh : before.get? changing = none) :
    Keeps 0 before after := by
  intro id scope found
  obtain ⟨scope', found', parent, link, same⟩ := keeps id scope found
  refine ⟨scope', found', parent, link, fun _ => same ?_⟩
  rintro rfl
  rw [fresh] at found
  nomatch found

theorem size_le : before.scopes.size ≤ after.scopes.size := by
  by_cases empty : before.scopes.size = 0
  · lia
  · obtain ⟨scope, found⟩ := Option.isSome_iff_exists.mp
      ((before.isSome_get?_iff before.scopes.size).mpr (by lia))
    obtain ⟨scope', found', _⟩ := keeps _ scope found
    exact (le_size found').2

theorem frameOf_eq
    (found : before.get? id = some scope) (other : id ≠ changing) :
    after.frameOf id = before.frameOf id := by
  obtain ⟨scope', found', _, _, same⟩ := keeps id scope found
  simp [frameOf, found, found', same other]

theorem next?_eq
    (found : before.get? id = some scope) : after.next? id = before.next? id := by
  obtain ⟨scope', found', _, link, _⟩ := keeps id scope found
  simp [next?, found, found', link]

theorem importsOf_eq (sound : before.Sound)
    (found : before.get? id = some scope) : after.importsOf id = before.importsOf id := by
  have known {item : ScopeId} (member : item ∈ id :: before.scopes.ids) :
      ∃ scope, before.get? item = some scope := by
    rcases List.mem_cons.mp member with rfl | member
    · exact ⟨scope, found⟩
    · exact before.mem_ids_iff.mp member
  refine chain_congr before.scopes.ids (fun _ _ => sound.anchored.mem_ids_of_next?)
    (fun item member => ?_) before.length_ids_le (Nat.le_trans before.length_ids_le keeps.size_le)
  obtain ⟨scope, found⟩ := known member
  exact keeps.next?_eq found

/-- Scopes that were there keep their paths. -/
theorem path_eq (sound : before.Sound) (sound' : after.Sound)
    (found : before.get? id = some scope) : after.path id = before.path id := by
  refine sound.anchored.induction
    (motive := fun id _ => after.path id = before.path id) ?_ ?_ id scope found
  · intro id scope found top
    obtain ⟨scope', found', parent, _, _⟩ := keeps id scope found
    rw [sound.anchored.path_global found top, sound'.anchored.path_global found' (parent.trans top),
      keeps.importsOf_eq sound found]
  · intro id scope outer found inner _ inductionHypothesis
    obtain ⟨scope', found', parent, _, _⟩ := keeps id scope found
    rw [sound.anchored.path_inner found inner, sound'.anchored.path_inner found' (by rwa [parent]),
      parent,
      inductionHypothesis]

theorem frames_eq_map {ids : List ScopeId} (known : ∀ id ∈ ids, ∃ scope, before.get? id = some scope)
    (others : changing ∉ ids) : ids.map after.frameOf = ids.map before.frameOf := by
  refine List.map_congr_left fun id member => ?_
  obtain ⟨scope, found⟩ := known id member
  exact keeps.frameOf_eq found (ne_of_mem_of_not_mem member others)

/-- Nothing but the frame of the changing scope changes. -/
theorem frames_changing (sound : before.Sound)
    (sound' : after.Sound) (found : before.get? changing = some scope) :
    after.frames changing = after.frameOf changing :: (before.frames changing).tail := by
  obtain ⟨rest, path, once⟩ := sound.path_eq_cons found
  have known : ∀ id ∈ rest, ∃ scope, before.get? id = some scope := fun id member =>
    let ⟨scope, there, _⟩ := sound.exists_of_mem_path found (path ▸ .tail _ member)
    ⟨scope, there⟩
  rw [frames, frames, keeps.path_eq sound sound' found, path, List.map_cons, List.map_cons,
    List.tail_cons, keeps.frames_eq_map known once]

end

/-- Scopes whose path the changing scope is not on see what they saw. -/
theorem frames_eq (keeps : Keeps 0 before after) (sound : before.Sound) (sound' : after.Sound)
    (found : before.get? id = some scope) : after.frames id = before.frames id := by
  have known : ∀ other ∈ before.path id, ∃ scope, before.get? other = some scope :=
    fun other member =>
      let ⟨scope, there, _⟩ := sound.exists_of_mem_path found member
      ⟨scope, there⟩
  rw [frames, frames, keeps.path_eq sound sound' found]
  refine keeps.frames_eq_map known fun member => ?_
  obtain ⟨scope, there⟩ := known 0 member
  nomatch there

end Keeps

variable {table : ScopeTable} {scope : Scope}

theorem get?_modify (table : ScopeTable) (id other : ScopeId) (change : Scope → Scope) :
    (table.modify id change).get? other =
      if other = id then (table.get? other).map change else table.get? other :=
  Arena.get?_modify ..

/-! ### Changes that do not count -/

theorem keeps_modify (id : ScopeId) (like : ∀ scope : Scope, scope.Like (change scope)) :
    Keeps 0 table (table.modify id change) := by
  intro other scope found
  rw [get?_modify, found]
  split
  · exact ⟨_, rfl, (like scope).parent, (like scope).importLink, fun _ => (like scope).entries⟩
  · exact ⟨scope, rfl, rfl, rfl, fun _ => rfl⟩

theorem Sound.modify (sound : table.Sound) (id : ScopeId)
    (like : ∀ scope : Scope, scope.Like (change scope)) : (table.modify id change).Sound := by
  have back {other : ScopeId} {scope' : Scope}
      (found : (table.modify id change).get? other = some scope') :
      ∃ scope, table.get? other = some scope ∧ (scope' = scope ∨ scope.Like scope') := by
    rw [get?_modify] at found
    split at found
    · obtain ⟨scope, there, rfl⟩ := Option.map_eq_some_iff.mp found
      exact ⟨scope, there, .inr (like scope)⟩
    · exact ⟨scope', found, .inl rfl⟩
  constructor
  · intro other scope' found
    obtain ⟨scope, there, rfl | like⟩ := back found
    · exact sound.scopes other _ there
    · exact like.sound (sound.scopes other scope there)
  · intro other scope' found
    obtain ⟨scope, there, rfl | like⟩ := back found
    · exact sound.outward other _ there
    · exact like.parent ▸ sound.outward other scope there
  · intro other scope' found nonzero
    have link : ∃ scope, table.get? other = some scope ∧ scope'.importLink = scope.importLink := by
      obtain ⟨scope, there, rfl | like⟩ := back found
      · exact ⟨_, there, rfl⟩
      · exact ⟨scope, there, like.importLink⟩
    obtain ⟨scope, there, same⟩ := link
    rw [same] at nonzero ⊢
    obtain ⟨target, there', top⟩ := sound.linked other scope there nonzero
    obtain ⟨target', found', parent, _⟩ := keeps_modify id like _ target there'
    exact ⟨target', found', parent.trans top⟩

/-! ### Binding -/

theorem keeps_insert (table : ScopeTable) (id : ScopeId) (key : Key) (decl : DeclId) :
    Keeps id table (table.modify id (·.insert key decl)) := by
  intro other scope found
  rw [get?_modify, found]
  split
  · next same => exact ⟨_, rfl, rfl, rfl, fun different => absurd same different⟩
  · exact ⟨scope, rfl, rfl, rfl, fun _ => rfl⟩

theorem Sound.insert (sound : table.Sound) (found : table.get? id = some scope) {key : Key}
    (free : scope.find? key = none) (decl : DeclId) :
    (table.modify id (·.insert key decl)).Sound := by
  have back {other : ScopeId} {scope' : Scope}
      (found' : (table.modify id (·.insert key decl)).get? other = some scope') :
      ∃ scope'', table.get? other = some scope'' ∧ scope'.parent = scope''.parent ∧
        scope'.importLink = scope''.importLink ∧ (scope''.Sound → scope'.Sound) := by
    rw [get?_modify] at found'
    split at found'
    · next same =>
      subst same
      rw [found] at found'
      cases found'
      exact ⟨scope, found, rfl, rfl, fun sound => sound.insert free decl⟩
    · exact ⟨scope', found', rfl, rfl, fun sound => sound⟩
  constructor
  · intro other scope' found'
    obtain ⟨old, there, _, _, transfer⟩ := back found'
    exact transfer (sound.scopes other old there)
  · intro other scope' found'
    obtain ⟨old, there, parent, _⟩ := back found'
    exact parent ▸ sound.outward other old there
  · intro other scope' found' nonzero
    obtain ⟨old, there, _, link, _⟩ := back found'
    rw [link] at nonzero ⊢
    obtain ⟨target, there', top⟩ := sound.linked other old there nonzero
    obtain ⟨target', found'', parent, _⟩ := keeps_insert table id key decl _ target there'
    exact ⟨target', found'', parent.trans top⟩

theorem Sound.frames_eq_cons (sound : table.Sound) (found : table.get? id = some scope) :
    table.frames id = scope.entries :: (table.frames id).tail := by
  obtain ⟨rest, path, _⟩ := sound.path_eq_cons found
  simp [frames, path, frameOf, found]

/-- Binding adds to the innermost frame, or finds the key taken there. -/
theorem Sound.bind_cases (sound : table.Sound) (found : table.get? table.current = some scope)
    (key : Key) (decl : DeclId) :
    (∃ after, table.bind key decl = .ok after ∧ after.Sound ∧ after.stack = table.stack ∧
        Keeps table.current table after ∧
        after.frames table.current = (table.frames table.current).declare key decl) ∨
      ∃ existing, table.bind key decl = .error (.alreadyBound key existing) ∧
        (table.frames table.current).declare key decl = table.frames table.current := by
  cases taken : scope.find? key with
  | none =>
    have keeps := keeps_insert table table.current key decl
    have sound' := sound.insert found taken decl
    refine .inl ⟨_, ?_, sound', rfl, keeps, ?_⟩
    · simp [bind, bindIn, found, taken]
    · have free : scope.entries.lookup key = none := taken
      rw [keeps.frames_changing sound sound' found, sound.frames_eq_cons found]
      simp [Env.declare, free, frameOf, get?_modify, found, Scope.insert]
  | some existing =>
    have held : scope.entries.lookup key = some existing := taken
    refine .inr ⟨existing, ?_, ?_⟩
    · simp [bind, bindIn, found, taken]
    · rw [sound.frames_eq_cons found]
      simp [Env.declare, held]

theorem Sound.findLocal?_eq (sound : table.Sound) (found : table.get? table.current = some scope)
    (key : Key) : table.findLocal? key = ((table.frames table.current).headD []).lookup key := by
  rw [findLocal?, found, sound.frames_eq_cons found]
  rfl

/-! ### Opening and closing -/

theorem get?_next (table : ScopeTable) : table.get? table.scopes.next = none := by
  have absent : ¬ (table.get? table.scopes.next).isSome := by
    rw [table.isSome_get?_iff, Arena.next]
    lia
  simpa using absent

/-- The table with one more scope. -/
def push (table : ScopeTable) (scope : Scope) : ScopeTable :=
  { table with scopes := table.scopes.push scope }

theorem keeps_push (table : ScopeTable) (added : Scope) : Keeps 0 table (table.push added) :=
  fun _ scope found => ⟨scope, Arena.get?_push_of_some added found, rfl, rfl, fun _ => rfl⟩

theorem Sound.push (sound : table.Sound) {added : Scope} (inner : added.parent ≤ table.scopes.size)
    (empty : added.Sound) (unlinked : added.importLink = 0) : (table.push added).Sound where
  scopes := Arena.forall_push sound.scopes empty
  outward := Arena.forall_push sound.outward (Nat.lt_succ_of_le inner)
  linked := by
    refine Arena.forall_push (fun id scope found nonzero => ?_) fun nonzero => absurd unlinked nonzero
    obtain ⟨other, there, top⟩ := sound.linked id scope found nonzero
    exact ⟨other, Arena.get?_push_of_some added there, top⟩

/-- A new scope changes nothing but the list of children of its parent. -/
theorem newScope_spec (sound : table.Sound) (kind : ScopeKind) {parent : ScopeId}
    (known : parent ≤ table.scopes.size) (owner : DeclId) (span : Span) :
    ∃ after, table.newScope kind parent owner span = (table.scopes.next, after) ∧
      after.stack = table.stack ∧ after.Sound ∧ Keeps 0 table after ∧
      ∃ scope, after.get? table.scopes.next = some scope ∧ scope.parent = parent ∧
        scope.importLink = 0 ∧ scope.entries = [] := by
  let listed := table.modify parent fun scope =>
    { scope with children := scope.children ++ [table.scopes.next] }
  have like (scope : Scope) : scope.Like
      { scope with children := scope.children ++ [table.scopes.next] } := ⟨rfl, rfl, rfl, rfl, rfl⟩
  have size : listed.scopes.size = table.scopes.size := Arena.size_modify ..
  have next : table.scopes.next = listed.scopes.next := by rw [Arena.next, Arena.next, size]
  obtain ⟨unit, creates⟩ : ∃ unit, table.newScope kind parent owner span =
      (table.scopes.next, listed.push { kind, parent, owner, span, unit }) := ⟨_, rfl⟩
  let added : Scope := { kind, parent, owner, span, unit }
  refine ⟨listed.push added, creates, rfl, ?_, ?_, added, ?_, rfl, rfl, rfl⟩
  · exact (sound.modify parent like).push (size.symm ▸ known) (Scope.sound_empty rfl rfl rfl) rfl
  · exact (keeps_modify parent like).trans (keeps_push listed added)
  · rw [next]
    exact Arena.get?_push_self ..

/-- What opening a scope inside the current one does. -/
structure Opens (before after : ScopeTable) : Prop where
  sound : after.Sound
  keeps : Keeps 0 before after
  stack : after.stack = before.scopes.next :: before.stack
  inside : ∃ scope, after.get? before.scopes.next = some scope ∧ scope.parent = before.current
  frames : after.frames before.scopes.next = [] :: before.frames before.current

theorem Sound.enter (sound : table.Sound) (id : ScopeId) : (table.enter id).Sound :=
  ⟨sound.scopes, sound.outward, sound.linked⟩

theorem Sound.opens (sound : table.Sound) (found : table.get? table.current = some scope)
    (kind : ScopeKind) (owner : DeclId) (span : Span) :
    ∃ after, table.openScope kind owner span = (table.scopes.next, after) ∧ Opens table after := by
  obtain ⟨after, created, stack, sound', keeps, inner, there, parent, _, empty⟩ :=
    newScope_spec sound kind (le_size found).2 owner span
  have nonzero : inner.parent ≠ 0 := by
    have := le_size found
    rw [parent]
    lia
  have entered := sound'.enter table.scopes.next
  have kept : Keeps 0 table (after.enter table.scopes.next) := keeps
  have there' : (after.enter table.scopes.next).get? table.scopes.next = some inner := there
  have path : (after.enter table.scopes.next).path table.scopes.next =
      table.scopes.next :: table.path table.current := by
    rw [entered.anchored.path_inner there' nonzero, parent, kept.path_eq sound entered found]
  have outer := kept.frames_eq sound entered found
  rw [ScopeTable.frames, kept.path_eq sound entered found] at outer
  refine ⟨after.enter table.scopes.next, ?_, entered, kept, ?_, ⟨inner, there', parent⟩, ?_⟩
  · simp [openScope, created, ScopeTable.enter]
  · simp [ScopeTable.enter, stack]
  · rw [ScopeTable.frames, path, List.map_cons, outer]
    simp [frameOf, there', empty]

theorem closes (sound : table.Sound) :
    table.close.Sound ∧ Keeps 0 table table.close ∧ table.close.stack = table.stack.tail := by
  have like (scope : Scope) : scope.Like { scope with closed := true } := ⟨rfl, rfl, rfl, rfl, rfl⟩
  have sound' := sound.modify table.current like
  exact ⟨⟨sound'.scopes, sound'.outward, sound'.linked⟩, keeps_modify table.current like, rfl⟩

/-- Whatever happens in a scope of its own leaves the scopes around it as they were. -/
theorem Opens.closed {before opened after : ScopeTable} (opens : Opens before opened)
    (keeps : Keeps before.scopes.next opened after) (stack : after.stack = opened.stack)
    (sound : after.Sound) :
    after.close.Sound ∧ Keeps 0 before after.close ∧ after.close.stack = before.stack := by
  obtain ⟨sound', kept, popped⟩ := closes sound
  refine ⟨sound', Keeps.trans ?_ kept, ?_⟩
  · exact (opens.keeps.of_zero.trans keeps).of_fresh before.get?_next
  · rw [popped, stack, opens.stack, List.tail_cons]

/-- The global scope of a new unit is not opened and sees nothing. -/
theorem newRoot_spec (sound : table.Sound) (unit : UnitId) (span : Span) :
    ∃ after, table.newRoot unit span = (table.scopes.next, after) ∧ after.stack = table.stack ∧
      after.Sound ∧ Keeps 0 table after ∧
      ∃ scope, after.get? table.scopes.next = some scope ∧ scope.parent = 0 ∧
        scope.importLink = 0 ∧ scope.entries = [] := by
  obtain ⟨after, created, stack, sound', keeps, inner, there, top, unlinked, empty⟩ :=
    newScope_spec sound .global (Nat.zero_le _) 0 span
  have like (scope : Scope) : scope.Like { scope with unit } := ⟨rfl, rfl, rfl, rfl, rfl⟩
  refine ⟨after.modify table.scopes.next fun scope => { scope with unit }, ?_, stack,
    sound'.modify _ like, keeps.trans (keeps_modify _ like), { inner with unit }, ?_, top, unlinked,
    empty⟩
  · simp only [newRoot, created]
  · rw [get?_modify, if_pos rfl, there]
    rfl

/-! ### Import links -/

/-- The table in which a scope has another import link. -/
def relink (table : ScopeTable) (id other : ScopeId) : ScopeTable :=
  table.modify id fun scope => { scope with importLink := other }

theorem get?_relink (found : table.get? id = some scope) (other linked : ScopeId) :
    ∃ scope', (table.relink other linked).get? id = some scope' ∧ scope'.parent = scope.parent ∧
      scope'.entries = scope.entries ∧ scope'.keys = scope.keys ∧
      scope'.overloads = scope.overloads ∧
      scope'.importLink = if id = other then linked else scope.importLink := by
  rw [relink, get?_modify, found]
  split
  · exact ⟨_, rfl, rfl, rfl, rfl, rfl, rfl⟩
  · exact ⟨scope, rfl, rfl, rfl, rfl, rfl, rfl⟩

theorem get?_of_relink {scope' : Scope}
    (found : (table.relink other linked).get? id = some scope') :
    ∃ scope, table.get? id = some scope := by
  rw [relink, get?_modify] at found
  split at found
  · obtain ⟨scope, there, _⟩ := Option.map_eq_some_iff.mp found
    exact ⟨scope, there⟩
  · exact ⟨scope', found⟩

/-- Linking a scope to a global scope keeps a table sound. -/
theorem Sound.relink (sound : table.Sound) (there : table.get? linked = some scope)
    (top : scope.parent = 0) (id : ScopeId) : (table.relink id linked).Sound := by
  have global {other : ScopeId} {target : Scope} (there : table.get? other = some target)
      (top : target.parent = 0) :
      ∃ target', (table.relink id linked).get? other = some target' ∧ target'.parent = 0 := by
    obtain ⟨target', there', parent, _⟩ := get?_relink there id linked
    exact ⟨target', there', parent.trans top⟩
  constructor
  · intro other scope' found'
    obtain ⟨old, found⟩ := get?_of_relink found'
    obtain ⟨same, found'', parent, entries, keys, overloads, _⟩ := get?_relink found id linked
    cases found'.symm.trans found''
    exact (sound.scopes other old found).of_same entries keys overloads
  · intro other scope' found'
    obtain ⟨old, found⟩ := get?_of_relink found'
    obtain ⟨same, found'', parent, _⟩ := get?_relink found id linked
    cases found'.symm.trans found''
    exact parent ▸ sound.outward other old found
  · intro other scope' found' nonzero
    obtain ⟨old, found⟩ := get?_of_relink found'
    obtain ⟨same, found'', _, _, _, _, link⟩ := get?_relink found id linked
    cases found'.symm.trans found''
    rw [link] at nonzero ⊢
    split
    · exact global there top
    · next different =>
      rw [if_neg different] at nonzero
      obtain ⟨target, there', top'⟩ := sound.linked other old found nonzero
      exact global there' top'

end ScopeTable

end TreeCheck
