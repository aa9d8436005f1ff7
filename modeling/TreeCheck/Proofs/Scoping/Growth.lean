/-
How a table of scopes grows. A scope keeps its place and what it holds; keys are only
added behind those that are there. What has to be true of the links between scopes, and
of the index of signatures, is kept by every operation on a table: a new scope under an
open one or without a parent, a binding, a closed scope, a new import link.

`ScopeTable.Formed` collects what is true of every table that comes about in this way, and
`faults_eq_nil` says that the check of a table then finds nothing.
-/

import TreeCheck.Proofs.Scoping.Changes

namespace TreeCheck

variable {table before after bound : ScopeTable} {key : Key} {decl owner : DeclId} {scope : Scope}
  {index : List (String × List Key)} {other parent id global : ScopeId} {name : String}
  {keys : List Key} {change : Scope → Scope} {kind : ScopeKind} {span : Span} {news : DeclId → Prop}

namespace Scope

/-- A scope has become another one: it is where it was, and holds more. -/
structure Grows (before after : Scope) : Prop where
  kind : after.kind = before.kind
  parent : after.parent = before.parent
  owner : after.owner = before.owner
  stmt : after.stmt = before.stmt
  keys : before.keys <+: after.keys
  entries : before.entries <+: after.entries

theorem Grows.refl (scope : Scope) : scope.Grows scope :=
  ⟨rfl, rfl, rfl, rfl, List.prefix_rfl, List.prefix_rfl⟩

theorem Grows.trans {first second third : Scope} (before : first.Grows second)
    (after : second.Grows third) : first.Grows third :=
  ⟨after.kind.trans before.kind, after.parent.trans before.parent, after.owner.trans before.owner,
    after.stmt.trans before.stmt, before.keys.trans after.keys, before.entries.trans after.entries⟩

/-- What is bound stays bound to the same declaration. -/
theorem Grows.find? {before after : Scope} (grows : before.Grows after)
    (found : before.find? key = some decl) : after.find? key = some decl := by
  obtain ⟨added, same⟩ := grows.entries
  have held : before.entries.lookup key = some decl := found
  show after.entries.lookup key = some decl
  rw [← same, List.lookup_append, held]
  rfl

theorem grows_insert (scope : Scope) (key : Key) (decl : DeclId) :
    scope.Grows (scope.insert key decl) :=
  ⟨rfl, rfl, rfl, rfl, List.prefix_append .., List.prefix_append ..⟩

theorem mem_entries_of_find? (found : scope.find? key = some decl) :
    (key, decl) ∈ scope.entries := by
  obtain ⟨before, behind, same, -⟩ := List.lookup_eq_some_iff.mp found
  rw [same]
  exact List.mem_append_right _ (.head _)

/-! ### The index of signatures -/

theorem sum_indexKey (index : List (String × List Key)) (key : Key) :
    ((indexKey index key).map fun (_, keys) => keys.length).foldr (· + ·) 0 =
      (index.map fun (_, keys) => keys.length).foldr (· + ·) 0 + 1 := by
  induction index with
  | nil => rfl
  | cons entry rest inductionHypothesis =>
    obtain ⟨name, keys⟩ := entry
    unfold indexKey
    split
    · simp only [List.map_cons, List.foldr_cons, List.length_append, List.length_singleton]
      lia
    · simp only [List.map_cons, List.foldr_cons, inductionHypothesis]
      lia

theorem mem_indexKey {other : Key} (entry : (name, keys) ∈ indexKey index key)
    (member : other ∈ keys) :
    (other = key ∧ name = key.name) ∨ ∃ keys, (name, keys) ∈ index ∧ other ∈ keys := by
  induction index with
  | nil =>
    cases List.mem_singleton.mp entry
    exact .inl ⟨List.mem_singleton.mp member, rfl⟩
  | cons first rest inductionHypothesis =>
    obtain ⟨here, held⟩ := first
    unfold indexKey at entry
    split at entry
    · next same =>
      rcases List.mem_cons.mp entry with found | deeper
      · cases found
        rcases List.mem_append.mp member with old | new
        · exact .inr ⟨held, .head _, old⟩
        · exact .inl ⟨List.mem_singleton.mp new, same⟩
      · exact .inr ⟨keys, .tail _ deeper, member⟩
    · rcases List.mem_cons.mp entry with found | deeper
      · cases found
        exact .inr ⟨keys, .head _, member⟩
      · rcases inductionHypothesis deeper with new | ⟨keys, there, member⟩
        · exact .inl new
        · exact .inr ⟨keys, .tail _ there, member⟩

/-- The index is what comes of indexing the signature keys in the order of binding. -/
def Indexed (scope : Scope) : Prop :=
  scope.overloads = (scope.keys.filter Key.isSignature).foldl indexKey []

theorem Indexed.insert (indexed : scope.Indexed) (key : Key) (decl : DeclId) :
    (scope.insert key decl).Indexed := by
  unfold Indexed Scope.insert
  by_cases signature : key.isSignature = true
  · simp [signature, List.filter_append, List.foldl_append, ← indexed.symm]
  · simp [signature, List.filter_append, ← indexed.symm]

theorem sum_foldl_indexKey (keys : List Key) (index : List (String × List Key)) :
    ((keys.foldl indexKey index).map fun (_, keys) => keys.length).foldr (· + ·) 0 =
      (index.map fun (_, keys) => keys.length).foldr (· + ·) 0 + keys.length := by
  induction keys generalizing index with
  | nil => rfl
  | cons key rest inductionHypothesis =>
    rw [List.foldl_cons, inductionHypothesis, sum_indexKey, List.length_cons]
    lia

theorem mem_foldl_indexKey {held : List Key} {other : Key}
    (entry : (name, held) ∈ keys.foldl indexKey index) (member : other ∈ held) :
    (other ∈ keys ∧ name = other.name) ∨ ∃ held, (name, held) ∈ index ∧ other ∈ held := by
  induction keys generalizing index with
  | nil => exact .inr ⟨held, entry, member⟩
  | cons key rest inductionHypothesis =>
    rcases inductionHypothesis entry with ⟨further, same⟩ | ⟨held', there, member'⟩
    · exact .inl ⟨.tail _ further, same⟩
    · rcases mem_indexKey there member' with ⟨rfl, same⟩ | old
      · exact .inl ⟨.head _, same⟩
      · exact .inr old

end Scope

namespace ScopeTable

/-- A table has become another one: no scope is lost, and every scope has grown. -/
def Grows (before after : ScopeTable) : Prop :=
  ∀ id scope, before.get? id = some scope → ∃ scope', after.get? id = some scope' ∧
    scope.Grows scope'

namespace Grows

variable {before middle after : ScopeTable}

theorem refl (table : ScopeTable) : table.Grows table :=
  fun _ scope found => ⟨scope, found, .refl scope⟩

theorem trans (first : before.Grows middle) (second : middle.Grows after) : before.Grows after := by
  intro id scope found
  obtain ⟨scope', found', grows⟩ := first id scope found
  obtain ⟨scope'', found'', grows'⟩ := second id scope' found'
  exact ⟨scope'', found'', grows.trans grows'⟩

theorem isSome (grows : before.Grows after) (known : (before.get? id).isSome) :
    (after.get? id).isSome := by
  obtain ⟨scope, found⟩ := Option.isSome_iff_exists.mp known
  obtain ⟨scope', found', -⟩ := grows id scope found
  rw [found']
  rfl

end Grows

theorem grows_modify (id : ScopeId)
    (grows : ∀ scope, table.get? id = some scope → scope.Grows (change scope)) :
    table.Grows (table.modify id change) := by
  intro other scope found
  rw [get?_modify, found]
  split
  · next same => exact ⟨_, rfl, grows scope (same ▸ found)⟩
  · exact ⟨scope, rfl, .refl scope⟩

/-- The scope that is created under a parent. -/
def created (table : ScopeTable) (kind : ScopeKind) (parent : ScopeId) (owner : DeclId)
    (span : Span) : Scope :=
  { kind, parent, owner, span
    unit := match table.get? parent with
      | some scope => scope.unit
      | none => 0 }

theorem get?_newScope (table : ScopeTable) (kind : ScopeKind) (parent : ScopeId) (owner : DeclId)
    (span : Span) (id : ScopeId) :
    (table.newScope kind parent owner span).2.get? id =
      if id = table.scopes.next then some (table.created kind parent owner span)
      else if id = parent then (table.get? id).map fun scope =>
        { scope with children := scope.children ++ [table.scopes.next] }
      else table.get? id := by
  let listed := table.modify parent fun scope =>
    { scope with children := scope.children ++ [table.scopes.next] }
  have next : listed.scopes.next = table.scopes.next :=
    congrArg (· + 1) (Arena.size_modify ..)
  show (listed.push (table.created kind parent owner span)).get? id = _
  split
  · next same =>
    rw [same, ← next]
    exact Arena.get?_push_self ..
  · next other =>
    rw [← next] at other
    exact (Arena.get?_push_other _ _ other).trans (get?_modify ..)

/-- A scope of the table with a new one is the new one, or was there and at most lists the new
one as a further child. -/
theorem get?_newScope_cases
    (found : (table.newScope kind parent owner span).2.get? id = some scope) :
    (id = table.scopes.next ∧ scope = table.created kind parent owner span) ∨
      ∃ old, table.get? id = some old ∧ old.Like scope ∧ scope.kind = old.kind ∧
        scope.children = old.children ++ if id = parent then [table.scopes.next] else [] := by
  rw [get?_newScope] at found
  split at found
  · next same => exact .inl ⟨same, (Option.some.inj found).symm⟩
  · split at found
    · next same =>
      obtain ⟨old, there, rfl⟩ := Option.map_eq_some_iff.mp found
      exact .inr ⟨old, there, ⟨rfl, rfl, rfl, rfl, rfl⟩, rfl, by rw [if_pos same]⟩
    · next other =>
      exact .inr ⟨scope, found, ⟨rfl, rfl, rfl, rfl, rfl⟩, rfl, by rw [if_neg other, List.append_nil]⟩

/-- What becomes of a scope that was not there does not count. -/
theorem Grows.modify_fresh (grows : before.Grows after) (fresh : before.get? id = none)
    (change : Scope → Scope) : before.Grows (after.modify id change) := by
  intro other scope found
  obtain ⟨scope', found', grown⟩ := grows other scope found
  refine ⟨scope', ?_, grown⟩
  rw [get?_modify, if_neg, found']
  rintro rfl
  rw [fresh] at found
  nomatch found

theorem grows_relink (table : ScopeTable) (id other : ScopeId) : table.Grows (table.relink id other) :=
  grows_modify id fun _ _ => ⟨rfl, rfl, rfl, rfl, List.prefix_rfl, List.prefix_rfl⟩

theorem grows_newScope (table : ScopeTable) (kind : ScopeKind) (parent : ScopeId) (owner : DeclId)
    (span : Span) : table.Grows (table.newScope kind parent owner span).2 := by
  intro id scope found
  have old : id ≠ table.scopes.next := fun same => by
    rw [same, get?_next] at found
    nomatch found
  rw [get?_newScope, if_neg old, found]
  split
  · exact ⟨_, rfl, rfl, rfl, rfl, rfl, List.prefix_rfl, List.prefix_rfl⟩
  · exact ⟨scope, rfl, .refl scope⟩

/-- A scope behind a change of one scope was there, changed or not. -/
theorem get?_of_modify
    (found : (table.modify id change).get? other = some scope) :
    ∃ old, table.get? other = some old ∧ (scope = old ∨ other = id ∧ scope = change old) := by
  rw [get?_modify] at found
  split at found
  · next same =>
    obtain ⟨old, there, rfl⟩ := Option.map_eq_some_iff.mp found
    exact ⟨old, there, .inr ⟨same, rfl⟩⟩
  · exact ⟨scope, found, .inl rfl⟩

/-- Binding adds a key that was free to a scope that is there. -/
theorem bindIn_eq_ok (ok : table.bindIn id key decl = .ok bound) :
    ∃ scope, table.get? id = some scope ∧ scope.find? key = none ∧
      bound = table.modify id (·.insert key decl) := by
  unfold bindIn at ok
  split at ok
  · nomatch ok
  · next scope found =>
    split at ok
    · nomatch ok
    · next free => exact ⟨scope, found, free, (Except.ok.inj ok).symm⟩

/-- An attachment does nothing, or it sets one link. -/
theorem attachImport?_cases {joined : Bool}
    (attaches : table.attachImport? global other = some (joined, after)) :
    (joined = false ∧ after = table) ∨
      ∃ chain, table.importChain? global = some chain ∧ global ≠ 0 ∧ other ≠ 0 ∧ global ≠ other ∧
        other ∉ chain ∧ joined = true ∧ after = table.relink (lastOf global chain) other := by
  unfold attachImport? at attaches
  split at attaches
  · cases attaches
    exact .inl ⟨rfl, rfl⟩
  · next apart =>
    simp only [not_or] at apart
    obtain ⟨chain, isChain, attaches⟩ := Option.bind_eq_some_iff.mp attaches
    split at attaches
    · cases attaches
      exact .inl ⟨rfl, rfl⟩
    · next fresh =>
      dsimp only at attaches
      split at attaches
      · nomatch attaches
      · cases attaches
        exact .inr ⟨chain, isChain, apart.1, apart.2.1, apart.2.2, fresh, rfl, rfl⟩

/-! ### New entries -/

/-- What the scopes of a table hold was there in another one, or is one of certain declarations. -/
def Gains (news : DeclId → Prop) (before after : ScopeTable) : Prop :=
  ∀ id scope, after.get? id = some scope → ∀ entry ∈ scope.entries,
    (∃ old, before.get? id = some old ∧ entry ∈ old.entries) ∨ news entry.2

namespace Gains

variable {news : DeclId → Prop} {before middle after : ScopeTable}

theorem refl (table : ScopeTable) : table.Gains news table :=
  fun _ scope found _ member => .inl ⟨scope, found, member⟩

theorem trans (first : before.Gains news middle) (second : middle.Gains news after) :
    before.Gains news after := by
  intro id scope found entry member
  rcases second id scope found entry member with ⟨old, found', member'⟩ | new
  · exact first id old found' entry member'
  · exact .inr new

theorem mono {more : DeclId → Prop} (gains : before.Gains news after)
    (weaken : ∀ decl, news decl → more decl) :
    before.Gains more after :=
  fun id scope found entry member => (gains id scope found entry member).imp_right (weaken entry.2)

end Gains

/-- A declaration is held by some scope. -/
def Binds (table : ScopeTable) (decl : DeclId) : Prop :=
  ∃ id scope, table.get? id = some scope ∧ ∃ entry ∈ scope.entries, entry.2 = decl

theorem Binds.grows (binds : before.Binds decl) (grows : before.Grows after) :
    after.Binds decl := by
  obtain ⟨id, scope, found, entry, member, same⟩ := binds
  obtain ⟨later, found', grown⟩ := grows id scope found
  exact ⟨id, later, found', entry, grown.entries.subset member, same⟩

theorem Gains.binds (gains : before.Gains news after) (binds : after.Binds decl) :
    before.Binds decl ∨ news decl := by
  obtain ⟨id, scope, found, entry, member, rfl⟩ := binds
  exact (gains id scope found entry member).imp_left fun ⟨old, found', member'⟩ =>
    ⟨id, old, found', entry, member', rfl⟩

/-- A change of a scope that leaves its entries alone. -/
theorem gains_modify (table : ScopeTable) (id : ScopeId)
    (same : ∀ scope, (change scope).entries = scope.entries) :
    table.Gains news (table.modify id change) := by
  intro other scope found entry member
  rw [get?_modify] at found
  split at found
  · obtain ⟨old, there, rfl⟩ := Option.map_eq_some_iff.mp found
    exact .inl ⟨old, there, same old ▸ member⟩
  · exact .inl ⟨scope, found, member⟩

theorem gains_newScope (table : ScopeTable) (kind : ScopeKind) (parent : ScopeId) (owner : DeclId)
    (span : Span) : table.Gains news (table.newScope kind parent owner span).2 := by
  intro id scope found entry member
  rcases get?_newScope_cases found with ⟨-, rfl⟩ | ⟨old, there, like, -⟩
  · nomatch member
  · exact .inl ⟨old, there, like.entries ▸ member⟩

theorem gains_openScope
    (opens : table.openScope kind owner span = (id, after)) :
    table.Gains news after := by
  obtain rfl : (table.openScope kind owner span).2 = after := by rw [opens]
  exact table.gains_newScope kind table.current owner span

theorem gains_newRoot {unit : UnitId}
    (creates : table.newRoot unit span = (id, after)) : table.Gains news after := by
  obtain rfl : (table.newRoot unit span).2 = after := by rw [creates]
  exact (table.gains_newScope .global 0 0 span).trans (gains_modify _ _ fun _ => rfl)

theorem gains_close (table : ScopeTable) : table.Gains news table.close :=
  table.gains_modify table.current fun _ => rfl

theorem gains_attachImport? {attached : Bool}
    (attaches : table.attachImport? global other = some (attached, after)) :
    table.Gains news after := by
  rcases attachImport?_cases attaches with ⟨-, rfl⟩ | ⟨chain, -, -, -, -, -, -, rfl⟩
  · exact .refl _
  · exact gains_modify _ _ fun _ => rfl

/-- An entry behind a binding was there, or it is the one that was added. -/
theorem entry_of_bind (ok : table.bind key decl = .ok bound)
    (found : bound.get? id = some scope) {entry : Key × DeclId} (member : entry ∈ scope.entries) :
    (∃ old, table.get? id = some old ∧ entry ∈ old.entries) ∨ entry = (key, decl) := by
  obtain ⟨-, -, -, rfl⟩ := bindIn_eq_ok ok
  obtain ⟨old, there, rfl | ⟨-, rfl⟩⟩ := get?_of_modify found
  · exact .inl ⟨scope, there, member⟩
  · rcases List.mem_append.mp member with held | added
    · exact .inl ⟨old, there, held⟩
    · exact .inr (List.mem_singleton.mp added)

/-- Binding adds nothing but the declaration that is bound. -/
theorem gains_bind (ok : table.bind key decl = .ok bound) (new : news decl) :
    table.Gains news bound :=
  fun _ _ found _ member => (entry_of_bind ok found member).imp_right fun same => by rwa [same]

/-! ### Tables that operations build -/

/-- Parents and children point at each other, only global scopes are without a parent or are
linked to imported ones, and the keys and the index of a scope say what is bound. -/
structure Formed (table : ScopeTable) : Prop extends table.Sound where
  kinds : ∀ id scope, table.get? id = some scope →
    scope.kind ≠ .invalid ∧ (scope.kind = .global ↔ scope.parent = 0)
  children : ∀ id scope child, table.get? id = some scope →
    (child ∈ scope.children ↔ ∃ inner, table.get? child = some inner ∧ inner.parent = id)
  importers : ∀ id scope, table.get? id = some scope → scope.importLink ≠ 0 → scope.kind = .global
  index : ∀ id scope, table.get? id = some scope → scope.Indexed

namespace Formed

theorem empty : Formed {} :=
  { sound_empty with
    kinds := fun _ _ found => absurd found absent_empty
    children := fun _ _ _ found => absurd found absent_empty
    importers := fun _ _ found => absurd found absent_empty
    index := fun _ _ found => absurd found absent_empty }

section

variable (formed : table.Formed)

include formed

/-- The stack plays no part. -/
theorem withStack (stack : List ScopeId) :
    { table with stack }.Formed :=
  ⟨⟨formed.scopes, formed.outward, formed.linked⟩, formed.kinds, formed.children, formed.importers,
    formed.index⟩

/-- Scopes that keep their kind, their parent and their children keep a table formed, if only
global scopes get import links and the index still says what the keys say. -/
theorem of_scopes (sound : after.Sound)
    (forth : ∀ id scope, table.get? id = some scope → ∃ scope', after.get? id = some scope' ∧
      scope'.parent = scope.parent)
    (back : ∀ id scope', after.get? id = some scope' → ∃ scope, table.get? id = some scope ∧
      scope'.kind = scope.kind ∧ scope'.parent = scope.parent ∧
      scope'.children = scope.children ∧ (scope'.importLink ≠ 0 → scope.kind = .global) ∧
      scope'.Indexed) : after.Formed := by
  have inside (child outer : ScopeId) :
      (∃ inner, after.get? child = some inner ∧ inner.parent = outer) ↔
        ∃ inner, table.get? child = some inner ∧ inner.parent = outer := by
    constructor
    · rintro ⟨inner, found, rfl⟩
      obtain ⟨inner', there, -, parent, -⟩ := back child inner found
      exact ⟨inner', there, parent.symm⟩
    · rintro ⟨inner, found, rfl⟩
      exact forth child inner found
  refine { sound with kinds := ?_, children := ?_, importers := ?_, index := ?_ }
  · intro id scope' found
    obtain ⟨scope, there, kind, parent, -⟩ := back id scope' found
    rw [kind, parent]
    exact formed.kinds id scope there
  · intro id scope' child found
    obtain ⟨scope, there, -, -, listed, -⟩ := back id scope' found
    rw [listed, inside]
    exact formed.children id scope child there
  · intro id scope' found linked
    obtain ⟨scope, there, kind, -, -, importer, -⟩ := back id scope' found
    rw [kind]
    exact importer linked
  · intro id scope' found
    obtain ⟨scope, there, -, -, -, -, indexed⟩ := back id scope' found
    exact indexed

/-- What is not changed of a scope is as it was. -/
theorem unchanged (found : table.get? id = some scope) :
    ∃ same, table.get? id = some same ∧
      scope.kind = same.kind ∧ scope.parent = same.parent ∧ scope.children = same.children ∧
      (scope.importLink ≠ 0 → same.kind = .global) ∧ scope.Indexed :=
  ⟨scope, found, rfl, rfl, rfl, formed.importers id scope found, formed.index id scope found⟩

/-- A change of one scope that leaves its kind, its links and what it holds alone. -/
theorem modify (id : ScopeId)
    (like : ∀ scope : Scope, scope.Like (change scope))
    (kind : ∀ scope : Scope, (change scope).kind = scope.kind)
    (children : ∀ scope : Scope, (change scope).children = scope.children) :
    (table.modify id change).Formed := by
  refine formed.of_scopes (formed.toSound.modify id like) (fun other scope found => ?_)
    fun other scope' found => ?_
  · obtain ⟨scope', found', parent, -⟩ := keeps_modify id like other scope found
    exact ⟨scope', found', parent⟩
  · rw [get?_modify] at found
    split at found
    · obtain ⟨scope, there, rfl⟩ := Option.map_eq_some_iff.mp found
      refine ⟨scope, there, kind scope, (like scope).parent, children scope, fun linked => ?_, ?_⟩
      · exact formed.importers other scope there ((like scope).importLink ▸ linked)
      · rw [Scope.Indexed, (like scope).overloads, (like scope).keys]
        exact formed.index other scope there
    · exact formed.unchanged found

/-- A binding of a key that was free. -/
theorem insert (found : table.get? id = some scope)
    (free : scope.find? key = none) (decl : DeclId) :
    (table.modify id (·.insert key decl)).Formed := by
  refine formed.of_scopes (formed.toSound.insert found free decl) (fun other scope found => ?_)
    fun other scope' found' => ?_
  · obtain ⟨scope', found', parent, -⟩ := keeps_insert table id key decl other scope found
    exact ⟨scope', found', parent⟩
  · rw [get?_modify] at found'
    split at found'
    · obtain ⟨old, there, rfl⟩ := Option.map_eq_some_iff.mp found'
      exact ⟨old, there, rfl, rfl, rfl, formed.importers other old there,
        (formed.index other old there).insert key decl⟩
    · exact formed.unchanged found'

/-- A link from one global scope to another. -/
theorem relink {linked : ScopeId} {target : Scope}
    (found : table.get? id = some scope) (global : scope.kind = .global)
    (there : table.get? linked = some target) (top : target.parent = 0) :
    (table.relink id linked).Formed := by
  refine formed.of_scopes (formed.toSound.relink there top id) (fun other scope found => ?_)
    fun other scope' found' => ?_
  · obtain ⟨scope', found', parent, -⟩ := get?_relink found id linked
    exact ⟨scope', found', parent⟩
  · unfold ScopeTable.relink at found'
    rw [get?_modify] at found'
    split at found'
    · next same =>
      subst same
      rw [found] at found'
      cases found'
      exact ⟨scope, found, rfl, rfl, rfl, fun _ => global, formed.index other scope found⟩
    · exact formed.unchanged found'

/-- A new scope under a parent that is there, or a global scope without one. -/
theorem newScope (valid : kind ≠ .invalid)
    (place : kind = .global ↔ parent = 0) (known : parent ≠ 0 → (table.get? parent).isSome)
    (owner : DeclId) (span : Span) : (table.newScope kind parent owner span).2.Formed := by
  have inRange : parent ≤ table.scopes.size := by
    by_cases top : parent = 0
    · lia
    · exact ((table.isSome_get?_iff parent).mp (known top)).2
  have sound : (table.newScope kind parent owner span).2.Sound := by
    obtain ⟨after, isNew, -, sound, -⟩ := newScope_spec formed.toSound kind inRange owner span
    rw [isNew]
    exact sound
  have fresh : table.get? table.scopes.next = none := table.get?_next
  have inside (child outer : ScopeId) :
      (∃ inner, (table.newScope kind parent owner span).2.get? child = some inner ∧
        inner.parent = outer) ↔
      (child = table.scopes.next ∧ parent = outer) ∨
        ∃ inner, table.get? child = some inner ∧ inner.parent = outer := by
    rw [get?_newScope]
    by_cases new : child = table.scopes.next
    · subst new
      simp [fresh, created]
    · by_cases listed : child = parent
      · subst listed
        simp [new]
      · simp [new, listed]
  refine { sound with kinds := ?_, children := ?_, importers := ?_, index := ?_ }
  · intro id scope found
    rcases get?_newScope_cases found with ⟨rfl, rfl⟩ | ⟨old, there, like, same, -⟩
    · exact ⟨valid, place⟩
    · rw [same, like.parent]
      exact formed.kinds id old there
  · intro id scope child found
    rw [inside]
    rcases get?_newScope_cases found with ⟨rfl, rfl⟩ | ⟨old, there, -, -, listed⟩
    · have parentOld : parent ≠ table.scopes.next := by rw [Arena.next]; lia
      have none' : ¬ ∃ inner, table.get? child = some inner ∧ inner.parent = table.scopes.next := by
        rintro ⟨inner, there, same⟩
        have := formed.outward child inner there
        have := (le_size there).2
        rw [same, Arena.next] at *
        lia
      simp [parentOld, none', created]
    · rw [listed, ← formed.children id old child there]
      by_cases same : id = parent
      · simp [same, or_comm]
      · simp [same, Ne.symm same]
  · intro id scope found linked
    rcases get?_newScope_cases found with ⟨rfl, rfl⟩ | ⟨old, there, like, same, -⟩
    · exact absurd rfl linked
    · rw [same]
      exact formed.importers id old there (like.importLink ▸ linked)
  · intro id scope found
    rcases get?_newScope_cases found with ⟨rfl, rfl⟩ | ⟨old, there, like, -, -⟩
    · rfl
    · rw [Scope.Indexed, like.overloads, like.keys]
      exact formed.index id old there

end

/-! ### The check of a table -/

theorem mem_zipIdx_iff :
    (scope, id) ∈ table.scopes.items.toList.zipIdx 1 ↔ table.get? id = some scope := by
  rw [List.mem_zipIdx_iff_le_and_getElem?_sub]
  cases id with
  | zero => simp [get?, Arena.get?]
  | succ index => simp [get?, Arena.get?]

theorem linkFaults_eq_nil (formed : table.Formed) (found : table.get? id = some scope) :
    table.linkFaults id scope = [] := by
  obtain ⟨valid, place⟩ := formed.kinds id scope found
  have smaller := formed.outward id scope found
  have kinds : kindFaults id scope = [] := by
    simp [kindFaults, valid, place]
  have parent : table.hasValidParent id scope = true := by
    by_cases top : scope.parent = 0
    · simp [hasValidParent, top]
    · obtain ⟨outer, there⟩ := formed.toSound.anchored.get?_parent found top
      simp [hasValidParent, there, Nat.ne_of_lt smaller]
  have backlink : table.backlinkFaults id scope = [] := by
    unfold backlinkFaults
    split
    · next outer there =>
      rw [if_pos ((formed.children _ outer id there).mpr ⟨scope, found, rfl⟩)]
    · rfl
  have children : table.childFaults id scope = [] := by
    refine List.flatMap_eq_nil_iff.mpr fun child member => ?_
    obtain ⟨inner, there, back⟩ := (formed.children id scope child found).mp member
    have below := formed.outward child inner there
    rw [there]
    simp [back, show child ≠ id by lia]
  have imports : table.importFaults id scope = [] := by
    unfold importFaults
    split
    · rfl
    · next linked =>
      obtain ⟨other, there, top⟩ := formed.linked id scope found linked
      have global := (formed.kinds _ other there).2.mpr top
      simp [there, global, formed.importers id scope found linked]
  simp [linkFaults, kinds, parent, backlink, children, imports]

theorem staleKeys_eq_nil (formed : table.Formed) (found : table.get? id = some scope) :
    (scope.overloads.flatMap fun (name, keys) =>
      (keys.filter fun key => (scope.find? key).isNone || key.name ≠ name).map
        (ScopeFault.staleIndex id name)) = [] := by
  have indexed : scope.overloads = _ := formed.index id scope found
  refine List.flatMap_eq_nil_iff.mpr fun group entry => ?_
  refine List.map_eq_nil_iff.mpr (List.filter_eq_nil_iff.mpr fun key member => ?_)
  rw [indexed] at entry
  rcases Scope.mem_foldl_indexKey entry member with ⟨listed, same⟩ | ⟨_, impossible, _⟩
  · obtain ⟨decl, held⟩ :=
      Scope.find?_of_mem_keys (formed.scopes id scope found) (List.mem_filter.mp listed).1
    simp [held, same]
  · cases impossible

theorem indexedKeys_eq (formed : table.Formed) (found : table.get? id = some scope) :
    scope.entries.countP (fun (key, _) => key.isSignature) =
      (scope.overloads.map fun (_, keys) => keys.length).foldr (· + ·) 0 := by
  rw [show scope.overloads = _ from formed.index id scope found, Scope.sum_foldl_indexKey,
    ← List.countP_eq_length_filter, (formed.scopes id scope found).keys, List.countP_map]
  simp only [List.map_nil, List.foldr_nil, Nat.zero_add]
  rfl

theorem bindingFaults_eq_nil (formed : table.Formed) (found : table.get? id = some scope)
    (bound : ∀ entry ∈ scope.entries, entry.2 ≠ 0) : bindingFaults id scope = [] := by
  have count : scope.keys.length = scope.entries.length := by
    rw [(formed.scopes id scope found).keys, List.length_map]
  unfold bindingFaults
  simp only [staleKeys_eq_nil formed found, indexedKeys_eq formed found, count]
  simpa using fun key decl member => bound (key, decl) member

/-- The check of a table finds nothing. -/
theorem faults_eq_nil (formed : table.Formed) (bound : ∀ id scope, table.get? id = some scope →
    ∀ entry ∈ scope.entries, entry.2 ≠ 0) : table.faults = [] := by
  refine List.append_eq_nil_iff.mpr ⟨?_, ?_⟩
  · refine List.flatMap_eq_nil_iff.mpr fun (scope, id) member => ?_
    exact formed.linkFaults_eq_nil (mem_zipIdx_iff.mp member)
  · refine List.flatMap_eq_nil_iff.mpr fun (scope, id) member => ?_
    exact formed.bindingFaults_eq_nil (mem_zipIdx_iff.mp member)
      (bound id scope (mem_zipIdx_iff.mp member))

end Formed

end ScopeTable

end TreeCheck
