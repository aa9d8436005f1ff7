/-
What a look-up in a sound table of scopes comes to. In a sound table links lead from a
scope to an older one around it, and from a global scope to another global scope; so
every scope has a path, outwards to its global scope and on along the chain of imports,
and a look-up takes the first frame on the path that holds a key.
-/

import TreeCheck.Proofs.Scoping.Lexical

namespace TreeCheck

open Lexical (Frame Env)

variable {scope : Scope} {key : Key} {other id root : ScopeId} {scopes : List Scope}

/-! ### Scopes -/

section

variable {α β : Type} [BEq α] [LawfulBEq α] {entries : List (α × β)} {key : α}

theorem lookup_eq_none_iff_notMem :
    entries.lookup key = none ↔ key ∉ entries.map Prod.fst := by
  rw [List.lookup_eq_none_iff]
  constructor
  · intro absent member
    obtain ⟨entry, inside, rfl⟩ := List.mem_map.mp member
    exact absurd (absent entry inside) (by simp)
  · intro absent entry inside
    exact bne_iff_ne.mpr fun same => absent (same ▸ List.mem_map_of_mem inside)

theorem isSome_lookup_iff_mem : (entries.lookup key).isSome ↔ key ∈ entries.map Prod.fst := by
  rw [Option.isSome_iff_ne_none, ne_eq, lookup_eq_none_iff_notMem, not_not]

end

theorem eraseDups_concat (keys : List Key) (key : Key) :
    (keys ++ [key]).eraseDups = keys.eraseDups ++ if key ∈ keys then [] else [key] := by
  rw [List.eraseDups_append]
  by_cases member : key ∈ keys
  · simp [List.removeAll, member]
  · simp [List.removeAll, member, List.eraseDups_cons]

namespace Scope

/-- The keys of a scope and its index of signatures say what the entries say. -/
structure Sound (scope : Scope) : Prop where
  keys : scope.keys = scope.entries.map Prod.fst
  nodup : scope.keys.Nodup
  indexed : ∀ name key, key ∈ scope.overloadKeys name ↔
    key ∈ scope.keys ∧ key.isSignature ∧ key.name = name

theorem lookup_indexKey (index : List (String × List Key)) (key : Key) (name : String) :
    ((indexKey index key).lookup name).getD [] =
      (index.lookup name).getD [] ++ if name = key.name then [key] else [] := by
  induction index with
  | nil =>
    by_cases here : name = key.name
    · subst here
      simp [indexKey]
    · have other : (name == key.name) = false := by simpa using here
      simp [indexKey, List.lookup_cons, here, other]
  | cons entry rest inductionHypothesis =>
    obtain ⟨first, keys⟩ := entry
    unfold indexKey
    by_cases same : first = key.name
    · subst same
      by_cases here : name = key.name
      · subst here
        simp
      · have other : (name == key.name) = false := by simpa using here
        simp [List.lookup_cons, here, other]
    · rw [if_neg same]
      by_cases here : name = first
      · subst here
        simp [same]
      · have other : (name == first) = false := by simpa using here
        simp only [List.lookup_cons, other]
        exact inductionHypothesis

theorem find?_eq_none_iff (sound : scope.Sound) : scope.find? key = none ↔ key ∉ scope.keys := by
  rw [sound.keys]
  exact lookup_eq_none_iff_notMem

theorem find?_of_mem_keys (sound : scope.Sound) (member : key ∈ scope.keys) :
    ∃ decl, scope.find? key = some decl := by
  cases found : scope.find? key with
  | none => exact absurd member ((find?_eq_none_iff sound).mp found)
  | some decl => exact ⟨decl, rfl⟩

/-- No key stands twice in a scope, so every entry is found. -/
theorem find?_of_mem (sound : scope.Sound) {entry : Key × DeclId} (member : entry ∈ scope.entries) :
    scope.find? entry.1 = some entry.2 := by
  have nodup : (scope.entries.map Prod.fst).Nodup := sound.keys ▸ sound.nodup
  obtain ⟨decl, found⟩ := find?_of_mem_keys sound
    (sound.keys ▸ List.mem_map_of_mem member : entry.1 ∈ scope.keys)
  obtain ⟨front, back, whole, _⟩ := List.lookup_eq_some_iff.mp found
  have member' : (entry.1, decl) ∈ scope.entries := whole ▸ by simp
  rw [found, ← List.inj_on_of_nodup_map nodup member' member rfl]

/-- A new key keeps a scope sound. -/
theorem Sound.insert (sound : scope.Sound) (free : scope.find? key = none) (decl : DeclId) :
    (scope.insert key decl).Sound where
  keys := by simp [Scope.insert, sound.keys]
  nodup := by
    have absent := (find?_eq_none_iff sound).mp free
    exact List.Nodup.append sound.nodup (List.nodup_singleton _) (by simpa using absent)
  indexed := by
    intro name other
    have old := sound.indexed name other
    have overloads : (scope.insert key decl).overloadKeys name =
        scope.overloadKeys name ++ if key.isSignature ∧ name = key.name then [key] else [] := by
      unfold overloadKeys Scope.insert
      by_cases signature : key.isSignature = true
      · simp only [signature, if_true, true_and]
        exact lookup_indexKey ..
      · simp [signature]
    have keys : (scope.insert key decl).keys = scope.keys ++ [key] := rfl
    rw [overloads, keys, List.mem_append, List.mem_append, old, List.mem_singleton]
    constructor
    · rintro (⟨member, signature, same⟩ | added)
      · exact ⟨.inl member, signature, same⟩
      · split at added
        · next indexed =>
          obtain rfl := List.mem_singleton.mp added
          exact ⟨.inr rfl, indexed.1, indexed.2.symm⟩
        · nomatch added
    · rintro ⟨member | rfl, signature, same⟩
      · exact .inl ⟨member, signature, same⟩
      · exact .inr (by rw [if_pos ⟨signature, same.symm⟩]; exact .head _)

/-- Another scope with the same entries, keys and index is as sound. -/
theorem Sound.of_same {other : Scope} (sound : scope.Sound)
    (entries : other.entries = scope.entries) (keys : other.keys = scope.keys)
    (overloads : other.overloads = scope.overloads) : other.Sound where
  keys := by rw [keys, entries, sound.keys]
  nodup := keys ▸ sound.nodup
  indexed := by
    intro name key
    rw [overloadKeys, overloads, keys]
    exact sound.indexed name key

end Scope

namespace ScopeTable

/-! ### Links -/

/-- Links lead to scopes that are there, outwards to older ones. -/
structure Anchored (table : ScopeTable) : Prop where
  scopes : ∀ id scope, table.get? id = some scope → scope.Sound
  outward : ∀ id scope, table.get? id = some scope → scope.parent < id
  linked : ∀ id scope, table.get? id = some scope → scope.importLink ≠ 0 →
    ∃ other, table.get? scope.importLink = some other

/-- Links of imports lead to global scopes. -/
structure Sound (table : ScopeTable) : Prop where
  scopes : ∀ id scope, table.get? id = some scope → scope.Sound
  outward : ∀ id scope, table.get? id = some scope → scope.parent < id
  linked : ∀ id scope, table.get? id = some scope → scope.importLink ≠ 0 →
    ∃ other, table.get? scope.importLink = some other ∧ other.parent = 0

/-- A link as an option. -/
def link? (id : ScopeId) : Option ScopeId := if id = 0 then none else some id

/-- The scope behind a scope on the chain of imports. -/
def next? (table : ScopeTable) (id : ScopeId) : Option ScopeId :=
  (table.get? id).bind fun scope => link? scope.importLink

/-- What a scope holds; nothing for a number without a scope. -/
def frameOf (table : ScopeTable) (id : ScopeId) : Frame :=
  ((table.get? id).map Scope.entries).getD []

variable {table : ScopeTable}

theorem Sound.anchored (sound : table.Sound) : table.Anchored :=
  ⟨sound.scopes, sound.outward, fun id scope found nonzero =>
    (sound.linked id scope found nonzero).imp fun _ => And.left⟩

theorem link?_eq_some : link? id = some other ↔ id = other ∧ other ≠ 0 := by
  unfold link?
  split
  · next zero => simp only [reduceCtorEq, false_iff]; lia
  · next nonzero =>
    rw [Option.some.injEq]
    exact ⟨fun same => ⟨same, same ▸ nonzero⟩, And.left⟩

theorem next?_eq_some : table.next? id = some other ↔
    ∃ scope, table.get? id = some scope ∧ scope.importLink = other ∧ other ≠ 0 := by
  simp only [next?, Option.bind_eq_some_iff, link?_eq_some]

theorem isSome_get?_iff (table : ScopeTable) (id : ScopeId) :
    (table.get? id).isSome ↔ 1 ≤ id ∧ id ≤ table.scopes.size :=
  table.scopes.isSome_get?_iff id

theorem le_size (found : table.get? id = some scope) : 1 ≤ id ∧ id ≤ table.scopes.size :=
  Arena.get?_eq_some_le found

theorem Anchored.get?_parent (anchored : table.Anchored) (found : table.get? id = some scope)
    (inner : scope.parent ≠ 0) : ∃ outer, table.get? scope.parent = some outer := by
  have := anchored.outward id scope found
  have := le_size found
  exact Option.isSome_iff_exists.mp ((table.isSome_get?_iff _).mpr (by lia))

/-- Induction from a global scope inwards. -/
theorem Anchored.induction (anchored : table.Anchored) {motive : ScopeId → Scope → Prop}
    (root : ∀ id scope, table.get? id = some scope → scope.parent = 0 → motive id scope)
    (inner : ∀ id scope outer, table.get? id = some scope → scope.parent ≠ 0 →
      table.get? scope.parent = some outer → motive scope.parent outer → motive id scope)
    (id : ScopeId) (scope : Scope) (found : table.get? id = some scope) : motive id scope := by
  induction id using Nat.strongRecOn generalizing scope with
  | ind id inductionHypothesis =>
    by_cases top : scope.parent = 0
    · exact root id scope found top
    · obtain ⟨outer, there⟩ := anchored.get?_parent found top
      exact inner id scope outer found top there
        (inductionHypothesis _ (anchored.outward id scope found) outer there)

/-! ### Outwards -/

/-- Numbers fall on the way outwards, so a number bounds the steps of the way. -/
theorem Anchored.outwardWithin_eq (anchored : table.Anchored) {first second : Nat}
    (enough : id ≤ first) (enough' : id ≤ second) :
    table.outwardWithin first id = table.outwardWithin second id := by
  induction first generalizing second id with
  | zero =>
    obtain rfl : id = 0 := by lia
    cases second <;> simp [outwardWithin]
  | succ first inductionHypothesis =>
    cases second with
    | zero =>
      obtain rfl : id = 0 := by lia
      simp [outwardWithin]
    | succ second =>
      unfold outwardWithin
      split
      · rfl
      · split
        · rfl
        · next scope found =>
          have := anchored.outward id scope found
          have rest : table.outwardWithin first scope.parent =
              table.outwardWithin second scope.parent := inductionHypothesis (by lia) (by lia)
          rw [rest]

theorem outward_zero (table : ScopeTable) : table.outward 0 = ⟨[], true⟩ := by
  simp [outward, outwardWithin]

theorem Anchored.outward_eq (anchored : table.Anchored) (found : table.get? id = some scope) :
    table.outward id =
      ⟨(id, scope) :: (table.outward scope.parent).scopes, (table.outward scope.parent).complete⟩ := by
  have smaller := anchored.outward id scope found
  have bound := le_size found
  have same : table.outwardWithin table.scopes.size scope.parent =
      table.outwardWithin (table.scopes.size + 1) scope.parent :=
    anchored.outwardWithin_eq (by lia) (by lia)
  simp only [ScopeTable.outward]
  rw [outwardWithin, if_neg (by lia), found]
  simp only [same]

/-- The scope around a scope that has none around it. -/
def rootOf (table : ScopeTable) (id : ScopeId) : ScopeId :=
  ((table.outward id).scopes.getLast?.map Prod.fst).getD 0

theorem Anchored.rootOf_global (anchored : table.Anchored) (found : table.get? id = some scope)
    (top : scope.parent = 0) : table.rootOf id = id := by
  simp [rootOf, anchored.outward_eq found, top, outward_zero]

theorem Anchored.rootOf_inner (anchored : table.Anchored) (found : table.get? id = some scope)
    (inner : scope.parent ≠ 0) : table.rootOf id = table.rootOf scope.parent := by
  obtain ⟨outer, there⟩ := anchored.get?_parent found inner
  simp [rootOf, anchored.outward_eq found, anchored.outward_eq there]

theorem Anchored.complete (anchored : table.Anchored) (found : table.get? id = some scope) :
    (table.outward id).complete := by
  refine anchored.induction (motive := fun id _ => (table.outward id).complete) ?_ ?_ id scope found
  · intro id scope found top
    rw [anchored.outward_eq found, top, outward_zero]
  · intro id scope outer found _ there inductionHypothesis
    rw [anchored.outward_eq found]
    exact inductionHypothesis

theorem Anchored.root_isGlobal (anchored : table.Anchored) (found : table.get? id = some scope) :
    ∃ root, table.get? (table.rootOf id) = some root ∧ root.parent = 0 := by
  refine anchored.induction (motive := fun id _ =>
    ∃ root, table.get? (table.rootOf id) = some root ∧ root.parent = 0) ?_ ?_ id scope found
  · intro id scope found top
    exact ⟨scope, by rw [anchored.rootOf_global found top, found], top⟩
  · intro id scope outer found inner there inductionHypothesis
    rw [anchored.rootOf_inner found inner]
    exact inductionHypothesis

/-! ### Chains of imports -/

/-- The imported global scopes behind a global scope. -/
def importsOf (table : ScopeTable) (root : ScopeId) : List ScopeId :=
  chain table.next? table.scopes.size root

theorem Anchored.importsWithin_eq (anchored : table.Anchored) (root : ScopeId) (steps : Nat)
    (passed : List ScopeId) (known : id = 0 ∨ (table.get? id).isSome) :
    table.importsWithin root steps passed id =
      some (chainWithin table.next? root steps passed (link? id)) := by
  induction steps generalizing passed id with
  | zero => rfl
  | succ steps inductionHypothesis =>
    unfold importsWithin
    by_cases zero : id = 0
    · simp [zero, link?, chainWithin]
    · obtain ⟨scope, found⟩ := Option.isSome_iff_exists.mp (known.resolve_left zero)
      simp only [zero, false_or, link?, if_false, chainWithin]
      split
      · rfl
      · rw [found]
        have next : table.next? id = link? scope.importLink := by simp [next?, found]
        rw [next]
        refine inductionHypothesis (passed ++ [id]) ?_
        by_cases last : scope.importLink = 0
        · exact .inl last
        · obtain ⟨other, there⟩ := anchored.linked id scope found last
          exact .inr (by rw [there]; rfl)

theorem Anchored.root?_eq (anchored : table.Anchored) (found : table.get? id = some scope) :
    table.root? id = some (table.rootOf id) := by
  simp [root?, anchored.complete found, rootOf]

theorem Anchored.importChain?_eq (anchored : table.Anchored) (found : table.get? id = some scope) :
    table.importChain? id = some (table.importsOf (table.rootOf id)) := by
  obtain ⟨root, there, _⟩ := anchored.root_isGlobal found
  have known : root.importLink = 0 ∨ (table.get? root.importLink).isSome := by
    by_cases last : root.importLink = 0
    · exact .inl last
    · obtain ⟨other, there'⟩ := anchored.linked _ root there last
      exact .inr (by rw [there']; rfl)
  unfold importChain?
  rw [anchored.root?_eq found]
  simp only [Option.bind_eq_bind, Option.bind_some, there]
  rw [anchored.importsWithin_eq _ _ _ known]
  simp [importsOf, chain, next?, there]

theorem Sound.global_of_mem_importsOf (sound : table.Sound) (member : id ∈ table.importsOf root) :
    id ≠ root ∧ ∃ scope, table.get? id = some scope ∧ scope.parent = 0 := by
  obtain ⟨different, other, led⟩ := mem_chain member
  obtain ⟨scope, found, rfl, nonzero⟩ := next?_eq_some.mp led
  exact ⟨different, sound.linked other scope found nonzero⟩

/-! ### Paths -/

/-- The scopes in which a look-up from a scope looks, in order. -/
def path (table : ScopeTable) (id : ScopeId) : List ScopeId :=
  (table.outward id).scopes.map Prod.fst ++ table.importsOf (table.rootOf id)

/-- What a look-up from a scope sees. -/
def frames (table : ScopeTable) (id : ScopeId) : Env := (table.path id).map table.frameOf

theorem Anchored.path_global (anchored : table.Anchored) (found : table.get? id = some scope)
    (top : scope.parent = 0) : table.path id = id :: table.importsOf id := by
  rw [path, anchored.outward_eq found, anchored.rootOf_global found top, top, outward_zero]
  rfl

theorem Anchored.path_inner (anchored : table.Anchored) (found : table.get? id = some scope)
    (inner : scope.parent ≠ 0) : table.path id = id :: table.path scope.parent := by
  rw [path, path, anchored.outward_eq found, anchored.rootOf_inner found inner]
  rfl

theorem Anchored.exists_of_mem_importsOf (anchored : table.Anchored)
    (member : id ∈ table.importsOf root) : ∃ scope, table.get? id = some scope := by
  obtain ⟨-, other, led⟩ := mem_chain member
  obtain ⟨scope, found, rfl, nonzero⟩ := next?_eq_some.mp led
  exact anchored.linked other scope found nonzero

theorem Anchored.exists_of_mem_path (anchored : table.Anchored) (found : table.get? id = some scope)
    (member : other ∈ table.path id) : ∃ scope, table.get? other = some scope := by
  refine anchored.induction (motive := fun id _ => other ∈ table.path id →
    ∃ scope, table.get? other = some scope) ?_ ?_ id scope found member
  · intro id scope found top member
    rw [anchored.path_global found top] at member
    rcases List.mem_cons.mp member with rfl | imported
    · exact ⟨scope, found⟩
    · exact anchored.exists_of_mem_importsOf imported
  · intro id scope outer found inner _ inductionHypothesis member
    rw [anchored.path_inner found inner] at member
    rcases List.mem_cons.mp member with rfl | further
    · exact ⟨scope, found⟩
    · exact inductionHypothesis further

theorem Sound.exists_of_mem_path (sound : table.Sound) (found : table.get? id = some scope)
    (member : other ∈ table.path id) :
    ∃ scope, table.get? other = some scope ∧ (other ≤ id ∨ scope.parent = 0) := by
  refine sound.anchored.induction (motive := fun id _ => other ∈ table.path id →
    ∃ scope, table.get? other = some scope ∧ (other ≤ id ∨ scope.parent = 0)) ?_ ?_ id scope found
    member
  · intro id scope found top member
    rw [sound.anchored.path_global found top] at member
    rcases List.mem_cons.mp member with rfl | imported
    · exact ⟨scope, found, .inl (Nat.le_refl _)⟩
    · obtain ⟨_, global, there, isGlobal⟩ := sound.global_of_mem_importsOf imported
      exact ⟨global, there, .inr isGlobal⟩
  · intro id scope outer found inner _ inductionHypothesis member
    rw [sound.anchored.path_inner found inner] at member
    rcases List.mem_cons.mp member with rfl | further
    · exact ⟨scope, found, .inl (Nat.le_refl _)⟩
    · obtain ⟨there, found', before | isGlobal⟩ := inductionHypothesis further
      · have := sound.outward id scope found
        exact ⟨there, found', .inl (by lia)⟩
      · exact ⟨there, found', .inr isGlobal⟩

/-- A path starts at its scope and does not come back to it. -/
theorem Sound.path_eq_cons (sound : table.Sound) (found : table.get? id = some scope) :
    ∃ rest, table.path id = id :: rest ∧ id ∉ rest := by
  by_cases top : scope.parent = 0
  · exact ⟨_, sound.anchored.path_global found top, fun member =>
      (sound.global_of_mem_importsOf member).1 rfl⟩
  · refine ⟨_, sound.anchored.path_inner found top, fun member => ?_⟩
    obtain ⟨outer, there⟩ := sound.anchored.get?_parent found top
    obtain ⟨again, found', smaller | isGlobal⟩ := sound.exists_of_mem_path there member
    · have := sound.outward id scope found
      lia
    · rw [found] at found'
      cases found'
      exact top isGlobal

/-! ### Look-up -/

theorem Anchored.scopes_eq (anchored : table.Anchored) (found : table.get? id = some scope) :
    (table.outward id).scopes.map Prod.snd =
      ((table.outward id).scopes.map Prod.fst).filterMap table.get? := by
  refine anchored.induction (motive := fun id _ => (table.outward id).scopes.map Prod.snd =
    ((table.outward id).scopes.map Prod.fst).filterMap table.get?) ?_ ?_ id scope found
  · intro id scope found top
    rw [anchored.outward_eq found, top, outward_zero]
    simp [found]
  · intro id scope outer found _ _ inductionHypothesis
    rw [anchored.outward_eq found]
    simp [found, inductionHypothesis]

theorem Anchored.visible?_eq (anchored : table.Anchored) (found : table.get? id = some scope) :
    table.visible? id = some ((table.path id).filterMap table.get?) := by
  simp only [visible?, anchored.importChain?_eq found, Option.bind_eq_bind, Option.bind_some,
    anchored.scopes_eq found, path, List.filterMap_append]
  rfl

/-- The visible scopes hold the frames that are seen. -/
theorem Anchored.map_entries (anchored : table.Anchored) (found : table.get? id = some scope) :
    ((table.path id).filterMap table.get?).map Scope.entries = table.frames id := by
  have all (ids : List ScopeId) (known : ∀ other ∈ ids, ∃ scope, table.get? other = some scope) :
      (ids.filterMap table.get?).map Scope.entries = ids.map table.frameOf := by
    induction ids with
    | nil => rfl
    | cons first rest inductionHypothesis =>
      obtain ⟨scope, there⟩ := known first (.head _)
      rw [List.filterMap_cons_some there, List.map_cons, List.map_cons,
        inductionHypothesis fun other member => known other (.tail _ member)]
      simp [frameOf, there]
  exact all _ fun other member => anchored.exists_of_mem_path found member

theorem findSome?_find? (scopes : List Scope) (key : Key) :
    scopes.findSome? (·.find? key) = Env.find? (scopes.map Scope.entries) key := by
  rw [Env.find?, List.findSome?_map]
  rfl

theorem findSome?_outward (table : ScopeTable) (id : ScopeId) (key : Key) :
    (table.outward id).scopes.findSome? (fun (_, scope) => scope.find? key) =
      ((table.outward id).scopes.map Prod.snd).findSome? (·.find? key) := by
  rw [List.findSome?_map]
  rfl

/-- A look-up takes the first visible scope that holds the key, whichever of its two walks comes
by it. -/
theorem findFrom?_of_visible? {table : ScopeTable} (visible : table.visible? id = some scopes)
    (key : Key) : table.findFrom? id key = some (scopes.findSome? (·.find? key)) := by
  obtain ⟨imports, -, same⟩ := Option.bind_eq_some_iff.mp visible
  unfold findFrom?
  rw [findSome?_outward, visible, Option.map_some]
  split
  · next decl here =>
    rw [← Option.some.inj same, List.findSome?_append, here]
    rfl
  · rfl

theorem Anchored.findFrom?_eq (anchored : table.Anchored) (found : table.get? id = some scope)
    (key : Key) : table.findFrom? id key = some ((table.frames id).find? key) := by
  rw [findFrom?_of_visible? (anchored.visible?_eq found), findSome?_find?, anchored.map_entries found]

/-- A look-up takes the first frame that holds the key. -/
theorem Anchored.meaning?_eq (anchored : table.Anchored)
    (found : table.get? table.current = some scope) :
    table.meaning? = (table.frames table.current).find? := by
  funext key
  rw [meaning?, anchored.findFrom?_eq found, Option.join_some]

/-- The visible callables of a name are what its signatures mean. -/
theorem mem_unseenOverloads (sound : ∀ scope ∈ scopes, scope.Sound) {name : String}
    {seen : List Key} {decl : DeclId} :
    decl ∈ unseenOverloads name seen scopes ↔
      ∃ key, key ∉ seen ∧ key.isSignature ∧ key.name = name ∧
        scopes.findSome? (·.find? key) = some decl := by
  induction scopes generalizing seen with
  | nil => simp [unseenOverloads]
  | cons scope rest inductionHypothesis =>
    have here := sound scope (.head _)
    have fresh (key : Key) : key ∈ ((scope.overloadKeys name).filter (· ∉ seen)).eraseDups ↔
        key ∈ scope.keys ∧ key ∉ seen ∧ key.isSignature ∧ key.name = name := by
      rw [List.mem_eraseDups, List.mem_filter, here.indexed]
      simp only [decide_eq_true_eq]
      tauto
    simp only [unseenOverloads, List.mem_append, List.mem_map, fresh,
      inductionHypothesis fun other member => sound other (.tail _ member)]
    constructor
    · rintro (⟨key, ⟨member, unseen, signature, same⟩, rfl⟩ |
        ⟨key, unseen, signature, same, further⟩)
      · obtain ⟨decl, found⟩ := Scope.find?_of_mem_keys here member
        exact ⟨key, unseen, signature, same, by simp [found]⟩
      · rw [not_or] at unseen
        have absent : scope.find? key = none :=
          (Scope.find?_eq_none_iff here).mpr fun member =>
            unseen.1 ⟨member, unseen.2, signature, same⟩
        exact ⟨key, unseen.2, signature, same, by simp [absent, further]⟩
    · rintro ⟨key, unseen, signature, same, first⟩
      rw [List.findSome?_cons] at first
      cases found : scope.find? key with
      | none =>
        rw [found] at first
        refine .inr ⟨key, not_or.mpr ⟨fun member => ?_, unseen⟩, signature, same, first⟩
        exact (Scope.find?_eq_none_iff here).mp found member.1
      | some decl' =>
        rw [found] at first
        have member : key ∈ scope.keys := by
          by_contra absent
          rw [(Scope.find?_eq_none_iff here).mpr absent] at found
          cases found
        exact .inl ⟨key, ⟨member, unseen, signature, same⟩, by simpa [found] using first⟩

theorem Anchored.sound_of_visible (anchored : table.Anchored) {ids : List ScopeId} :
    ∀ scope ∈ ids.filterMap table.get?, scope.Sound := by
  intro scope member
  obtain ⟨id, _, found⟩ := List.mem_filterMap.mp member
  exact anchored.scopes id scope found

theorem Anchored.mem_overloads?_iff (anchored : table.Anchored) (found : table.get? id = some scope)
    (name : String) (decl : DeclId) :
    decl ∈ (table.overloads? id name).getD [] ↔
      ∃ key, key.isSignature ∧ key.name = name ∧ (table.frames id).find? key = some decl := by
  rw [overloads?, anchored.visible?_eq found, Option.map_some, Option.getD_some,
    mem_unseenOverloads anchored.sound_of_visible]
  simp only [List.not_mem_nil, not_false_eq_true, true_and, findSome?_find?,
    anchored.map_entries found]

end ScopeTable

end TreeCheck
