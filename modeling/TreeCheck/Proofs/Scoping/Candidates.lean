/-
What a call may mean, against look-ups. The callables of a name are gathered level by level:
over the scopes that a look-up visits, or over a class and its bases. What is gathered on the
way drops a callable whose key was met before. So for every signature of the name, the callable
that is kept is the one that a look-up of that signature finds, and those of nearer levels
come first.

`firstEntries` is the gathering with the keys still in place. The index of names that a scope
keeps, and the key that is recorded for a declaration, are two more sources of keys: they agree
with the scopes themselves, by `Scope.Sound` and `Resolution.HeldUnderKeys`.
-/

import Mathlib.Data.List.Induction
import Mathlib.Data.List.Pairwise
import TreeCheck.Proofs.Scoping.Operations
import TreeCheck.Proofs.Scoping.Staying

namespace TreeCheck

variable {entries : List (Key × DeclId)} {table : ScopeTable} {id : ScopeId} {entry : Key × DeclId}
  {scopes : List Scope} {scope : Scope} {name : String} {enclosing : Option DeclId}

/-! ### First entries -/

/-- The first entry of every key. -/
def firstEntries : List (Key × DeclId) → List (Key × DeclId)
  | [] => []
  | entry :: rest => entry :: (firstEntries rest).filter (·.1 ≠ entry.1)

theorem mem_firstEntries {key : Key} {decl : DeclId} :
    (key, decl) ∈ firstEntries entries ↔ entries.lookup key = some decl := by
  induction entries with
  | nil => simp [firstEntries]
  | cons entry rest inductionHypothesis =>
    obtain ⟨first, held⟩ := entry
    rw [firstEntries, List.mem_cons, List.mem_filter, inductionHypothesis, List.lookup_cons]
    by_cases same : key = first
    · subst same
      simp [eq_comm]
    · have other : (key == first) = false := by simpa using same
      simp [other, same]

theorem nodup_firstEntries (entries : List (Key × DeclId)) :
    ((firstEntries entries).map Prod.fst).Nodup := by
  induction entries with
  | nil => exact List.nodup_nil
  | cons entry rest inductionHypothesis =>
    refine List.nodup_cons.mpr ⟨?_, (List.filter_sublist.map Prod.fst).nodup inductionHypothesis⟩
    intro again
    obtain ⟨other, member, same⟩ := List.mem_map.mp again
    exact of_decide_eq_true (List.mem_filter.mp member).2 same

theorem firstEntries_filter (entries : List (Key × DeclId)) (keep : Key → Bool) :
    firstEntries (entries.filter fun entry => keep entry.1) =
      (firstEntries entries).filter fun entry => keep entry.1 := by
  induction entries with
  | nil => rfl
  | cons entry rest inductionHypothesis =>
    rw [firstEntries, List.filter_cons, List.filter_cons]
    split
    · rw [firstEntries, inductionHypothesis, List.filter_filter, List.filter_filter]
      simp only [Bool.and_comm]
    · next dropped =>
      rw [inductionHypothesis, List.filter_filter]
      refine List.filter_congr fun other _ => ?_
      by_cases same : other.1 = entry.1
      · simp [same, dropped]
      · simp [same]

theorem firstEntries_append (first second : List (Key × DeclId)) :
    firstEntries (first ++ second) =
      firstEntries first ++ (firstEntries second).filter (·.1 ∉ first.map Prod.fst) := by
  induction first with
  | nil => simp [firstEntries]
  | cons entry rest inductionHypothesis =>
    rw [List.cons_append, firstEntries, firstEntries, inductionHypothesis, List.filter_append,
      List.filter_filter, List.cons_append]
    simp only [ne_eq, decide_not, List.map_cons, List.mem_cons, Bool.decide_or, Bool.not_or]

theorem firstEntries_map (keys : List Key) (held : Key → DeclId) :
    firstEntries (keys.map fun key => (key, held key)) =
      keys.eraseDups.map fun key => (key, held key) := by
  induction keys using List.reverseRecOn with
  | nil => rfl
  | append_singleton keys key inductionHypothesis =>
    rw [eraseDups_concat, List.map_append, List.map_append, firstEntries_append, inductionHypothesis]
    by_cases member : key ∈ keys <;> simp [firstEntries, member]

theorem firstEntries_of_nodup (nodup : (entries.map Prod.fst).Nodup) :
    firstEntries entries = entries := by
  induction entries with
  | nil => rfl
  | cons entry rest inductionHypothesis =>
    obtain ⟨fresh, nodup⟩ := List.nodup_cons.mp nodup
    rw [firstEntries, inductionHypothesis nodup, List.filter_eq_self.mpr]
    exact fun other member => decide_eq_true fun same =>
      fresh (same ▸ List.mem_map_of_mem member)

/-! ### Levels -/

/-- Callables of a name, each with its key: for every signature of the name just what it means,
and those that are found less deep come first. -/
structure Candidates (name : String) (means : Key → DeclId → Prop) (depth : Key → Nat)
    (entries : List (Key × DeclId)) : Prop where
  nodup : (entries.map Prod.fst).Nodup
  mem : ∀ key decl, (key, decl) ∈ entries ↔ key.isSignature ∧ key.name = name ∧ means key decl
  nearest : entries.Pairwise fun first second => depth first.1 ≤ depth second.1

section

variable {level : Type} {name : String} {lists : level → List (Key × DeclId)}
  {holds : level → Key → Option DeclId}
variable {levels : List level}

/-- Levels list what they hold. -/
def Lists (name : String) (lists : level → List (Key × DeclId))
    (holds : level → Key → Option DeclId) (levels : List level) : Prop :=
  ∀ one ∈ levels, ∀ key decl, (lists one).lookup key = some decl ↔
    key.isSignature ∧ key.name = name ∧ holds one key = some decl

theorem Lists.tail {one : level} {rest : List level} (exact : Lists name lists holds (one :: rest)) :
    Lists name lists holds rest :=
  fun other member => exact other (.tail _ member)

theorem Lists.lookup_flatMap (exact : Lists name lists holds levels) {key : Key} {decl : DeclId} :
    (levels.flatMap lists).lookup key = some decl ↔
      key.isSignature ∧ key.name = name ∧ levels.findSome? (holds · key) = some decl := by
  induction levels with
  | nil => simp
  | cons one rest inductionHypothesis =>
    have here := exact one (.head _) key
    rw [List.flatMap_cons, List.lookup_append, List.findSome?_cons]
    cases listed : (lists one).lookup key with
    | some found =>
      obtain ⟨signature, same, held⟩ := (here found).mp listed
      simp [held, signature, same]
    | none =>
      rw [Option.none_or, inductionHypothesis exact.tail]
      refine and_congr_right fun signature => and_congr_right fun same => ?_
      cases held : holds one key with
      | none => rfl
      | some found => rw [(here found).mpr ⟨signature, same, held⟩] at listed; nomatch listed

/-- What is gathered over levels that list what they hold. -/
theorem Lists.candidates (exact : Lists name lists holds levels) :
    Candidates name (fun key decl => levels.findSome? (holds · key) = some decl)
      (fun key => levels.findIdx fun one => (holds one key).isSome)
      (firstEntries (levels.flatMap lists)) where
  nodup := nodup_firstEntries _
  mem _ _ := mem_firstEntries.trans exact.lookup_flatMap
  nearest := by
    induction levels with
    | nil => exact .nil
    | cons one rest inductionHypothesis =>
      have here := exact one (.head _)
      -- The own entries of the first level are found at once, the others are not.
      have own (entry : Key × DeclId) (member : entry ∈ firstEntries (lists one)) :
          (holds one entry.1).isSome :=
        Option.isSome_of_mem ((here entry.1 entry.2).mp (mem_firstEntries.mp member)).2.2
      have other (entry : Key × DeclId) (member : entry ∈ firstEntries (rest.flatMap lists))
          (absent : entry.1 ∉ (lists one).map Prod.fst) : (holds one entry.1).isSome = false := by
        rw [Option.isSome_eq_false_iff, Option.isNone_iff_eq_none, Option.eq_none_iff_forall_ne_some]
        intro decl held
        obtain ⟨signature, same, -⟩ := exact.tail.lookup_flatMap.mp (mem_firstEntries.mp member)
        rw [← lookup_eq_none_iff_notMem, (here entry.1 decl).mpr ⟨signature, same, held⟩] at absent
        nomatch absent
      rw [List.flatMap_cons, firstEntries_append]
      refine List.pairwise_append.mpr ⟨?_, ?_, ?_⟩
      · refine List.pairwise_of_forall_mem_list fun first member second _ => ?_
        rw [List.findIdx_cons, own first member]
        exact Nat.zero_le _
      · refine ((inductionHypothesis exact.tail).sublist List.filter_sublist).imp_of_mem ?_
        intro first second member member' ordered
        obtain ⟨member, absent⟩ := List.mem_filter.mp member
        obtain ⟨member', absent'⟩ := List.mem_filter.mp member'
        rw [List.findIdx_cons, List.findIdx_cons, other first member (of_decide_eq_true absent),
          other second member' (of_decide_eq_true absent')]
        exact Nat.succ_le_succ ordered
      · intro first member second _
        rw [List.findIdx_cons, own first member]
        exact Nat.zero_le _

end

/-! ### Scopes -/

namespace Scope

/-- The signatures of a name that a scope has in its index, and what they are bound to. -/
def named (name : String) (scope : Scope) : List (Key × DeclId) :=
  (scope.overloadKeys name).map fun key => (key, (scope.find? key).getD 0)

theorem overloadDecls_eq (scope : Scope) (name : String) :
    scope.overloadDecls name = (scope.named name).map Prod.snd := by
  rw [named, List.map_map]
  rfl

/-- What the index leads to is held. -/
theorem Sound.find?_of_mem_named (sound : scope.Sound) (member : entry ∈ scope.named name) :
    scope.find? entry.1 = some entry.2 := by
  obtain ⟨key, listed, rfl⟩ := List.mem_map.mp member
  obtain ⟨decl, held⟩ := find?_of_mem_keys sound ((sound.indexed name key).mp listed).1
  rw [held, Option.getD_some]

theorem Sound.lists (sound : ∀ scope ∈ scopes, scope.Sound) (name : String) :
    Lists name (named name) find? scopes := by
  intro scope member key decl
  have valid := sound scope member
  have listed : (scope.named name).lookup key = some decl ↔
      key ∈ scope.overloadKeys name ∧ (scope.find? key).getD 0 = decl := by
    rw [← mem_firstEntries, named, firstEntries_map, List.mem_map]
    simp [List.mem_eraseDups]
  rw [listed, valid.indexed]
  constructor
  · rintro ⟨⟨bound, signature, same⟩, rfl⟩
    obtain ⟨decl, held⟩ := find?_of_mem_keys valid bound
    exact ⟨signature, same, by rw [held, Option.getD_some]⟩
  · rintro ⟨signature, same, held⟩
    refine ⟨⟨?_, signature, same⟩, by rw [held, Option.getD_some]⟩
    by_contra absent
    rw [(find?_eq_none_iff valid).mpr absent] at held
    nomatch held

end Scope

theorem ScopeTable.unseenOverloads_eq (name : String) (seen : List Key) (scopes : List Scope) :
    unseenOverloads name seen scopes =
      ((firstEntries (scopes.flatMap (Scope.named name))).filter (·.1 ∉ seen)).map Prod.snd := by
  induction scopes generalizing seen with
  | nil => rfl
  | cons scope rest inductionHypothesis =>
    rw [unseenOverloads, inductionHypothesis, List.flatMap_cons, firstEntries_append,
      List.filter_append, List.map_append]
    congr 1
    · rw [← firstEntries_filter _ fun key => decide (key ∉ seen), Scope.named, List.filter_map,
        firstEntries_map, List.map_map]
      rfl
    · rw [List.filter_filter]
      congr 1
      refine List.filter_congr fun entry _ => ?_
      have keys : (scope.named name).map Prod.fst = scope.overloadKeys name := by
        simp [Scope.named, Function.comp_def]
      rw [keys]
      by_cases before : entry.1 ∈ seen <;> simp [before]

theorem ScopeTable.get?_of_mem_outwardWithin {steps : Nat} {entry : ScopeId × Scope}
    (member : entry ∈ (table.outwardWithin steps id).scopes) :
    table.get? entry.1 = some entry.2 := by
  induction steps generalizing id with
  | zero => cases member
  | succ steps inductionHypothesis =>
    rw [outwardWithin] at member
    split at member
    · cases member
    · split at member
      · cases member
      · next scope found =>
        rcases List.mem_cons.mp member with rfl | further
        · exact found
        · exact inductionHypothesis further

/-- What a look-up may visit are scopes of the table. -/
theorem ScopeTable.get?_of_visible? (visible : table.visible? id = some scopes)
    (member : scope ∈ scopes) : ∃ home, table.get? home = some scope := by
  obtain ⟨imports, -, same⟩ := Option.bind_eq_some_iff.mp visible
  cases same
  rcases List.mem_append.mp member with outward | imported
  · obtain ⟨entry, met, rfl⟩ := List.mem_map.mp outward
    exact ⟨entry.1, get?_of_mem_outwardWithin met⟩
  · obtain ⟨home, -, found⟩ := List.mem_filterMap.mp imported
    exact ⟨home, found⟩

/-- The callables of a name that are visible from a scope. -/
theorem ScopeTable.candidates_of_visible? (visible : table.visible? id = some scopes)
    (sound : ∀ scope ∈ scopes, scope.Sound) (name : String) :
    Candidates name (fun key decl => table.findFrom? id key = some (some decl))
        (fun key => scopes.findIdx fun scope => (scope.find? key).isSome)
        (firstEntries (scopes.flatMap (Scope.named name))) ∧
      table.overloads? id name =
        some ((firstEntries (scopes.flatMap (Scope.named name))).map Prod.snd) := by
  have gathered := (Scope.Sound.lists sound name).candidates
  refine ⟨⟨gathered.nodup, fun key decl => ?_, gathered.nearest⟩, ?_⟩
  · rw [gathered.mem, findFrom?_of_visible? visible, Option.some_inj]
  · rw [overloads?, visible, Option.map_some, unseenOverloads_eq]
    simp

/-! ### Recorded keys -/

namespace Resolution

variable {tree : Tree} {names : Resolution}

/-- What a scope holds is recorded under the key it is held under. -/
def HeldUnderKeys (names : Resolution) : Prop :=
  ∀ id scope, names.scopes.get? id = some scope → ∀ entry ∈ scope.entries,
    names.keys[entry.2]? = some entry.1

/-- No declaration is held under two keys. -/
def HeldOnce (names : Resolution) : Prop :=
  ∀ id scope, names.scopes.get? id = some scope → ∀ entry ∈ scope.entries,
    ∀ id' scope', names.scopes.get? id' = some scope' → ∀ entry' ∈ scope'.entries,
      entry'.2 = entry.2 → entry'.1 = entry.1

/-- The key that is recorded for a declaration is one it is held under, so it is the one if there is
no other. -/
theorem Keyed.heldUnderKeys_iff (keyed : names.Keyed) (valid : names.Valid tree) :
    names.HeldUnderKeys ↔ names.HeldOnce := by
  refine ⟨fun held id scope found entry member id' scope' found' entry' member' same => ?_,
    fun once id scope found entry member => ?_⟩
  · have isKey := held id' scope' found' entry' member'
    rw [same, held id scope found entry member] at isKey
    exact (Option.some.inj isKey).symm
  · obtain ⟨key, isKey⟩ := Option.isSome_iff_exists.mp
      (keyed entry.2 ⟨id, scope, found, entry, member, rfl⟩)
    obtain ⟨home, other, -, there, bound⟩ := valid.bound entry.2 key isKey
    rw [isKey, ← once id scope found entry member home other there _
      (Scope.mem_entries_of_find? bound) rfl]

/-- Going by the keys that are recorded is going by the keys that are held. -/
theorem firstOfKey_eq (recorded : ∀ entry ∈ entries, names.keys[entry.2]? = some entry.1)
    (seen : List Key) :
    names.firstOfKey seen (entries.map Prod.snd) =
      ((firstEntries entries).filter (·.1 ∉ seen)).map Prod.snd := by
  induction entries generalizing seen with
  | nil => rfl
  | cons entry rest inductionHypothesis =>
    have others (seen : List Key) := inductionHypothesis
      (fun other member => recorded other (.tail _ member)) seen
    have isKey : names.keys.getD entry.2 ⟨""⟩ = entry.1 := by
      rw [Std.TreeMap.getD_eq_getD_getElem?, recorded entry (.head _), Option.getD_some]
    rw [List.map_cons, firstOfKey, isKey, firstEntries, List.filter_cons, List.filter_filter]
    by_cases met : entry.1 ∈ seen
    · rw [if_pos met, if_neg (by simpa using met), others]
      congr 1
      refine List.filter_congr fun other _ => ?_
      by_cases same : other.1 = entry.1 <;> simp [same, met]
    · rw [if_neg met, if_pos (decide_eq_true met), others, List.map_cons]
      congr 2
      exact List.filter_congr fun other _ => by simp [Bool.and_comm]

/-- The signatures of a name that a class binds itself. -/
def named (names : Resolution) (name : String) (owner : DeclId) : List (Key × DeclId) :=
  match names.scopes.get? (names.scopeOf owner) with
  | some scope => scope.named name
  | none => []

theorem methodsOf_eq (names : Resolution) (name : String) (classes : List DeclId) :
    names.methodsOf name classes = (classes.flatMap (names.named name)).map Prod.snd := by
  rw [methodsOf, List.map_flatMap]
  refine List.flatMap_congr fun owner _ => ?_
  rw [ScopeTable.localOverloads, named]
  cases names.scopes.get? (names.scopeOf owner) with
  | none => rfl
  | some scope => exact scope.overloadDecls_eq name

theorem named_lists (sound : names.scopes.Sound) (name : String) (classes : List DeclId) :
    Lists name (names.named name) names.findIn? classes := by
  intro owner _ key decl
  rw [named, findIn?]
  cases found : names.scopes.get? (names.scopeOf owner) with
  | none => simp
  | some scope =>
    have alone : ∀ other ∈ [scope], other.Sound := by simpa using sound.scopes _ scope found
    exact Scope.Sound.lists alone name scope (.head _) key decl

theorem HeldUnderKeys.of_mem_named (held : names.HeldUnderKeys) (sound : names.scopes.Sound)
    {classes : List DeclId} (member : entry ∈ classes.flatMap (names.named name)) :
    names.keys[entry.2]? = some entry.1 := by
  obtain ⟨owner, -, member⟩ := List.mem_flatMap.mp member
  rw [Resolution.named] at member
  split at member
  · next scope found =>
    have isHeld := (sound.scopes _ scope found).find?_of_mem_named member
    exact held _ scope found entry (Scope.mem_entries_of_find? isHeld)
  · nomatch member

/-- The methods of a name that a class has. -/
theorem HeldUnderKeys.methodCandidates_eq (held : names.HeldUnderKeys) (sound : names.scopes.Sound)
    (owner : DeclId) (name : String) :
    names.methodCandidates owner name =
      (firstEntries ((owner :: names.ancestors owner).flatMap (names.named name))).map Prod.snd := by
  rw [methodCandidates, methodsOf_eq,
    firstOfKey_eq (fun entry member => held.of_mem_named sound member)]
  simp

/-- The classes whose methods a call may mean after everything that is visible. -/
def inheriting (names : Resolution) (enclosing : Option DeclId) : List DeclId :=
  match enclosing with
  | some owner => names.ancestors owner
  | none => []

theorem callCandidates_of_overloads? {callables : List DeclId}
    (visible : names.scopes.overloads? id name = some callables) :
    names.callCandidates id enclosing name =
      names.firstOfKey [] (callables ++ names.methodsOf name (names.inheriting enclosing)) := by
  unfold callCandidates
  rw [visible]
  cases enclosing <;> rfl

/-- A call adds to what is visible, as far as the key is not taken. -/
theorem HeldUnderKeys.callCandidates_eq (held : names.HeldUnderKeys) (sound : names.scopes.Sound)
    {seen : List (Key × DeclId)}
    (visible : names.scopes.overloads? id name = some (seen.map Prod.snd))
    (nodup : (seen.map Prod.fst).Nodup)
    (isKey : ∀ entry ∈ seen, names.keys[entry.2]? = some entry.1) :
    names.callCandidates id enclosing name = (seen ++
      (firstEntries ((names.inheriting enclosing).flatMap (names.named name))).filter
        (·.1 ∉ seen.map Prod.fst)).map Prod.snd := by
  have all (entry : Key × DeclId) (member : entry ∈ seen ++
      (names.inheriting enclosing).flatMap (names.named name)) :
      names.keys[entry.2]? = some entry.1 :=
    (List.mem_append.mp member).elim (isKey entry) (held.of_mem_named sound)
  rw [callCandidates_of_overloads? visible, methodsOf_eq, ← List.map_append, firstOfKey_eq all,
    firstEntries_append, firstEntries_of_nodup nodup]
  simp

end Resolution

theorem Candidates.filter {means : Key → DeclId → Prop} {depth : Key → Nat}
    (candidates : Candidates name means depth entries) (taken : List Key) :
    Candidates name (fun key decl => key ∉ taken ∧ means key decl) depth
      (entries.filter (·.1 ∉ taken)) where
  nodup := (List.filter_sublist.map Prod.fst).nodup candidates.nodup
  mem key decl := by
    rw [List.mem_filter, candidates.mem, decide_eq_true_eq]
    tauto
  nearest := candidates.nearest.sublist List.filter_sublist

/-! ### Candidates -/

/-- Callables of a name from the scopes that are visible in a scope: for every signature of the
name the one that a look-up finds, the nearer ones first. -/
def ScopeTable.Gathers (table : ScopeTable) (id : ScopeId) (name : String)
    (entries : List (Key × DeclId)) : Prop :=
  ∃ scopes, table.visible? id = some scopes ∧
    Candidates name (fun key decl => table.findFrom? id key = some (some decl))
      (fun key => scopes.findIdx fun scope => (scope.find? key).isSome) entries

/-- Callables of a name from classes: for every signature of the name that is not taken the one
that the first class to bind it binds, in the order of the classes. -/
def Resolution.Gathers (names : Resolution) (classes : List DeclId) (name : String)
    (taken : List Key) (entries : List (Key × DeclId)) : Prop :=
  Candidates name
    (fun key decl => key ∉ taken ∧ classes.findSome? (names.findIn? · key) = some decl)
    (fun key => classes.findIdx fun owner => (names.findIn? owner key).isSome) entries

theorem Resolution.gathers_named {names : Resolution} (sound : names.scopes.Sound)
    (classes : List DeclId) (name : String) (taken : List Key) :
    names.Gathers classes name taken
      ((firstEntries (classes.flatMap (names.named name))).filter (·.1 ∉ taken)) :=
  (named_lists sound name classes).candidates.filter taken

/-- The methods of every name that a class has, and what a call of the name may mean: the callables
that are visible and, behind them, the methods of bases whose signatures are not among those. -/
structure Resolution.FindsCandidates (names : Resolution) : Prop where
  methods : ∀ owner name, ∃ entries,
    names.Gathers (owner :: names.ancestors owner) name [] entries ∧
      entries.map Prod.snd = names.methodCandidates owner name
  calls : ∀ id enclosing name, id = 0 ∨ (names.scopes.get? id).isSome → ∃ seen added,
    names.scopes.Gathers id name seen ∧
      names.scopes.overloads? id name = some (seen.map Prod.snd) ∧
      names.Gathers (names.inheriting enclosing) name (seen.map Prod.fst) added ∧
      (seen ++ added).map Prod.snd = names.callCandidates id enclosing name

theorem Resolution.HeldUnderKeys.findsCandidates {names : Resolution} (held : names.HeldUnderKeys)
    (sound : names.scopes.Sound) : names.FindsCandidates where
  methods := fun owner name => by
    refine ⟨_, names.gathers_named sound _ name [], ?_⟩
    rw [held.methodCandidates_eq sound]
    simp
  calls := fun id enclosing name known => by
    obtain ⟨_, _, scopes, _, _, _, _, _, _, _, visible⟩ := sound.anchored.walks_end known
    have valid (scope : Scope) (member : scope ∈ scopes) : scope.Sound := by
      obtain ⟨home, found⟩ := ScopeTable.get?_of_visible? visible member
      exact sound.scopes home scope found
    obtain ⟨candidates, listed⟩ := ScopeTable.candidates_of_visible? visible valid name
    refine ⟨_, _, ⟨scopes, visible, candidates⟩, listed, names.gathers_named sound _ name _, ?_⟩
    refine (held.callCandidates_eq sound listed candidates.nodup fun entry member => ?_).symm
    obtain ⟨-, -, found⟩ := (candidates.mem entry.1 entry.2).mp member
    rw [ScopeTable.findFrom?_of_visible? visible, Option.some_inj] at found
    obtain ⟨scope, inside, isHeld⟩ := List.exists_of_findSome?_eq_some found
    obtain ⟨home, there⟩ := ScopeTable.get?_of_visible? visible inside
    exact held home scope there entry (Scope.mem_entries_of_find? isHeld)

end TreeCheck
