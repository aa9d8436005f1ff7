/-
What is true of the annotations of name resolution at every moment. The table of scopes
is formed, every scope holds declarations of the tree, and the annotations agree with the
table: a recorded binding is what its scope holds, a recorded scope belongs to its
declaration or statement. `Valid.faults_eq_nil` says that the check of the annotations
then finds nothing; the other statements say which changes keep this true.
-/

import TreeCheck.Proofs.Scoping.Growth

namespace TreeCheck

open ScopeTable

variable {id other : ScopeId} {key : Key} {decl owner : DeclId} {name : String} {table : ScopeTable}
  {kind : ScopeKind}

/-- A declaration that a scope may hold: an import is never bound. -/
def Tree.Bindable (tree : Tree) (id : DeclId) : Prop :=
  ∃ kind, tree.kindOf? id = some kind ∧ kind ≠ .importDecl

theorem Tree.Bindable.isSome {tree : Tree} {id : DeclId} (bindable : tree.Bindable id) :
    (tree.decls.get? id).isSome := by
  obtain ⟨kind, isKind, -⟩ := bindable
  obtain ⟨decl, found, -⟩ := Option.map_eq_some_iff.mp isKind
  rw [found]
  rfl

theorem Tree.Bindable.ne_zero {tree : Tree} {id : DeclId} (bindable : tree.Bindable id) :
    id ≠ 0 := by
  rintro rfl
  nomatch bindable.isSome

namespace Resolution

/-- The annotations agree with each other and with the tree. -/
structure Valid (tree : Tree) (names : Resolution) : Prop where
  table : names.scopes.Formed
  holds : ∀ id scope, names.scopes.get? id = some scope →
    ∀ entry ∈ scope.entries, tree.Bindable entry.2
  opened : ∀ id ∈ names.scopes.stack, (names.scopes.get? id).isSome
  units : ∀ (unit : UnitId) (id : ScopeId), names.units[unit]? = some id →
    ∃ scope, names.scopes.get? id = some scope ∧ scope.parent = 0
  bound : ∀ (decl : DeclId) (key : Key), names.keys[decl]? = some key → ∃ home scope,
    names.declScope[decl]? = some home ∧ names.scopes.get? home = some scope ∧
      scope.find? key = some decl
  declScopes : ∀ (decl : DeclId) (id : ScopeId), names.scopeOfDecl[decl]? = some id →
    ∃ scope, names.scopes.get? id = some scope ∧ scope.owner = decl
  stmtScopes : ∀ (stmt : StmtId) (id : ScopeId), names.scopeOfStmt[stmt]? = some id →
    ∃ scope, names.scopes.get? id = some scope ∧ scope.stmt = stmt
  uses : ∀ (expr : ExprId) (decl : DeclId), names.uses[expr]? = some decl →
    (tree.decls.get? decl).isSome
  bases : ∀ (owner base : DeclId), names.bases[owner]? = some base →
    tree.kindOf? base = some .classDecl

namespace Valid

variable {tree : Tree} {names : Resolution}

theorem empty (tree : Tree) : Valid tree {} where
  table := .empty
  holds := fun _ _ found => absurd found absent_empty
  opened := nofun
  units := by simp
  bound := by simp
  declScopes := by simp
  stmtScopes := by simp
  uses := by simp
  bases := by simp

/-- The check of the annotations finds nothing. -/
theorem faults_eq_nil (valid : names.Valid tree) : names.faults tree = [] := by
  have table : names.scopes.faults = [] :=
    valid.table.faults_eq_nil fun id scope found entry member =>
      (valid.holds id scope found entry member).ne_zero
  unfold faults
  simp only [table, List.map_nil, List.nil_append, List.append_eq_nil_iff,
    List.filterMap_eq_nil_iff]
  refine ⟨⟨⟨⟨fun (decl, key) listed => ?_, fun (decl, id) listed => ?_⟩, fun (stmt, id) listed => ?_⟩,
    fun (expr, decl) listed => ?_⟩, fun (owner, base) listed => ?_⟩
  · obtain ⟨home, scope, here, there, held⟩ :=
      valid.bound decl key (Std.TreeMap.mem_toList_iff_getElem?_eq_some.mp listed)
    have home' : names.declScope.getD decl 0 = home := by
      rw [Std.TreeMap.getD_eq_getD_getElem?, here]
      rfl
    simp [home', there, held]
  · obtain ⟨scope, there, owner⟩ :=
      valid.declScopes decl id (Std.TreeMap.mem_toList_iff_getElem?_eq_some.mp listed)
    simp [there, owner]
  · obtain ⟨scope, there, stmt⟩ :=
      valid.stmtScopes stmt id (Std.TreeMap.mem_toList_iff_getElem?_eq_some.mp listed)
    simp [there, stmt]
  · have known := valid.uses expr decl (Std.TreeMap.mem_toList_iff_getElem?_eq_some.mp listed)
    simp [known]
  · have isClass := valid.bases owner base (Std.TreeMap.mem_toList_iff_getElem?_eq_some.mp listed)
    simp [isClass]

/-- A tree in which declarations keep their kinds serves as well. -/
theorem mono {later : Tree} (valid : names.Valid tree)
    (keeps : ∀ id kind, tree.kindOf? id = some kind → later.kindOf? id = some kind) :
    names.Valid later := by
  have there {id : DeclId} (known : (tree.decls.get? id).isSome) : (later.decls.get? id).isSome := by
    obtain ⟨decl, found⟩ := Option.isSome_iff_exists.mp known
    have isKind := keeps id decl.kind (Option.map_eq_some_iff.mpr ⟨decl, found, rfl⟩)
    obtain ⟨decl', found', -⟩ := Option.map_eq_some_iff.mp isKind
    rw [found']
    rfl
  exact { valid with
    holds := fun id scope found entry member =>
      let ⟨kind, isKind, noImport⟩ := valid.holds id scope found entry member
      ⟨kind, keeps _ kind isKind, noImport⟩
    uses := fun expr decl used => there (valid.uses expr decl used)
    bases := fun owner base isBase => keeps base _ (valid.bases owner base isBase) }

/-! ### What look-ups find -/

theorem bindable_of_find? (valid : names.Valid tree) {scope : Scope}
    (found : names.scopes.get? id = some scope) (held : scope.find? key = some decl) :
    tree.Bindable decl :=
  valid.holds id scope found _ (Scope.mem_entries_of_find? held)

theorem bindable_of_binds (valid : names.Valid tree) (binds : names.scopes.Binds decl) :
    tree.Bindable decl := by
  obtain ⟨id, scope, found, entry, member, rfl⟩ := binds
  exact valid.holds id scope found entry member

/-- What is seen from a scope is held by one. -/
theorem binds_of_frames (seen : (names.scopes.frames id).find? key = some decl) :
    names.scopes.Binds decl := by
  obtain ⟨frame, member, held⟩ := List.exists_of_findSome?_eq_some seen
  obtain ⟨other, -, rfl⟩ := List.mem_map.mp member
  cases found : names.scopes.get? other with
  | none => simp [frameOf, found] at held
  | some scope =>
    simp only [frameOf, found, Option.map_some, Option.getD_some] at held
    exact ⟨other, scope, found, _, Scope.mem_entries_of_find? held, rfl⟩

/-- The current scope is there when one is open. -/
theorem current (valid : names.Valid tree) (inside : names.scopes.stack ≠ []) :
    ∃ scope, names.scopes.get? names.scopes.current = some scope := by
  obtain ⟨top, rest, stack⟩ := List.exists_cons_of_ne_nil inside
  have here : names.scopes.current = top := by simp [ScopeTable.current, stack]
  rw [here]
  exact Option.isSome_iff_exists.mp (valid.opened top (stack ▸ .head _))

theorem binds_of_meaning? (valid : names.Valid tree) (inside : names.scopes.stack ≠ [])
    (means : names.scopes.meaning? key = some decl) : names.scopes.Binds decl := by
  obtain ⟨scope, found⟩ := valid.current inside
  rw [valid.table.anchored.meaning?_eq found] at means
  exact binds_of_frames means

theorem bindable_of_meaning? (valid : names.Valid tree) (inside : names.scopes.stack ≠ [])
    (means : names.scopes.meaning? key = some decl) : tree.Bindable decl :=
  valid.bindable_of_binds (valid.binds_of_meaning? inside means)

theorem bindable_of_localOverloads (valid : names.Valid tree)
    (member : decl ∈ names.scopes.localOverloads id name) : tree.Bindable decl := by
  unfold localOverloads at member
  split at member
  · next scope found =>
    obtain ⟨key, listed, rfl⟩ := List.mem_map.mp member
    have sound := valid.table.scopes id scope found
    obtain ⟨decl, held⟩ := Scope.find?_of_mem_keys sound ((sound.indexed name key).mp listed).1
    rw [held]
    exact valid.bindable_of_find? found held
  · nomatch member

theorem mem_of_mem_firstOfKey {seen : List Key} {ids : List DeclId} {id : DeclId}
    (member : id ∈ names.firstOfKey seen ids) : id ∈ ids := by
  induction ids generalizing seen with
  | nil => exact member
  | cons first rest inductionHypothesis =>
    unfold firstOfKey at member
    dsimp only at member
    split at member
    · exact .tail _ (inductionHypothesis member)
    · rcases List.mem_cons.mp member with rfl | further
      · exact .head _
      · exact .tail _ (inductionHypothesis further)

theorem bindable_of_methodsOf (valid : names.Valid tree) {classes : List DeclId}
    (member : decl ∈ names.methodsOf name classes) : tree.Bindable decl := by
  obtain ⟨owner, -, listed⟩ := List.mem_flatMap.mp member
  exact valid.bindable_of_localOverloads listed

theorem bindable_of_methodCandidates (valid : names.Valid tree)
    (member : decl ∈ names.methodCandidates owner name) : tree.Bindable decl :=
  valid.bindable_of_methodsOf (mem_of_mem_firstOfKey member)

theorem bindable_of_callCandidates (valid : names.Valid tree) (inside : names.scopes.stack ≠ [])
    {enclosing : Option DeclId}
    (member : decl ∈ names.callCandidates names.scopes.current enclosing name) :
    tree.Bindable decl := by
  obtain ⟨scope, found⟩ := valid.current inside
  rcases List.mem_append.mp (mem_of_mem_firstOfKey member) with visible | inherited
  · obtain ⟨key, -, -, seen⟩ := (valid.table.anchored.mem_overloads?_iff found name decl).mp visible
    exact valid.bindable_of_binds (binds_of_frames seen)
  · cases enclosing with
    | none => nomatch inherited
    | some owner => exact valid.bindable_of_methodsOf inherited

theorem bindable_of_member? (valid : names.Valid tree)
    (found : names.member? owner name = some decl) : tree.Bindable decl := by
  obtain ⟨scope, there, held⟩ := Option.bind_eq_some_iff.mp found
  exact valid.bindable_of_find? there held

/-! ### Changes -/

section

variable (valid : names.Valid tree)

include valid

/-- A table that has grown and is formed serves as well. -/
theorem withScopes (formed : table.Formed)
    (grows : names.scopes.Grows table)
    (holds : ∀ id scope, table.get? id = some scope → ∀ entry ∈ scope.entries,
      tree.Bindable entry.2) (opened : ∀ id ∈ table.stack, (table.get? id).isSome) :
    { names with scopes := table }.Valid tree where
  table := formed
  holds := holds
  opened := opened
  units := fun unit id isUnit =>
    let ⟨scope, found, top⟩ := valid.units unit id isUnit
    let ⟨scope', found', grown⟩ := grows id scope found
    ⟨scope', found', grown.parent.trans top⟩
  bound := fun decl key isKey =>
    let ⟨home, scope, here, found, held⟩ := valid.bound decl key isKey
    let ⟨scope', found', grown⟩ := grows home scope found
    ⟨home, scope', here, found', grown.find? held⟩
  declScopes := fun decl id isScope =>
    let ⟨scope, found, owner⟩ := valid.declScopes decl id isScope
    let ⟨scope', found', grown⟩ := grows id scope found
    ⟨scope', found', grown.owner.trans owner⟩
  stmtScopes := fun stmt id isScope =>
    let ⟨scope, found, owner⟩ := valid.stmtScopes stmt id isScope
    let ⟨scope', found', grown⟩ := grows id scope found
    ⟨scope', found', grown.stmt.trans owner⟩
  uses := valid.uses
  bases := valid.bases

/-- Another stack of scopes that are there. -/
theorem withStack {stack : List ScopeId}
    (opened : ∀ id ∈ stack, (names.scopes.get? id).isSome) :
    { names with scopes := { names.scopes with stack } }.Valid tree :=
  valid.withScopes (valid.table.withStack stack) (.refl _) valid.holds opened

/-- A scope of a grown table holds what it held, or what is bindable. -/
theorem holds_modify {change : Scope → Scope}
    (holds : ∀ scope, names.scopes.get? id = some scope → ∀ entry ∈ (change scope).entries,
      tree.Bindable entry.2) (other : ScopeId) (scope : Scope)
    (found : (names.scopes.modify id change).get? other = some scope) :
    ∀ entry ∈ scope.entries, tree.Bindable entry.2 := by
  rw [get?_modify] at found
  split at found
  · next same =>
    obtain ⟨old, there, rfl⟩ := Option.map_eq_some_iff.mp found
    exact holds old (same ▸ there)
  · exact valid.holds other scope found

theorem opened_modify (id : ScopeId) (change : Scope → Scope)
    (member : other ∈ names.scopes.stack) :
    ((names.scopes.modify id change).get? other).isSome := by
  rw [get?_modify]
  split
  · rw [Option.isSome_map]
    exact valid.opened other member
  · exact valid.opened other member

/-- A declaration is bound in the current scope, whether or not this is recorded. -/
theorem bindScopes (bindable : tree.Bindable decl)
    (ok : names.scopes.bind key decl = .ok table) :
    { names with scopes := table }.Valid tree ∧ names.scopes.Grows table ∧
      table.stack = names.scopes.stack ∧
      ∃ scope, table.get? names.scopes.current = some scope ∧ scope.find? key = some decl := by
  obtain ⟨scope, found, free, rfl⟩ := bindIn_eq_ok ok
  have grows : names.scopes.Grows
      (names.scopes.modify names.scopes.current (·.insert key decl)) :=
    grows_modify _ fun scope _ => scope.grows_insert key decl
  refine ⟨valid.withScopes (valid.table.insert found free decl) grows ?_ ?_, grows, rfl, ?_⟩
  · refine valid.holds_modify fun old there entry member => ?_
    rcases List.mem_append.mp member with held | new
    · exact valid.holds _ old there entry held
    · rw [List.mem_singleton.mp new]
      exact bindable
  · exact fun id member => valid.opened_modify _ _ member
  · refine ⟨scope.insert key decl, ?_, ?_⟩
    · rw [get?_modify, if_pos rfl, found]
      rfl
    · have absent : scope.entries.lookup key = none := free
      show (scope.entries ++ [(key, decl)]).lookup key = some decl
      rw [List.lookup_append, absent]
      simp

theorem bind (bindable : tree.Bindable decl)
    (ok : names.scopes.bind key decl = .ok table) :
    { names with
      scopes := table
      declScope := names.declScope.insert decl names.scopes.current
      keys := names.keys.insert decl key }.Valid tree := by
  obtain ⟨after, -, -, scope, found, held⟩ := valid.bindScopes bindable ok
  refine { after with bound := fun other key' isKey => ?_ }
  simp only [Std.TreeMap.getElem?_insert] at isKey ⊢
  split at isKey
  · next same =>
    obtain rfl := Std.LawfulEqCmp.eq_of_compare same
    cases isKey
    exact ⟨_, scope, by simp, found, held⟩
  · next other =>
    simp only [other, if_false]
    exact after.bound _ key' isKey

end

/-! ### Opening and closing -/

/-- What opening a scope for a declaration or statement does. -/
theorem opens (valid : names.Valid tree) (inside : names.scopes.stack ≠ [])
    (inner : kind ≠ .invalid ∧ kind ≠ .global) (owner : DeclId) (span : Span) :
    ∃ table, names.scopes.openScope kind owner span = (names.scopes.scopes.next, table) ∧
      { names with scopes := table }.Valid tree ∧ names.scopes.Grows table ∧
      table.stack = names.scopes.scopes.next :: names.scopes.stack ∧
      ∃ scope, table.get? names.scopes.scopes.next = some scope ∧ scope.owner = owner := by
  obtain ⟨scope, found⟩ := valid.current inside
  have nonzero := (le_size found).1
  let grown := (names.scopes.newScope kind names.scopes.current owner span).2
  have formed : grown.Formed :=
    valid.table.newScope inner.1 ⟨fun global => absurd global inner.2, fun zero => by lia⟩
      (fun _ => by rw [found]; rfl) owner span
  have grows : names.scopes.Grows grown := grows_newScope _ _ _ _ _
  have here : grown.get? names.scopes.scopes.next =
      some (names.scopes.created kind names.scopes.current owner span) := by
    rw [get?_newScope, if_pos rfl]
  refine ⟨{ grown with stack := names.scopes.scopes.next :: names.scopes.stack }, rfl,
    valid.withScopes (formed.withStack _) grows ?_ ?_, grows, rfl, _, here, rfl⟩
  · intro id scope' found'
    rcases get?_newScope_cases found' with ⟨-, rfl⟩ | ⟨old, there, like, -⟩
    · exact nofun
    · rw [like.entries]
      exact valid.holds id old there
  · intro id member
    rcases List.mem_cons.mp member with rfl | older
    · exact Option.isSome_iff_exists.mpr ⟨_, here⟩
    · exact grows.isSome (valid.opened id older)

theorem openDecl (valid : names.Valid tree) (inside : names.scopes.stack ≠ [])
    (inner : kind ≠ .invalid ∧ kind ≠ .global) (owner : DeclId) (span : Span) :
    ∃ table, names.scopes.openScope kind owner span = (names.scopes.scopes.next, table) ∧
      { names with
        scopes := table
        scopeOfDecl := names.scopeOfDecl.insert owner names.scopes.scopes.next }.Valid tree ∧
      names.scopes.Grows table ∧
      table.stack = names.scopes.scopes.next :: names.scopes.stack := by
  obtain ⟨table, opened, after, grows, stack, scope, here, owned⟩ :=
    valid.opens inside inner owner span
  refine ⟨table, opened, { after with declScopes := fun decl id isScope => ?_ }, grows, stack⟩
  rw [Std.TreeMap.getElem?_insert] at isScope
  split at isScope
  · next same =>
    obtain rfl := Std.LawfulEqCmp.eq_of_compare same
    cases isScope
    exact ⟨scope, here, owned⟩
  · exact after.declScopes decl id isScope

theorem openStmt (valid : names.Valid tree) (inside : names.scopes.stack ≠ [])
    (inner : kind ≠ .invalid ∧ kind ≠ .global) (stmt : StmtId) (span : Span) :
    ∃ table, names.scopes.openScope kind 0 span = (names.scopes.scopes.next, table) ∧
      { names with
        scopes := table.modify names.scopes.scopes.next fun opened => { opened with stmt }
        scopeOfStmt := names.scopeOfStmt.insert stmt names.scopes.scopes.next }.Valid tree ∧
      names.scopes.Grows
        (table.modify names.scopes.scopes.next fun opened => { opened with stmt }) ∧
      table.stack = names.scopes.scopes.next :: names.scopes.stack := by
  obtain ⟨table, opened, after, grows, stack, scope, here, -⟩ := valid.opens inside inner 0 span
  let marked := table.modify names.scopes.scopes.next fun opened => { opened with stmt }
  have grows' : names.scopes.Grows marked :=
    grows.modify_fresh names.scopes.get?_next _
  have formed : marked.Formed :=
    after.table.modify _ (fun _ => ⟨rfl, rfl, rfl, rfl, rfl⟩) (fun _ => rfl) fun _ => rfl
  have after' : { names with scopes := marked }.Valid tree :=
    valid.withScopes formed grows' (after.holds_modify fun old there => after.holds _ old there)
      fun id member => after.opened_modify _ _ member
  have here' : marked.get? names.scopes.scopes.next = some { scope with stmt } := by
    rw [get?_modify, if_pos rfl, here]
    rfl
  refine ⟨table, opened, { after' with stmtScopes := fun other id isScope => ?_ }, grows', stack⟩
  rw [Std.TreeMap.getElem?_insert] at isScope
  split at isScope
  · next same =>
    obtain rfl := Std.LawfulEqCmp.eq_of_compare same
    cases isScope
    exact ⟨_, here', rfl⟩
  · exact after'.stmtScopes other id isScope

theorem grows_close (table : ScopeTable) : table.Grows table.close :=
  grows_modify _ fun _ _ => ⟨rfl, rfl, rfl, rfl, List.prefix_rfl, List.prefix_rfl⟩

theorem close (valid : names.Valid tree) :
    { names with scopes := names.scopes.close }.Valid tree := by
  have formed : (names.scopes.modify names.scopes.current fun scope =>
      { scope with closed := true }).Formed :=
    valid.table.modify _ (fun _ => ⟨rfl, rfl, rfl, rfl, rfl⟩) (fun _ => rfl) fun _ => rfl
  refine valid.withScopes (formed.withStack _) (grows_close _) ?_ ?_
  · exact valid.holds_modify fun old there => valid.holds _ old there
  · exact fun id member => valid.opened_modify _ _ (List.mem_of_mem_tail member)

/-! ### Global scopes -/

/-- What creating the global scope of a unit does. -/
theorem newRoot (valid : names.Valid tree) (unit : UnitId) (span : Span) :
    ∃ table, names.scopes.newRoot unit span = (names.scopes.scopes.next, table) ∧
      { names with
        scopes := table
        units := names.units.insert unit names.scopes.scopes.next }.Valid tree ∧
      names.scopes.Grows table ∧ table.stack = names.scopes.stack := by
  let created := (names.scopes.newScope .global 0 0 span).2
  let marked := created.modify names.scopes.scopes.next fun scope => { scope with unit }
  have grows : names.scopes.Grows created := grows_newScope _ _ _ _ _
  have grows' : names.scopes.Grows marked := grows.modify_fresh names.scopes.get?_next _
  have unmarked : created.Formed :=
    valid.table.newScope (by decide) (by decide) (fun no => absurd rfl no) 0 span
  have formed : marked.Formed :=
    unmarked.modify _ (fun _ => ⟨rfl, rfl, rfl, rfl, rfl⟩) (fun _ => rfl) fun _ => rfl
  have here : marked.get? names.scopes.scopes.next =
      some { names.scopes.created .global 0 0 span with unit } := by
    rw [get?_modify, if_pos rfl, get?_newScope, if_pos rfl]
    rfl
  have holds (id : ScopeId) (scope : Scope) (found : marked.get? id = some scope) :
      ∀ entry ∈ scope.entries, tree.Bindable entry.2 := by
    by_cases same : id = names.scopes.scopes.next
    · subst same
      rw [here] at found
      cases found
      exact nofun
    · rw [get?_modify, if_neg same] at found
      rcases get?_newScope_cases found with ⟨fresh, -⟩ | ⟨old, there, like, -⟩
      · exact absurd fresh same
      · rw [like.entries]
        exact valid.holds id old there
  have after : { names with scopes := marked }.Valid tree :=
    valid.withScopes formed grows' holds fun id member => grows'.isSome (valid.opened id member)
  refine ⟨marked, rfl, { after with units := fun other id isUnit => ?_ }, grows', rfl⟩
  rw [Std.TreeMap.getElem?_insert] at isUnit
  split at isUnit
  · cases isUnit
    exact ⟨_, here, rfl⟩
  · exact after.units other id isUnit

/-- The last scope on the import chain of a global scope, or that scope itself, is global. -/
theorem attach (valid : names.Valid tree) {global : ScopeId} {attached : Bool} {target : Scope}
    (there : names.scopes.get? other = some target) (top : target.parent = 0)
    (isUnit : global = 0 ∨ ∃ scope, names.scopes.get? global = some scope ∧ scope.parent = 0)
    (attaches : names.scopes.attachImport? global other = some (attached, table)) :
    { names with scopes := table }.Valid tree ∧ names.scopes.Grows table ∧
      table.stack = names.scopes.stack := by
  rcases attachImport?_cases attaches with ⟨-, rfl⟩ | ⟨chain, isChain, proper, -, -, -, -, rfl⟩
  · exact ⟨valid, .refl _, rfl⟩
  · obtain ⟨scope, found, isTop⟩ := isUnit.resolve_left proper
    rw [valid.table.anchored.importChain?_eq found, valid.table.anchored.rootOf_global found isTop]
      at isChain
    cases isChain
    have isGlobal : ∃ last, names.scopes.get? (lastOf global (names.scopes.importsOf global)) =
        some last ∧ last.parent = 0 := by
      rw [lastOf]
      cases ends : (names.scopes.importsOf global).getLast? with
      | none => exact ⟨scope, found, isTop⟩
      | some id =>
        exact (valid.table.global_of_mem_importsOf (List.mem_of_getLast? ends)).2
    obtain ⟨last, found', isTop'⟩ := isGlobal
    have grows := grows_relink names.scopes (lastOf global (names.scopes.importsOf global)) other
    refine ⟨valid.withScopes ?_ grows ?_ ?_, grows, rfl⟩
    · exact valid.table.relink found' ((valid.table.kinds _ last found').2.mpr isTop') there top
    · exact valid.holds_modify fun old there => valid.holds _ old there
    · exact fun id member => valid.opened_modify _ _ member

end Valid

end Resolution

end TreeCheck
