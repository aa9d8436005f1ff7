/-
Units. The global scopes of the units that were met hold the frames that a walk keeps for
them and are linked like them, so putting a unit on the import chain of another one is
the same on both sides, and what a unit sees at its top level is the environment in which
the walk goes through its contents.
-/

import TreeCheck.Proofs.Scoping.Classes
import TreeCheck.Proofs.Scoping.Worlds

namespace TreeCheck.Lexical

open AnalysisM Resolve ScopeTable

variable {tree : Tree}
variable {names : Resolution} {id target : UnitId} {home : ScopeId} {classes : Classes}
  {before after state : Analysis} {world : World} {unit : ProgramUnit}
  {resolveUnit : UnitId → AnalysisM ScopeId} {walkUnit : World → UnitId → World}
  {action : AnalysisM Unit}

/-! ### Homes of units -/

/-- The global scope of a unit, zero for one that was not met. -/
def homeOf (names : Resolution) (id : UnitId) : ScopeId := names.units.getD id 0

theorem homeOf_eq (found : names.units[id]? = some home) : homeOf names id = home := by
  rw [homeOf, Std.TreeMap.getD_eq_getD_getElem?, found]
  rfl

/-- Every unit that was met has a global scope of its own, which holds its frame and leads to
the global scope of the unit that its link leads to. -/
structure Homes (world : World) (names : Resolution) : Prop where
  met : ∀ id : UnitId, (names.units[id]?).isSome ↔ id ∈ world.met
  apart : ∀ (id other : UnitId) (home : ScopeId), names.units[id]? = some home →
    names.units[other]? = some home → id = other
  scope : ∀ (id : UnitId) (home : ScopeId), names.units[id]? = some home → ∃ scope,
    names.scopes.get? home = some scope ∧
    scope.parent = 0 ∧ scope.entries = world.frameOf id ∧
    link? scope.importLink = (world.links id).map (homeOf names)

namespace Homes

variable {world : World} {names : Resolution}

section

variable (homes : Homes world names)

include homes

theorem of_met (met : id ∈ world.met) :
    names.units[id]? = some (homeOf names id) := by
  obtain ⟨home, found⟩ := Option.isSome_iff_exists.mp ((homes.met id).mpr met)
  rw [found, homeOf_eq found]

theorem apart_of_met {other : UnitId} (met : id ∈ world.met)
    (met' : other ∈ world.met) (same : homeOf names id = homeOf names other) : id = other :=
  homes.apart id other _ (homes.of_met met) (same ▸ homes.of_met met')

theorem next?_eq (met : id ∈ world.met) :
    names.scopes.next? (homeOf names id) = (world.links id).map (homeOf names) := by
  obtain ⟨scope, found, _, _, link⟩ := homes.scope id _ (homes.of_met met)
  rw [next?, found, Option.bind_some, link]

theorem frameOf_eq (met : id ∈ world.met) :
    names.scopes.frameOf (homeOf names id) = world.frameOf id := by
  obtain ⟨scope, found, _, entries, _⟩ := homes.scope id _ (homes.of_met met)
  rw [frameOf, found, Option.map_some, entries]
  rfl

/-- There are no more finished units than scopes. -/
theorem length_le (valid : world.Valid tree) :
    (world.finished.map Prod.fst).length ≤ names.scopes.scopes.size := by
  have nodup : ((world.finished.map Prod.fst).map (homeOf names)).Nodup := by
    refine List.Nodup.map_on ?_ (List.nodup_append.mp valid.once).2.1
    exact fun id member other member' same => homes.apart_of_met (List.mem_append_right _ member)
      (List.mem_append_right _ member') same
  have inside : (world.finished.map Prod.fst).map (homeOf names) ⊆ names.scopes.scopes.ids := by
    intro home member
    obtain ⟨id, done, rfl⟩ := List.mem_map.mp member
    obtain ⟨scope, found, _⟩ := homes.scope id _ (homes.of_met (List.mem_append_right _ done))
    exact names.scopes.mem_ids_iff.mpr ⟨scope, found⟩
  have := (List.subperm_of_subset nodup inside).length_le
  rwa [List.length_map, Arena.ids, List.length_range'] at this

/-- The import chain of the global scope of a unit is that of the unit. -/
theorem importsOf_eq (valid : world.Valid tree) (met : id ∈ world.met) :
    names.scopes.importsOf (homeOf names id) =
      (chain world.links tree.units.size id).map (homeOf names) := by
  have known {item : UnitId} (member : item ∈ id :: world.finished.map Prod.fst) :
      item ∈ world.met := by
    rcases List.mem_cons.mp member with rfl | done
    · exact met
    · exact List.mem_append_right _ done
  have short : (world.finished.map Prod.fst).length ≤ tree.units.size := by
    have := valid.length_le
    rw [World.met, List.length_append] at this
    omega
  refine chain_map (homeOf names) (world.finished.map Prod.fst) valid.linksTo ?_ ?_ short
    (homes.length_le valid)
  · exact fun item member => homes.next?_eq (known member)
  · exact fun item other member member' same =>
      homes.apart_of_met (known member) (known member') same

/-- At the top level of a unit that waits, its environment is seen. -/
theorem frames_eq (valid : world.Valid tree)
    (sound : names.scopes.Sound) (waits : id ∈ world.waiting) :
    names.scopes.frames (homeOf names id) = world.globalEnv tree id := by
  have met : id ∈ world.met := List.mem_append_left _ waits
  obtain ⟨scope, found, top, _⟩ := homes.scope id _ (homes.of_met met)
  rw [frames, sound.anchored.path_global found top, List.map_cons, homes.frameOf_eq met,
    World.frameOf_eq_nil (valid.unfinished waits), homes.importsOf_eq valid met, List.map_map,
      World.globalEnv]
  congr 1
  refine List.map_congr_left fun other member => ?_
  exact homes.frameOf_eq (List.mem_append_right _ (valid.chain_subset _ id member))

end

end Homes

/-! ### States that stand for a world -/

/-- The state of an analysis stands for what a walk through a program has found. -/
structure Mirrors (tree : Tree) (world : World) (state : Analysis) : Prop where
  sound : state.names.scopes.Sound
  logged : Logged tree world.entries state
  known : Known tree world.classes state
  unitOrder : state.names.unitOrder = world.finished.map Prod.fst
  progress : ∀ id : UnitId, state.progress[id]? = if id ∈ world.waiting then some .visiting
    else if id ∈ world.finished.map Prod.fst then some .done else none
  homes : Homes world state.names

/-- What is known of classes depends on inner scopes only. -/
theorem Known.of_inner (known : Known tree classes before) (cyclic : after.cyclic = before.cyclic)
    (classScopes : ∀ id, tree.kindOf? id = some .classDecl →
      after.names.scopeOfDecl[id]? = before.names.scopeOfDecl[id]?)
    (inner : ∀ id scope, before.names.scopes.get? id = some scope → scope.parent ≠ 0 →
      ∃ scope', after.names.scopes.get? id = some scope' ∧ scope'.parent = scope.parent ∧
        scope'.entries = scope.entries) : Known tree classes after where
  cyclic := cyclic.trans known.cyclic
  walked := by
    intro id frame isClass walked
    obtain ⟨home, scope, isHome, found, nonzero, entries⟩ := known.walked id frame isClass walked
    obtain ⟨scope', found', parent, same⟩ := inner home scope found nonzero
    exact ⟨home, scope', (classScopes id isClass).trans isHome, found', parent ▸ nonzero,
      same.trans entries⟩
  unwalked := fun id isClass unwalked =>
    (classScopes id isClass).trans (known.unwalked id isClass unwalked)

/-- At the top level of a unit nothing happens to class scopes unless a class is resolved. -/
theorem Known.kept (known : Known tree classes before) (kept : Kept tree before after)
    {scope : Scope} (found : before.names.scopes.get? before.names.scopes.current = some scope)
    (top : scope.parent = 0) : Known tree classes after := by
  refine known.of_inner kept.cyclic kept.classScopes fun id inner found' nonzero => ?_
  obtain ⟨scope', found'', parent, _, entries⟩ := kept.scopes id inner found'
  refine ⟨scope', found'', parent, entries ?_⟩
  rintro rfl
  rw [found] at found'
  exact nonzero (Option.some.inj found' ▸ top)

namespace Mirrors

variable {world : World} {state after : Analysis}

theorem untouched (mirrors : Mirrors tree world state) (untouched : Untouched tree state after) :
    Mirrors tree world after where
  sound := untouched.scopes ▸ mirrors.sound
  logged := untouched.logged mirrors.logged
  known := mirrors.known.of_inner untouched.cyclic (fun _ _ => by rw [untouched.scopeOfDecl])
    fun _ scope found _ => ⟨scope, untouched.scopes ▸ found, rfl, rfl⟩
  unitOrder := untouched.unitOrder.trans mirrors.unitOrder
  progress := fun id => by rw [untouched.progress, mirrors.progress]
  homes := by
    have same : homeOf after.names = homeOf state.names := by
      funext id
      rw [homeOf, homeOf, untouched.units]
    exact ⟨untouched.units ▸ mirrors.homes.met, untouched.units ▸ mirrors.homes.apart,
      untouched.units ▸ untouched.scopes ▸ same ▸ mirrors.homes.scope⟩

theorem mem_waiting_iff (mirrors : Mirrors tree world state) (id : UnitId) :
    state.progress[id]? = some .visiting ↔ id ∈ world.waiting := by
  rw [mirrors.progress]
  by_cases waits : id ∈ world.waiting <;> by_cases done : id ∈ world.finished.map Prod.fst <;>
    simp only [waits, done, if_true, if_false, Option.some.injEq, reduceCtorEq]

theorem mem_met_iff (mirrors : Mirrors tree world state) (id : UnitId) :
    (state.progress[id]?).isSome ↔ id ∈ world.met := by
  rw [mirrors.progress, World.met, List.mem_append]
  by_cases waits : id ∈ world.waiting <;> by_cases done : id ∈ world.finished.map Prod.fst <;>
    simp only [waits, done, if_true, if_false, Option.isSome_some, Option.isSome_none, or_true,
      or_false, Bool.false_eq_true]

end Mirrors

/-- An analysis has come to stand for a world; units keep their global scopes and the same
scopes are open. -/
structure Advances (tree : Tree) (before : Analysis) (world : World) (after : Analysis) : Prop where
  mirrors : Mirrors tree world after
  stack : after.names.scopes.stack = before.names.scopes.stack
  units : ∀ (id : UnitId) (home : ScopeId), before.names.units[id]? = some home →
    after.names.units[id]? = some home

theorem Advances.trans {world' : World} {middle : Analysis}
    (first : Advances tree before world middle) (second : Advances tree middle world' after) :
    Advances tree before world' after :=
  ⟨second.mirrors, second.stack.trans first.stack, fun id home isHome =>
    second.units id home (first.units id home isHome)⟩

theorem Mirrors.advances (mirrors : Mirrors tree world before)
    (untouched : Untouched tree before after) : Advances tree before world after :=
  ⟨mirrors.untouched untouched, by rw [untouched.scopes], fun _ _ isHome => by
    rwa [untouched.units]⟩

namespace Mirrors

variable {world : World} {state after : Analysis}

/-! ### Meeting a unit -/

/-- The state in which a unit has started to wait and has a global scope. -/
def metState (id : UnitId) (table : ScopeTable) (state : Analysis) : Analysis :=
  { state with
    progress := state.progress.insert id .visiting
    names :=
      { state.names with
        scopes := table, units := state.names.units.insert id state.names.scopes.scopes.next } }

theorem homes_met (mirrors : Mirrors tree world state) (valid : world.Valid tree)
    (unmet : id ∉ world.met) {table : ScopeTable}
    (keeps : ScopeTable.Keeps 0 state.names.scopes table)
    (fresh : ∃ scope, table.get? state.names.scopes.scopes.next = some scope ∧ scope.parent = 0 ∧
      scope.importLink = 0 ∧ scope.entries = []) :
    Homes { world with waiting := id :: world.waiting } (metState id table state).names := by
  have units (other : UnitId) : (metState id table state).names.units[other]? =
      if id = other then some state.names.scopes.scopes.next else state.names.units[other]? := by
    show (state.names.units.insert id _)[other]? = _
    rw [Std.TreeMap.getElem?_insert]
    simp
  have different {other : UnitId} (met : other ∈ world.met) : id ≠ other :=
    fun same => unmet (same ▸ met)
  have old {other : UnitId} {home : ScopeId} (found : state.names.units[other]? = some home) :
      home ≠ state.names.scopes.scopes.next := by
    obtain ⟨scope, there, _⟩ := mirrors.homes.scope other home found
    rintro rfl
    rw [get?_next] at there
    nomatch there
  have targets (other : UnitId) : (world.links other).map (homeOf (metState id table state).names) =
      (world.links other).map (homeOf state.names) := by
    cases led : world.links other with
    | none => rfl
    | some target =>
      have met : target ∈ world.met := List.mem_append_right _ (valid.linksTo other target led)
      have same := units target
      rw [if_neg (different met), mirrors.homes.of_met met] at same
      rw [Option.map_some, Option.map_some, homeOf_eq same]
  refine ⟨fun other => ?_, fun first second home found found' => ?_, fun other home found => ?_⟩
  · rw [units]
    by_cases same : id = other
    · simp [same, World.met]
    · simp only [same, if_false, mirrors.homes.met other, World.met, List.cons_append, List.mem_cons]
      exact ⟨.inr, fun member => member.resolve_left (Ne.symm same)⟩
  · rw [units] at found found'
    split at found <;> split at found'
    · next same same' => exact same.symm.trans same'
    · exact absurd (Option.some.inj found).symm (old found')
    · exact absurd (Option.some.inj found').symm (old found)
    · exact mirrors.homes.apart first second home found found'
  · rw [units] at found
    rw [targets]
    split at found
    · next same =>
      subst same
      cases found
      obtain ⟨scope, there, top, unlinked, empty⟩ := fresh
      have frame : world.frameOf id = [] :=
        World.frameOf_eq_nil fun done => unmet (List.mem_append_right _ done)
      have links : world.links id = none := by
        by_contra led
        obtain ⟨target, led⟩ := Option.ne_none_iff_exists'.mp led
        exact unmet (valid.linksFrom id target led)
      exact ⟨scope, there, top, empty.trans frame.symm, by rw [unlinked, links]; rfl⟩
    · obtain ⟨scope, there, top, entries, link⟩ := mirrors.homes.scope other home found
      obtain ⟨scope', there', parent, link', same⟩ := keeps home scope there
      have := le_size there
      exact ⟨scope', there', parent.trans top, (same (by lia)).trans entries, link' ▸ link⟩

/-- A unit that was not met starts to wait and gets a global scope. -/
theorem meet_spec (mirrors : Mirrors tree world state) (valid : world.Valid tree)
    (unmet : id ∉ world.met) :
    ∃ home after, ensureGlobal tree id
        { state with progress := state.progress.insert id .visiting } = .ok home after ∧
      Advances tree state { world with waiting := id :: world.waiting } after ∧
      after.names.units[id]? = some home := by
  obtain ⟨table, created, stack, sound, keeps, fresh⟩ :=
    newRoot_spec mirrors.sound id (((tree.units.get? id).map ProgramUnit.span).getD {})
  have absent : state.names.units[id]? = none := by
    rw [← Option.not_isSome_iff_eq_none, mirrors.homes.met]
    exact unmet
  have units (other : UnitId) : (metState id table state).names.units[other]? =
      if id = other then some state.names.scopes.scopes.next else state.names.units[other]? := by
    show (state.names.units.insert id _)[other]? = _
    rw [Std.TreeMap.getElem?_insert]
    simp
  refine ⟨state.names.scopes.scopes.next, metState id table state, ?_, ⟨?_, stack, ?_⟩, ?_⟩
  · unfold ensureGlobal
    rw [bind_eq (rfl : (get : AnalysisM Analysis) _ = .ok _ _)]
    simp only [absent]
    rw [bind_eq (rfl : AnalysisM.scopes _ = .ok _ _)]
    simp only [created]
    rfl
  · refine ⟨sound, ⟨mirrors.logged.uses, mirrors.logged.reports, mirrors.logged.isOpen⟩, ?_,
      mirrors.unitOrder, fun other => ?_, homes_met mirrors valid unmet keeps fresh⟩
    · refine mirrors.known.of_inner rfl (fun _ _ => rfl) fun item scope found nonzero => ?_
      obtain ⟨scope', found', parent, _, entries⟩ := keeps item scope found
      have := le_size found
      exact ⟨scope', found', parent, entries (by lia)⟩
    · show (state.progress.insert id .visiting)[other]? = _
      rw [Std.TreeMap.getElem?_insert, mirrors.progress]
      by_cases same : id = other
      · simp [same]
      · simp [same, Ne.symm same]
  · intro other home isHome
    have different : id ≠ other := by
      rintro rfl
      rw [absent] at isHome
      nomatch isHome
    rw [units, if_neg different, isHome]
  · rw [units, if_pos rfl]

end Mirrors

/-! ### Attaching an import -/

theorem Homes.attachImport?_eq (homes : Homes world names) (valid : world.Valid tree)
    (sound : names.scopes.Sound) {unit : UnitId} (waits : unit ∈ world.waiting)
    (done : target ∈ world.finished.map Prod.fst) :
    names.scopes.attachImport? (homeOf names unit) (homeOf names target) =
      some (if target ∈ chain world.links tree.units.size unit then (false, names.scopes)
        else (true, names.scopes.relink
          (homeOf names (lastOf unit (chain world.links tree.units.size unit)))
          (homeOf names target))) := by
  have met : unit ∈ world.met := List.mem_append_left _ waits
  have met' : target ∈ world.met := List.mem_append_right _ done
  have onChain {other : UnitId} (member : other ∈ chain world.links tree.units.size unit) :
      other ∈ world.met := List.mem_append_right _ (valid.chain_subset _ unit member)
  obtain ⟨scope, found, top, _⟩ := homes.scope unit _ (homes.of_met met)
  obtain ⟨scope', found', _⟩ := homes.scope target _ (homes.of_met met')
  have different : homeOf names unit ≠ homeOf names target := by
    intro same
    obtain rfl := homes.apart_of_met met met' same
    exact valid.unfinished waits done
  have nonzero : ¬ (homeOf names unit = 0 ∨ homeOf names target = 0 ∨
      homeOf names unit = homeOf names target) := by
    have := le_size found
    have := le_size found'
    simp only [different, or_false]
    lia
  have member : homeOf names target ∈
      (chain world.links tree.units.size unit).map (homeOf names) ↔
        target ∈ chain world.links tree.units.size unit := by
    refine ⟨fun member => ?_, List.mem_map_of_mem⟩
    obtain ⟨other, inside, same⟩ := List.mem_map.mp member
    exact homes.apart_of_met (onChain inside) met' same ▸ inside
  have last : ((chain world.links tree.units.size unit).map (homeOf names)).getLast?.getD
      (homeOf names unit) = homeOf names (lastOf unit (chain world.links tree.units.size unit)) := by
    rw [List.getLast?_map, lastOf]
    cases (chain world.links tree.units.size unit).getLast? <;> rfl
  rw [attachImport?, if_neg nonzero, sound.anchored.importChain?_eq found,
    sound.anchored.rootOf_global found top, homes.importsOf_eq valid met]
  simp only [Option.bind_eq_bind, Option.bind_some, member, last]
  split
  · rfl
  · obtain ⟨tail, there, _⟩ := homes.scope _ _ (homes.of_met (valid.last_met met))
    rw [there]
    rfl

namespace Mirrors

variable {world : World} {state : Analysis}

/-- The state in which a scope was linked to another one. -/
def relinked (id other : ScopeId) (state : Analysis) : Analysis :=
  { state with names := { state.names with scopes := state.names.scopes.relink id other } }

theorem relink (mirrors : Mirrors tree world state) {last : UnitId} (met : last ∈ world.met)
    (met' : target ∈ world.met) :
    Mirrors tree { world with links := Function.update world.links last (some target) }
      (relinked (homeOf state.names last) (homeOf state.names target) state) := by
  obtain ⟨scope, found, top, _⟩ := mirrors.homes.scope target _ (mirrors.homes.of_met met')
  refine ⟨mirrors.sound.relink found top _, ⟨mirrors.logged.uses, mirrors.logged.reports,
    mirrors.logged.isOpen⟩, ?_, mirrors.unitOrder, mirrors.progress,
    ⟨mirrors.homes.met, mirrors.homes.apart, fun id home isHome => ?_⟩⟩
  · refine mirrors.known.of_inner rfl (fun _ _ => rfl) fun item scope there _ => ?_
    obtain ⟨scope', there', parent, entries, _⟩ :=
      get?_relink there (homeOf state.names last) (homeOf state.names target)
    exact ⟨scope', there', parent, entries⟩
  · replace isHome : state.names.units[id]? = some home := isHome
    obtain ⟨scope, there, top, entries, link⟩ := mirrors.homes.scope id home isHome
    obtain ⟨scope', there', parent, entries', _, _, link'⟩ :=
      get?_relink there (homeOf state.names last) (homeOf state.names target)
    refine ⟨scope', there', parent.trans top, entries'.trans entries, ?_⟩
    rw [link']
    show _ = Option.map (homeOf state.names) (Function.update world.links last (some target) id)
    rw [Function.update_apply]
    by_cases same : id = last
    · subst same
      have := le_size found
      rw [if_pos (homeOf_eq isHome).symm, if_pos rfl, Option.map_some, link?,
        if_neg (by lia)]
    · have different : home ≠ homeOf state.names last := fun equal =>
        same (mirrors.homes.apart id last home isHome (equal ▸ mirrors.homes.of_met met))
      rw [if_neg different, if_neg same]
      exact link

omit tree in
theorem modifyNames_eq {change : Resolution → Resolution} {state : Analysis}
    (changed : change state.names = names) :
    modifyNames change state = .ok () { state with names } :=
  changed ▸ rfl

/-- The order of imports is not seen from a state. -/
theorem log (mirrors : Mirrors tree world state) (imports : List (UnitId × UnitId)) :
    Mirrors tree { world with imports } state :=
  ⟨mirrors.sound, mirrors.logged, mirrors.known, mirrors.unitOrder, mirrors.progress,
    ⟨mirrors.homes.met, mirrors.homes.apart, mirrors.homes.scope⟩⟩

/-- Putting a finished unit on the import chain of a unit that waits. -/
theorem attach_spec (mirrors : Mirrors tree world state) (valid : world.Valid tree) {unit : UnitId}
    (waits : unit ∈ world.waiting) (done : target ∈ world.finished.map Prod.fst)
    (isHome : state.names.units[target]? = some home) :
    ∃ after, modifyNames (fun names =>
        match names.scopes.attachImport? (names.units.getD unit 0) home with
        | some (_, table) => { names with scopes := table }
        | none => names) state = .ok () after ∧
      Advances tree state (world.attach tree unit target) after := by
  have attached := mirrors.homes.attachImport?_eq valid mirrors.sound waits done
  rw [homeOf_eq isHome, homeOf] at attached
  unfold World.attach attachLink
  dsimp only
  split at attached
  · next onChain =>
    rw [if_pos onChain]
    refine ⟨state, modifyNames_eq ?_, mirrors.log _, rfl, fun _ _ isHome => isHome⟩
    simp only [attached]
  · next offChain =>
    rw [if_neg offChain]
    have linked := mirrors.relink (valid.last_met (List.mem_append_left _ waits))
      (List.mem_append_right _ done)
    rw [homeOf_eq isHome] at linked
    refine ⟨_, modifyNames_eq ?_, linked.log _, rfl, fun _ _ isHome => isHome⟩
    simp only [attached]

/-- Resolving an import walks through the unit it names, if that does not wait, and puts it on
the import chain. -/
theorem importUnit_spec (mirrors : Mirrors tree world state) {unit : UnitId}
    (waits : unit ∈ world.waiting)
    (walks : ∀ target, (tree.units.get? target).isSome → target ∉ world.waiting →
      world.Walked tree target (walkUnit world target))
    (resolves : ∀ target state, Mirrors tree world state → (tree.units.get? target).isSome →
      target ∉ world.waiting → ∃ home after, resolveUnit target state = .ok home after ∧
        Advances tree state (walkUnit world target) after ∧
        after.names.units[target]? = some home) (id : DeclId) :
    ∃ after, Resolve.importUnit tree resolveUnit unit id state = .ok () after ∧
      Advances tree state (importUnit tree walkUnit unit world id) after := by
  have idles : Advances tree state world state := ⟨mirrors, rfl, fun _ _ isHome => isHome⟩
  unfold Resolve.importUnit importUnit importTarget?
  cases tree.decls.get? id with
  | none => exact ⟨state, rfl, idles⟩
  | some decl =>
    obtain ⟨form, name, type, init, mods, owner, span⟩ := decl
    cases form with
    | importDecl path target =>
      have noted : Silent tree (modifyNames fun names =>
          { names with declScope := names.declScope.insert id names.scopes.current }) :=
        .modifyNames (fun _ => rfl) (fun _ => rfl) (fun _ => rfl) (fun _ => rfl) fun _ _ _ _ => rfl
      obtain ⟨_, middle, notes, untouched⟩ := noted.runs state mirrors.logged.isOpen
      have noted := mirrors.advances untouched
      have complains (code : Code) (unlike : code ≠ .unresolved) (unlike' : code ≠ .selfReference) :
          ∃ after, AnalysisM.error code span [path] middle = .ok () after ∧
            Advances tree state world after := by
        have silent : Silent tree (AnalysisM.error code span [path]) := .error _ unlike unlike' ..
        obtain ⟨_, after, runs, untouched'⟩ := silent.runs middle noted.mirrors.logged.isOpen
        exact ⟨after, runs, noted.trans (noted.mirrors.advances untouched')⟩
      dsimp only [Option.map_some]
      rw [bind_eq notes]
      cases isTarget : target.filter fun target => (tree.units.get? target).isSome with
      | none => exact complains .unresolvedImport (by decide) (by decide)
      | some target =>
        have holds : (tree.units.get? target).isSome := (Option.filter_eq_some_iff.mp isTarget).2
        have idle : (target = unit ∨ middle.progress[target]? = some .visiting) ↔
            target ∈ world.waiting := by
          rw [noted.mirrors.mem_waiting_iff]
          exact ⟨fun either => either.elim (fun same => same ▸ waits) (fun member => member), .inr⟩
        dsimp only
        rw [bind_eq (rfl : (get : AnalysisM Analysis) middle = .ok _ middle)]
        by_cases isWaiting : target ∈ world.waiting
        · rw [if_pos (idle.mpr isWaiting), Option.filter_some_neg (by simpa using isWaiting)]
          exact complains .importCycle (by decide) (by decide)
        · rw [if_neg (mt idle.mp isWaiting), Option.filter_some_pos (by simpa using isWaiting)]
          obtain ⟨home, resolved, runs, advances, isHome⟩ :=
            resolves target middle noted.mirrors holds isWaiting
          have walked := walks target holds isWaiting
          obtain ⟨after, runs', attached⟩ :=
            advances.mirrors.attach_spec walked.valid (walked.waiting ▸ waits) walked.done isHome
          exact ⟨after, (bind_eq runs).trans runs', (noted.trans advances).trans attached⟩
    | _ => exact ⟨state, rfl, idles⟩

end Mirrors

/-! ### The contents of a unit -/

section

variable {loose : List Node} (forest : tree.Forest loose)

theorem each_append {α : Type} (items more : List α) (walks : α → Walk) (env : Env) :
    Walk.each (items ++ more) walks env =
      (Walk.each items walks).andThen (Walk.each more walks) env := by
  induction items generalizing env with
  | nil => simp [Walk.each, Walk.andThen, Walk.skip]
  | cons item rest inductionHypothesis =>
    have step : Walk.each (item :: rest ++ more) walks env =
        (walks item).andThen (Walk.each (rest ++ more) walks) env := rfl
    rw [step, Walk.andThen, inductionHypothesis]
    simp [Walk.each, Walk.andThen]

/-- A list and an optional item are gone through one after the other. -/
theorem Follows.eachAndOption {α : Type} {actions : α → AnalysisM Unit} {walks : α → Walk}
    (follows : ∀ item, Follows tree (actions item) (walks item)) {items : List α} {item : Option α}
    {walk : Walk} (further : Follows tree action walk) :
    Follows tree (items.forM actions >>= fun _ => item.forM actions >>= fun _ => action)
      ((Walk.each (items ++ item.toList) walks).andThen walk) := by
  refine (Follows.andThen (.each fun item _ => follows item) <|
    .andThen (.option fun value _ => follows value) further).congr fun env => ?_
  rw [Walk.andThen, each_append]
  simp [Walk.andThen]

include forest

theorem follows_declareEnum (place : Place) (id : DeclId) :
    Follows tree (declareEnum tree place id)
      ((Walk.change (Env.declareName tree id)).andThen
        (Walk.each (((tree.decls.get? id).bind Decl.consts?).getD []) (declared tree))) := by
  refine .andThen (follows_bindName id) ?_
  cases (tree.decls.get? id).bind Decl.consts? with
  | none => exact .skip
  | some consts => exact .each fun const _ => follows_declareVariable forest place const

theorem follows_unitDeclarations (unit : ProgramUnit) :
    Follows tree (unitDeclarations tree unit) (declarations tree unit) :=
  .andThen (.each fun enum _ => follows_declareEnum forest {} enum) <|
  .andThen (.each fun id _ => follows_bindName id) <|
  .eachAndOption follows_declareCallable
    (.each fun id _ => follows_declareVariable forest {} id)

theorem follows_unitBodies (unit : ProgramUnit) :
    Follows tree (unitBodies tree unit) (bodies tree unit) :=
  .eachAndOption (follows_callableBody forest {})
    (.each fun id _ => follows_stmt forest ⟨rfl, nofun⟩ id)

/-- Resolving classes that were not walked walks them. -/
theorem resolveClasses_spec (place : Place) {env : Env} {order : List DeclId}
    (areClasses : ∀ id ∈ order, tree.kindOf? id = some .classDecl) (nodup : order.Nodup)
    (world : World) (unwalked : ∀ id ∈ order, world.classes.frames.lookup id = none)
    (stands : Stands tree env world.entries state) (known : Known tree world.classes state) :
    ∃ after, order.forM (resolveClass tree place) state = .ok () after ∧
      Stands tree env (order.foldl (World.walkClass tree env) world).entries after ∧
      Known tree (order.foldl (World.walkClass tree env) world).classes after ∧
      Around state after := by
  induction order generalizing world state with
  | nil => exact ⟨state, rfl, stands, known, Around.refl state⟩
  | cons id rest inductionHypothesis =>
    obtain ⟨apart, nodup'⟩ := List.nodup_cons.mp nodup
    obtain ⟨middle, runs, stands', known', around⟩ := resolveClass_spec forest place
      (areClasses id (.head _)) (unwalked id (.head _)) stands known
    have unwalked' : ∀ other ∈ rest,
        (world.walkClass tree env id).classes.frames.lookup other = none := by
      intro other member
      have different : other ≠ id := fun same => apart (same ▸ member)
      rw [World.walkClass, Classes.lookup_add, if_neg different]
      exact unwalked other (.tail _ member)
    obtain ⟨after, runs', ends, known'', around'⟩ := inductionHypothesis
      (fun other member => areClasses other (.tail _ member)) nodup'
      (world.walkClass tree env id) unwalked' stands' known'
    exact ⟨after, (bind_eq runs).trans runs', ends, known'', around.trans around'⟩

omit forest in
theorem Mirrors.stands (mirrors : Mirrors tree world state) (valid : world.Valid tree)
    (waits : id ∈ world.waiting) (current : state.names.scopes.current = homeOf state.names id) :
    Stands tree (world.globalEnv tree id) world.entries state where
  sound := mirrors.sound
  inside := by
    have met : id ∈ world.met := List.mem_append_left _ waits
    obtain ⟨scope, found, _⟩ := mirrors.homes.scope id _ (mirrors.homes.of_met met)
    exact ⟨scope, current ▸ found⟩
  frames := by rw [current, mirrors.homes.frames_eq valid mirrors.sound waits]
  logged := mirrors.logged

/-- The classes of a unit that waits were not walked. -/
theorem unwalked_classes (valid : world.Valid tree) (found : tree.units.get? id = some unit)
    (waits : id ∈ world.waiting) {decl : DeclId} (isClass : decl ∈ unit.classes) :
    world.classes.frames.lookup decl = none := by
  by_contra walked
  obtain ⟨other, done, isPart⟩ := valid.classes decl (Option.isSome_iff_ne_none.mpr walked)
  have isPart' : .decl .classDecl decl ∈ tree.parts (.unit id) := by
    simp [Tree.parts, found, ProgramUnit.parts, isClass]
  have holds : tree.Holds (.unit id) := by simp [Tree.Holds, found]
  have holds' : tree.Holds (.unit other) := valid.units other (List.mem_append_right _ done)
  obtain rfl := Node.unit.inj (forest.whole_unique holds holds' isPart' isPart)
  exact valid.unfinished waits done

/-- Resolving the classes of a unit walks them in the same order. -/
theorem unitClasses_spec (found : tree.units.get? id = some unit) (world : World)
    (unwalked : ∀ decl ∈ unit.classes, world.classes.frames.lookup decl = none) {env : Env}
    (stands : Stands tree env world.entries state) (known : Known tree world.classes state) :
    ∃ after, unitClasses tree unit state = .ok () after ∧
      Stands tree env (world.walkClasses tree env unit).entries after ∧
      Known tree (world.walkClasses tree env unit).classes after ∧ Around state after := by
  obtain ⟨middle, orders, cyclic, noted⟩ := classOrder_spec stands unit.classes
  rw [known.cyclic] at orders cyclic
  have nodup := forest.nodup_classes found
  have perm := classOrder_perm tree env nodup world.classes.cyclic
  have areClasses (decl : DeclId)
      (member : decl ∈ (classOrder tree env unit.classes world.classes.cyclic).placed) :
      tree.Holds (.decl .classDecl decl) :=
    holds_unitPart forest found (by simp [ProgramUnit.parts, perm.mem_iff.mp member])
  have known' := noted.known known cyclic
  obtain ⟨after, resolves, ends, known'', around⟩ := resolveClasses_spec forest {} areClasses
    (perm.nodup_iff.mpr nodup)
    { world with classes := { world.classes with
      cyclic := (classOrder tree env unit.classes world.classes.cyclic).cyclic } }
    (fun decl member => unwalked decl (perm.mem_iff.mp member)) (noted.stands stands) known'
  exact ⟨after, (bind_eq orders).trans resolves, ends, known'', noted.around.trans around⟩

/-- Behind the imports of a unit its contents are resolved the way they are walked. -/
theorem contents_spec (mirrors : Mirrors tree world state) (valid : world.Valid tree)
    (found : tree.units.get? id = some unit) (waits : id ∈ world.waiting)
    (current : state.names.scopes.current = homeOf state.names id) :
    ∃ after,
      (do
        unitDeclarations tree unit
        unitClasses tree unit
        unitBodies tree unit) state = .ok () after ∧
      Stands tree (bodies tree unit (declarations tree unit (world.globalEnv tree id)).1).1
        (world.contents tree id unit).entries after ∧
      Known tree (world.contents tree id unit).classes after ∧ Around state after := by
  have met : id ∈ world.met := List.mem_append_left _ waits
  obtain ⟨home, there, top, _⟩ := mirrors.homes.scope id _ (mirrors.homes.of_met met)
  rw [← current] at there
  obtain ⟨first, declares, stands, kept⟩ := (follows_unitDeclarations forest unit).runs _ _ _
    (mirrors.stands valid waits current)
  have known := mirrors.known.kept kept there top
  have unwalked (decl : DeclId) (isClass : decl ∈ unit.classes) :=
    unwalked_classes forest valid found waits isClass
  obtain ⟨second, resolves, stands', known', around⟩ := unitClasses_spec forest found
    (world.walk (declarations tree unit) (world.globalEnv tree id)).2 unwalked stands known
  obtain ⟨after, finishes, ends, kept'⟩ := (follows_unitBodies forest unit).runs _ _ _ stands'
  have sofar : Around state second := kept.around.trans around
  obtain ⟨home', there', parent, _⟩ := sofar.scopes _ home there
  have current' : second.names.scopes.current = state.names.scopes.current := by
    rw [ScopeTable.current, sofar.stack]
    rfl
  refine ⟨after, ?_, ends, known'.kept kept' (current'.symm ▸ there') (parent.trans top),
    sofar.trans kept'.around⟩
  rw [bind_eq declares, bind_eq resolves]
  exact finishes

omit forest in
/-- The frame of the current unit is what it has declared; nothing else has changed. -/
theorem Homes.finish {after : World} {state' : Analysis} (homes : Homes world state.names)
    (valid : world.Valid tree) (waits : id ∈ world.waiting)
    (current : state.names.scopes.current = homeOf state.names id) (around : Around state state')
    (met : ∀ other, other ∈ after.met ↔ other ∈ world.met) (links : after.links = world.links)
    (finished : after.finished =
      world.finished ++ [(id, state'.names.scopes.frameOf state'.names.scopes.current)]) :
    Homes after state'.names := by
  have isMet : id ∈ world.met := List.mem_append_left _ waits
  have same : homeOf state'.names = homeOf state.names := by
    funext other
    rw [homeOf, homeOf, around.units]
  have current' : state'.names.scopes.current = homeOf state.names id := by
    rw [← current, ScopeTable.current, around.stack]
    rfl
  refine ⟨fun other => ?_, around.units ▸ homes.apart, fun other home isHome => ?_⟩
  · rw [around.units, homes.met, met]
  · rw [around.units] at isHome
    obtain ⟨scope, there, top, entries, link⟩ := homes.scope other home isHome
    obtain ⟨scope', there', parent, link', unchanged⟩ := around.scopes home scope there
    refine ⟨scope', there', parent.trans top, ?_, by rw [link', links, same, link]⟩
    rw [World.frameOf_of_finished finished (valid.unfinished waits) other]
    by_cases isId : other = id
    · subst isId
      have isHome' : homeOf state.names other = home := homeOf_eq isHome
      rw [if_pos rfl, current', isHome', ScopeTable.frameOf, there']
      rfl
    · rw [if_neg isId]
      refine (unchanged fun isCurrent => isId ?_).trans entries
      rw [isCurrent, current] at isHome
      exact homes.apart other id _ isHome (homes.of_met isMet)

/-- A unit whose imports are done is finished by resolving its contents. -/
theorem finishUnit_spec (mirrors : Mirrors tree world state) (valid : world.Valid tree)
    (found : tree.units.get? id = some unit) {rest : List UnitId}
    (waits : world.waiting = id :: rest)
    (current : state.names.scopes.current = homeOf state.names id) :
    ∃ inside after,
      (do
        unitDeclarations tree unit
        unitClasses tree unit
        unitBodies tree unit) state = .ok () inside ∧
      finishUnit id inside = .ok () after ∧
      Advances tree state (world.contents tree id unit) after := by
  have isWaiting : id ∈ world.waiting := waits ▸ .head _
  obtain ⟨inside, runs, stands, known, around⟩ :=
    contents_spec forest mirrors valid found isWaiting current
  obtain ⟨finished, waiting, links, _⟩ := World.contents_frame tree id unit world
  rw [waits, List.erase_cons_head] at waiting
  have met (other : UnitId) : other ∈ (world.contents tree id unit).met ↔ other ∈ world.met := by
    rw [World.met, World.met, finished, waiting, waits]
    simp only [List.mem_append, List.mem_cons, List.not_mem_nil, or_false]
    exact ⟨fun member => by rcases member with h | h | h <;> simp [h],
      fun member => by rcases member with (h | h) | h <;> simp [h]⟩
  have homes : Homes (world.contents tree id unit) inside.names := by
    refine mirrors.homes.finish valid isWaiting current around met links ?_
    rw [World.finished_contents, stands.frameOf_current]
  refine ⟨inside, { inside with
    progress := inside.progress.insert id .done
    names := { inside.names with unitOrder := inside.names.unitOrder ++ [id] } }, runs, rfl, ?_,
    around.stack, fun _ _ isHome => around.units ▸ isHome⟩
  · refine ⟨stands.sound, ⟨stands.logged.uses, stands.logged.reports, stands.logged.isOpen⟩,
      ⟨known.cyclic, known.walked, known.unwalked⟩, ?_, fun other => ?_,
      ⟨homes.met, homes.apart, homes.scope⟩⟩
    · show inside.names.unitOrder ++ [id] = _
      rw [around.unitOrder, mirrors.unitOrder, finished]
    · show (inside.progress.insert id .done)[other]? = _
      have idle : id ∉ rest := by
        have once := valid.once
        rw [World.met, waits, List.cons_append] at once
        exact fun member => (List.nodup_cons.mp once).1 (List.mem_append_left _ member)
      rw [Std.TreeMap.getElem?_insert, around.progress, mirrors.progress, waiting, finished, waits]
      by_cases same : id = other
      · subst same
        simp [idle]
      · have member : other ∈ world.finished.map Prod.fst ++ [id] ↔
            other ∈ world.finished.map Prod.fst := by
          simp only [List.mem_append, List.mem_singleton, Ne.symm same, or_false]
        simp only [member, List.mem_cons, Ne.symm same, false_or]
        simp [same]

/-! ### Runs -/

omit forest in
/-- Resolving imports one after the other, while the same units wait. -/
theorem imports_spec (unit : UnitId) (waiting : List UnitId) (waits : unit ∈ waiting)
    (walks : ∀ (world : World) (target : UnitId), world.Valid tree → world.waiting = waiting →
      (tree.units.get? target).isSome → target ∉ waiting →
      world.Walked tree target (walkUnit world target))
    (resolves : ∀ world target state, Mirrors tree world state → world.Valid tree →
      world.waiting = waiting → (tree.units.get? target).isSome → target ∉ waiting →
      ∃ home after, resolveUnit target state = .ok home after ∧
        Advances tree state (walkUnit world target) after ∧
        after.names.units[target]? = some home) (imports : List DeclId)
    (mirrors : Mirrors tree world state) (valid : world.Valid tree)
    (isWaiting : world.waiting = waiting) :
    ∃ after, imports.forM (Resolve.importUnit tree resolveUnit unit) state = .ok () after ∧
      Advances tree state (imports.foldl (importUnit tree walkUnit unit) world) after ∧
      (imports.foldl (importUnit tree walkUnit unit) world).Valid tree ∧
      (imports.foldl (importUnit tree walkUnit unit) world).waiting = waiting := by
  induction imports generalizing world state with
  | nil => exact ⟨state, rfl, ⟨mirrors, rfl, fun _ _ isHome => isHome⟩, valid, isWaiting⟩
  | cons first rest inductionHypothesis =>
    subst isWaiting
    obtain ⟨middle, runs, advances⟩ := mirrors.importUnit_spec waits
      (fun target => walks world target valid rfl)
      (fun target state mirrors => resolves world target state mirrors valid rfl) first
    have grows := importUnit_grows valid waits (fun target => walks world target valid rfl) first
    obtain ⟨after, runs', advances', valid', waiting⟩ :=
      inductionHypothesis advances.mirrors grows.valid grows.waiting
    exact ⟨after, (bind_eq runs).trans runs', advances.trans advances', valid', waiting⟩

omit forest in
/-- Which scopes are open makes no difference to what a state stands for. -/
theorem Mirrors.restack (mirrors : Mirrors tree world state) (stack : List ScopeId) :
    Mirrors tree world { state with names :=
      { state.names with scopes := { state.names.scopes with stack } } } where
  sound := ⟨mirrors.sound.scopes, mirrors.sound.outward, mirrors.sound.linked⟩
  logged := ⟨mirrors.logged.uses, mirrors.logged.reports, mirrors.logged.isOpen⟩
  known := ⟨mirrors.known.cyclic, mirrors.known.walked, mirrors.known.unwalked⟩
  unitOrder := mirrors.unitOrder
  progress := mirrors.progress
  homes := ⟨mirrors.homes.met, mirrors.homes.apart, mirrors.homes.scope⟩

omit forest in
/-- An action in a scope that exists already. -/
theorem within_spec {scope : ScopeId}
    (runs : action { state with names :=
      { state.names with scopes := state.names.scopes.enter scope } } = .ok () after)
    (advances : Advances tree { state with names :=
      { state.names with scopes := state.names.scopes.enter scope } } world after) :
    ∃ final, AnalysisM.within scope action state = .ok () final ∧
      Advances tree state world final := by
  refine ⟨_, ?_, advances.mirrors.restack state.names.scopes.stack, rfl, advances.units⟩
  unfold AnalysisM.within
  rw [bind_eq (rfl : AnalysisM.scopes state = .ok _ state)]
  rw [bind_eq (rfl : AnalysisM.modifyScopes _ state = .ok () _), AnalysisM.ensuring, runs]
  have stack : after.names.scopes.stack = scope :: state.names.scopes.stack := advances.stack
  simp [truncate, depth, stack]

/-- Resolving a unit walks through it. -/
theorem unitWithin_spec (fuel : Nat) (mirrors : Mirrors tree world state) (valid : world.Valid tree)
    (holds : (tree.units.get? id).isSome) (fresh : id ∉ world.waiting)
    (enough : tree.units.size < world.waiting.length + fuel) :
    ∃ home after, Resolve.unitWithin tree fuel id state = .ok home after ∧
      Advances tree state (unitWithin tree fuel world id) after ∧
      after.names.units[id]? = some home := by
  induction fuel generalizing world state id with
  | zero =>
    have := valid.length_le
    rw [World.met, List.length_append] at this
    omega
  | succ fuel inductionHypothesis =>
    obtain ⟨unit, found⟩ := Option.isSome_iff_exists.mp holds
    have start : Resolve.unitWithin tree (fuel + 1) id state = _ :=
      bind_eq (rfl : (get : AnalysisM Analysis) state = .ok _ state)
    rw [start]
    unfold unitWithin
    simp only [found]
    by_cases done : id ∈ world.finished.map Prod.fst
    · have met : id ∈ world.met := List.mem_append_right _ done
      rw [if_pos done, if_pos ((mirrors.mem_met_iff id).mpr met)]
      exact ⟨homeOf state.names id, state, rfl, ⟨mirrors, rfl, fun _ _ isHome => isHome⟩,
        mirrors.homes.of_met met⟩
    · have unmet : id ∉ world.met := by simpa [World.met, fresh] using done
      rw [if_neg done, if_neg (mt (mirrors.mem_met_iff id).mp unmet)]
      obtain ⟨home, met, meets, advances, isHome⟩ := mirrors.meet_spec valid unmet
      have enough' (current : World) (waiting : current.waiting = id :: world.waiting) :
          tree.units.size < current.waiting.length + fuel := by
        rw [waiting, List.length_cons]
        omega
      -- The unit is entered, and its imports are resolved while it waits.
      obtain ⟨imported, imports, advances', valid', waiting⟩ := imports_spec
        id (id :: world.waiting) (.head _)
        (fun current target valid waiting holds fresh => unitWithin_walked forest fuel valid holds
          (waiting ▸ fresh) (enough' current waiting))
        (fun current target state mirrors valid waiting holds fresh =>
          inductionHypothesis mirrors valid holds (waiting ▸ fresh) (enough' current waiting))
        unit.imports (advances.mirrors.restack (home :: met.names.scopes.stack))
        (valid.wait unmet holds) rfl
      have isHome' := advances'.units id home isHome
      have current : imported.names.scopes.current = homeOf imported.names id := by
        rw [homeOf_eq isHome', current, advances'.stack]
        rfl
      obtain ⟨inside, finished, contents, finishes, advances''⟩ :=
        finishUnit_spec forest advances'.mirrors valid' found waiting current
      have runs : (do Resolve.unitContents tree (Resolve.unitWithin tree fuel) id unit
                      Resolve.finishUnit id)
          { met with names := { met.names with scopes := met.names.scopes.enter home } } =
            .ok () finished :=
        (bind_eq ((bind_eq imports).trans contents)).trans finishes
      obtain ⟨after, ends, entered⟩ := within_spec runs (advances'.trans advances'')
      refine ⟨home, after, ?_, advances.trans entered, ?_⟩
      · have start : Resolve.setProgress id .visiting state =
            .ok () { state with progress := state.progress.insert id .visiting } := rfl
        rw [bind_eq start, bind_eq meets, bind_eq ends]
        rfl
      · exact entered.units id home isHome

end

end TreeCheck.Lexical
