/-
What units see of the units they import. All units share one chain of links, so what is
imported later may take a unit off the chain of another one. A unit that is on the chain
of one that imports it serves it: what it binds is found from every scope of that unit,
unless a nearer scope binds the same key.

In a program whose imports have no cycle, the attachments of a run are the imports of the
units it goes through. `importsServe_iff_allOnChains` says when all of them are still in effect at the
end of the run, and that a run without a destructive attachment never loses any.
-/

import TreeCheck.Proofs.Scoping.Refinement

namespace TreeCheck

variable {id target : UnitId} {imported home : ScopeId} {waiting : List UnitId} {world : World}

/-! ### Look-up through a chain -/

namespace ScopeTable

variable {table : ScopeTable}

/-- A look-up from a scope gets to another one, and finds what is bound there, by its key and,
if it is a callable, by its name, unless a nearer scope binds the key. -/
def Sees (table : ScopeTable) (id : ScopeId) (scope : Scope) : Prop :=
  ∃ nearer further, table.visible? id = some (nearer ++ scope :: further) ∧
    ∀ key decl, scope.find? key = some decl → (∀ other ∈ nearer, other.find? key = none) →
      table.findFrom? id key = some (some decl) ∧
      (key.isSignature → ∃ callables, table.overloads? id key.name = some callables ∧
        decl ∈ callables)

/-- A global scope is on the import chain of another one, and is seen from all scopes of it. -/
structure Serves (table : ScopeTable) (imported home : ScopeId) : Prop where
  onChain : ∃ chain, table.importChain? home = some chain ∧ imported ∈ chain
  seen : ∀ id, table.root? id = some home →
    ∃ scope, table.get? imported = some scope ∧ table.Sees id scope

theorem Sound.sees (sound : table.Sound) {id : ScopeId} {scope inner : Scope}
    (there : table.get? id = some inner) (found : table.get? imported = some scope)
    (member : imported ∈ table.importsOf (table.rootOf id)) : table.Sees id scope := by
  obtain ⟨before, behind, split⟩ := List.append_of_mem member
  have path : (table.path id).filterMap table.get? =
      ((table.outward id).scopes.map Prod.fst ++ before).filterMap table.get? ++
        scope :: behind.filterMap table.get? := by
    rw [ScopeTable.path, split, ← List.append_assoc, List.filterMap_append,
      List.filterMap_cons_some found]
  refine ⟨_, _, (sound.anchored.visible?_eq there).trans (congrArg some path), ?_⟩
  intro key decl bound unhidden
  have means : (table.frames id).find? key = some decl := by
    rw [← sound.anchored.map_entries there, ← findSome?_find?, path, List.findSome?_append,
      List.findSome?_eq_none_iff.mpr unhidden, Option.none_or, List.findSome?_cons, bound]
  refine ⟨(sound.anchored.findFrom?_eq there key).trans (congrArg some means), fun signature => ?_⟩
  refine ⟨_, congrArg (Option.map _) (sound.anchored.visible?_eq there), ?_⟩
  have callable :=
      (sound.anchored.mem_overloads?_iff there key.name decl).mpr ⟨key, signature, rfl, means⟩
  rwa [overloads?, sound.anchored.visible?_eq there] at callable

/-- Only scopes have something around them. -/
theorem exists_of_root? {id : ScopeId} (isRoot : table.root? id = some home) (nonzero : home ≠ 0) :
    ∃ scope, table.get? id = some scope := by
  by_contra absent
  have missing : table.get? id = none :=
    Option.eq_none_iff_forall_ne_some.mpr fun scope found => absent ⟨scope, found⟩
  unfold root? outward outwardWithin at isRoot
  by_cases zero : id = 0
  · simp [zero] at isRoot
    exact nonzero isRoot.symm
  · simp [zero, missing] at isRoot

theorem Sound.serves_iff (sound : table.Sound) {root : Scope} (there : table.get? home = some root)
    (top : root.parent = 0) : table.Serves imported home ↔ imported ∈ table.importsOf home := by
  have chain : table.importChain? home = some (table.importsOf home) := by
    rw [sound.anchored.importChain?_eq there, sound.anchored.rootOf_global there top]
  have nonzero : home ≠ 0 := by
    have := table.le_size there
    lia
  constructor
  · rintro ⟨⟨_, isChain, member⟩, -⟩
    rwa [Option.some.inj (chain.symm.trans isChain)]
  · intro member
    refine ⟨⟨_, chain, member⟩, fun id isRoot => ?_⟩
    obtain ⟨inner, found⟩ := exists_of_root? isRoot nonzero
    obtain ⟨_, scope, isScope, _⟩ := sound.global_of_mem_importsOf member
    refine ⟨scope, isScope, sound.sees found isScope ?_⟩
    rwa [Option.some.inj ((sound.anchored.root?_eq found).symm.trans isRoot)]

end ScopeTable

/-! ### The import graph -/

namespace Tree

/-- One of the imports of a unit names another unit. -/
def Imports (tree : Tree) (id target : UnitId) : Prop :=
  ∃ unit, tree.units.get? id = some unit ∧
    ∃ decl ∈ unit.imports, Lexical.importTarget? tree decl = some target

def AcyclicImports (tree : Tree) : Prop := ∀ id, ¬ Relation.TransGen tree.Imports id id

/-- There is no cycle if imports lead to higher ranks only. -/
theorem acyclicImports_of_rank {tree : Tree} (rank : UnitId → Nat)
    (increasing : ∀ id target, tree.Imports id target → rank id < rank target) :
    tree.AcyclicImports := by
  have higher {id target : UnitId} (leads : Relation.TransGen tree.Imports id target) :
      rank id < rank target := by
    induction leads with
    | single imports => exact increasing _ _ imports
    | tail _ imports inductionHypothesis =>
      exact inductionHypothesis.trans (increasing _ _ imports)
  exact fun id cycle => Nat.lt_irrefl _ (higher cycle)

/-- A unit is not imported from behind it. -/
theorem AcyclicImports.fresh {tree : Tree} (acyclic : tree.AcyclicImports)
    (behind : ∀ other ∈ waiting, Relation.TransGen tree.Imports other id)
    (imports : tree.Imports id target) : target ∉ id :: waiting := by
  intro member
  rcases List.mem_cons.mp member with rfl | waits
  · exact acyclic target (.single imports)
  · exact acyclic target ((behind target waits).tail imports)

end Tree

namespace Lexical

variable {tree : Tree}

/-! ### Attachments -/

/-- The attachments are imports of the units that were met, and those of a finished unit are
all done. -/
structure World.Records (tree : Tree) (world : World) : Prop where
  imported : ∀ pair ∈ world.imports, pair.1 ∈ world.met ∧ tree.Imports pair.1 pair.2
  recorded : ∀ id ∈ world.finished.map Prod.fst, ∀ target, tree.Imports id target →
    (id, target) ∈ world.imports

namespace World.Records

variable {world : World}

theorem wait (records : world.Records tree) (id : UnitId) :
    Records tree { world with waiting := id :: world.waiting } where
  imported := fun pair member =>
    ⟨.tail _ (records.imported pair member).1, (records.imported pair member).2⟩
  recorded := records.recorded

theorem attach (records : world.Records tree) (met : id ∈ world.met)
    (imports : tree.Imports id target) : (world.attach tree id target).Records tree where
  imported := by
    intro pair member
    rcases List.mem_append.mp member with old | new
    · exact records.imported pair old
    · rw [List.mem_singleton.mp new]
      exact ⟨met, imports⟩
  recorded := fun other done target imports =>
    List.mem_append_left _ (records.recorded other done target imports)

theorem contents (records : world.Records tree) (unit : ProgramUnit)
    (all : ∀ target, tree.Imports id target → (id, target) ∈ world.imports) :
    (world.contents tree id unit).Records tree := by
  obtain ⟨finished, waiting, _, imports⟩ := contents_frame tree id unit world
  constructor
  · rw [imports]
    intro pair member
    obtain ⟨met, isImport⟩ := records.imported pair member
    refine ⟨?_, isImport⟩
    rw [World.met, waiting, finished]
    by_cases same : pair.1 = id
    · exact List.mem_append_right _ (List.mem_append_right _ (List.mem_singleton.mpr same))
    · rcases List.mem_append.mp met with waits | done
      · exact List.mem_append_left _ ((List.mem_erase_of_ne same).mpr waits)
      · exact List.mem_append_right _ (List.mem_append_left _ done)
  · rw [imports, finished]
    intro other member target isImport
    rcases List.mem_append.mp member with done | here
    · exact records.recorded other done target isImport
    · obtain rfl := List.mem_singleton.mp here
      exact all target isImport

end World.Records

/-- Imports are done one after the other, and none is left out if none of them waits. -/
theorem records_importUnits {walkUnit : World → UnitId → World} (imports : List DeclId)
    (inGraph : ∀ decl ∈ imports, ∀ target, importTarget? tree decl = some target →
      tree.Imports id target ∧ target ∉ waiting) (waits : world.waiting = waiting)
    (isWaiting : id ∈ waiting) (valid : world.Valid tree) (records : world.Records tree)
    (walks : ∀ (current : World) (target : UnitId), current.waiting = waiting →
      current.Valid tree → current.Records tree → tree.Imports id target → target ∉ waiting →
      current.Walked tree target (walkUnit current target) ∧
        (walkUnit current target).Records tree) :
    (imports.foldl (importUnit tree walkUnit id) world).Records tree ∧
      world.imports ⊆ (imports.foldl (importUnit tree walkUnit id) world).imports ∧
      ∀ decl ∈ imports, ∀ target, importTarget? tree decl = some target →
        (id, target) ∈ (imports.foldl (importUnit tree walkUnit id) world).imports := by
  induction imports generalizing world with
  | nil => exact ⟨records, .refl _, by rintro _ ⟨⟩⟩
  | cons first rest inductionHypothesis =>
    have later := fun decl member => inGraph decl (.tail _ member)
    rw [List.foldl_cons]
    cases isTarget : importTarget? tree first with
    | none =>
      have unchanged : importUnit tree walkUnit id world first = world := by
        simp [importUnit, isTarget]
      rw [unchanged]
      obtain ⟨records', kept, all⟩ := inductionHypothesis later waits valid records
      refine ⟨records', kept, List.forall_mem_cons.mpr ⟨fun target found => ?_, all⟩⟩
      cases isTarget.symm.trans found
    | some target =>
      obtain ⟨isImport, fresh⟩ := inGraph first (.head _) target isTarget
      obtain ⟨walked, records'⟩ := walks world target waits valid records isImport fresh
      have attached : importUnit tree walkUnit id world first =
          (walkUnit world target).attach tree id target := by
        simp [importUnit, isTarget, waits, fresh, Option.filter]
      have waits' : ((walkUnit world target).attach tree id target).waiting = waiting :=
        walked.waiting.trans waits
      have isWaiting' : id ∈ (walkUnit world target).waiting := waits' ▸ isWaiting
      rw [attached]
      obtain ⟨records'', kept, all⟩ := inductionHypothesis later waits'
        (walked.valid.attach isWaiting' walked.done)
        (records'.attach (List.mem_append_left _ isWaiting') isImport)
      refine ⟨records'', fun pair member => kept (List.mem_append_left _ (walked.imports member)),
        List.forall_mem_cons.mpr ⟨fun other found => ?_, all⟩⟩
      cases isTarget.symm.trans found
      exact kept (List.mem_append_right _ (.head _))

section

variable {loose : List Node} (forest : tree.Forest loose) (acyclic : tree.AcyclicImports)

include forest acyclic

/-- Whatever waits got to the unit by imports, so none of its own imports waits. -/
theorem records_unitWithin (fuel : Nat) (valid : world.Valid tree) (records : world.Records tree)
    (holds : (tree.units.get? id).isSome)
    (behind : ∀ other ∈ world.waiting, Relation.TransGen tree.Imports other id)
    (enough : tree.units.size < world.waiting.length + fuel) :
    (unitWithin tree fuel world id).Records tree := by
  induction fuel generalizing world id with
  | zero => exact records
  | succ fuel inductionHypothesis =>
    obtain ⟨unit, found⟩ := Option.isSome_iff_exists.mp holds
    have inGraph : ∀ decl ∈ unit.imports, ∀ target, importTarget? tree decl = some target →
        tree.Imports id target ∧ target ∉ id :: world.waiting := by
      intro decl member target isTarget
      have isImport : tree.Imports id target := ⟨unit, found, decl, member, isTarget⟩
      exact ⟨isImport, acyclic.fresh behind isImport⟩
    have fresh : id ∉ world.waiting := fun waits => acyclic id (behind id waits)
    unfold unitWithin
    simp only [found]
    split
    · exact records
    · next undone =>
      have unmet : id ∉ world.met := by simpa [World.met, fresh] using undone
      obtain ⟨records', _, all⟩ := records_importUnits unit.imports inGraph rfl (.head _)
        (valid.wait unmet holds) (records.wait id)
        fun current target waiting valid records isImport fresh => by
          have holds : (tree.units.get? target).isSome := by
            obtain ⟨_, _, _, _, isTarget⟩ := isImport
            exact holds_importTarget isTarget
          have enough' : tree.units.size < current.waiting.length + fuel := by
            rw [waiting, List.length_cons]
            omega
          refine ⟨unitWithin_walked forest fuel valid holds (waiting ▸ fresh) enough',
            inductionHypothesis valid records holds ?_ enough'⟩
          rw [waiting]
          exact List.forall_mem_cons.mpr
            ⟨.single isImport, fun other waits => (behind other waits).tail isImport⟩
      refine records'.contents unit fun target isImport => ?_
      obtain ⟨unit', found', decl, member, isTarget⟩ := isImport
      cases found.symm.trans found'
      exact all decl member target isTarget

/-- The attachments of a run are the imports of the units that it goes through. -/
theorem mem_imports_program_iff (root id target : UnitId) :
    (id, target) ∈ (program tree root).imports ↔
      id ∈ (program tree root).finished.map Prod.fst ∧ tree.Imports id target := by
  have records : (program tree root).Records tree := by
    cases found : tree.units.get? root with
    | none =>
      rw [program_eq_empty found]
      exact ⟨nofun, nofun⟩
    | some unit =>
      exact records_unitWithin forest acyclic _ (World.valid_empty tree) ⟨nofun, nofun⟩
        (by rw [found]; rfl) nofun (by simp)
  have met : (program tree root).met = (program tree root).finished.map Prod.fst := by
    rw [World.met, (program_grows forest root).waiting, List.nil_append]
  constructor
  · intro member
    exact met ▸ records.imported (id, target) member
  · rintro ⟨done, isImport⟩
    exact records.recorded id done target isImport

end

/-! ### Programs -/

/-- Every unit that a unit imports serves it. -/
def ImportsServe (tree : Tree) (names : Resolution) : Prop :=
  ∀ id ∈ names.unitOrder, ∀ target, tree.Imports id target →
    ∃ home imported, names.units[id]? = some home ∧ names.units[target]? = some imported ∧
      names.scopes.Serves imported home

/-- A unit serves another one if it is on its chain. -/
theorem Mirrors.serves_iff {state : Analysis} (mirrors : Mirrors tree world state)
    (valid : world.Valid tree) (met : id ∈ world.met) (met' : target ∈ world.met) :
    (∃ home imported, state.names.units[id]? = some home ∧
        state.names.units[target]? = some imported ∧ state.names.scopes.Serves imported home) ↔
      target ∈ chain world.links tree.units.size id := by
  obtain ⟨scope, found, top, _⟩ := mirrors.homes.scope id _ (mirrors.homes.of_met met)
  have onChain : homeOf state.names target ∈ state.names.scopes.importsOf (homeOf state.names id) ↔
      target ∈ chain world.links tree.units.size id := by
    rw [mirrors.homes.importsOf_eq valid met, List.mem_map]
    constructor
    · rintro ⟨other, member, same⟩
      have met'' := List.mem_append_right world.waiting (valid.chain_subset _ id member)
      rwa [← mirrors.homes.apart_of_met met'' met' same]
    · exact fun member => ⟨target, member, rfl⟩
  rw [← onChain, ← mirrors.sound.serves_iff found top]
  constructor
  · rintro ⟨home, imported, isHome, isImported, serves⟩
    rwa [homeOf_eq isHome, homeOf_eq isImported]
  · exact fun serves => ⟨_, _, mirrors.homes.of_met met, mirrors.homes.of_met met', serves⟩

/-- The imports of a loaded program without a cycle of imports are in effect at the end of a run
exactly when its attachments, which are these imports, keep everything on its chain; and they
are in effect at every moment exactly when no attachment is destructive. -/
theorem importsServe_iff_allOnChains {loader : Loader} (reached : Loader.Reached loader)
    (acyclic : loader.tree.AcyclicImports) (root : UnitId) (checked : Bool) (typing : Typing)
    (trace : Trace.Recorder) :
    let attachments := (program loader.tree root).imports
    let bound := loader.tree.units.size
    ∃ names : Resolution,
      (∀ sink : Sink, sink.Quiet → ∃ final,
        Resolve.program loader.tree root checked { typing, trace, sink } = .ok () final) ∧
      (∀ (sink : Sink) (final : Analysis),
        Resolve.program loader.tree root checked { typing, trace, sink } = .ok () final →
          final.names = names) ∧
      (∀ id target, (id, target) ∈ attachments ↔
        id ∈ names.unitOrder ∧ loader.tree.Imports id target) ∧
      (ImportsServe loader.tree names ↔ AllOnChains bound attachments) ∧
      ((∀ before later, before ++ later = attachments → AllOnChains bound before) ↔
        Harmless bound attachments) := by
  intro attachments bound
  have forest := reached.forest
  have valid := (program_grows forest root).valid
  obtain ⟨after, mirrors, ends, uniform⟩ := program_ends forest root checked typing trace
  have graph (id target : UnitId) : (id, target) ∈ attachments ↔
      id ∈ after.names.unitOrder ∧ loader.tree.Imports id target := by
    rw [mirrors.unitOrder]
    exact mem_imports_program_iff forest acyclic root id target
  refine ⟨after.names, ends, fun sink final run => (uniform sink final run).1, graph, ?_, ?_⟩
  · have serves (id target : UnitId) (member : (id, target) ∈ attachments) :=
      mirrors.serves_iff valid
        (List.mem_append_right _ (mirrors.unitOrder ▸ ((graph id target).mp member).1))
        (List.mem_append_right _ (valid.imports _ member).2)
    rw [valid.linked] at serves
    constructor
    · rintro serve ⟨id, target⟩ member
      obtain ⟨done, isImport⟩ := (graph id target).mp member
      exact (serves id target member).mp (serve id done target isImport)
    · intro kept id done target isImport
      have member := (graph id target).mpr ⟨done, isImport⟩
      exact (serves id target member).mpr (kept (id, target) member)
  · have short : ((program loader.tree root).finished.map Prod.fst).length ≤ bound := by
      have := valid.length_le
      rw [World.met, List.length_append] at this
      omega
    exact stayOnChains_iff short (fun pair member => (valid.imports pair member).2)
      fun pair member => (valid.imports pair member).1

/-- The first unit imports the second, third and fifth ones, and both of the former import the
fourth one. -/
def sharedImport : Doc.Document :=
  let unit (path : String) (imports : List String) : Option Doc.Unit :=
    some { path, imports := imports.map fun path => some { path } }
  { version := 1
    units := [unit "a" ["b", "c", "e"], unit "b" ["d"], unit "c" ["d"], unit "d" [], unit "e" []] }

/-- The numbers of the units are those of a depth-first walk, but for the shared unit: imports lead
up from there on if that one is put last. -/
theorem sharedImport_runs :
    let tree := (Loader.behind (Loader.load sharedImport {})).tree
    (tree.units.size = 5 ∧ (program tree 1).imports = [(2, 3), (1, 2), (4, 3), (1, 4), (1, 5)]) ∧
      (tree.units.ids.all fun id => (tree.units.get? id).all fun unit => unit.imports.all fun decl =>
        (importTarget? tree decl).all fun target =>
          (if id = 3 then 6 else id) < if target = 3 then 6 else target) = true := by
  rw [Loader.load_eq_loadWithin]
  decide +kernel

theorem acyclicImports_sharedImport :
    (Loader.behind (Loader.load sharedImport {})).tree.AcyclicImports := by
  have increasing := sharedImport_runs.2
  refine Tree.acyclicImports_of_rank (fun id => if id = 3 then 6 else id) ?_
  rintro id target ⟨unit, found, decl, member, isTarget⟩
  have isId := (Arena.mem_ids_iff _ id).mpr (Option.isSome_of_eq_some found)
  have here := List.all_eq_true.mp increasing id isId
  rw [found, Option.all_some] at here
  have isHigher := List.all_eq_true.mp here decl member
  rw [isTarget, Option.all_some] at isHigher
  exact of_decide_eq_true isHigher

/-- The last import takes the unit that two others share off the chain of one of them. -/
theorem importsServe_iff_allOnChains_sharedImport :
    let loader := Loader.behind (Loader.load sharedImport {})
    let attachments := (program loader.tree 1).imports
    let bound := loader.tree.units.size
    loader.tree.AcyclicImports ∧ ¬ AllOnChains bound attachments ∧
    ∃ names : Resolution,
      (∀ sink : Sink, sink.Quiet → ∃ final,
        Resolve.program loader.tree 1 true { sink } = .ok () final) ∧
      (∀ (sink : Sink) (final : Analysis),
        Resolve.program loader.tree 1 true { sink } = .ok () final → final.names = names) ∧
      (∀ id target, (id, target) ∈ attachments ↔
        id ∈ names.unitOrder ∧ loader.tree.Imports id target) ∧
      (ImportsServe loader.tree names ↔ AllOnChains bound attachments) ∧
      ((∀ before later, before ++ later = attachments → AllOnChains bound before) ↔
        Harmless bound attachments) := by
  obtain ⟨⟨size, imports⟩, -⟩ := sharedImport_runs
  refine ⟨acyclicImports_sharedImport, ?_, importsServe_iff_allOnChains
    (.load sharedImport (.fresh _)) acyclicImports_sharedImport 1 true {} {}⟩
  rw [size, imports]
  decide

end Lexical

end TreeCheck
