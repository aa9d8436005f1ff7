/-
What a load that succeeds leaves behind. Every path within reach that was free has one new
unit, and imports of one path lead to one unit, unless the source of imports makes a
difference between the spellings of a path. The new nodes form a forest, in which only
template parameters come after what they belong to. And nothing is wrong with the shape of
a new unit but that a declaration may have no place.
-/

import TreeCheck.Proofs.Loading.Completion
import TreeCheck.Proofs.Loading.Totality
import TreeCheck.Proofs.Tree.Loading

namespace TreeCheck

open LoadM Text.Path

/-! ### Faults of a unit -/

/-- The one fault of a unit that was loaded: a declaration has the line zero. -/
def Tree.Placeless (tree : Tree) (fault : ShapeFault) : Prop :=
  ∃ id name decl, fault = .emptySpan id name ∧ tree.decls.get? id = some decl ∧
    decl.span.start.line = 0

namespace Tree

variable {tree : Tree} {file : FileId} {kind : DeclKind} {owner : Option DeclId} {id : DeclId}
  {fault : ShapeFault}

theorem Sits.placeless (sits : tree.Sits file kind owner id)
    (among : fault ∈ tree.declFaults file kind owner id) : tree.Placeless fault := by
  obtain ⟨decl, found, isKind, isOwner, isFile⟩ := sits
  simp only [declFaults, found, isKind, isOwner, isFile, ne_eq, not_true, if_false,
    List.nil_append] at among
  split at among
  · next isEmpty =>
    exact ⟨id, _, decl, List.mem_singleton.mp among, found, beq_iff_eq.mp isEmpty⟩
  · nomatch among

theorem CallableSits.placeless (sits : tree.CallableSits file kind owner id)
    (among : fault ∈ tree.callableFaults file kind owner id) : tree.Placeless fault := by
  rw [callableFaults, List.mem_append] at among
  obtain among | among := among
  · exact sits.self.placeless among
  · cases isCallable : tree.callable? id with
    | none =>
      rw [isCallable] at among
      nomatch among
    | some callable =>
      rw [isCallable, List.mem_append, List.mem_flatMap, List.mem_flatMap] at among
      obtain ⟨param, member, among⟩ | ⟨param, member, among⟩ := among
      · exact (sits.params callable isCallable param member).1.placeless among
      · exact (sits.typeParams callable isCallable param member).1.placeless among

theorem EnumSits.placeless (sits : tree.EnumSits file id)
    (among : fault ∈ tree.enumFaults file id) : tree.Placeless fault := by
  rw [enumFaults, List.mem_append] at among
  obtain among | among := among
  · exact sits.self.placeless among
  · cases isEnum : (tree.decls.get? id).bind Decl.consts? with
    | none =>
      rw [isEnum] at among
      nomatch among
    | some consts =>
      rw [isEnum, List.mem_flatMap] at among
      obtain ⟨const, member, among⟩ := among
      exact (sits.consts consts isEnum const member).1.placeless among

theorem ClassSits.placeless (sits : tree.ClassSits file id)
    (among : fault ∈ tree.classFaults file id) : tree.Placeless fault := by
  rw [classFaults, List.mem_append] at among
  obtain among | among := among
  · exact sits.self.placeless among
  · cases isClass : tree.classBody? id with
    | none =>
      rw [isClass] at among
      nomatch among
    | some body =>
      rw [isClass, List.mem_append, List.mem_append, List.mem_flatMap, List.mem_flatMap,
        List.mem_flatMap] at among
      obtain (⟨field, member, among⟩ | ⟨method, member, among⟩) | ⟨param, member, among⟩ := among
      · exact (sits.fields body isClass field member).1.placeless among
      · exact (sits.methods body isClass method member).1.placeless among
      · exact (sits.typeParams body isClass param member).1.placeless among

theorem UnitSits.placeless {leads : String → Option UnitId → Prop} {unit : ProgramUnit}
    {id : UnitId} (sits : tree.UnitSits leads unit) (found : tree.units.get? id = some unit)
    (among : fault ∈ tree.shapeFaults id) : tree.Placeless fault := by
  rw [shapeFaults, found] at among
  simp only [List.mem_append, List.mem_flatMap, Option.mem_toList] at among
  obtain (((((⟨id, member, among⟩ | ⟨id, member, among⟩) | ⟨id, member, among⟩) |
    ⟨id, member, among⟩) | ⟨id, member, among⟩) | ⟨id, member, among⟩) := among
  · exact (sits.imports id member).self.placeless among
  · exact (sits.enums id member).placeless among
  · exact (sits.globals id member).placeless among
  · exact (sits.classes id member).placeless among
  · exact (sits.functions id member).placeless among
  · exact (sits.main id member).placeless among

/-! ### Mentions -/

/-- What is used is mentioned. -/
theorem Uses.mentioned {node : Node} (uses : tree.Uses node) : 0 < tree.mentions node := by
  obtain ⟨whole, member⟩ := uses
  have counted {α : Type} {arena : Arena α} {id : Nat} {parts : α → List Node}
      (isPart : node ∈ ((arena.get? id).map parts).getD []) : 0 < arena.mentions parts node := by
    obtain ⟨item, found, isPart⟩ := Arena.mem_parts_iff.mp isPart
    exact Nat.lt_of_lt_of_le (List.count_pos_iff.mpr isPart)
      (Arena.count_le_mentions parts found node)
  rw [mentions]
  cases whole with
  | unit id => have := counted member; omega
  | decl kind id => have := counted member; omega
  | stmt id => have := counted member; omega
  | expr id => have := counted member; omega
  | type id => have := counted member; omega

end Tree

/-! ### Imports of one path -/

/-- A source that deals with a path in one way: all its spellings get a unit of that path, or none
of them gets a unit and no other path gets one of that path. -/
def ImportSource.Settles (source : ImportSource) (path : String) : Prop :=
  (∀ spelling answer, clean spelling = path → source.find spelling = .ok answer →
    ∃ unit, answer = some unit ∧ clean unit.path = path) ∨
  ∀ spelling unit, source.find spelling = .ok (some unit) →
    clean spelling ≠ path ∧ clean unit.path ≠ path

/-- The paths that a load can register. -/
def Supply.Reaches (supply : Supply) (root : Doc.Unit) (path : String) : Prop :=
  path = clean root.path ∨
    ∃ unit, supply.Offers unit ∧ clean unit.path = path

namespace Loader

/-- The paths that are registered at the latest when the root is. -/
def Reserved (loader : Loader) (root : Doc.Unit) (path : String) : Prop :=
  loader.unit? path ≠ none ∨ path = clean root.path

/-- Where the unit of a path comes from does not depend on who asks for it. -/
def Settled (loader : Loader) (supply : Supply) (root : Doc.Unit) (path : String) : Prop :=
  loader.Reserved root path ∨ (supply.byPath.lookup path).isSome ∨ supply.source.Settles path

variable {supply : Supply} {root : Doc.Unit} {before after : Loader} {path : String}
  {target : Option UnitId}

theorem target_eq_of_leads (keyed : supply.Keyed) (grows : Grows (supply.Reaches root) before after)
    (settled : before.Settled supply root (clean path))
    (leads : supply.Leads (before.Reserved root) after path target) :
    target = after.unit? (clean path) := by
  cases leads with
  | registered found => exact found.symm
  | @outside unit id free lacking answered found =>
    obtain taken | inside | dealt | skipped := settled
    · exact absurd taken free
    · rw [lacking] at inside
      cases inside
    · obtain ⟨_, same, isPath⟩ := dealt path _ rfl answered
      cases same
      rw [← isPath]
      exact found.symm
    · exact absurd rfl (skipped path unit answered).1
  | nowhere free lacking answered =>
    obtain taken | inside | dealt | skipped := settled
    · exact absurd taken free
    · rw [lacking] at inside
      cases inside
    · obtain ⟨_, same, _⟩ := dealt path _ rfl answered
      cases same
    · cases registered : after.unit? (clean path) with
      | none => rfl
      | some id =>
        -- The path would have to be new, and then some unit has it.
        obtain ⟨added, isAdded, _, _, _, each⟩ := grows.registers
        have wasFree : before.unit? (clean path) = none :=
          Decidable.not_not.mp fun found => free (.inl found)
        rw [Loader.unit?, isAdded, List.lookup_append] at registered
        have isNew : clean path ∈ added.map Prod.fst := by
          rw [← isSome_lookup_iff_mem]
          cases found : added.lookup (clean path) with
          | some id => rfl
          | none =>
            rw [found, Option.none_or] at registered
            exact absurd (wasFree.symm.trans registered) (by rintro ⟨⟩)
        obtain isRoot | ⟨unit, ⟨key, inside⟩ | ⟨spelling, answered⟩, isPath⟩ := (each _ isNew).2
        · exact absurd (.inr isRoot) free
        · rw [← isPath, keyed key unit inside, inside] at lacking
          cases lacking
        · exact absurd isPath (skipped spelling unit answered).2

/-! ### Loading -/

/-- The new units: one for each new path. Imports of one path lead to one unit. -/
structure BuildsOnce (supply : Supply) (root : Doc.Unit) (before after : Loader) : Prop where
  grows : Grows (supply.Reaches root) before after
  kept : ∀ id ≤ before.tree.units.size, after.tree.units.get? id = before.tree.units.get? id
  targets : ∀ id unit, before.tree.units.size < id → after.tree.units.get? id = some unit →
    ∀ decl ∈ unit.imports, ∃ path target,
      (after.tree.decls.get? decl).map Decl.form = some (.importDecl path target) ∧
        supply.Leads (before.Reserved root) after path target ∧
        (before.Settled supply root (clean path) →
          target = after.unit? (clean path))

/-- The new nodes: each has one place, after its parts; but a template parameter comes after what
it belongs to. -/
structure BuildsForest (before after : Tree) : Prop where
  once : ∀ node : Node, node.Inner → after.Holds node → ¬before.Holds node →
    after.mentions node = 1
  exprs : ∀ id expr, after.exprs.get? id = some expr →
    ∀ part, .expr part ∈ expr.form.parts → part < id
  stmts : ∀ id stmt, after.stmts.get? id = some stmt →
    ∀ part, .stmt part ∈ stmt.form.parts → part < id
  types : ∀ id type, after.types.get? id = some type →
    ∀ part, .type part ∈ type.form.parts → part < id
  decls : after.OrderedAbove before.decls.size
  shape : ∀ id unit, before.units.size < id → after.units.get? id = some unit →
    ∀ fault ∈ after.shapeFaults id, after.Placeless fault

variable {document : Doc.Document} {outside : List Doc.Unit} {others : List (Option Doc.Unit)}
  {loader : Loader}

theorem keyed_supply (loader : Loader) (others : List (Option Doc.Unit)) :
    (loader.supply others).Keyed := fun _ _ inside => (of_lookup_unitsByPath inside).2

theorem completes_load (isRoot : document.units = some root :: others) {id : UnitId}
    (loaded : load document loader = .ok id after) :
    Completes (loader.supply others) ((loader.supply others).Reaches root) (loader.Reserved root)
      loader after := by
  rw [load_eq isRoot] at loaded
  exact Build.completes_unit (keyed_supply loader others)
    ⟨fun unit offered => .inr ⟨unit, offered, rfl⟩, fun _ _ _ => trivial⟩ (.inl rfl) rfl
    (fun _ isTaken => isTaken) loaded

/-- A load never runs out of fuel; and where it succeeds, each new path has one new unit, whose
nodes form a forest and whose declarations sit in their places. -/
theorem load_builds_forest (reached : Reached loader) (finite : loader.source.AnswersFrom outside)
    (isRoot : document.units = some root :: others) :
    (∀ fuel, loader.unitBound document.units.length ≤ fuel →
      Build.unit fuel (unitsByPath others) false root loader = load document loader) ∧
    ∀ id after, load document loader = .ok id after →
      after.unit? (clean root.path) = some id ∧
        BuildsOnce (loader.supply others) root loader after ∧
        BuildsForest loader.tree after.tree := by
  have bounded : (loader.supply others).Bounded (· ∈ pathsWithinReach document outside) True :=
    ⟨(bounded_supply isRoot finite).known, fun _ _ _ => trivial⟩
  have isKnown : clean root.path ∈ pathsWithinReach document outside :=
    List.mem_map_of_mem (root_mem_withinReach isRoot)
  refine ⟨fun fuel enough => ?_, fun id after loaded => ?_⟩
  · obtain ⟨paths, listed, few⟩ := room_unitBound finite
    rw [load_eq isRoot]
    exact Build.agree_unit bounded fuel _ false root isKnown loader rfl
      ⟨paths, listed, Nat.le_trans few enough⟩ ⟨paths, listed, few⟩
  · have completes := completes_load isRoot loaded
    have forest := (reached.load document).forest
    rw [loaded] at forest
    refine ⟨?_, ⟨completes.grows, completes.kept, fun unitId unit new found decl member => ?_⟩,
      ⟨fun node inner there isNew => ?_, forest.exprsBelow, forest.stmtsBelow, forest.typesBelow,
        completes.onward.ordered, fun unitId unit new found fault among => ?_⟩⟩
    · rw [load_eq isRoot] at loaded
      exact (Build.adds_unit bounded _ false root isKnown fun _ => trivial).gives loader id after rfl
        trivial loaded
    · obtain ⟨path, target, form, leads⟩ :=
        ((completes.whole unitId unit new found).imports decl member).leads
      exact ⟨path, target, form, leads, fun settled =>
        target_eq_of_leads (keyed_supply loader others) completes.grows settled leads⟩
    · have most := forest.once node
      have covered := completes.covers loader.tree (Tree.covered_self _) node inner there
      obtain early | isLoose | uses := covered
      · exact absurd early isNew
      · nomatch isLoose
      · have least := uses.mentioned
        simp only [behind, List.count_nil, Nat.zero_add] at most
        omega
    · exact (completes.whole unitId unit new found).placeless found among

/-- Two units that import each other; the second also imports a unit from outside. -/
def ringOfUnits : Doc.Document where
  version := 1
  units := [some { path := "a", imports := [some { path := "./b" }] },
            some { path := "b", imports := [some { path := "a" }, some { path := "c" }] }]

/-- The unit from outside, which imports itself. -/
def selfImporting : Doc.Unit := { path := "c", imports := [some { path := "c" }] }

def selfImportingSource : ImportSource where
  find path := .ok (if path = "c" then some selfImporting else none)
  bound := 1

theorem answersFrom_selfImporting : selfImportingSource.AnswersFrom [selfImporting] where
  among path unit answered := by
    have same := Except.ok.inj answered
    split at same
    · exact List.mem_singleton.mpr (Option.some.inj same).symm
    · nomatch same
  bounded := Nat.le_refl 1

/-- The unit that a load gives, if it succeeds. -/
def loaded? : EStateM.Result LoadError Loader UnitId → Option UnitId
  | .ok id _ => some id
  | .error .. => none

theorem eq_ok_of_loaded {result : EStateM.Result LoadError Loader UnitId} {id : UnitId}
    (loaded : loaded? result = some id) : result = .ok id (behind result) := by
  cases result with
  | ok found after => rw [Option.some.inj loaded]; rfl
  | error fault after => cases loaded

theorem load_builds_forest_ringOfUnits :
    ∃ after, load ringOfUnits { source := selfImportingSource } = .ok 1 after ∧
      after.units = [("c", 3), ("b", 2), ("a", 1)] ∧ BuildsForest {} after.tree := by
  have loaded : load ringOfUnits { source := selfImportingSource } = .ok 1 _ :=
    eq_ok_of_loaded (by rw [load_eq_loadWithin]; decide +kernel)
  have whole := load_builds_forest (.fresh selfImportingSource) answersFrom_selfImporting
    (rfl : ringOfUnits.units = _ :: _)
  refine ⟨_, loaded, ?_, (whole.2 1 _ loaded).2.2⟩
  rw [load_eq_loadWithin]
  decide +kernel

/-- A unit that imports one path in two spellings, and has a function with a template parameter. -/
def twoSpellings : Doc.Document where
  version := 1
  units := [some { path := "a", imports := [some { path := "c" }, some { path := "./c" }],
                   functions := [some { name := "f", typeParams := [some { name := "T" }] }] }]

/-- A source that knows a unit in one spelling only. -/
def oneSpelling : ImportSource where
  find path := .ok (if path = "./c" then some { path := "c" } else none)
  bound := 1

/-- The path and the target of an import. -/
def importOf (decl : Decl) : Option (String × Option UnitId) :=
  match decl.form with
  | .importDecl path target => some (path, target)
  | _ => none

theorem form_of_importOf {found : Option Decl} {path : String} {target : Option UnitId}
    (isImport : found.bind importOf = some (path, target)) :
    found.map Decl.form = some (.importDecl path target) := by
  obtain ⟨decl, rfl, held⟩ := Option.bind_eq_some_iff.mp isImport
  unfold importOf at held
  split at held
  · next isForm =>
    cases held
    rw [Option.map_some, isForm]
  · cases held

/-- Two imports of one cleaned path lead apart, and a template parameter has a larger number than
the function it belongs to. -/
theorem spellings_lead_apart :
    ∃ after, load twoSpellings { source := oneSpelling } = .ok 1 after ∧
      (after.tree.units.get? 1).map (fun unit => (unit.imports, unit.functions)) =
        some ([1, 2], [3]) ∧
      (after.tree.decls.get? 1).map Decl.form = some (.importDecl "c" none) ∧
      (after.tree.decls.get? 2).map Decl.form = some (.importDecl "./c" (some 2)) ∧
      clean "c" = clean "./c" ∧
      (after.tree.callable? 3).map Callable.typeParams = some [4] := by
  have loaded : load twoSpellings { source := oneSpelling } = .ok 1 _ :=
    eq_ok_of_loaded (by rw [load_eq_loadWithin]; decide +kernel)
  refine ⟨_, loaded, ?_, form_of_importOf ?_, form_of_importOf ?_, by decide, ?_⟩ <;>
    rw [load_eq_loadWithin] <;> decide +kernel

end Loader

end TreeCheck
