/-
The rules on bodies are reported exactly. Behind name resolution and type checking the
walk of the rules comes to its end, and of the codes of faults of bodies it reports one
diagnostic for each fault of each node below a unit that was resolved, and no other. The
walk goes through the units in the order in which they were resolved; resolution finishes
no unit twice, so no node is below two of them.
-/

import TreeCheck.Proofs.Rules.Walk
import TreeCheck.Proofs.Types.Conversion

namespace TreeCheck

variable {after : Analysis} {units : List UnitId}

/-! ### Units that were resolved -/

/-- Resolution finishes units that are there, and none twice. -/
theorem Resolve.units_program {tree : Tree} {loose : List Node} (forest : tree.Forest loose)
    {root : UnitId} {checked : Bool} {sink : Sink} {trace : Trace.Recorder}
    (ran : Resolve.program tree root checked { sink, trace } = .ok () after) :
    after.names.unitOrder.Nodup ∧ ∀ unit ∈ after.names.unitOrder, tree.Holds (.unit unit) := by
  obtain ⟨mirror, mirrors, -, uniform⟩ := Lexical.program_ends forest root checked {} trace
  have valid := (Lexical.program_grows forest root).valid
  rw [(uniform sink after ran).1, mirrors.unitOrder]
  exact ⟨(List.nodup_append.mp valid.once).2.1,
    fun unit member => valid.units unit (List.mem_append_right _ member)⟩

/-- Type checking leaves names alone. -/
theorem TypeCheck.names_program {tree : Tree} {span : Nat} {before : Analysis}
    (ran : TypeCheck.program tree span before = .ok () after) : after.names = before.names := by
  have same := (TypeCheck.acts_program tree span).names_eq (fun _ change => change.names) before
  rwa [ran] at same

namespace Rules

variable {tree : Tree} {loose : List Node} {state : Analysis}

/-! ### Each fault once -/

/-- The nodes below some units, each with its place. -/
def entries (tree : Tree) (units : List UnitId) : List (Node × Place) :=
  units.flatMap fun unit => tree.placed {} (.unit unit)

theorem nodup_entries (forest : tree.Forest loose) (once : units.Nodup)
    (hold : ∀ unit ∈ units, tree.Holds (.unit unit)) :
    ((entries tree units).map Prod.fst).Nodup := by
  rw [entries, List.map_flatMap, List.nodup_flatMap]
  refine ⟨fun unit member => forest.nodup_placed (hold unit member), ?_⟩
  refine once.imp_of_mem fun {first second} member member' different => ?_
  intro node below below'
  exact different (forest.unit_unique (hold first member) (hold second member')
    ((forest.mem_placed_iff (hold first member)).mp below)
    ((forest.mem_placed_iff (hold second member')).mp below'))

theorem around_of_mem_entries (forest : tree.Forest loose)
    (hold : ∀ unit ∈ units, tree.Holds (.unit unit)) {entry : Node × Place}
    (member : entry ∈ entries tree units) : tree.Around entry.1 entry.2 := by
  obtain ⟨unit, isUnit, member⟩ := List.mem_flatMap.mp member
  exact forest.around_of_mem_placed (hold unit isUnit) (tree.around_unit unit) entry member

/-- The faults of bodies below some units, each with its node. -/
def faults (tree : Tree) (state : Analysis) (units : List UnitId) : List (Node × Diagnostic) :=
  (entries tree units).flatMap fun entry =>
    (findings tree state entry.2 entry.1).map fun diagnostic => (entry.1, diagnostic)

theorem mem_faults_iff (forest : tree.Forest loose) (hold : ∀ unit ∈ units, tree.Holds (.unit unit))
    {node : Node} {diagnostic : Diagnostic} :
    (node, diagnostic) ∈ faults tree state units ↔
      Fault tree state node diagnostic ∧ ∃ unit ∈ units, tree.Reaches (.unit unit) node := by
  constructor
  · intro member
    obtain ⟨entry, isEntry, member⟩ := List.mem_flatMap.mp member
    obtain ⟨_, isFinding, same⟩ := List.mem_map.mp member
    cases same
    refine ⟨(mem_findings_iff forest (around_of_mem_entries forest hold isEntry)).mp isFinding, ?_⟩
    obtain ⟨unit, isUnit, placed⟩ := List.mem_flatMap.mp isEntry
    exact ⟨unit, isUnit, (forest.mem_placed_iff (hold unit isUnit)).mp (List.mem_map_of_mem placed)⟩
  · rintro ⟨fault, unit, isUnit, reaches⟩
    obtain ⟨entry, placed, rfl⟩ :=
      List.mem_map.mp ((@Tree.Forest.mem_placed_iff {} _ tree loose forest _ (hold unit isUnit)).mpr
        reaches)
    have isEntry : entry ∈ entries tree units := List.mem_flatMap.mpr ⟨unit, isUnit, placed⟩
    refine List.mem_flatMap.mpr ⟨entry, isEntry, List.mem_map.mpr ⟨diagnostic, ?_, rfl⟩⟩
    exact (mem_findings_iff forest (around_of_mem_entries forest hold isEntry)).mpr fault

/-- A node has one fault of a code at most. -/
theorem nodup_faults (forest : tree.Forest loose) (once : units.Nodup)
    (hold : ∀ unit ∈ units, tree.Holds (.unit unit)) :
    ((faults tree state units).map fun fault => (fault.1, fault.2.code)).Nodup := by
  rw [faults, List.map_flatMap, List.nodup_flatMap]
  refine ⟨fun entry _ => ?_, ?_⟩
  · have codes := (nodup_codes_findings tree state entry.2 entry.1).map (f := Prod.mk entry.1)
      fun _ _ same => (Prod.mk.inj same).2
    rwa [List.map_map] at codes ⊢
  · refine (List.pairwise_map.mp (nodup_entries forest once hold)).imp fun different fault => ?_
    simp only [List.map_map, List.mem_map, forall_exists_index, and_imp]
    rintro _ _ rfl _ _ same
    exact different (Prod.mk.inj same).1.symm

theorem map_faults (tree : Tree) (state : Analysis) (units : List UnitId) :
    (faults tree state units).map Prod.snd =
      units.flatMap fun unit => found tree state {} (.unit unit) := by
  simp [faults, entries, found, List.map_flatMap, List.flatMap_assoc, Function.comp_def]

/-! ### Programs -/

/-- Where a program was resolved and checked, the walk of the rules comes to its end and reports
the same whatever the sink is; of its reports those with a code of a fault of bodies are the
faults of the nodes below the units that were resolved: one diagnostic for each fault, and one
fault of a code at most for each node. -/
theorem faults_reported_exactly {loader : Loader} (loaded : loader.Reached) {root : UnitId}
    {checked : Bool} {sink sink' : Sink} {trace trace' : Trace.Recorder} {resolved typed : Analysis}
    {span : Nat}
    (resolves : Resolve.program loader.tree root checked { sink, trace } = .ok () resolved)
    (checks : TypeCheck.program loader.tree span { resolved with sink := sink', trace := trace' } =
      .ok () typed)
    (parent : Nat) :
    ∃ (reports : List Diagnostic) (found : List (Node × Diagnostic)),
      (∀ (sink : Sink) (trace : Trace.Recorder), sink.Quiet → ∃ final,
        program loader.tree parent { typed with sink, trace } = .ok () final ∧
          final.sink = sink.reportAll reports) ∧
      (found.map Prod.snd).Perm (reports.filter (·.code ∈ bodyCodes)) ∧
      (found.map fun fault => (fault.1, fault.2.code)).Nodup ∧
      ∀ node diagnostic, (node, diagnostic) ∈ found ↔
        Fault loader.tree typed node diagnostic ∧
          ∃ unit ∈ typed.names.unitOrder, loader.tree.Reaches (.unit unit) node := by
  have forest := loaded.forest
  obtain ⟨once, hold⟩ := Resolve.units_program forest resolves
  have names : typed.names = resolved.names := (TypeCheck.names_program checks).trans rfl
  rw [← names] at once hold
  obtain ⟨reports, isFound, runs⟩ :=
    (@reports_program _ _ typed forest loaded.bare parent hold).runs
  refine ⟨reports, faults loader.tree typed typed.names.unitOrder, ?_, ?_,
    nodup_faults forest once hold, fun node diagnostic => mem_faults_iff forest hold⟩
  · intro sink trace quiet
    obtain ⟨final, ends, -, reported⟩ := runs { typed with sink, trace } ⟨rfl, rfl⟩ quiet
    exact ⟨final, ends, reported⟩
  · rw [map_faults]
    exact isFound.symm

/-- An abstract class, a constant, and a function that creates an object of the class and assigns
to the constant. -/
def twoFaults : Loader :=
  let named (name : String) : Option Doc.TypeExpr := some { kind := "named", name }
  let constant : Option Doc.Expr := some { kind := "name", name := "c" }
  let document : Doc.Document :=
    { version := 1
      units := [some
        { path := "main"
          globals := [some { name := "c", type := named "Int", mods := ["const"] }]
          classes := [some { name := "A", mods := ["abstract"] }]
          functions := [some
            { name := "f"
              body :=
                [some { kind := "expr", expr := some { kind := "new", type := named "A" } },
                  some { kind := "assign", target := constant, value := constant }] }] }] }
  Loader.behind (Loader.load document {})

/-- The program when it was resolved. -/
def twoFaultsResolved : Analysis := Acts.behind (Resolve.program twoFaults.tree 1 true {})

/-- The program when it was checked. -/
def twoFaultsTyped : Analysis := Acts.behind (TypeCheck.program twoFaults.tree 0 twoFaultsResolved)

theorem twoFaults_runs :
    Acts.ended (Resolve.program twoFaults.tree 1 true {}) ∧
      Acts.ended (TypeCheck.program twoFaults.tree 0 twoFaultsResolved) ∧
      (Acts.behind (program twoFaults.tree 0 { twoFaultsTyped with sink := {}, trace :=
        {} })).sink.bag.items.map
        Diagnostic.code = [.abstractInstantiation, .constAssign] := by
  simp only [twoFaultsTyped, twoFaultsResolved, twoFaults, Loader.load_eq_loadWithin]
  decide +kernel

theorem twoFaults_resolves : Resolve.program twoFaults.tree 1 true {} = .ok () twoFaultsResolved :=
  Acts.eq_ok_behind twoFaults_runs.1

theorem twoFaults_checks :
    TypeCheck.program twoFaults.tree 0 twoFaultsResolved = .ok () twoFaultsTyped :=
  Acts.eq_ok_behind twoFaults_runs.2.1

theorem faults_reported_exactly_twoFaults :
    ∃ found : List (Node × Diagnostic),
      (found.map fun fault => fault.2.code).Perm [.abstractInstantiation, .constAssign] ∧
      ∀ node diagnostic, (node, diagnostic) ∈ found ↔
        Fault twoFaults.tree twoFaultsTyped node diagnostic ∧
          ∃ unit ∈ twoFaultsTyped.names.unitOrder, twoFaults.tree.Reaches (.unit unit) node := by
  have loaded : twoFaults.Reached := .load _ (.fresh {})
  obtain ⟨reports, found, runs, same, -, exact⟩ :=
    faults_reported_exactly loaded twoFaults_resolves twoFaults_checks 0
  obtain ⟨final, ends, reported⟩ := runs {} {} Sink.quiet_open
  have codes : reports.map Diagnostic.code = [.abstractInstantiation, .constAssign] := by
    rw [← Sink.items_reportAll_open reports, ← reported,
      show final = Acts.behind (.ok () final) from rfl, ← ends]
    exact twoFaults_runs.2.2
  have bodily : reports.filter (·.code ∈ bodyCodes) = reports := by
    refine List.filter_eq_self.mpr fun diagnostic member => ?_
    have isCode := List.mem_map_of_mem (f := Diagnostic.code) member
    rw [codes] at isCode
    simp only [List.mem_cons, List.not_mem_nil, or_false] at isCode
    rcases isCode with isCode | isCode <;> rw [isCode] <;> decide
  refine ⟨found, ?_, exact⟩
  have mapped := (bodily ▸ same).map Diagnostic.code
  rwa [codes, List.map_map] at mapped

end Rules

end TreeCheck
