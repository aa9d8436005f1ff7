/-
Name resolution refines lexical scoping. Resolving a program goes through the units that
a walk goes through; every name below them has exactly one outcome, which is the one that
the walk finds, and the reports about names are the complaints of the walk, in its order.
None of this depends on the sink, as long as it lets the run come to its end.
-/

import TreeCheck.Proofs.Reporting.Delivery
import TreeCheck.Proofs.Reporting.Resolution
import TreeCheck.Proofs.Scoping.Units
import TreeCheck.Proofs.Tree.Loading

namespace TreeCheck

variable {loose : List Node} {world : World}

/-! ### Names below units -/

namespace Tree

variable {tree : Tree}

theorem Forest.nodup_visits (forest : tree.Forest loose) {units : List UnitId} (nodup : units.Nodup)
    (holds : ∀ id ∈ units, tree.Holds (.unit id)) :
    ((units.flatMap fun id => tree.visit none (.unit id)).map Prod.fst).Nodup := by
  rw [List.map_flatMap, List.nodup_flatMap]
  refine ⟨fun id member => forest.nodup_visit none (holds id member), ?_⟩
  refine nodup.imp_of_mem fun {first second} member member' different => ?_
  intro expr inFirst inSecond
  obtain ⟨⟨_, found⟩, visited, rfl⟩ := List.mem_map.mp inFirst
  obtain ⟨⟨_, found'⟩, visited', rfl⟩ := List.mem_map.mp inSecond
  exact different (forest.unit_unique (holds first member) (holds second member')
    (forest.reaches_of_mem_visit (holds first member) visited).1
    (forest.reaches_of_mem_visit (holds second member') visited').1)

end Tree

namespace Lexical

variable {tree : Tree}

/-! ### Outcomes -/

theorem recorded_eq (tree : Tree) (entries : List Entry) (id : ExprId) :
    recorded tree entries id = (entries.filter fun entry => entry.expr = id).foldl
      (fun found entry => (entry.outcome tree).decl?.or found) none := by
  rw [recorded, List.foldl_filter]
  simp only [decide_eq_true_eq]

theorem Entry.outcome_eq_ownInitial_iff (entry : Entry) :
    entry.outcome tree = .ownInitial ↔ entry.declaring = some (tree.nameAt entry.expr) := by
  unfold Entry.outcome
  split
  · next same => exact ⟨fun _ => same, fun _ => rfl⟩
  · next different =>
    refine ⟨fun impossible => ?_, fun same => absurd same different⟩
    split at impossible <;> nomatch impossible

theorem filter_expr_eq_singleton {entries : List Entry} (once : (entries.map Entry.expr).Nodup)
    {entry : Entry} (member : entry ∈ entries) :
    (entries.filter fun other => other.expr = entry.expr) = [entry] := by
  induction entries with
  | nil => nomatch member
  | cons first rest inductionHypothesis =>
    obtain ⟨apart, once'⟩ := List.nodup_cons.mp once
    rcases List.mem_cons.mp member with rfl | later
    · have others : (rest.filter fun other => other.expr = entry.expr) = [] := by
        refine List.filter_eq_nil_iff.mpr fun other inside => ?_
        have different : other.expr ≠ entry.expr := fun same =>
          apart (same ▸ List.mem_map_of_mem inside)
        simpa using different
      rw [List.filter_cons_of_pos (by simp), others]
    · have different : first.expr ≠ entry.expr := fun same =>
        apart (same ▸ List.mem_map_of_mem later)
      rw [List.filter_cons_of_neg (by simpa using different), inductionHypothesis once' later]

/-- What resolution found out about the names below the units it went through is what a walk
found: a name has one outcome, a declaration is recorded for it exactly when it refers to one,
it is taken for a use of its own variable exactly when it stands in the initial value of a
variable of its name, and the reports about names are what the walk complains about. -/
structure Refines (tree : Tree) (world : World) (names : Resolution) (reports : List Diagnostic) :
    Prop where
  units : names.unitOrder = world.finished.map Prod.fst
  outcomes : ∀ unit ∈ names.unitOrder, ∀ id name, tree.IsName id name →
    tree.Reaches (.unit unit) (.expr id) →
      ∃ entry, (world.entries.filter fun other => other.expr = id) = [entry] ∧
        names.uses[id]? = (entry.outcome tree).decl? ∧
        (entry.outcome tree = .ownInitial ↔ tree.InInitialOf id name)
  complaints : (reports.filter Diagnostic.concernsName).map Diagnostic.plain =
    world.entries.filterMap (Entry.complaint? tree)

/-- The expressions that were come by are different. -/
theorem World.Valid.nodup_exprs (forest : tree.Forest loose) (valid : world.Valid tree) :
    (world.entries.map Entry.expr).Nodup := by
  have once := forest.nodup_visits (List.nodup_append.mp valid.once).2.1
    fun id member => valid.units id (List.mem_append_right _ member)
  have same := valid.covered.map Prod.fst
  rw [List.map_map] at same
  exact same.nodup_iff.mpr once

theorem Mirrors.refines (forest : tree.Forest loose) (valid : world.Valid tree) {state : Analysis}
    (mirrors : Mirrors tree world state) :
    Refines tree world state.names state.sink.bag.items where
  units := mirrors.unitOrder
  complaints := mirrors.logged.reports
  outcomes := by
    intro unit processed id name isName reaches
    have done : unit ∈ world.finished.map Prod.fst := mirrors.unitOrder ▸ processed
    have holds : tree.Holds (.unit unit) := valid.units unit (List.mem_append_right _ done)
    obtain ⟨declaring, visited⟩ := forest.mem_visit holds isName reaches none
    obtain ⟨entry, member, spot⟩ := List.mem_map.mp
      (valid.covered.mem_iff.mpr (List.mem_flatMap.mpr ⟨unit, done, visited⟩))
    cases spot
    have single := filter_expr_eq_singleton (valid.nodup_exprs forest) member
    refine ⟨entry, single, ?_, ?_⟩
    · rw [mirrors.logged.uses entry.expr name isName, recorded_eq, single]
      simp
    · rw [entry.outcome_eq_ownInitial_iff, isName.nameAt_eq]
      exact forest.mem_visit_iff_inInitialOf holds visited name

/-! ### Programs -/

theorem mirrors_empty (tree : Tree) (typing : Typing) (trace : Trace.Recorder) :
    Mirrors tree {} { typing, trace } where
  sound := ScopeTable.sound_empty
  logged := ⟨fun _ _ _ => by simp [recorded], rfl, rfl, Int.le_refl 0⟩
  known := ⟨rfl, nofun, fun _ _ _ => by simp⟩
  unitOrder := rfl
  progress := fun _ => by simp
  homes := ⟨fun _ => by simp [World.met], fun _ _ _ found => by simp at found,
    fun _ _ found => by simp at found⟩

theorem silent_validate (root : UnitId) : Silent tree (Resolve.validate tree root) := by
  refine .bind .scopes fun table => ?_
  split
  · exact .pure ()
  · exact .report rfl

/-- With an empty sink that keeps everything, resolving a program comes to its end and stands
for what the walk through the program finds. -/
theorem program_spec (forest : tree.Forest loose) (root : UnitId) (checked : Bool) (typing : Typing)
    (trace : Trace.Recorder) :
    ∃ after, Resolve.program tree root checked { typing, trace } = .ok () after ∧
      Mirrors tree (program tree root) after := by
  have empty := mirrors_empty tree typing trace
  have resolved : ∃ home middle, Resolve.unit tree root { typing, trace } = .ok home middle ∧
      Mirrors tree (program tree root) middle := by
    cases found : tree.units.get? root with
    | none =>
      rw [program_eq_empty found]
      refine ⟨0, { typing, trace }, ?_, empty⟩
      unfold Resolve.unit Resolve.unitWithin
      rw [AnalysisM.bind_eq (rfl : (get : AnalysisM Analysis) _ = .ok _ _)]
      simp [found]
      rfl
    | some unit =>
      have holds : (tree.units.get? root).isSome := by rw [found]; rfl
      have enough : tree.units.size < ([] : List UnitId).length + (tree.units.size + 1) := by simp
      obtain ⟨home, middle, runs, advances, _⟩ := unitWithin_spec forest (tree.units.size + 1) empty
        (World.valid_empty tree) holds List.not_mem_nil enough
      exact ⟨home, middle, runs, advances.mirrors⟩
  obtain ⟨home, middle, runs, mirrors⟩ := resolved
  have discards : discard (Resolve.unit tree root) { typing, trace } = .ok () middle := by
    show EStateM.map _ (Resolve.unit tree root) _ = _
    rw [EStateM.map, runs]
  unfold Resolve.program
  rw [AnalysisM.bind_eq discards]
  cases checked with
  | false => exact ⟨middle, rfl, mirrors⟩
  | true =>
    obtain ⟨_, after, validates, untouched⟩ :=
      (silent_validate root).runs middle mirrors.logged.isOpen
    exact ⟨after, validates, mirrors.untouched untouched⟩

/-- Resolving a program comes to its end unless the sink raises, and whatever the sink was, it
then stands for what the walk through the program finds. -/
theorem program_ends (forest : tree.Forest loose) (root : UnitId) (checked : Bool) (typing : Typing)
    (trace : Trace.Recorder) :
    ∃ after : Analysis, Mirrors tree (program tree root) after ∧
      (∀ sink : Sink, sink.Quiet → ∃ final,
        Resolve.program tree root checked { typing, trace, sink } = .ok () final) ∧
      ∀ (sink : Sink) (final : Analysis),
        Resolve.program tree root checked { typing, trace, sink } = .ok () final →
          final.names = after.names ∧ final.sink = sink.reportAll after.sink.bag.items := by
  obtain ⟨after, runs, mirrors⟩ := program_spec forest root checked typing trace
  obtain ⟨outcome, reports, same⟩ := (Resolve.acts_program tree root checked).uniform_or_raises
    (fun _ change => change.sinkFree) { typing, trace }
  -- The run with an empty sink tells what the outcome and the reports are.
  have asRun : withFinalSink outcome (Sink.reportAll {} reports) = .ok () after := by
    have either := (same {}).resolve_right fun loud => loud.1 Sink.quiet_open
    exact either.symm.trans runs
  cases outcome with
  | error abort final => nomatch asRun
  | ok value final =>
    obtain rfl : final.withSink (Sink.reportAll {} reports) = after :=
      (EStateM.Result.ok.inj asRun).2
    have items : (Sink.reportAll {} reports).bag.items = reports := Sink.items_reportAll_open reports
    refine ⟨_, mirrors, fun sink quiet => ?_, fun sink other ends => ?_⟩
    · exact ⟨_, (same sink).resolve_right fun loud => loud.1 quiet⟩
    · rcases same sink with found | ⟨_, diagnostic, raised, found⟩
      · cases ends.symm.trans found
        exact ⟨rfl, congrArg sink.reportAll items.symm⟩
      · nomatch ends.symm.trans found

/-- Resolving a loaded program comes to its end unless the sink raises, and refines lexical
scoping: whatever the sink was, the annotations and the reports are those that the walk through
the program gives. -/
theorem resolution_refines_scoping {loader : Loader} (reached : Loader.Reached loader)
    (root : UnitId) (checked : Bool) (typing : Typing) (trace : Trace.Recorder) :
    ∃ (names : Resolution) (reports : List Diagnostic),
      Refines loader.tree (program loader.tree root) names reports ∧
      ((loader.tree.units.get? root).isSome → root ∈ names.unitOrder) ∧
      (∀ sink : Sink, sink.Quiet → ∃ final,
        Resolve.program loader.tree root checked { typing, trace, sink } = .ok () final) ∧
      ∀ (sink : Sink) (final : Analysis),
        Resolve.program loader.tree root checked { typing, trace, sink } = .ok () final →
          final.names = names ∧ final.sink = sink.reportAll reports := by
  have forest := reached.forest
  obtain ⟨after, mirrors, ends, uniform⟩ := program_ends forest root checked typing trace
  have refines := mirrors.refines forest (program_grows forest root).valid
  refine ⟨after.names, after.sink.bag.items, refines, fun holds => ?_, ends, uniform⟩
  rw [refines.units]
  exact (program_walked forest holds).done

/-- Three globals: the initial value of the first is its own name, that of the second the name
of the first, and that of the third a name that nothing has. -/
def threeGlobals : Doc.Document :=
  let named (name : String) (value : String) : Option Doc.Variable :=
    some { name, type := some { kind := "named", name := "int" },
           init := some { kind := "name", name := value } }
  { version := 1
    units := [some { path := "main", globals := [named "n" "n", named "m" "n", named "k" "q"] }] }

theorem resolution_refines_scoping_threeGlobals :
    let loader := Loader.behind (Loader.load threeGlobals {})
    (program loader.tree 1).entries.map (Entry.outcome loader.tree) =
        [.ownInitial, .refersTo 1, .unknown] ∧
      ∃ (names : Resolution) (reports : List Diagnostic),
        Refines loader.tree (program loader.tree 1) names reports ∧
        ((loader.tree.units.get? 1).isSome → 1 ∈ names.unitOrder) ∧
        (∀ sink : Sink, sink.Quiet → ∃ final,
          Resolve.program loader.tree 1 true { sink } = .ok () final) ∧
        ∀ (sink : Sink) (final : Analysis),
          Resolve.program loader.tree 1 true { sink } = .ok () final →
            final.names = names ∧ final.sink = sink.reportAll reports := by
  have outcomes : (program (Loader.behind (Loader.load threeGlobals {})).tree 1).entries.map
      (Entry.outcome (Loader.behind (Loader.load threeGlobals {})).tree) =
        [.ownInitial, .refersTo 1, .unknown] := by
    rw [Loader.load_eq_loadWithin]
    decide +kernel
  exact ⟨outcomes, resolution_refines_scoping (.load threeGlobals (.fresh _)) 1 true {} {}⟩

end Lexical

end TreeCheck
