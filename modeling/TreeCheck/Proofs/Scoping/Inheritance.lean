/-
Inheritance in a program. Every unit gives its classes proper bases, so in a program that
was resolved the base of a class is what its base type refers to, and following bases from
any class comes to an end. The chain of bases that later passes ask for is this way to the
end: neither the bound on its length nor the guard against classes met again cuts it short.
-/

import TreeCheck.Proofs.Scoping.Steps

namespace TreeCheck

open Resolve

variable {tree : Tree} {loose : List Node}
variable {state after before : Analysis} {root : UnitId} {checked : Bool} {typing : Typing}
  {trace : Trace.Recorder} {unit : ProgramUnit} {other : DeclId}

namespace Lexical

open AnalysisM

/-! ### Units -/

/-- What every step keeps up about classes: finished units hold walked classes only, and bases
are proper ones. -/
structure Stage.Ordered (tree : Tree) (stage : Stage) : Prop where
  settled : stage.world.Settled tree
  based : Based tree stage.state

theorem tops_besideClasses (forest : tree.Forest loose) {id : UnitId}
    (found : tree.units.get? id = some unit) : tree.Tops (besideClasses unit) := by
  intro top member
  have isPart := (List.mem_filter.mp member).1
  exact ⟨holds_unitPart forest found isPart, Tree.mem_unitParts isPart⟩

theorem class_notMem_besideClasses (unit : ProgramUnit) (id : DeclId) :
    .decl .classDecl id ∉ besideClasses unit := by
  simp [besideClasses]

theorem mem_of_baseCandidate? {env : Env} {id base : DeclId}
    (candidate : baseCandidate? tree env id = some base) :
    ∃ frame ∈ env, ∃ entry ∈ frame, entry.2 = base := by
  unfold baseCandidate? at candidate
  split at candidate
  · obtain ⟨frame, member, among⟩ := List.mem_flatten.mp (Env.mem_flatten_of_find? candidate)
    exact ⟨frame, member, _, among, rfl⟩
  · nomatch candidate

/-- Binding names leaves all annotations alone but where the declarations are bound. -/
theorem forM_bindName_keeps {ids : List DeclId}
    (ran : ids.forM (Resolve.bindName tree) before = .ok () after) :
    after.names.uses = before.names.uses ∧ after.names.typeRefs = before.names.typeRefs ∧
      after.names.bases = before.names.bases ∧ after.names.scopeOfDecl = before.names.scopeOfDecl := by
  induction ids generalizing before with
  | nil =>
    cases ran
    exact ⟨rfl, rfl, rfl, rfl⟩
  | cons id rest inductionHypothesis =>
    obtain ⟨_, middle, binds, goesOn⟩ := bind_eq_ok ran
    obtain ⟨uses, typeRefs, bases, scopeOfDecl⟩ := inductionHypothesis goesOn
    have here : middle.names.uses = before.names.uses ∧ middle.names.typeRefs = before.names.typeRefs ∧
        middle.names.bases = before.names.bases ∧
        middle.names.scopeOfDecl = before.names.scopeOfDecl := by
      unfold Resolve.bindName Resolve.bind at binds
      obtain ⟨_, _, reads, binds⟩ := bind_eq_ok binds
      cases reads
      cases tried : before.names.scopes.bind (.ofName (tree.nameOf id)) id with
      | ok table =>
        rw [tried] at binds
        cases binds
        exact ⟨rfl, rfl, rfl, rfl⟩
      | error failure =>
        rw [tried] at binds
        cases failure with
        | alreadyBound key existing =>
          obtain rfl := report_eq_ok binds
          exact ⟨rfl, rfl, rfl, rfl⟩
        | noScope key =>
          obtain rfl := report_eq_ok binds
          exact ⟨rfl, rfl, rfl, rfl⟩
    exact ⟨uses.trans here.1, typeRefs.trans here.2.1, bases.trans here.2.2.1,
      scopeOfDecl.trans here.2.2.2⟩

/-- Binding the classes of a unit concerns no annotation of theirs, so declaring what is in a unit
concerns nothing but its other parts. -/
theorem annotates_unitDeclarations (forest : tree.Forest loose) {touched : Node → Prop}
    (closed : tree.Closed touched) (inside : Inside tree before) {id : UnitId}
    (found : tree.units.get? id = some unit)
    (here : ∀ node ∈ besideClasses unit, touched node)
    (ran : unitDeclarations tree unit before = .ok () after) :
    Annotates tree touched before after ∧ after.names.scopes.stack = before.names.scopes.stack := by
  obtain ⟨_, first, enums, ran⟩ := bind_eq_ok ran
  obtain ⟨_, second, classes, rest⟩ := bind_eq_ok ran
  obtain ⟨leads, stack, -⟩ := (stays_declareEnums forest closed inside found here).of_ok enums
  have inside := inside.leads leads stack
  obtain ⟨leads', stack', -⟩ := (stays_bindClasses forest inside found fun _ _ =>
    .inr ⟨.classDecl, anywhere _⟩).of_ok classes
  obtain ⟨leads'', stack'', -⟩ := (stays_declareRest forest closed
    (inside.leads leads' stack') found here).of_ok rest
  obtain ⟨uses, typeRefs, bases, declScopes⟩ := forM_bindName_keeps classes
  have binds : Annotates tree touched first second :=
    ⟨leads'.valid, leads'.grows, fun _ => .inl (uses ▸ rfl), fun _ => .inl (typeRefs ▸ rfl),
      fun _ => .inl (bases ▸ rfl), fun _ => .inl (declScopes ▸ rfl)⟩
  exact ⟨(leads.toAnnotates.trans binds).trans leads''.toAnnotates,
    (stack''.trans stack').trans stack⟩

/-- What happens behind the imports of a unit: what may be used before its place is declared, the
classes are resolved where that stands, and the bodies last. -/
structure Contents (tree : Tree) (world : World) (id : UnitId) (unit : ProgramUnit)
    (state declared resolved after : Analysis) : Prop where
  declares : unitDeclarations tree unit state = .ok () declared
  resolves : unitClasses tree unit declared = .ok () resolved
  finishes : unitBodies tree unit resolved = .ok () after
  stands : Stands tree (declarations tree unit (world.globalEnv tree id)).1
    (world.walk (declarations tree unit) (world.globalEnv tree id)).2.entries declared
  known : Known tree world.classes declared
  inside : Inside tree declared
  early : Annotates tree (tree.Below (besideClasses unit)) state declared
  cyclic : declared.cyclic = state.cyclic
  valid : resolved.names.Valid tree
  late : Annotates tree (tree.Below (besideClasses unit)) resolved after
  cyclic' : after.cyclic = resolved.cyclic

section

variable {stage : Stage} {id : UnitId} {unit : ProgramUnit} {after : Analysis}

theorem unwalked_of_waits (forest : tree.Forest loose) (sound : stage.Sound tree)
    (found : tree.units.get? id = some unit) (waits : stage.world.waiting.head? = some id) :
    ∀ decl ∈ unit.classes, stage.world.classes.frames.lookup decl = none := fun _ isClass =>
  unwalked_classes forest sound.valid found (List.mem_of_mem_head? waits) isClass

/-- No class is in view of the classes of a unit but they and walked ones. -/
theorem inView_of_settled (forest : tree.Forest loose) (found : tree.units.get? id = some unit)
    {world : World} (settled : world.Settled tree) (decl base : DeclId)
    (candidate :
      baseCandidate? tree (declarations tree unit (world.globalEnv tree id)).1 decl = some base)
    (isClass : tree.kindOf? base = some .classDecl) :
    base ∈ unit.classes ∨ (world.classes.frames.lookup base).isSome := by
  obtain ⟨frame, member, entry, among, rfl⟩ := mem_of_baseCandidate? candidate
  exact World.mem_declarations forest found settled member among isClass

theorem contents_cases (forest : tree.Forest loose) (sound : stage.Sound tree)
    (found : tree.units.get? id = some unit) (waits : stage.world.waiting.head? = some id)
    (ran : (do
      unitDeclarations tree unit
      unitClasses tree unit
      unitBodies tree unit) stage.state = .ok () after) :
    ∃ declared resolved, Contents tree stage.world id unit stage.state declared resolved after := by
  have unwalked := unwalked_of_waits forest sound found waits
  obtain ⟨pending, world, state⟩ := stage
  obtain ⟨current, isOpen⟩ := sound.current waits
  replace waits : id ∈ world.waiting := List.mem_of_mem_head? waits
  have inside : Inside tree state := ⟨sound.names, isOpen⟩
  have closed := tree.closed_below (besideClasses unit)
  have here (node : Node) (member : node ∈ besideClasses unit) :=
    tree.below_of_mem member
  have met : id ∈ world.met := List.mem_append_left _ waits
  obtain ⟨home, there, top, _⟩ := sound.mirrors.homes.scope id _ (sound.mirrors.homes.of_met met)
  rw [← current] at there
  obtain ⟨_, declared, declares, goesOn⟩ := bind_eq_ok ran
  obtain ⟨_, resolved, resolves, finishes⟩ := bind_eq_ok goesOn
  -- Declaring what may be used before its place.
  obtain ⟨declared', declares', stands, kept⟩ := (follows_unitDeclarations forest unit).runs _ _ _
    (sound.mirrors.stands sound.valid waits current)
  obtain ⟨-, rfl⟩ := EStateM.Result.ok.inj (declares'.symm.trans declares)
  obtain ⟨leads, stack⟩ := annotates_unitDeclarations forest closed inside found here declares
  have inside' : Inside tree declared' := ⟨leads.valid, stack ▸ isOpen⟩
  -- The classes.
  have known := sound.mirrors.known.kept kept there top
  obtain ⟨resolved', resolves', stands', -, -⟩ := unitClasses_spec forest found
    (world.walk (declarations tree unit) (world.globalEnv tree id)).2 unwalked stands known
  obtain ⟨-, rfl⟩ := EStateM.Result.ok.inj (resolves'.symm.trans resolves)
  obtain ⟨leads', stack', -⟩ := (stays_unitClasses forest inside' unit).of_ok resolves
  have inside'' := inside'.leads leads' stack'
  -- The bodies.
  obtain ⟨after', finishes', -, kept'⟩ := (follows_unitBodies forest unit).runs _ _ _ stands'
  obtain ⟨-, rfl⟩ := EStateM.Result.ok.inj (finishes'.symm.trans finishes)
  obtain ⟨leads'', -, -⟩ := (stays_unitBodies forest closed inside'' here).of_ok finishes
  exact ⟨declared', resolved', declares, resolves, finishes, stands, known, inside', leads,
    kept.cyclic, inside''.valid, leads''.toAnnotates, kept'.cyclic⟩

/-- Behind its imports, a unit gives its classes proper bases. -/
theorem contents_based (forest : tree.Forest loose) (sound : stage.Sound tree)
    (ordered : stage.Ordered tree) (found : tree.units.get? id = some unit)
    (waits : stage.world.waiting.head? = some id)
    (ran : (do
      unitDeclarations tree unit
      unitClasses tree unit
      unitBodies tree unit) stage.state = .ok () after) : Based tree after := by
  have tops := tops_besideClasses forest found
  have noClass := class_notMem_besideClasses unit
  obtain ⟨declared, resolved, contents⟩ := contents_cases forest sound found waits ran
  have based := ordered.based.apart forest tops contents.early sound.names noClass contents.cyclic
  have based' := unitClasses_based forest found
    (stage.world.walk (declarations tree unit) (stage.world.globalEnv tree id)).2
    (unwalked_of_waits forest sound found waits) contents.stands contents.known contents.inside based
    (inView_of_settled forest found ordered.settled) contents.resolves
  exact based'.apart forest tops contents.late contents.valid noClass contents.cyclic'

end

/-- What idles concerns no class. -/
theorem Idles.keepsBased (forest : tree.Forest loose) (idles : Idles tree state after)
    (names : state.names.Valid tree) (based : Based tree state) : Based tree after := by
  have noTops : tree.Tops [] := fun _ member => nomatch member
  exact based.apart forest noTops idles.toAnnotates names (fun _ member => nomatch member) idles.cyclic

theorem Step.ordered (forest : tree.Forest loose) {before after : Stage}
    (step : Step tree root before after) (ordered : before.Ordered tree) : after.Ordered tree := by
  obtain ⟨change, sound, sound'⟩ := step
  cases change with
  | note idles _ => exact ⟨ordered.settled, idles.keepsBased forest sound.names ordered.based⟩
  | meet _ _ _ idles _ => exact ⟨ordered.settled, idles.keepsBased forest sound.names ordered.based⟩
  | skip _ idles _ => exact ⟨ordered.settled, idles.keepsBased forest sound.names ordered.based⟩
  | turnBack _ _ idles _ => exact ⟨ordered.settled, idles.keepsBased forest sound.names ordered.based⟩
  | attach _ _ idles _ => exact ⟨ordered.settled, idles.keepsBased forest sound.names ordered.based⟩
  | finish found ran idles _ =>
    have waits := congrArg List.head? sound.waiting
    have based := contents_based forest sound ordered found waits ran
    have stays := stays_contents forest ⟨sound.names, (sound.current waits).2⟩ found
    exact ⟨ordered.settled.contents forest found,
      idles.keepsBased forest (stays.of_ok ran).1.valid based⟩

/-! ### Programs -/

theorem program_based (forest : tree.Forest loose)
    (ran : Resolve.program tree root checked { typing, trace } = .ok () after) :
    Based tree after := by
  have none : Based tree { typing, trace } := fun owner base isBase => by simp at isBase
  by_cases holds : (tree.units.get? root).isSome
  · have ordered : Stage.Ordered tree ⟨[], {}, { typing, trace }⟩ := ⟨World.settled_empty tree, none⟩
    exact (keeps_of_steps (Step.ordered forest) (program_steps forest holds ran).1 ordered).based
  · obtain rfl := program_absent (Option.not_isSome_iff_eq_none.mp holds) ran
    exact none

end Lexical

/-! ### Chains of bases -/

/-- The bases from a class on, until one has none. -/
inductive Lineage (bases : Std.TreeMap DeclId DeclId) : DeclId → List DeclId → Prop where
  | root {id : DeclId} : bases[id]? = none → Lineage bases id []
  | step {id base : DeclId} {rest : List DeclId} :
      bases[id]? = some base → Lineage bases base rest → Lineage bases id (base :: rest)

namespace Lineage

variable {bases : Std.TreeMap DeclId DeclId} {id : DeclId} {chain : List DeclId}

section

variable (lineage : Lineage bases id chain)

include lineage

theorem unique {other : List DeclId}
    (lineage' : Lineage bases id other) : other = chain := by
  induction lineage generalizing other with
  | root none =>
    cases lineage' with
    | root _ => rfl
    | step some _ => rw [none] at some; nomatch some
  | step some _ inductionHypothesis =>
    cases lineage' with
    | root none => rw [some] at none; nomatch none
    | step some' rest =>
      cases some.symm.trans some'
      rw [inductionHypothesis rest]

/-- From any class of a chain on, the rest of the chain is its own. -/
theorem of_mem (member : other ∈ chain) :
    ∃ rest, Lineage bases other rest ∧ rest.length < chain.length := by
  induction lineage with
  | root none => nomatch member
  | step some rest inductionHypothesis =>
    rcases List.mem_cons.mp member with rfl | later
    · exact ⟨_, rest, Nat.lt_succ_self _⟩
    · obtain ⟨rest', lineage, less⟩ := inductionHypothesis later
      exact ⟨rest', lineage, Nat.lt_succ_of_lt less⟩

/-- A class does not come again on its own chain. -/
theorem notMem : id ∉ chain := by
  intro member
  obtain ⟨rest, lineage', less⟩ := lineage.of_mem member
  rw [lineage.unique lineage'] at less
  exact Nat.lt_irrefl _ less

/-- Whatever bases lead to is on the chain. -/
theorem mem_of_transGen
    (leads : Relation.TransGen (fun owner base => bases[owner]? = some base) id other) :
    other ∈ chain := by
  induction lineage with
  | root none =>
    obtain ⟨base, isBase, -⟩ := Relation.TransGen.head'_iff.mp leads
    nomatch none.symm.trans isBase
  | step some _ inductionHypothesis =>
    obtain ⟨base, isBase, further⟩ := Relation.TransGen.head'_iff.mp leads
    cases some.symm.trans isBase
    rcases Relation.reflTransGen_iff_eq_or_transGen.mp further with rfl | further
    · exact .head _
    · exact .tail _ (inductionHypothesis further)

theorem nodup : (id :: chain).Nodup := by
  induction lineage with
  | root none => exact List.nodup_singleton _
  | step some rest inductionHypothesis =>
    exact List.nodup_cons.mpr ⟨(Lineage.step some rest).notMem, inductionHypothesis⟩

/-- Every class on a chain but the last has a base. -/
theorem length_le : chain.length ≤ bases.size := by
  have owners : (id :: chain).dropLast ⊆ bases.keys := by
    induction lineage with
    | root none => exact List.nil_subset _
    | step some rest inductionHypothesis =>
      rw [List.dropLast_cons_cons]
      refine List.cons_subset.mpr ⟨?_, inductionHypothesis⟩
      rw [Std.TreeMap.mem_keys, Std.TreeMap.mem_iff_isSome_getElem?, some]
      rfl
  have nodup := lineage.nodup.sublist (List.dropLast_sublist _)
  have := (List.subperm_of_subset nodup owners).length_le
  rwa [List.length_dropLast, List.length_cons, Std.TreeMap.length_keys, Nat.add_sub_cancel] at this

/-- Neither the bound nor the guard cuts a chain short. -/
theorem basesWithin_eq {steps : Nat}
    (enough : chain.length ≤ steps) {seen : List DeclId} (apart : ∀ other ∈ chain, other ∉ seen) :
    Resolution.basesWithin bases steps seen id = chain := by
  induction lineage generalizing steps seen with
  | root none =>
    cases steps with
    | zero => rfl
    | succ steps => simp only [Resolution.basesWithin, none]
  | @step id base rest some lineage inductionHypothesis =>
    cases steps with
    | zero => simp at enough
    | succ steps =>
      have fresh : base ∉ seen := apart base (.head _)
      simp only [Resolution.basesWithin, some, if_neg fresh]
      rw [inductionHypothesis (Nat.le_of_succ_le_succ enough) fun other member seen => ?_]
      rcases List.mem_cons.mp seen with rfl | old
      · exact lineage.notMem member
      · exact apart other (.tail _ member) old

end

theorem ancestors_eq {names : Resolution} (lineage : Lineage names.bases id chain) :
    names.ancestors id = chain := by
  refine lineage.basesWithin_eq lineage.length_le fun other member seen => ?_
  obtain rfl := List.mem_singleton.mp seen
  exact lineage.notMem member

end Lineage

/-- Bases are what base types refer to, and following them comes to an end. -/
structure Resolution.Rooted (tree : Tree) (names : Resolution) : Prop where
  written : ∀ owner base : DeclId, names.bases[owner]? = some base →
    ∃ type written name args, tree.baseType? owner = some type ∧
      tree.types.get? type = some written ∧ written.form = .named name args ∧
      TypeKind.ofBuiltin? (tree.text name) = none ∧ names.typeRefs[type]? = some base ∧
      tree.kindOf? base = some .classDecl
  lineage : ∀ id : DeclId, ∃ chain, Lineage names.bases id chain

theorem Based.rooted (based : Based tree state) (valid : state.names.Valid tree) :
    state.names.Rooted tree := by
  refine ⟨fun owner base isBase => ?_, fun id => ?_⟩
  · obtain ⟨type, written, name, args, isType, there, form, other, refers⟩ :=
      (based owner base isBase).written
    exact ⟨type, written, name, args, isType, there, form, other, refers,
      valid.bases owner base isBase⟩
  · -- A chain leads to scopes that were opened earlier and earlier.
    have ends (bound : ScopeId) : ∀ owner base home, state.names.bases[owner]? = some base →
        state.names.scopeOfDecl[owner]? = some home → home < bound →
        ∃ chain, Lineage state.names.bases owner chain := by
      induction bound with
      | zero => exact fun _ _ _ _ _ less => absurd less (Nat.not_lt_zero _)
      | succ bound inductionHypothesis =>
        intro owner base home isBase isHome less
        obtain ⟨-, -, home', isHome', earlier⟩ := based owner base isBase
        cases isHome.symm.trans isHome'
        cases further : state.names.bases[base]? with
        | none => exact ⟨[base], .step isBase (.root further)⟩
        | some next =>
          rcases earlier with cyclic | ⟨before, isBefore, less'⟩
          · exact absurd cyclic (based base next further).acyclic
          · obtain ⟨chain, lineage⟩ :=
              inductionHypothesis base next before further isBefore (by lia)
            exact ⟨base :: chain, .step isBase lineage⟩
    cases isBase : state.names.bases[id]? with
    | none => exact ⟨[], .root isBase⟩
    | some base =>
      obtain ⟨home, isHome, -⟩ := (based id base isBase).earlier
      exact ends (home + 1) id base home isBase isHome (Nat.lt_succ_self _)

/-- In a program that was resolved, whatever the sink was, bases are proper ones. -/
theorem Resolve.rooted_program (forest : tree.Forest loose) {sink : Sink}
    (ran : Resolve.program tree root checked { typing, trace, sink } = .ok () after) :
    after.names.Rooted tree := by
  obtain ⟨first, -, ends, uniform⟩ := Lexical.program_ends forest root checked typing trace
  obtain ⟨open', ran'⟩ := ends {} Sink.quiet_open
  rw [(uniform sink after ran).1, ← (uniform {} open' ran').1]
  exact (Lexical.program_based forest ran').rooted (Resolve.valid_program forest ran')

end TreeCheck
