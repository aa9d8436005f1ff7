/-
What written types stand for behind name resolution. A name in a type that means nothing is
reported, so where nothing severe was reported the type that is written for the result of a callable
stands for a type. Names that were found to refer to types go on doing so, whatever is resolved
later.
-/

import TreeCheck.Proofs.Scoping.Keying
import TreeCheck.Proofs.Types.Recording

namespace TreeCheck

open AnalysisM Resolve

variable {tree : Tree} {loose : List Node} {before after : Analysis} {id : TypeExprId} {α β : Type}
  {action : AnalysisM α} {next : α → AnalysisM β} {decl : Decl} {function owner : DeclId} {place : Place}

namespace Resolve

section ClassOrder

variable {classes : List DeclId} {id : DeclId}

/-! ### The order of classes -/

open Lexical in
/-- Whatever bases mean, a visit places the classes that it meets. -/
theorem visitWithin_places (fuel : Nat) {visit visit' : ClassVisit} {order : Order}
    (visits : Visits visit order before) (fits : order.Fits classes) (isClass : id ∈ classes)
    (enough : classes.length < fuel + order.met.length)
    (ran : visitWithin tree classes fuel visit id before = .ok visit' after) :
    ∃ order' : Order, Visits visit' order' after ∧ order'.Fits classes ∧ order.Places order' id := by
  induction fuel generalizing visit visit' order id before after with
  | zero =>
    have := (List.subperm_of_subset fits.nodup fits.inside).length_le
    omega
  | succ fuel inductionHypothesis =>
    unfold visitWithin at ran
    rw [visits.states id] at ran
    by_cases placed : id ∈ order.placed
    · rw [if_pos placed] at ran
      cases ran
      exact ⟨order, visits, fits, fits.placedMet placed, .refl _,
        fun _ member unmet => absurd member unmet, fun _ _ => Iff.rfl⟩
    rw [if_neg placed] at ran
    by_cases met : id ∈ order.met
    · rw [if_pos met] at ran
      obtain ⟨_, middle, -, returns⟩ := bind_eq_ok ran
      obtain ⟨rfl, rfl⟩ := EStateM.Result.ok.inj returns
      exact ⟨{ order with cyclic := middle.cyclic }, ⟨visits.placed, visits.states, rfl⟩,
        ⟨fits.nodup, fits.inside, fits.placedNodup, fits.placedMet⟩, met, .refl _,
        fun _ member unmet => absurd member unmet, fun _ _ => Iff.rfl⟩
    rw [if_neg met] at ran
    have waits := fits.meet isClass met
    have alone := Order.Places.place waits met placed (.refl _)
      (fun _ member fresh => absurd member fresh) fun _ _ => Iff.rfl
    obtain ⟨base, middle, reads, goesOn⟩ := bind_eq_ok ran
    obtain rfl := baseCandidate?_eq_ok reads
    cases base with
    | none =>
      cases goesOn
      exact ⟨_, (visits.met placed).add id, alone⟩
    | some base =>
      by_cases inside : base ∈ classes
      · simp only [inside, if_true] at goesOn
        obtain ⟨_, last, places, returns⟩ := bind_eq_ok goesOn
        cases returns
        obtain ⟨order', visits', fits', placed'⟩ := inductionHypothesis (visits.met placed) waits inside
          (by simp only [List.length_cons]; omega) places
        exact ⟨_, visits'.add id, Order.Places.place fits' met placed placed'.metMore
          placed'.placedNew placed'.placedOld⟩
      · simp only [inside, if_false] at goesOn
        cases goesOn
        exact ⟨_, (visits.met placed).add id, alone⟩

open Lexical in
/-- Whatever bases mean, the order of the classes of a unit is a permutation of them. -/
theorem perm_classOrder {placed : List DeclId} (nodup : classes.Nodup)
    (ran : classOrder tree classes before = .ok placed after) : placed.Perm classes := by
  have fold (remaining : List DeclId) {visit visit' : ClassVisit} {order : Order}
      {before after : Analysis}
      (visits : Visits visit order before) (fits : order.Fits classes) (inside : remaining ⊆ classes)
      (settled : order.met ⊆ order.placed)
      (ran : remaining.foldlM (visitWithin tree classes (classes.length + 1)) visit before =
        .ok visit' after) :
      ∃ order' : Order, Visits visit' order' after ∧ order'.Fits classes ∧
        ∀ id, id ∈ remaining ∨ id ∈ order.placed → id ∈ order'.placed := by
    induction remaining generalizing visit order before with
    | nil =>
      cases ran
      exact ⟨order, visits, fits, fun id member => member.resolve_left List.not_mem_nil⟩
    | cons first rest inductionHypothesis =>
      rw [List.foldlM_cons] at ran
      obtain ⟨_, middle, visiting, goesOn⟩ := bind_eq_ok ran
      obtain ⟨order', visits', fits', places⟩ := visitWithin_places _ visits fits
        (inside (.head _)) (by omega) visiting
      have stays (id : DeclId) (member : id ∈ order.placed) : id ∈ order'.placed :=
        (places.placedOld id (fits.placedMet member)).mpr member
      have settled' : order'.met ⊆ order'.placed := by
        intro id member
        by_cases old : id ∈ order.met
        · exact stays id (settled old)
        · exact places.placedNew id member old
      obtain ⟨order'', visits'', fits'', all⟩ := inductionHypothesis visits' fits'
        (fun id member => inside (.tail _ member)) settled' goesOn
      refine ⟨order'', visits'', fits'', fun id member => all id ?_⟩
      rcases member with member | placed
      · rcases List.mem_cons.mp member with rfl | later
        · exact .inr (settled' places.met)
        · exact .inl later
      · exact .inr (stays id placed)
  obtain ⟨visit, middle, visiting, goesOn⟩ := bind_eq_ok ran
  obtain ⟨_, last, -, returns⟩ := bind_eq_ok goesOn
  cases returns
  have empty : Order.Fits { cyclic := before.cyclic } classes :=
    ⟨List.nodup_nil, List.nil_subset _, List.nodup_nil, List.nil_subset _⟩
  obtain ⟨order, visits, fits, all⟩ := fold classes ⟨rfl, fun id => by simp, rfl⟩ empty
    (.refl _) (.refl _) visiting
  rw [visits.placed]
  refine (List.perm_ext_iff_of_nodup fits.placedNodup nodup).mpr fun id => ?_
  exact ⟨fun placed => fits.inside (fits.placedMet placed), fun member => all id (.inl member)⟩

end ClassOrder

end Resolve

/-! ### Walks without errors -/

namespace Resolve

/-- Whatever stood for a type goes on doing so. -/
theorem denotes_of_acts (acts : Acts (ResolutionChange tree) action) {value : α}
    (ran : action before = .ok value after) (denotes : tree.Denotes before.names id) :
    tree.Denotes after.names id := by
  refine denotes.mono (ActsOver.leads
    (fun before after => ∀ id, tree.NamesType before.names id → tree.NamesType after.names id)
    (fun _ _ known => known) (fun first second id known => second id (first id known))
    (fun _ change state => change.typeRefs state) (fun _ _ _ known => known) (fun inner => inner)
    (fun givesUp _ _ _ ran => absurd ran givesUp.not_ok) acts ran)

/-- Where an action comes to its end and nothing severe was reported, a written type stands for a
type. -/
structure Denoting (tree : Tree) (id : TypeExprId) (action : AnalysisM α) : Prop where
  denotes : ∀ {before value after}, action before = .ok value after → after.sink.Spotless →
    tree.Denotes after.names id

namespace Denoting

theorem first (denoting : Denoting tree id action)
    (acts : ∀ value, Acts (ResolutionChange tree) (next value)) : Denoting tree id
      (action >>= next) := by
  refine ⟨fun ran clean => ?_⟩
  obtain ⟨found, _, ran, goesOn⟩ := bind_eq_ok ran
  have clean' := (acts found).spotless (fun _ change => change.sinkFree) goesOn clean
  exact denotes_of_acts (acts found) goesOn (denoting.denotes ran clean')

theorem second (denoting : ∀ value, Denoting tree id (next value)) : Denoting tree id
    (action >>= next) := by
  refine ⟨fun ran clean => ?_⟩
  obtain ⟨found, _, -, goesOn⟩ := bind_eq_ok ran
  exact (denoting found).denotes goesOn clean

theorem forM {actions : α → AnalysisM PUnit} {items : List α} {item : α} (member : item ∈ items)
    (denoting : Denoting tree id (actions item))
    (acts : ∀ other, Acts (ResolutionChange tree) (actions other)) :
    Denoting tree id (items.forM actions) := by
  induction items with
  | nil => nomatch member
  | cons other rest inductionHypothesis =>
    rcases List.mem_cons.mp member with rfl | later
    · exact first denoting fun _ => .forM fun other _ => acts other
    · exact second fun _ => inductionHypothesis later

theorem inDeclScope {kind : ScopeKind} {owner : DeclId} {span : Span} {action : AnalysisM Unit}
    (denoting : Denoting tree id action) :
    Denoting tree id (inDeclScope kind owner span action) := by
  refine second fun _ => ⟨fun ran clean => ?_⟩
  obtain ⟨middle, runs, rfl⟩ := ensuring_eq_ok ran
  exact (denoting.denotes runs clean).mono fun _ known => known

/-- What is certain to report an error does not come to its end without one. -/
theorem of_error {diagnostic : Diagnostic} (severe : diagnostic.isError) :
    Denoting tree id (report diagnostic) :=
  ⟨fun reported clean => absurd clean (not_spotless_of_error severe reported)⟩

end Denoting

/-! ### Types and callables -/

theorem isError_suggesting {name : String} {candidates : List String} {diagnostic : Diagnostic} :
    (suggesting name candidates diagnostic).isError = diagnostic.isError := by
  unfold suggesting
  split <;> rfl

/-- A name in a type that is not reported is that of a primitive type, or refers to a type. -/
theorem denoting_referTo {written : TypeExpr} {name : NameId} {args : List (Option TypeExprId)}
    (isType : tree.types.get? id = some written) (form : written.form = .named name args) (span : Span)
    (missing : Code) : Denoting tree id (referTo tree id span missing (tree.text name)) := by
  have complains : Denoting tree id (referTo.complain tree span missing (tree.text name)) :=
    .second fun names => .first (.of_error (isError_suggesting.trans rfl)) fun _ => .pure _
  unfold referTo
  split
  · next builtin => exact ⟨fun _ _ => .primitive isType form builtin⟩
  refine .second fun found => ?_
  split
  · split
    · next decl isTypeName =>
      refine .first ⟨fun ran _ => ?_⟩ fun _ => .pure _
      cases ran
      exact .named isType form (namesType_insert isTypeName (.inl rfl))
    · exact complains
  · exact complains

theorem denoting_typeWithin (forest : tree.Forest loose) {fuel id : Nat} (enough : id < fuel)
    (holds : tree.Holds (.type id)) (missing : Code) :
    Denoting tree id (typeWithin tree fuel missing (some id)) := by
  induction fuel generalizing id missing with
  | zero => omega
  | succ fuel inductionHypothesis =>
    obtain ⟨written, isType⟩ := Option.isSome_iff_exists.mp holds
    have inner {base : Nat} (isPart : .type base ∈ written.form.parts) :
        Denoting tree base (typeWithin tree fuel .undeclaredType (some base)) := by
      have below := forest.typesBelow id written isType base isPart
      have ofType : .type base ∈ tree.parts (.type id) := by
        rwa [Tree.parts, isType, Option.map_some, Option.getD_some]
      exact inductionHypothesis (by omega) (forest.holds_part ofType) _
    have sequence {base : Nat} (isPart : .type base ∈ written.form.parts)
        (denotes : ∀ {names : Resolution}, tree.Denotes names base → tree.Denotes names id) :
        Denoting tree id (do
          discard (typeWithin tree fuel .undeclaredType (some base))
          return (none : Option DeclId)) :=
      .first (.first ⟨fun ran clean => denotes ((inner isPart).denotes ran clean)⟩ fun _ => .pure _)
        fun _ => .pure _
    unfold typeWithin
    simp only [Tree.typeAt?, Option.bind_some, isType, Option.map_some]
    cases form : written.form with
    | named name args => exact .second fun _ => denoting_referTo isType form _ _
    | list base dims => exact sequence (by simp [form, TypeExprForm.parts]) (.list isType form)
    | array base dims => exact sequence (by simp [form, TypeExprForm.parts]) (.array isType form)
    | tuple members => exact ⟨fun _ _ => .tuple isType form⟩
    | union members => exact ⟨fun _ _ => .union isType form⟩

/-- Where a callable is resolved without an error, the type that is written for its result stands for
a type. -/
theorem denoting_callableBody (forest : tree.Forest loose)
    (isDecl : tree.decls.get? function = some decl)
    (isCallable : decl.kind.isCallable) (written : decl.type = some id) :
    Denoting tree id (callableBody tree place function) := by
  obtain ⟨callable, isBody, -⟩ := decl.callable?_of_isCallable isCallable
  have isPart : .type id ∈ tree.parts (.decl decl.kind function) := by
    simp [Tree.parts, isDecl, Decl.parts, written]
  have holds : tree.Holds (.type id) := forest.holds_part isPart
  have enough : id < tree.types.size + 1 := by
    obtain ⟨_, there⟩ := Option.isSome_iff_exists.mp holds
    exact Nat.lt_succ_of_le (Arena.get?_eq_some_le there).2
  unfold callableBody
  simp only [isDecl, Tree.callable?, Option.bind_some, isBody, written]
  refine .inDeclScope (.second fun _ => .first (.first (denoting_typeWithin forest enough holds _)
    fun _ => .pure _) fun _ => .bind (.forM fun param _ => acts_declareVariable tree _ param) fun _ =>
      .optionForM (fun body => .forM fun child _ => ?_) _)
  split
  · exact acts_stmt tree ..
  · exact .pure _

theorem denoting_resolveClass (forest : tree.Forest loose) (member : function ∈ tree.methodsOf owner)
    (isDecl : tree.decls.get? function = some decl) (isCallable : decl.kind.isCallable)
    (written : decl.type = some id) : Denoting tree id (resolveClass tree place owner) := by
  cases isBody : tree.classBody? owner with
  | none => simp [Tree.methodsOf, isBody] at member
  | some body =>
    obtain ⟨_, isOwner, -⟩ := Option.bind_eq_some_iff.mp isBody
    rw [Tree.methodsOf_eq isBody] at member
    unfold resolveClass
    simp only [isOwner, isBody]
    exact .inDeclScope (.second fun _ => .second fun _ => .second fun _ => .second fun _ =>
      .forM member (denoting_callableBody forest isDecl isCallable written)
        fun other => acts_callableBody tree _ other)

/-- Where a unit is resolved without an error, the types that are written for the results of its
callables stand for types. -/
theorem denoting_unit (forest : tree.Forest loose) {unitId : UnitId} {unit : ProgramUnit}
    (isUnit : tree.units.get? unitId = some unit) (member : function ∈ callablesOf tree unit)
    (isDecl : tree.decls.get? function = some decl) (written : decl.type = some id) :
    Denoting tree id (do
      unitDeclarations tree unit
      unitClasses tree unit
      unitBodies tree unit) := by
  have isCallable : decl.kind.isCallable := by
    obtain ⟨kind, isKind, isCallable⟩ := isCallable_of_mem_callablesOf forest isUnit member
    rw [Tree.kindOf?, isDecl] at isKind
    exact Option.some.inj isKind ▸ isCallable
  have body (place : Place) : Denoting tree id (callableBody tree place function) :=
    denoting_callableBody forest isDecl isCallable written
  refine .second fun _ => ?_
  rcases List.mem_append.mp member with isFunction | isMethod
  · refine .second fun _ => ?_
    unfold unitBodies
    rcases List.mem_append.mp isFunction with among | isMain
    · exact .first (.forM among (body _) fun other => acts_callableBody tree _ other) fun _ =>
        .bind (.optionForM (fun other => acts_callableBody tree _ other) _) fun _ =>
          .forM fun child _ => acts_stmt tree _ child
    · refine .second fun _ => .first ?_ fun _ => .forM fun child _ => acts_stmt tree _ child
      rw [Option.mem_toList.mp isMain]
      exact body _
  · obtain ⟨owner, isOwner, isMethod⟩ := List.mem_flatMap.mp isMethod
    refine .first ⟨fun ran clean => ?_⟩ fun _ => acts_unitBodies tree unit
    obtain ⟨placed, _, orders, resolves⟩ := bind_eq_ok ran
    have among : owner ∈ placed :=
      (perm_classOrder (forest.nodup_classes isUnit) orders).mem_iff.mpr isOwner
    have classes : Denoting tree id (placed.forM (resolveClass tree {})) :=
      .forM among (denoting_resolveClass forest isMethod isDecl isCallable written)
        fun other => acts_resolveClass tree _ other
    exact classes.denotes resolves clean

end Resolve

/-! ### Programs -/

/-- The types that are written for the results of callables of some units stand for types. -/
def Resolution.Denoted (tree : Tree) (names : Resolution) (units : List UnitId) : Prop :=
  ∀ unitId ∈ units, ∀ {unit}, tree.units.get? unitId = some unit →
    ∀ function ∈ callablesOf tree unit, ∀ {decl}, tree.decls.get? function = some decl →
      ∀ written ∈ decl.type, tree.Denotes names written

theorem Resolution.Denoted.mono {names later : Resolution} {units : List UnitId}
    (denoted : names.Denoted tree units)
    (more : ∀ id, tree.NamesType names id → tree.NamesType later id) : later.Denoted tree units :=
  fun unitId done _ isUnit function member _ isDecl written isWritten =>
    (denoted unitId done isUnit function member isDecl written isWritten).mono more

namespace Lexical

/-- Without an error so far, the types that are written for the results of callables of finished
units stand for types. -/
def Stage.Denoted (tree : Tree) (stage : Stage) : Prop :=
  stage.state.sink.Spotless → stage.state.names.Denoted tree (stage.world.finished.map Prod.fst)

theorem Idles.namesType (idles : Idles tree before after) (known : tree.NamesType before.names id) :
    tree.NamesType after.names id := by
  rwa [Tree.NamesType, (idles.typeRefs id).resolve_right fun ⟨_, member, _⟩ => nomatch member]

theorem Step.denoted (forest : tree.Forest loose) {root : UnitId} {before after : Stage}
    (step : Step tree root before after) (denoted : before.Denoted tree) : after.Denoted tree := by
  obtain ⟨change, sound, sound'⟩ := step
  intro clean
  have idle {before after : Analysis} {units : List UnitId}
      (denoted : before.sink.Spotless → before.names.Denoted tree units)
        (idles : Idles tree before after)
      (clean : before.sink.Spotless) : after.names.Denoted tree units :=
    (denoted clean).mono fun _ => idles.namesType
  cases change with
  | note idles sink => exact idle denoted idles (sink ▸ clean)
  | meet _ _ _ idles sink => exact idle denoted idles (sink ▸ clean)
  | skip _ idles sink =>
    refine idle denoted idles ?_
    rcases sink with same | reported
    · exact same ▸ clean
    · exact (Sink.Spotless.of_report (reported ▸ clean)).1
  | turnBack _ _ idles sink => exact idle denoted idles (Sink.Spotless.of_report (sink ▸ clean)).1
  | attach _ _ idles sink => exact idle denoted idles (sink ▸ clean)
  | @finish id unit pending world state inside after found ran idles sink =>
    have clean' : inside.sink.Spotless := sink ▸ clean
    have acts : Acts (ResolutionChange tree) (do
        unitDeclarations tree unit
        unitClasses tree unit
        unitBodies tree unit) :=
      .bind (acts_unitDeclarations tree unit) fun _ =>
        .bind (acts_unitClasses tree unit) fun _ => acts_unitBodies tree unit
    have isDone : ((world.contents tree id unit).finished.map Prod.fst) =
        world.finished.map Prod.fst ++ [id] := by rw [World.finished_contents, List.map_append]; rfl
    show after.names.Denoted tree ((world.contents tree id unit).finished.map Prod.fst)
    rw [isDone]
    intro other member unit' isUnit function among decl isDecl written isWritten
    refine Tree.Denotes.mono ?_ fun _ => idles.namesType
    rcases List.mem_append.mp member with old | new
    · have known := denoted (acts.spotless (fun _ change => change.sinkFree) ran clean') other old isUnit
        function among isDecl written isWritten
      exact denotes_of_acts acts ran known
    · obtain rfl := List.mem_singleton.mp new
      cases found.symm.trans isUnit
      exact (denoting_unit forest found among isDecl isWritten).denotes ran clean'

theorem denoted_empty (tree : Tree) (typing : Typing) (trace : Trace.Recorder) :
    Stage.Denoted tree ⟨[], {}, { typing, trace }⟩ :=
  fun _ _ member => nomatch member

end Lexical

/-- Where a program is resolved without an error, the types that are written for the results of its
callables stand for types. -/
theorem Resolve.denoted_program (forest : tree.Forest loose) {root : UnitId} {checked : Bool}
    {typing : Typing} {trace : Trace.Recorder} {sink : Sink}
    (ran : program tree root checked { typing, trace, sink } = .ok () after)
    (clean : after.sink.Spotless) : after.names.Denoted tree after.names.unitOrder := by
  by_cases present : (tree.units.get? root).isSome
  · obtain ⟨model, sound, denoted, -, uniform⟩ := Lexical.program_keeps forest present checked
      (Lexical.denoted_empty tree typing trace) (Lexical.Step.denoted forest)
    obtain ⟨names, delivered⟩ := uniform sink after ran
    obtain ⟨stages, limit⟩ := sound.mirrors.logged.isOpen
    have order : model.names.unitOrder = _ := sound.mirrors.unitOrder
    rw [names, order]
    exact denoted ⟨stages, limit, (Sink.Spotless.of_reportAll (delivered ▸ clean)).2⟩
  · obtain ⟨_, -, ends, uniform⟩ := Lexical.program_ends forest root checked typing trace
    obtain ⟨final, ran'⟩ := ends {} Sink.quiet_open
    obtain rfl := Lexical.program_absent (Option.not_isSome_iff_eq_none.mp present) ran'
    rw [(uniform sink after ran).1, ← (uniform {} _ ran').1]
    exact fun _ member => nomatch member

end TreeCheck
