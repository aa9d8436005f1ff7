/-
Names that are taken. A class or enum that is submitted is bound before anything else about
it is looked at, and nothing is unbound when the submission fails after that. So whatever
came of it, and whatever is submitted next, a class or enum of the same name is refused from
then on. That it is refused, and not only reported, is due to the sink of a session, which
raises errors however many were reported before.
-/

import TreeCheck.Proofs.Pipeline.Integrity

namespace TreeCheck

variable {tree : Tree} {loose : List Node}
variable {diagnostic : Diagnostic} {touched : Node → Prop} {before : Analysis} {unit : UnitId}
  {key : Key} {passes : List Pass} {names : List String}

/-! ### Sinks that raise -/

namespace Sink

theorem promote_of_isFatal (fatal : diagnostic.isFatal) : diagnostic.promote = diagnostic := by
  refine if_neg fun warns => ?_
  rw [Diagnostic.isFatal, of_decide_eq_true warns] at fatal
  cases fatal

/-- Stages pass an error on as it is, so what is raised on the way is the error itself. -/
theorem eq_of_reportThrough {length : Nat} {stages : List Stage} {bag : Bag} {found : Diagnostic}
    (fatal : diagnostic.isFatal)
    (raised : (reportThrough length stages bag diagnostic).2 = some found) : found = diagnostic :=
  (raised_of_reportThrough raised).2.elim id fun same => same.trans (promote_of_isFatal fatal)

/-- Errors are raised before any stage can drop them. -/
def Raising (sink : Sink) : Prop :=
  ∃ rest, sink.stages = .raise :: rest ∨ sink.stages = .promote :: .raise :: rest

theorem Raising.report {sink : Sink} (raising : sink.Raising) (diagnostic : Diagnostic) :
    (sink.report diagnostic).1.Raising := by
  obtain ⟨rest, stages | stages⟩ := raising
  · unfold Sink.report
    rw [stages]
    exact ⟨_, .inl rfl⟩
  · unfold Sink.report
    rw [stages]
    exact ⟨_, .inr rfl⟩

theorem Raising.raises {sink : Sink} (raising : sink.Raising) (fatal : diagnostic.isFatal) :
    (sink.report diagnostic).2 = some diagnostic := by
  have raises (rest : List Stage) (bag : Bag) :
      (reportThrough (rest.length + 1) (.raise :: rest) bag diagnostic).2 = some diagnostic := by
    unfold reportThrough
    simp only [fatal, if_true]
    cases inner : (reportThrough rest.length rest bag diagnostic).2 with
    | none => rfl
    | some found => rw [eq_of_reportThrough fatal inner]; rfl
  obtain ⟨rest, stages | stages⟩ := raising
  · unfold Sink.report
    rw [stages]
    exact raises rest sink.bag
  · unfold Sink.report
    rw [stages]
    show (reportThrough (rest.length + 1) (.raise :: rest) sink.bag diagnostic.promote).2 = _
    rw [promote_of_isFatal fatal]
    exact raises rest sink.bag

end Sink

/-- A report of an error ends an action where the sink raises. -/
theorem AnalysisM.report_eq_error {state : Analysis} (raising : state.sink.Raising)
    (fatal : diagnostic.isFatal) :
    ∃ after, AnalysisM.report diagnostic state = .error (.raised diagnostic) after := by
  rw [report_eq, raising.raises fatal]
  exact ⟨_, rfl⟩

/-! ### Names that are taken -/

/-- A key is bound in the global scope of a unit. -/
def Resolution.Takes (names : Resolution) (unit : UnitId) (key : Key) : Prop :=
  ∃ home scope, names.units[unit]? = some home ∧ names.scopes.get? home = some scope ∧
    (scope.find? key).isSome

theorem Evolves.takes {after : Analysis} (leads : Evolves tree touched before after)
    (takes : before.names.Takes unit key) : after.names.Takes unit key := by
  obtain ⟨home, scope, isHome, there, held⟩ := takes
  obtain ⟨decl, held⟩ := Option.isSome_iff_exists.mp held
  obtain ⟨later, there', grown⟩ := leads.grows home scope there
  exact ⟨home, later, leads.homes unit home isHome, there', by rw [grown.find? held]; rfl⟩

/-- What an action that stays on valid ground leaves behind, however it ends. -/
theorem Stays.behind {α : Type} {post : α → Analysis → Prop} {action : AnalysisM α}
    (stays : Stays tree touched before post action) :
    Evolves tree touched before (Acts.behind (action before)) := by
  unfold Stays at stays
  cases ran : action before with
  | ok value after =>
    rw [ran] at stays
    exact stays.1
  | error abort after =>
    rw [ran] at stays
    exact stays.1

/-- A declaration is a class or an enum. -/
def Tree.DeclaresType (tree : Tree) (id : DeclId) : Prop :=
  tree.kindOf? id = some .classDecl ∨ tree.kindOf? id = some .enum

theorem Tree.DeclaresType.bindable {id : DeclId} (isType : tree.DeclaresType id) : tree.Bindable id :=
  isType.elim (fun isClass => ⟨.classDecl, isClass, by decide⟩) fun isEnum => ⟨.enum, isEnum, by decide⟩

namespace Resolve

open AnalysisM

variable {before : Analysis} {unit : UnitId} {id : DeclId}

/-- Either a key was free, and is bound now, or it was taken before. -/
theorem takes_bind (inside : Inside tree before) (bindable : tree.Bindable id)
    (isHome : before.names.units[unit]? = some before.names.scopes.current) (key : Key) :
    (Acts.behind (Resolve.bind tree key id before)).names.Takes unit key := by
  obtain ⟨scope, there, -⟩ := inside.valid.units unit _ isHome
  cases held : scope.find? key with
  | some existing =>
    have stays : Stays tree Anywhere before Any (Resolve.bind tree key id) :=
      stays_bind inside bindable (.inr ⟨.classDecl, anywhere _⟩) key
    exact stays.behind.takes ⟨_, scope, isHome, there, by rw [held]; rfl⟩
  | none =>
    have binds : before.names.scopes.bind key id =
        .ok (before.names.scopes.modify before.names.scopes.current (·.insert key id)) := by
      simp only [ScopeTable.bind, ScopeTable.bindIn, there, held]
    obtain ⟨-, -, -, scope', there', held'⟩ := inside.valid.bindScopes bindable binds
    rw [Resolve.bind, bind_eq (rfl : scopes before = .ok _ before), binds]
    exact ⟨_, scope', isHome, there', by rw [held']; rfl⟩

/-- A key that is taken in the current scope is not bound again. -/
theorem bind_refused (raising : before.sink.Raising) (takes : before.names.Takes unit key)
    (isHome : before.names.units[unit]? = some before.names.scopes.current) (id : DeclId) :
    ∃ diagnostic after, Resolve.bind tree key id before = .error (.raised diagnostic) after ∧
      diagnostic.code = .redeclared := by
  obtain ⟨home, scope, isHome', there, held⟩ := takes
  cases isHome.symm.trans isHome'
  obtain ⟨existing, held⟩ := Option.isSome_iff_exists.mp held
  have refuses : before.names.scopes.bind key id = .error (.alreadyBound key existing) := by
    simp only [ScopeTable.bind, ScopeTable.bindIn, there, held]
  let complaint : Diagnostic := (Diagnostic.error .redeclared (spanOf tree id) [key.text]).withNote
    (spanOf tree existing) "first declared here"
  obtain ⟨after, raises⟩ := report_eq_error raising (show complaint.isFatal from rfl)
  refine ⟨complaint, after, ?_, rfl⟩
  rw [Resolve.bind, bind_eq (rfl : scopes before = .ok _ before), refuses]
  exact raises

/-- A class or enum that is submitted is bound first. -/
theorem submitDecl_of_type (forest : tree.Forest loose) (isType : tree.DeclaresType id) :
    ∃ rest : AnalysisM Unit,
      (∀ unit, submitDecl tree unit id = atTopLevel tree unit (do bindName tree id; rest)) ∧
      ∀ state, Inside tree state → Stays tree Anywhere state Any rest := by
  have closed := closed_anywhere tree
  have known : KnownPlace tree {} := nofun
  rcases isType with isClass | isEnum
  · refine ⟨_, fun unit => ?_, fun state inside =>
      stays_orderClass forest closed inside (anywhere (.decl .classDecl id))⟩
    unfold submitDecl
    simp only [isClass]
  · refine ⟨_, fun unit => ?_, fun state inside =>
      stays_declareConsts forest closed inside known (anywhere (.decl .enum id))⟩
    unfold submitDecl
    simp only [isEnum]
    rfl

/-- The state in which something happens at the top level of a unit. -/
theorem inside_entering {scope : ScopeId} (valid : before.names.Valid tree)
    (known : (before.names.scopes.get? scope).isSome) : Inside tree (before.entering scope) := by
  refine ⟨valid.withStack fun id member => ?_, List.cons_ne_nil _ _⟩
  rcases List.mem_cons.mp member with rfl | older
  · exact known
  · exact valid.opened id older

/-- However the submission of a class or enum ends, its name is taken. -/
theorem takes_submitDecl (forest : tree.Forest loose) (valid : before.names.Valid tree) (unit : UnitId)
    (isType : tree.DeclaresType id) :
    (Acts.behind (submitDecl tree unit id before)).names.Takes unit (.ofName (tree.nameOf id)) := by
  have bindable := isType.bindable
  obtain ⟨rest, submits, stays⟩ := submitDecl_of_type forest isType
  obtain ⟨home, opened, same, leads, -, isHome, -⟩ :=
    atTopLevel_eq Anywhere valid unit (do bindName tree id; rest)
  obtain ⟨scope, there, -⟩ := leads.valid.units unit home isHome
  have inside : Inside tree (opened.entering home) :=
    inside_entering leads.valid (by rw [there]; rfl)
  rw [submits, same, within_eq, Acts.behind_ensuring]
  have takes := takes_bind inside bindable isHome (.ofName (tree.nameOf id))
  have binds : Stays tree Anywhere (opened.entering home) Any (bindName tree id) :=
    stays_bindName inside bindable (.inr ⟨.classDecl, anywhere _⟩)
  show (Acts.behind (EStateM.bind (bindName tree id) (fun _ => rest) (opened.entering home))).names.Takes
    unit (.ofName (tree.nameOf id))
  unfold EStateM.bind
  change (Acts.behind (bindName tree id (opened.entering home))).names.Takes _ _ at takes
  cases ran : bindName tree id (opened.entering home) with
  | ok value after =>
    rw [ran] at takes
    obtain ⟨leads', stack', -⟩ := binds.of_ok ran
    exact (stays after (inside.leads leads' stack')).behind.takes takes
  | error abort after =>
    rw [ran] at takes
    exact takes

/-- Where errors are raised, a class or enum whose name is taken is refused. -/
theorem submitDecl_refused (forest : tree.Forest loose) (valid : before.names.Valid tree)
    (raising : before.sink.Raising) (isType : tree.DeclaresType id)
    (takes : before.names.Takes unit (.ofName (tree.nameOf id))) :
    ∃ diagnostic after, submitDecl tree unit id before = .error (.raised diagnostic) after ∧
      diagnostic.code = .redeclared := by
  obtain ⟨rest, submits, -⟩ := submitDecl_of_type forest isType
  obtain ⟨home, opened, same, leads, -, isHome, sink⟩ :=
    atTopLevel_eq Anywhere valid unit (do bindName tree id; rest)
  have raising' : (opened.entering home).sink.Raising := sink.symm ▸ raising
  have takes' : (opened.entering home).names.Takes unit (.ofName (tree.nameOf id)) := leads.takes takes
  obtain ⟨diagnostic, after, refuses, code⟩ := bind_refused raising' takes' isHome id
  have stops : (do bindName tree id; rest : AnalysisM Unit) (opened.entering home) =
      .error (.raised diagnostic) after := by
    show EStateM.bind (Resolve.bind tree _ id) _ (opened.entering home) = _
    rw [EStateM.bind, refuses]
  exact ⟨diagnostic, after.backTo opened.names.scopes.depth,
    by rw [submits, same, within_eq, ensuring, stops], code⟩

end Resolve

namespace Session

/-- In a session errors are raised. -/
theorem Reached.raising {loader : Loader} {session : Session} (reached : Reached loader session) :
    session.analysis.sink.Raising := by
  induction reached with
  | start reached pipeline unit sink warningsAsErrors =>
    cases warningsAsErrors with
    | false => exact ⟨sink.stages, .inl rfl⟩
    | true => exact ⟨sink.stages, .inr rfl⟩
  | @submit loader session item _ raising =>
    rcases submit_cases session loader.tree item with ⟨-, same⟩ | ⟨-, what, label, same⟩
    · rw [same]
      exact raising
    · rw [same]
      have raising' : session.begun.sink.Raising := raising
      exact submitThrough_keeps (fun _ diagnostic raising => raising.report diagnostic) session.unit
        item session.pipeline.passes raising'
  | drain _ raising => exact raising
  | load _ _ raising => exact raising
  | newUnit _ _ raising => exact raising
  | addTopLevel _ _ _ raising => exact raising

/-! ### Submissions one after the other -/

/-- Submits one thing after the other, whatever comes of each. -/
def submitAll (session : Session) (tree : Tree) (items : List Item) : Session :=
  items.foldl (fun session item => (session.submit tree item).1) session

theorem submit_frame (session : Session) (tree : Tree) (item : Item) :
    (session.submit tree item).1.unit = session.unit ∧
      (session.submit tree item).1.pipeline = session.pipeline := by
  rcases submit_cases session tree item with ⟨-, same⟩ | ⟨-, what, label, same⟩
  · rw [same]
    exact ⟨rfl, rfl⟩
  · rw [same]
    exact ⟨rfl, rfl⟩

theorem submitAll_frame (session : Session) (tree : Tree) (items : List Item) :
    (session.submitAll tree items).unit = session.unit ∧
      (session.submitAll tree items).pipeline = session.pipeline := by
  induction items generalizing session with
  | nil => exact ⟨rfl, rfl⟩
  | cons item rest inductionHypothesis =>
    obtain ⟨unit, pipeline⟩ := submit_frame session tree item
    obtain ⟨unit', pipeline'⟩ := inductionHypothesis (session.submit tree item).1
    exact ⟨unit'.trans unit, pipeline'.trans pipeline⟩

/-- What the passes make of a declaration that is there. -/
theorem submit_decl_eq {session : Session} {id : DeclId} {kind : DeclKind}
    (isKind : tree.kindOf? id = some kind) :
    (session.submit tree (.decl id)).1.analysis.names =
        (submitThrough tree session.unit (.decl id) session.pipeline.passes session.begun).2.1.names ∧
      (session.submit tree (.decl id)).2 =
        (submitThrough tree session.unit (.decl id) session.pipeline.passes
          session.begun).2.2.map .abort := by
  rcases submit_cases session tree (.decl id) with ⟨absent, -⟩ | ⟨-, what, label, same⟩
  · obtain ⟨decl, found, -⟩ := Option.map_eq_some_iff.mp isKind
    simp only [Item.isIn, found] at absent
    cases absent
  · rw [same]
    exact ⟨rfl, rfl⟩

variable {loader : Loader} {session : Session} {id : DeclId}

section

variable (reached : Reached loader session)

include reached

theorem Reached.submitAll (items : List Item) :
    Reached loader (session.submitAll loader.tree items) := by
  induction items generalizing session with
  | nil => exact reached
  | cons item rest inductionHypothesis => exact inductionHypothesis (.submit item reached)

/-- A name that is taken stays taken. -/
theorem takes_submitAll (takes : session.analysis.names.Takes unit key) (items : List Item) :
    (session.submitAll loader.tree items).analysis.names.Takes unit key := by
  induction items generalizing session with
  | nil => exact takes
  | cons item rest inductionHypothesis =>
    have touches := touches_anywhere reached.loaded.forest item
    exact inductionHypothesis (.submit item reached)
      ((submit_restores touches reached.valid_and_closed.1).1.takes takes)

/-- However the submission of a class or enum ends in a session, its name is taken. -/
theorem takes_submit (isFirst : session.pipeline.passes = .resolve :: passes)
    (isType : loader.tree.DeclaresType id) :
    (session.submit loader.tree (.decl id)).1.analysis.names.Takes session.unit
      (.ofName (loader.tree.nameOf id)) := by
  have forest := reached.loaded.forest
  have touches := touches_anywhere forest (.decl id)
  have valid : session.begun.names.Valid loader.tree := reached.valid_and_closed.1
  have takes := Resolve.takes_submitDecl forest valid session.unit isType
  obtain ⟨kind, isKind, -⟩ := isType.bindable
  rw [(submit_decl_eq isKind).1, isFirst, submitThrough]
  change (Acts.behind (submitTo loader.tree session.unit .resolve (.decl id) session.begun)).names.Takes
    _ _ at takes
  have leads := (restores_submitTo touches valid session.unit .resolve).behind.1
  cases ran : submitTo loader.tree session.unit .resolve (.decl id) session.begun with
  | error abort after =>
    rw [ran] at takes
    exact takes
  | ok value after =>
    rw [ran] at takes leads
    exact (submitThrough_restores touches session.unit passes leads.valid).1.takes takes

/-- In a session a class or enum whose name is taken is refused. -/
theorem submit_refused (isFirst : session.pipeline.passes = .resolve :: passes)
    (isType : loader.tree.DeclaresType id)
    (takes : session.analysis.names.Takes session.unit (.ofName (loader.tree.nameOf id))) :
    ∃ diagnostic, (session.submit loader.tree (.decl id)).2 = some (.abort (.raised diagnostic)) ∧
      diagnostic.code = .redeclared := by
  have valid : session.begun.names.Valid loader.tree := reached.valid_and_closed.1
  have raising : session.begun.sink.Raising := reached.raising
  obtain ⟨diagnostic, after, refuses, code⟩ :=
    Resolve.submitDecl_refused reached.loaded.forest valid raising isType takes
  obtain ⟨kind, isKind, -⟩ := isType.bindable
  refine ⟨diagnostic, ?_, code⟩
  rw [(submit_decl_eq isKind).2, isFirst, submitThrough]
  change submitTo loader.tree session.unit .resolve (.decl id) session.begun = _ at refuses
  rw [refuses]
  rfl

end

end Session

namespace Pipeline

theorem resolve_first_of_passesOf (made : passesOf names = .ok passes) :
    ∃ rest, passes = .resolve :: rest := by
  unfold passesOf at made
  cases names with
  | nil => nomatch made
  | cons name names =>
    simp only [List.isEmpty_cons, Bool.false_eq_true, if_false, passesFrom, List.not_mem_nil,
      not_false_eq_true, decide_true] at made
    cases isPass : Pass.ofName? name with
    | none =>
      rw [isPass] at made
      nomatch made
    | some pass =>
      rw [isPass] at made
      cases pass with
      | resolve =>
        cases others : passesFrom [.resolve] names with
        | error failure =>
          simp only [others] at made
          nomatch made
        | ok rest =>
          simp only [others] at made
          exact ⟨rest, (Except.ok.inj made).symm⟩
      | typecheck => nomatch made
      | modifiers => nomatch made

/-- No pass comes before resolution, which all others need. -/
theorem resolve_first {cutoff : Int} {pipeline : Pipeline}
    (made : make names cutoff = .ok pipeline) :
    ∃ rest, pipeline.passes = .resolve :: rest := by
  unfold make at made
  cases isList : passesOf names with
  | error failure =>
    rw [isList] at made
    nomatch made
  | ok passes =>
    obtain ⟨rest, rfl⟩ := resolve_first_of_passesOf isList
    rw [isList] at made
    simp only [bind, Except.bind, pure, Except.pure] at made
    split at made
    · nomatch made
    · cases made
      dsimp only
      split
      · next positive =>
        obtain ⟨count, isCount⟩ : ∃ count, cutoff.toNat = count + 1 :=
          ⟨cutoff.toNat - 1, by omega⟩
        exact ⟨rest.take count, by rw [isCount, List.take_succ_cons]⟩
      · exact ⟨rest, rfl⟩

end Pipeline

namespace Session

variable {loader : Loader} {session : Session}

/-- Once a class or enum was submitted, whatever came of it and whatever was submitted next, none of
the same name is accepted. -/
theorem submitted_name_stays_taken (reached : Reached loader session) {names : List String}
    {cutoff : Int} (made : Pipeline.make names cutoff = .ok session.pipeline) {first second : DeclId}
    (isType : loader.tree.DeclaresType first) (isType' : loader.tree.DeclaresType second)
    (sameName : loader.tree.nameOf second = loader.tree.nameOf first) (between : List Item) :
    ∃ diagnostic,
      (((session.submit loader.tree (.decl first)).1.submitAll loader.tree between).submit loader.tree
        (.decl second)).2 = some (.abort (.raised diagnostic)) ∧ diagnostic.code = .redeclared := by
  obtain ⟨passes, isFirst⟩ := Pipeline.resolve_first made
  have takes := takes_submit reached isFirst isType
  have reached' := Reached.submit (.decl first) reached
  have later := takes_submitAll reached' takes between
  obtain ⟨unit, pipeline⟩ := submit_frame session loader.tree (.decl first)
  obtain ⟨unit', pipeline'⟩ :=
    submitAll_frame (session.submit loader.tree (.decl first)).1 loader.tree between
  refine submit_refused (reached'.submitAll between) (pipeline' ▸ pipeline ▸ isFirst) isType' ?_
  rw [unit', unit, sameName]
  exact later

/-- Two classes of one name. The field of the first has a type that is not there. -/
def twoDrafts : Loader :=
  let draft (type : String) : Option Doc.Class :=
    some { name := "A", fields :=
      [some { name := "x", type := some { kind := "named", name := type } }] }
  let document : Doc.Document :=
    { version := 1
      units := [some { path := "main", classes := [draft "Missing", draft "Int"] }] }
  Loader.behind (Loader.load document {})

/-- The second draft alone is accepted, but not after the first was rejected. -/
theorem submitted_name_stays_taken_twoDrafts :
    ((start .full 1 {} false {} 0).submit twoDrafts.tree (.decl 4)).2.isNone ∧
      ((start .full 1 {} false {} 0).submit twoDrafts.tree (.decl 2)).2.isSome ∧
      ∃ diagnostic, (((start .full 1 {} false {} 0).submit twoDrafts.tree (.decl 2)).1.submit
        twoDrafts.tree (.decl 4)).2 = some (.abort (.raised diagnostic)) ∧
        diagnostic.code = .redeclared := by
  have reached : Reached twoDrafts (start .full 1 {} false {} 0) :=
    .start (.load _ (.fresh {})) .full 1 {} false {} 0
  have made : Pipeline.make Pass.allNames 0 = .ok Pipeline.full := by cbv
  obtain ⟨accepted, rejected⟩ :
      ((start .full 1 {} false {} 0).submit twoDrafts.tree (.decl 4)).2.isNone ∧
        ((start .full 1 {} false {} 0).submit twoDrafts.tree (.decl 2)).2.isSome := by
    simp only [twoDrafts, Loader.load_eq_loadWithin]
    decide +kernel
  obtain ⟨first, second, sameName⟩ : twoDrafts.tree.kindOf? 2 = some .classDecl ∧
      twoDrafts.tree.kindOf? 4 = some .classDecl ∧
      twoDrafts.tree.nameOf 4 = twoDrafts.tree.nameOf 2 := by
    simp only [twoDrafts, Loader.load_eq_loadWithin]
    decide +kernel
  exact ⟨accepted, rejected, submitted_name_stays_taken reached made (.inl first) (.inl second)
    sameName []⟩

end Session

end TreeCheck
