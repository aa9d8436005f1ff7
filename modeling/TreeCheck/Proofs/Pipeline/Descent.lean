/-
Inheritance in a session. Classes that are submitted are not put in order before they are
resolved, and nobody looks for classes that inherit from themselves. But what a class can
name as its base is what was bound before it, and the class itself, which is bound just
before its base is looked up. So following bases leads to classes that were declared earlier
and earlier, and either comes to an end or to a class that is its own base.

A session can also resolve whole units, by importing them; the sessions here do not.
-/

import TreeCheck.Proofs.Pipeline.Integrity
import TreeCheck.Proofs.Scoping.Inheritance

namespace TreeCheck.Session

open Loader

variable {tree : Tree} {loose : List Node}
variable {loader : Loader} {declared : List DeclId} {session : Session} {owner base : DeclId}

/-! ### What a submission touches -/

/-- What a submission consists of. -/
def Item.tops (tree : Tree) : Item → List Node
  | .decl id => (tree.kindOf? id).toList.map (.decl · id)
  | .stmt id => if (tree.stmts.get? id).isSome then [.stmt id] else []

/-- An import is submitted. -/
def Item.isImport (tree : Tree) : Item → Bool
  | .decl id => tree.kindOf? id = some .importDecl
  | .stmt _ => false

theorem Item.isTops (tree : Tree) (item : Item) : tree.Tops (item.tops tree) := by
  intro top member
  cases item with
  | decl id =>
    obtain ⟨kind, isKind, rfl⟩ := List.mem_map.mp member
    exact ⟨Option.mem_toList.mp isKind, .inl ⟨kind, id, rfl⟩⟩
  | stmt id =>
    simp only [tops] at member
    split at member
    · next found =>
      obtain rfl := List.mem_singleton.mp member
      exact ⟨found, .inr ⟨id, rfl⟩⟩
    · nomatch member

theorem Item.class_notMem_stmt (tree : Tree) (id : StmtId) (other : DeclId) :
    .decl .classDecl other ∉ (Item.stmt id).tops tree := by
  simp only [tops]
  split <;> simp

/-- A submission that imports nothing touches nothing but what it consists of. -/
theorem touches_below (forest : tree.Forest loose) (item : Item) (isLocal : item.isImport tree = false) :
    Touches tree (tree.Below (item.tops tree)) item := by
  intro before unit valid
  have closed := tree.closed_below (item.tops tree)
  cases item with
  | decl id =>
    show Restores tree _ before Any (Resolve.submitDecl tree unit id)
    cases isKind : tree.kindOf? id with
    | none =>
      unfold Resolve.submitDecl
      simp only [isKind]
      exact .pure valid trivial
    | some kind =>
      refine Resolve.restores_submitLocal forest closed valid unit isKind ?_ (Tree.below_of_mem ?_)
      · rintro rfl
        simp [Item.isImport, isKind] at isLocal
      · simp [Item.tops, isKind]
  | stmt id =>
    show Restores tree _ before Any (Resolve.submitStmt tree unit id)
    by_cases found : (tree.stmts.get? id).isSome
    · exact Resolve.restores_submitStmt forest closed valid unit
        (Tree.below_of_mem (by simp [Item.tops, found]))
    · unfold Resolve.submitStmt
      rw [if_pos (by simpa using found)]
      exact .pure valid trivial

/-! ### Sessions of their own -/

/-- A session in which nothing is imported, and every declaration is submitted at most once; the
declarations so far come in the order in which they were submitted. -/
inductive Unaided : Loader → List DeclId → Session → Prop
  | start {loader : Loader} (reached : loader.Reached) (pipeline : Pipeline) (unit : UnitId)
      (sink : Sink) (warningsAsErrors : Bool) (trace : Trace.Recorder) (parent : Nat) :
      Unaided loader [] (Session.start pipeline unit sink warningsAsErrors trace parent)
  | declare {loader : Loader} {declared : List DeclId} {session : Session} {id : DeclId}
      (fresh : id ∉ declared) (isLocal : (Item.decl id).isImport loader.tree = false) :
      Unaided loader declared session →
      Unaided loader (declared ++ [id]) (session.submit loader.tree (.decl id)).1
  | execute {loader : Loader} {declared : List DeclId} {session : Session} (id : StmtId) :
      Unaided loader declared session →
      Unaided loader declared (session.submit loader.tree (.stmt id)).1
  | drain {loader : Loader} {declared : List DeclId} {session : Session} :
      Unaided loader declared session → Unaided loader declared session.drain.2
  | load {loader : Loader} {declared : List DeclId} {session : Session} (document : Doc.Document) :
      Unaided loader declared session →
      Unaided (behind (load document loader)) declared session
  | newUnit {loader : Loader} {declared : List DeclId} {session : Session} (path : String) :
      Unaided loader declared session →
      Unaided (behind (newUnit path loader)) declared session
  | addTopLevel {loader : Loader} {declared : List DeclId} {session : Session} (unit : UnitId)
      (item : Doc.TopLevel) :
      Unaided loader declared session →
      Unaided (behind (addTopLevel unit item loader)) declared session

theorem Unaided.reached (unaided : Unaided loader declared session) : Reached loader session := by
  induction unaided with
  | start loaded pipeline unit sink warningsAsErrors trace parent => exact .start loaded ..
  | declare _ _ _ reached => exact .submit _ reached
  | execute id _ reached => exact .submit _ reached
  | drain _ reached => exact .drain reached
  | load document _ reached => exact .load document reached
  | newUnit path _ reached => exact .newUnit path reached
  | addTopLevel unit item _ reached => exact .addTopLevel unit item reached

/-- Classes are bound once they were declared, and the base of a class was declared before it or is
the class itself. -/
structure Descends (tree : Tree) (declared : List DeclId) (names : Resolution) : Prop where
  bound : ∀ id, tree.kindOf? id = some .classDecl → names.scopes.Binds id → id ∈ declared
  earlier : ∀ owner base : DeclId, names.bases[owner]? = some base → owner ∈ declared ∧
    (base = owner ∨ declared.idxOf base < declared.idxOf owner)

namespace Descends

variable {declared : List DeclId} {before after : Analysis}

theorem idxOf_append (member : owner ∈ declared) (less : declared.idxOf base < declared.idxOf owner)
    (more : List DeclId) : (declared ++ more).idxOf base < (declared ++ more).idxOf owner := by
  have among : base ∈ declared :=
    List.idxOf_lt_length_iff.mp (less.trans (List.idxOf_lt_length_iff.mpr member))
  rwa [List.idxOf_append_of_mem among, List.idxOf_append_of_mem member]

/-- What happens below some nodes binds the class among them alone, and gives no other a base. -/
theorem evolves (descends : Descends tree declared before.names) (forest : tree.Forest loose)
    {tops : List Node} (isTops : tree.Tops tops) (leads : Evolves tree (tree.Below tops) before after)
    (new : List DeclId) (isNew : ∀ id, .decl .classDecl id ∈ tops → new = [id] ∧ id ∉ declared) :
    Descends tree (declared ++ new) after.names := by
  have bound (id : DeclId) (isClass : tree.kindOf? id = some .classDecl)
      (binds : after.names.scopes.Binds id) : id ∈ declared ++ new := by
    rcases leads.gains.binds binds with old | isField | ⟨kind, below⟩
    · exact List.mem_append_left _ (descends.bound id isClass old)
    · rw [isClass] at isField
      nomatch isField
    · obtain ⟨top, member, reached⟩ := below
      have isKind : tree.kindOf? id = some kind := forest.holds_reached (isTops top member).1 reached
      cases isKind.symm.trans isClass
      obtain ⟨rfl, -⟩ := isNew id (forest.class_below isTops ⟨top, member, reached⟩)
      exact List.mem_append_right _ (.head _)
  refine ⟨bound, fun owner base isBase => ?_⟩
  rcases leads.bases owner with same | below
  · obtain ⟨member, order⟩ := descends.earlier owner base (same ▸ isBase)
    exact ⟨List.mem_append_left _ member, order.imp_right fun less => idxOf_append member less new⟩
  · obtain ⟨rfl, fresh⟩ := isNew owner (forest.class_below isTops below)
    refine ⟨List.mem_append_right _ (.head _), ?_⟩
    rcases leads.based owner base isBase with old | binds
    · exact absurd (descends.earlier owner base old).1 fresh
    · rcases List.mem_append.mp (bound base (leads.valid.bases owner base isBase) binds) with old | own
      · refine .inr ?_
        rw [List.idxOf_append_of_mem old, List.idxOf_append_of_notMem fresh]
        exact Nat.lt_add_right _ (List.idxOf_lt_length_iff.mpr old)
      · exact .inl (List.mem_singleton.mp own)

/-- A program that grows declares no class anew that was bound before. -/
theorem grows {α : Type} {names : Resolution} {action : LoadM α} {gives : α → List Node}
    (descends : Descends loader.tree declared names) (loaded : loader.Reached)
    (builds : LoadM.Builds [] action gives) (valid : names.Valid loader.tree) :
    Descends (behind (action loader)).tree declared names := by
  refine ⟨fun id isClass binds => descends.bound id ?_ binds, descends.earlier⟩
  obtain ⟨home, scope, found, entry, member, rfl⟩ := binds
  obtain ⟨kind, isKind, -⟩ := valid.holds home scope found entry member
  have kept : (behind (action loader)).tree.kindOf? entry.2 = some kind :=
    (builds.keeps loader [] loaded.forest).holds (.decl kind entry.2) isKind
  rw [isKind, ← kept, isClass]

end Descends

theorem Unaided.descends (unaided : Unaided loader declared session) :
    Descends loader.tree declared session.analysis.names := by
  induction unaided with
  | start =>
    refine ⟨fun id _ ⟨_, _, found, _⟩ => absurd found ScopeTable.absent_empty, fun _ _ isBase => ?_⟩
    simp [Session.start] at isBase
  | @declare loader declared session id fresh isLocal unaided descends =>
    have forest := unaided.reached.loaded.forest
    have touches := touches_below forest (.decl id) isLocal
    refine descends.evolves forest (Item.isTops loader.tree (.decl id))
      (submit_restores touches unaided.reached.valid_and_closed.1).1 [id] fun other member => ?_
    obtain ⟨kind, -, same⟩ := List.mem_map.mp member
    cases same
    exact ⟨rfl, fresh⟩
  | @execute loader declared session id unaided descends =>
    have forest := unaided.reached.loaded.forest
    have touches := touches_below forest (.stmt id) rfl
    have same := descends.evolves forest (Item.isTops loader.tree (.stmt id))
      (submit_restores touches unaided.reached.valid_and_closed.1).1 []
      fun other member => absurd member (Item.class_notMem_stmt loader.tree id other)
    rwa [List.append_nil] at same
  | drain _ descends => exact descends
  | load document unaided descends =>
    exact descends.grows unaided.reached.loaded (builds_load document)
      unaided.reached.valid_and_closed.1
  | newUnit path unaided descends =>
    exact descends.grows unaided.reached.loaded (builds_newUnit path)
      unaided.reached.valid_and_closed.1
  | addTopLevel unit item unaided descends =>
    exact descends.grows unaided.reached.loaded (builds_addTopLevel unit item)
      unaided.reached.valid_and_closed.1

/-! ### Following bases -/

/-- Following bases from one class leads to another. -/
def Ascends (names : Resolution) : DeclId → DeclId → Prop :=
  Relation.ReflTransGen fun owner base => names.bases[owner]? = some base

namespace Descends

variable {declared : List DeclId} {names : Resolution}

theorem idxOf_le (descends : Descends tree declared names) {ancestor : DeclId}
    (ascends : Ascends names owner ancestor) : declared.idxOf ancestor ≤ declared.idxOf owner := by
  induction ascends with
  | refl => exact Nat.le_refl _
  | @tail class' base _ isBase inductionHypothesis =>
    rcases (descends.earlier class' base isBase).2 with rfl | less
    · exact inductionHypothesis
    · exact less.le.trans inductionHypothesis

/-- There is no way back from the base of a class to the class, unless it is its own base. -/
theorem not_ascends (descends : Descends tree declared names)
    (isBase : names.bases[owner]? = some base) (other : base ≠ owner) :
    ¬ Ascends names base owner := by
  intro back
  have less := (descends.earlier owner base isBase).2.resolve_left other
  exact Nat.not_le_of_gt less (descends.idxOf_le back)

/-- Following bases comes to an end, or to a class that is its own base. -/
theorem ends_or_stays (descends : Descends tree declared names) (id : DeclId) :
    (∃ chain, Lineage names.bases id chain) ∨
      ∃ own, Ascends names id own ∧ names.bases[own]? = some own := by
  induction position : declared.idxOf id using Nat.strong_induction_on generalizing id with
  | _ position inductionHypothesis =>
    cases isBase : names.bases[id]? with
    | none => exact .inl ⟨[], .root isBase⟩
    | some base =>
      rcases (descends.earlier id base isBase).2 with rfl | less
      · exact .inr ⟨base, .refl, isBase⟩
      · rcases inductionHypothesis _
          (position ▸ less) base rfl with ⟨chain, lineage⟩ | ⟨own, ascends, same⟩
        · exact .inl ⟨base :: chain, .step isBase lineage⟩
        · exact .inr ⟨own, .head isBase ascends, same⟩

end Descends

/-- In a session without imports, in which no declaration is submitted twice, the only way round is
that of a class which names itself as its base: no other class is led back to, and from every class
the chain of bases comes to an end, where the later passes see it whole, or to a class that is its
own base. This is about the recorded declarations; the bases of types, which have arguments, are
another relation. -/
theorem only_own_base_leads_back {loader : Loader} {declared : List DeclId} {session : Session}
    (unaided : Unaided loader declared session) :
    (∀ owner base : DeclId, session.analysis.names.bases[owner]? = some base → base ≠ owner →
      ¬ Ascends session.analysis.names base owner) ∧
    ∀ id, Lineage session.analysis.names.bases id (session.analysis.names.ancestors id) ∨
      ∃ own, Ascends session.analysis.names id own ∧
        session.analysis.names.bases[own]? = some own := by
  have descends := unaided.descends
  refine ⟨fun owner base => descends.not_ascends, fun id => ?_⟩
  refine (descends.ends_or_stays id).imp_left fun ⟨chain, lineage⟩ => ?_
  rw [lineage.ancestors_eq]
  exact lineage

/-- Three classes, of which the second has the first as its base and the third names itself. -/
def threeClasses : Loader :=
  let derived (name base : String) : Option Doc.Class :=
    some { name, base := some { kind := "named", name := base } }
  let document : Doc.Document :=
    { version := 1
      units := [some { path := "main",
                       classes := [some { name := "A" }, derived "B" "A", derived "C" "C"] }] }
  behind (load document {})

/-- The session in which the three classes were submitted in order. -/
def threeDeclared : Session :=
  [1, 2, 3].foldl (fun session id => (session.submit threeClasses.tree (.decl id)).1)
    (start .full 1 {} false {} 0)

theorem only_own_base_leads_back_threeClasses :
    threeDeclared.analysis.names.bases[2]? = some 1 ∧ ¬ Ascends threeDeclared.analysis.names 1 2 ∧
      threeDeclared.analysis.names.bases[3]? = some 3 := by
  obtain ⟨first, second, third⟩ : (Item.decl 1).isImport threeClasses.tree = false ∧
      (Item.decl 2).isImport threeClasses.tree = false ∧
      (Item.decl 3).isImport threeClasses.tree = false := by
    simp only [threeClasses, load_eq_loadWithin]
    decide +kernel
  have unaided : Unaided threeClasses [1, 2, 3] threeDeclared :=
    .declare (by decide) third <| .declare (by decide) second <| .declare (by decide) first <|
      .start (.load _ (.fresh {})) .full 1 {} false {} 0
  obtain ⟨isBase, isOwn⟩ : threeDeclared.analysis.names.bases[2]? = some 1 ∧
      threeDeclared.analysis.names.bases[3]? = some 3 := by
    simp only [threeDeclared, threeClasses, load_eq_loadWithin]
    decide +kernel
  exact ⟨isBase, (only_own_base_leads_back unaided).1 2 1 isBase (by decide), isOwn⟩

end TreeCheck.Session
