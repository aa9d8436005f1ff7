/-
Most functions of the loader are put together from a few plain steps: a name is interned, a
node is allocated that uses what was built for it, a declaration is changed without losing
what it uses, a fault is reported. None of these touches the units or files, none leaves a
node unused that it was handed, and none crashes but for a gap in the document. That
the functions are plain is shown once, and what plain actions do by induction on that.

A gap is an item that is missing from a list of the document where the loader does not
expect that; most items that are missing are faults that it reports.
-/

import TreeCheck.Proofs.Tree.Parts
import TreeCheck.Tree.Loader

namespace TreeCheck

/-! ### Names

A name that is not empty stays so when it is composed, and therefore never gets the number of the
empty name. -/

section Naming

variable {text : String} {names : Names}

namespace Text.Composition

theorem decomposeSyllable?_ne_nil {code : Nat} {parts : List Nat}
    (found : decomposeSyllable? code = some parts) : parts ≠ [] := by
  unfold decomposeSyllable? at found
  split at found
  · dsimp only at found
    split at found
    · simp [← Option.some.inj found]
    · simp [← Option.some.inj found]
  · nomatch found

theorem partsOr_ne_nil (code : Nat) (entry : Option (List Nat)) : partsOr code entry ≠ [] := by
  match entry with
  | some (_ :: _) => exact List.cons_ne_nil _ _
  | some [] => exact List.cons_ne_nil _ _
  | none => exact List.cons_ne_nil _ _

theorem decompose_ne_nil (code : Nat) : decompose code ≠ [] := by
  unfold decompose
  split
  · next found => exact decomposeSyllable?_ne_nil found
  · exact partsOr_ne_nil _ _

theorem decomposeSafely_ne_nil (count code : Nat) (rest : List Nat) :
    decomposeSafely count (code :: rest) ≠ [] := by
  unfold decomposeSafely
  dsimp only
  split
  · exact List.append_ne_nil_of_left_ne_nil (decompose_ne_nil code) _
  · split
    · nofun
    · exact List.append_ne_nil_of_left_ne_nil (decompose_ne_nil code) _

theorem insertMark_ne_nil (mark : Nat) (run : List Nat) : insertMark mark run ≠ [] := by
  unfold insertMark
  split
  · nofun
  · split
    · nofun
    · nofun

theorem orderMarks_ne_nil (run codes : List Nat) (some : run ≠ [] ∨ codes ≠ []) :
    orderMarks run codes ≠ [] := by
  induction codes generalizing run with
  | nil => simpa [orderMarks] using some
  | cons code rest inductionHypothesis =>
    unfold orderMarks
    split
    · exact List.append_ne_nil_of_right_ne_nil _ (by nofun)
    · exact inductionHypothesis _ (.inl (insertMark_ne_nil code run))

theorem composeFrom_ne_nil (starter : Nat) (kept codes : List Nat) :
    composeFrom starter kept codes ≠ [] := by
  induction codes generalizing starter kept with
  | nil => nofun
  | cons code rest inductionHypothesis =>
    unfold composeFrom
    dsimp only
    split
    · exact inductionHypothesis _ _
    · split
      · nofun
      · exact inductionHypothesis _ _

theorem composeAll_ne_nil {codes : List Nat} (some : codes ≠ []) : composeAll codes ≠ [] := by
  cases codes with
  | nil => exact absurd rfl some
  | cons code rest =>
    unfold composeAll
    split
    · exact composeFrom_ne_nil _ _ _
    · nofun

theorem canonical_ne_empty (some : text ≠ "") : canonical text ≠ "" := by
  unfold canonical
  split
  · exact some
  · obtain ⟨first, rest, spelled⟩ : ∃ first rest, text.toList = first :: rest := by
      cases spelled : text.toList with
      | nil => exact absurd (String.toList_eq_nil_iff.mp spelled) some
      | cons first rest => exact ⟨first, rest, rfl⟩
    dsimp only
    rw [spelled, List.map_cons]
    intro empty
    have nothing : ((composeAll (orderMarks []
        (decomposeSafely 0 (first.toNat :: rest.map Char.toNat)))).map Char.ofNat) = [] := by
      rw [← String.toList_ofList (l := List.map _ _), empty]
      rfl
    exact composeAll_ne_nil (orderMarks_ne_nil _ _ (.inr (decomposeSafely_ne_nil _ _ _)))
      (List.map_eq_nil_iff.mp nothing)

end Text.Composition

namespace Names

/-- Number zero is the empty name. -/
theorem intern_ne_zero (empty : names.texts[0]? = some "") (some : text ≠ "") :
    (names.intern text).1 ≠ 0 := by
  unfold intern
  split
  · next id found =>
    rintro rfl
    obtain ⟨index, found, first⟩ := Option.map_eq_some_iff.mp found
    have holds : names.texts[index] = Text.Composition.canonical text :=
      (Array.finIdxOf?_eq_some_iff.mp found).1
    have isEmpty : names.texts[index] = "" := by
      rw [Fin.getElem_fin, ← Option.some.injEq, ← Array.getElem?_eq_getElem, first]
      exact empty
    exact Text.Composition.canonical_ne_empty some (holds.symm.trans isEmpty)
  · have filled : 0 < names.texts.size := (Array.getElem?_eq_some_iff.mp empty).1
    exact Nat.ne_of_gt filled

theorem intern_empty (empty : names.texts[0]? = some "") (text : String) :
    (names.intern text).2.texts[0]? = some "" := by
  unfold intern
  split
  · exact empty
  · have filled : 0 < names.texts.size := (Array.getElem?_eq_some_iff.mp empty).1
    rw [Array.getElem?_push_lt filled, ← Array.getElem?_eq_getElem filled]
    exact empty

end Names

end Naming

end TreeCheck

/-! ### Gaps -/

namespace TreeCheck.Doc

/-- Whether an item has a gap; one that is missing may be a gap itself. -/
def anyGap {α : Type} (missing : Bool) (gap : α → Bool) (items : List (Option α)) : Bool :=
  items.any (·.elim missing gap)

mutual

def Expr.gap : Expr → Bool
  | ⟨_, _, _, _, receiver, target, _, args, _, left, right, operand, _, inits, elems, _⟩ =>
    Expr.linkGap receiver || Expr.linkGap target || Expr.listGap args || Expr.linkGap left ||
      Expr.linkGap right || Expr.linkGap operand || Init.listGap inits || Expr.listGap elems

def Expr.linkGap : Option Expr → Bool
  | none => false
  | some value => value.gap

def Expr.listGap : List (Option Expr) → Bool
  | [] => false
  | item :: rest => Expr.linkGap item || Expr.listGap rest

def Init.gap : Init → Bool
  | ⟨_, value, _⟩ => Expr.linkGap value

def Init.listGap : List (Option Init) → Bool
  | [] => false
  | none :: _ => true
  | some item :: rest => item.gap || Init.listGap rest

end

def Variable.gap (item : Variable) : Bool := Expr.linkGap item.init

mutual

def Stmt.gap : Stmt → Bool
  | ⟨_, stmts, decl, expr, target, value, cond, thenBranch, elseBranch, body, _, first, last,
      subject, arms, default, _⟩ =>
    Stmt.listGap stmts || decl.any Variable.gap || Expr.linkGap expr || Expr.linkGap target ||
      Expr.linkGap value || Expr.linkGap cond || Stmt.linkGap thenBranch ||
      Stmt.linkGap elseBranch || Stmt.linkGap body || Expr.linkGap first || Expr.linkGap last ||
      Expr.linkGap subject || Arm.listGap arms || Stmt.linkGap default

def Stmt.linkGap : Option Stmt → Bool
  | none => false
  | some item => item.gap

def Stmt.listGap : List (Option Stmt) → Bool
  | [] => false
  | item :: rest => Stmt.linkGap item || Stmt.listGap rest

def Arm.gap : Arm → Bool
  | ⟨values, body, _⟩ => Expr.listGap (values.getD []) || Stmt.linkGap body

def Arm.listGap : List (Option Arm) → Bool
  | [] => false
  | none :: _ => true
  | some item :: rest => item.gap || Arm.listGap rest

end

def Function.gap (item : Function) : Bool :=
  anyGap false Variable.gap item.params || Stmt.listGap item.body || item.typeParams.any (·.isNone)

def Class.gap (item : Class) : Bool :=
  anyGap false Variable.gap item.fields || anyGap true Function.gap item.methods ||
    item.typeParams.any (·.isNone)

def Enumeration.gap (item : Enumeration) : Bool := (item.consts.getD []).any (·.isNone)

def Unit.gap (unit : Unit) : Bool :=
  anyGap true (fun _ => false) unit.imports || anyGap true Enumeration.gap unit.enums ||
    anyGap false Variable.gap unit.globals || anyGap true Class.gap unit.classes ||
    anyGap true Function.gap unit.functions || unit.main.any Function.gap

end TreeCheck.Doc

/-! ### Plain actions -/

namespace TreeCheck

variable {loader after : Loader} {fault : LoadError}

/-- Expressions, statements and written types: the nodes below declarations. -/
def Node.Inner : Node → Prop
  | .stmt _ | .expr _ | .type _ => True
  | .unit _ | .decl _ _ => False

/-- An error that says where a node is at fault, and how. -/
def LoadError.IsReported : LoadError → Prop
  | .node _ _ _ _ _ => True
  | _ => False

/-- What a load leaves behind, whether or not it succeeded. -/
def Loader.behind {α : Type} : EStateM.Result LoadError Loader α → Loader
  | .ok _ loader => loader
  | .error _ loader => loader

namespace LoadM

/-- What is known of what was built: that a name is not the empty one, that a declaration has no
initial value. -/
inductive Finding where
  | named (name : NameId)
  | unset (id : DeclId)

def Finding.Holds (tree : Tree) : Finding → Prop
  | .named name => name ≠ 0
  | .unset id => tree.Unset id

/-- An action of plain steps that uses the held nodes, each once, for those it gives. With no owners
allowed, no declaration is built that has others as parts, and none is changed. A variable with
an initial value was found to be named, and the counter of a loop to have none. -/
inductive Plain (gap owners : Prop) : {α : Type} → (found : List Finding) → (held : List Node) →
    (action : LoadM α) → (gives : α → List Node) → Prop
  | pure {α : Type} {found : List Finding} {held : List Node} {gives : α → List Node} {value : α}
      (kept : ∀ node, (gives value).count node = held.count node) :
      Plain gap owners found held (Pure.pure value) gives
  | fail {α : Type} {found : List Finding} {held : List Node} {gives : α → List Node}
      (place : BuildPlace) (subject : String) (extent : Doc.Extent) (fault : NodeFault) :
      Plain gap owners found held (place.fail subject extent fault) gives
  | failThen {α β : Type} {found : List Finding} {held : List Node} {next : α → LoadM β}
      {result : β → List Node} (place : BuildPlace) (subject : String) (extent : Doc.Extent)
      (fault : NodeFault) :
      Plain gap owners found held (place.fail subject extent fault >>= next) result
  | crash {α : Type} {found : List Finding} {held : List Node} {gives : α → List Node}
      (missing : gap) : Plain gap owners found held (throw .crash) gives
  | telling {α β : Type} {found : List Finding} {held kept : List Node} {action : LoadM α}
      {next : α → LoadM β} {gives : α → List Node} {result : β → List Node}
      (tells : α → List Finding) (first : Plain gap owners found held action gives)
      (told : ∀ (loader : Loader) value after, loader.tree.names.texts[0]? = some "" →
        action loader = .ok value after → ∀ finding ∈ tells value, finding.Holds after.tree)
      (second : ∀ value,
        Plain gap owners (tells value ++ found) (gives value ++ kept) (next value) result) :
      Plain gap owners found (held ++ kept) (action >>= next) result
  | intern {found : List Finding} (text : String) :
      Plain gap owners found [] (LoadM.intern text) fun _ => []
  | newExpr {found : List Finding} {held : List Node} {expr : Expr}
      (uses : ∀ node, expr.form.parts.count node = held.count node) :
      Plain gap owners found held (LoadM.newExpr expr) fun id => [.expr id]
  | newStmt {found : List Finding} {held : List Node} {stmt : Stmt}
      (uses : ∀ node, stmt.form.parts.count node = held.count node)
      (loops : ∀ counter first last body, stmt.form = .forLoop counter first last body →
        .unset counter ∈ found) :
      Plain gap owners found held (LoadM.newStmt stmt) fun id => [.stmt id]
  | newType {found : List Finding} {held : List Node} {type : TypeExpr}
      (uses : ∀ node, type.form.parts.count node = held.count node) :
      Plain gap owners found held (LoadM.newType type) fun id => [.type id]
  | newDecl {found : List Finding} {held : List Node} {decl : Decl}
      (uses : ∀ node, decl.parts.count node = held.count node)
      (named : decl.init.isSome →
        .named decl.name ∈ found ∧ decl.kind.isVariable ∧ decl.kind ≠ .enumConst)
      (single : decl.form.parts = [] ∨ owners) :
      Plain gap owners found held (LoadM.newDecl decl) fun id => [.decl decl.kind id]
  | modifyDecl {found : List Finding} {held : List Node} (id : DeclId) {change : Decl → Decl}
      (owns : owners) (kind : ∀ decl, (change decl).kind = decl.kind)
      (name : ∀ decl, (change decl).name = decl.name)
      (init : ∀ decl, (change decl).init = decl.init)
      (fewer : ∀ decl node,
        (change decl).parts.count node ≤ decl.parts.count node + held.count node)
      (keeps : ∀ decl node, node.Inner → node ∈ decl.parts → node ∈ (change decl).parts)
      (outer : ∀ node ∈ held, ¬node.Inner) :
      Plain gap owners found held (LoadM.modifyDecl id change) fun _ => []

variable {α β : Type} {action : LoadM α} {loader middle : Loader}

theorem run_bind_ok (next : α → LoadM β) {value : α} (ran : action loader = .ok value middle) :
    (action >>= next) loader = next value middle := by
  show EStateM.bind action next loader = _
  unfold EStateM.bind
  rw [ran]

theorem run_get (next : Loader → LoadM α) (loader : Loader) :
    (get >>= next) loader = next loader loader := rfl

theorem run_bind_error (next : α → LoadM β) (ran : action loader = .error fault middle) :
    (action >>= next) loader = .error fault middle := by
  show EStateM.bind action next loader = _
  unfold EStateM.bind
  rw [ran]

/-- A sequence that succeeds has two halves that succeed. -/
theorem ok_of_bind {next : α → LoadM β} {result : β}
    (ran : (action >>= next) loader = .ok result after) :
    ∃ value middle, action loader = .ok value middle ∧ next value middle = .ok result after := by
  cases done : action loader with
  | ok value middle => exact ⟨value, middle, rfl, (run_bind_ok next done).symm.trans ran⟩
  | error fault middle =>
    rw [run_bind_error next done] at ran
    nomatch ran

end LoadM

/-! ### Units and files stay -/

/-- The units, the files and the source of imports are the same. -/
structure Loader.Steady (before after : Loader) : Prop where
  units : after.units = before.units
  files : after.files = before.files
  source : after.source = before.source
  nodes : after.tree.units = before.tree.units

namespace Loader.Steady

variable {before middle after : Loader}

theorem refl (loader : Loader) : Steady loader loader := ⟨rfl, rfl, rfl, rfl⟩

theorem trans (first : Steady before middle) (second : Steady middle after) :
    Steady before after :=
  ⟨second.units.trans first.units, second.files.trans first.files,
    second.source.trans first.source, second.nodes.trans first.nodes⟩

end Loader.Steady

namespace LoadM.Plain

variable {gap owners : Prop} {α β : Type} {found : List Finding} {held kept : List Node}
  {action : LoadM α} {gives : α → List Node} {next : α → LoadM β} {result : β → List Node}

theorem bind (first : Plain gap owners found held action gives)
    (second : ∀ value, Plain gap owners found (gives value ++ kept) (next value) result) :
    Plain gap owners found (held ++ kept) (action >>= next) result :=
  .telling (fun _ => []) first (fun _ _ _ _ _ => nofun) second

/-- An action that needs nothing leaves what is held alone. -/
theorem andThen (first : Plain gap owners found [] action gives)
    (second : ∀ value, Plain gap owners found (gives value ++ held) (next value) result) :
    Plain gap owners found held (action >>= next) result :=
  first.bind second

/-- An action takes all that is held. -/
theorem takeAll (first : Plain gap owners found held action gives)
    (second : ∀ value, Plain gap owners found (gives value) (next value) result) :
    Plain gap owners found held (action >>= next) result := by
  rw [← List.append_nil held]
  exact first.bind fun value => by rw [List.append_nil]; exact second value

/-- A name is interned that is not empty. -/
theorem name {text : String} {next : NameId → LoadM β} (given : text ≠ "")
    (each : ∀ name, Plain gap owners (.named name :: found) held (next name) result) :
    Plain gap owners found held (LoadM.intern text >>= next) result := by
  refine .telling (fun name => [.named name]) (.intern text) (fun loader name after empty ran => ?_)
    each
  cases ran
  exact List.forall_mem_singleton.mpr (Names.intern_ne_zero empty given)

/-- A declaration is built that has no initial value. -/
theorem declare {decl : Decl} {next : DeclId → LoadM β}
    (uses : ∀ node, decl.parts.count node = held.count node) (unset : decl.init = none)
    (single : decl.form.parts = [])
    (each : ∀ id,
      Plain gap owners (.unset id :: found) ([.decl decl.kind id] ++ kept) (next id) result) :
    Plain gap owners found (held ++ kept) (LoadM.newDecl decl >>= next) result := by
  refine .telling (fun id => [.unset id]) (.newDecl uses (fun some => ?_) (.inl single))
    (fun loader id after _ ran => ?_) each
  · rw [unset] at some
    nomatch some
  · cases ran
    exact List.forall_mem_singleton.mpr ⟨decl, Arena.get?_push_self _ _, unset⟩

theorem steady (plain : Plain gap owners found held action gives) (loader : Loader) :
    loader.Steady (Loader.behind (action loader)) := by
  induction plain generalizing loader with
  | @telling _ _ _ _ _ action next _ _ _ _ _ _ firstSteady secondSteady =>
    have steady := firstSteady loader
    cases ran : action loader with
    | ok value after =>
      rw [ran] at steady
      rw [run_bind_ok next ran]
      exact steady.trans (secondSteady value after)
    | error fault after =>
      rw [ran] at steady
      rw [run_bind_error next ran]
      exact steady
  | _ => exact ⟨rfl, rfl, rfl, rfl⟩

/-- A plain action reports its faults; only where there is a gap it may crash. -/
theorem reported (plain : Plain gap owners found held action gives)
    (failed : action loader = .error fault after) : fault.IsReported ∨ gap := by
  induction plain generalizing loader after with
  | fail =>
    cases failed
    exact .inl trivial
  | failThen =>
    cases failed
    exact .inl trivial
  | crash missing => exact .inr missing
  | @telling _ _ _ _ _ action next _ _ _ _ _ _ firstReported secondReported =>
    cases ran : action loader with
    | ok value middle =>
      rw [run_bind_ok next ran] at failed
      exact secondReported value failed
    | error fault middle =>
      rw [run_bind_error next ran] at failed
      cases failed
      exact firstReported ran
  | _ => nomatch failed

end LoadM.Plain

/-! ### Nodes that are used -/

namespace Arena

variable {α : Type} {arena : Arena α} {id : Nat} {parts : α → List Node} {node : Node}

theorem mem_parts_iff : node ∈ ((arena.get? id).map parts).getD [] ↔
    ∃ item, arena.get? id = some item ∧ node ∈ parts item := by
  cases arena.get? id <;> simp

theorem mem_parts_push (item : α) (member : node ∈ ((arena.get? id).map parts).getD []) :
    node ∈ (((arena.push item).get? id).map parts).getD [] := by
  obtain ⟨old, found, isPart⟩ := mem_parts_iff.mp member
  exact mem_parts_iff.mpr ⟨old, get?_push_of_some item found, isPart⟩

theorem mem_parts_modify (target : Nat) {change : α → α}
    (keeps : ∀ item, node ∈ parts item → node ∈ parts (change item))
    (member : node ∈ ((arena.get? id).map parts).getD []) :
    node ∈ (((arena.modify target change).get? id).map parts).getD [] := by
  obtain ⟨old, found, isPart⟩ := mem_parts_iff.mp member
  rw [mem_parts_iff, get?_modify, found]
  split
  · exact ⟨_, rfl, keeps old isPart⟩
  · exact ⟨old, rfl, isPart⟩

theorem isSome_get?_of_push {item : α} (there : ((arena.push item).get? id).isSome) :
    (arena.get? id).isSome ∨ id = arena.next := by
  by_cases last : id = arena.next
  · exact .inr last
  · rw [get?_push_other _ _ last] at there
    exact .inl there

end Arena

namespace Tree

/-- Some node has another among its parts. -/
def Uses (tree : Tree) (node : Node) : Prop := ∃ whole, node ∈ tree.parts whole

/-- Every inner node besides those of an earlier tree is loose or used. -/
def Covered (earlier tree : Tree) (loose : List Node) : Prop :=
  ∀ node, node.Inner → tree.Holds node → earlier.Holds node ∨ node ∈ loose ∨ tree.Uses node

variable {earlier tree after : Tree} {held given loose : List Node}

theorem covered_self (tree : Tree) : tree.Covered tree [] := fun _ _ holds => .inl holds

/-- What was used is used, what was held is used, and what is new is given. -/
theorem Covered.step (covered : earlier.Covered tree (held ++ loose))
    (keeps : ∀ whole node, node.Inner → node ∈ tree.parts whole → node ∈ after.parts whole)
    (uses : ∀ node ∈ held, node.Inner → after.Uses node)
    (new : ∀ node, node.Inner → after.Holds node → tree.Holds node ∨ node ∈ given) :
    earlier.Covered after (given ++ loose) := by
  intro node inner holds
  obtain old | isNew := new node inner holds
  · obtain early | isLoose | ⟨whole, part⟩ := covered node inner old
    · exact .inl early
    · obtain isHeld | isLoose := List.mem_append.mp isLoose
      · exact .inr (.inr (uses node isHeld inner))
      · exact .inr (.inl (List.mem_append_right _ isLoose))
    · exact .inr (.inr ⟨whole, keeps whole node inner part⟩)
  · exact .inr (.inl (List.mem_append_left _ isNew))

theorem Covered.pushExpr {expr : Expr} (used : held ⊆ expr.form.parts)
    (covered : earlier.Covered tree (held ++ loose)) :
    earlier.Covered { tree with exprs := tree.exprs.push expr }
      ([.expr tree.exprs.next] ++ loose) := by
  refine covered.step (fun whole node _ member => ?_) (fun node isHeld _ => ⟨.expr tree.exprs.next, ?_⟩)
    fun node _ holds => ?_
  · cases whole with
    | expr id => exact Arena.mem_parts_push expr member
    | _ => exact member
  · exact Arena.mem_parts_iff.mpr ⟨expr, Arena.get?_push_self _ _, used isHeld⟩
  · cases node with
    | expr id => exact (Arena.isSome_get?_of_push holds).imp_right fun last => by simp [last]
    | _ => exact .inl holds

theorem Covered.pushStmt {stmt : Stmt} (used : held ⊆ stmt.form.parts)
    (covered : earlier.Covered tree (held ++ loose)) :
    earlier.Covered { tree with stmts := tree.stmts.push stmt }
      ([.stmt tree.stmts.next] ++ loose) := by
  refine covered.step (fun whole node _ member => ?_) (fun node isHeld _ => ⟨.stmt tree.stmts.next, ?_⟩)
    fun node _ holds => ?_
  · cases whole with
    | stmt id => exact Arena.mem_parts_push stmt member
    | _ => exact member
  · exact Arena.mem_parts_iff.mpr ⟨stmt, Arena.get?_push_self _ _, used isHeld⟩
  · cases node with
    | stmt id => exact (Arena.isSome_get?_of_push holds).imp_right fun last => by simp [last]
    | _ => exact .inl holds

theorem Covered.pushType {type : TypeExpr} (used : held ⊆ type.form.parts)
    (covered : earlier.Covered tree (held ++ loose)) :
    earlier.Covered { tree with types := tree.types.push type }
      ([.type tree.types.next] ++ loose) := by
  refine covered.step (fun whole node _ member => ?_) (fun node isHeld _ => ⟨.type tree.types.next, ?_⟩)
    fun node _ holds => ?_
  · cases whole with
    | type id => exact Arena.mem_parts_push type member
    | _ => exact member
  · exact Arena.mem_parts_iff.mpr ⟨type, Arena.get?_push_self _ _, used isHeld⟩
  · cases node with
    | type id => exact (Arena.isSome_get?_of_push holds).imp_right fun last => by simp [last]
    | _ => exact .inl holds

theorem Covered.pushDecl {decl : Decl} (used : held ⊆ decl.parts)
    (covered : earlier.Covered tree (held ++ loose)) :
    earlier.Covered { tree with decls := tree.decls.push decl }
      ([.decl decl.kind tree.decls.next] ++ loose) := by
  refine covered.step (fun whole node _ member => ?_)
    (fun node isHeld _ => ⟨.decl decl.kind tree.decls.next, ?_⟩) fun node inner holds => ?_
  · cases whole with
    | decl kind id => exact Arena.mem_parts_push decl member
    | _ => exact member
  · exact Arena.mem_parts_iff.mpr ⟨decl, Arena.get?_push_self _ _, used isHeld⟩
  · cases node with
    | decl kind id => exact inner.elim
    | _ => exact .inl holds

theorem Covered.modifyDecl (id : DeclId) {change : Decl → Decl}
    (keeps : ∀ decl node, node.Inner → node ∈ decl.parts → node ∈ (change decl).parts)
    (outer : ∀ node ∈ held, ¬node.Inner) (covered : earlier.Covered tree (held ++ loose)) :
    earlier.Covered { tree with decls := tree.decls.modify id change } ([] ++ loose) := by
  refine covered.step (fun whole node inner member => ?_)
    (fun node isHeld inner => absurd inner (outer node isHeld)) fun node inner holds => ?_
  · cases whole with
    | decl kind other =>
      exact Arena.mem_parts_modify id (fun decl => keeps decl node inner) member
    | _ => exact member
  · cases node with
    | decl kind id => exact inner.elim
    | _ => exact .inl holds

/-- Declarations that are loose cover nothing. -/
theorem Covered.of_outer (covered : earlier.Covered tree loose)
    (outer : ∀ node ∈ loose, ¬node.Inner) : earlier.Covered tree [] :=
  fun node inner holds => (covered node inner holds).imp_right fun left =>
    left.imp_left fun isLoose => absurd inner (outer node isLoose)

end Tree

theorem subset_of_count {parts held : List Node}
    (uses : ∀ node, parts.count node = held.count node) : held ⊆ parts :=
  fun node isHeld => List.count_pos_iff.mp (uses node ▸ List.count_pos_iff.mpr isHeld)

/-- A plain action uses what it held, and all that it built but what it gives. -/
theorem LoadM.Plain.covers {gap owners : Prop} {α : Type} {found : List Finding} {held : List Node}
    {action : LoadM α} {gives : α → List Node} (plain : Plain gap owners found held action gives)
    {earlier : Tree} {value : α} {loose : List Node}
    (covered : earlier.Covered loader.tree (held ++ loose)) (ran : action loader = .ok value after) :
    earlier.Covered after.tree (gives value ++ loose) := by
  induction plain generalizing loader after loose with
  | pure kept =>
    cases ran
    refine fun node inner holds => (covered node inner holds).imp_right fun left => ?_
    exact left.imp_left fun isLoose => List.mem_append.mpr
      ((List.mem_append.mp isLoose).imp_left fun isHeld => subset_of_count kept isHeld)
  | fail => nomatch ran
  | failThen => nomatch ran
  | crash => nomatch ran
  | @telling _ _ _ _ _ action next _ _ _ _ _ _ firstCovers secondCovers =>
    cases done : action loader with
    | error fault middle =>
      rw [run_bind_error next done] at ran
      nomatch ran
    | ok value middle =>
      rw [run_bind_ok next done] at ran
      rw [List.append_assoc] at covered
      have given := firstCovers covered done
      rw [← List.append_assoc] at given
      exact secondCovers value given ran
  | intern text =>
    cases ran
    exact covered.step (fun whole node _ member => by cases whole <;> exact member) nofun
      fun node _ holds => by cases node <;> exact .inl holds
  | newExpr uses =>
    cases ran
    exact covered.pushExpr (subset_of_count uses)
  | newStmt uses =>
    cases ran
    exact covered.pushStmt (subset_of_count uses)
  | newType uses =>
    cases ran
    exact covered.pushType (subset_of_count uses)
  | newDecl uses =>
    cases ran
    exact covered.pushDecl (subset_of_count uses)
  | modifyDecl id _ _ _ _ _ keeps outer =>
    cases ran
    exact covered.modifyDecl id keeps outer

end TreeCheck
