/-
What the rules on bodies say, node by node. `Fault` lists the faults a node may have, each
with the diagnostic that names it: who reaches a member from outside its class, calls
itself without leave, creates an object of an abstract class, assigns to a constant, or
leaves a pure callable. It speaks of the class and the callable around the node and of the
variable a place belongs to, and not of any walk. `findings` is the same as a list, once
the place of the node is known.
-/

import TreeCheck.Proofs.Tree.Visit
import TreeCheck.Rules.Bodies

namespace TreeCheck

variable {loose : List Node} {span : Span} {target : ExprId} {written : DeclId}

/-- The expression that a field is read from or a method is called on. -/
def ExprForm.receiver? : ExprForm → Option ExprId
  | .field receiver _ => some receiver
  | .methodCall receiver _ _ => some receiver
  | _ => none

/-- Calls of functions and of methods. -/
def ExprForm.IsCall : ExprForm → Prop
  | .call _ _ _ => True
  | .methodCall _ _ _ => True
  | _ => False

instance (form : ExprForm) : Decidable form.IsCall := by
  cases form <;> unfold ExprForm.IsCall <;> infer_instance

/-- Names and fields, which may be what a constant is called. -/
def ExprForm.NamesPlace : ExprForm → Prop
  | .name _ => True
  | .field _ _ => True
  | _ => False

namespace Rules

/-- The codes of what may be wrong in a body. -/
def bodyCodes : List Code :=
  [.privateAccess, .recursion, .abstractInstantiation, .constAssign, .pureSideEffect]

/-! ### Variables behind places -/

/-- A place belongs to a variable: a name to what it refers to, a constant to itself, and any
other field, and an element, to what its value belongs to. -/
inductive Root (tree : Tree) (state : Analysis) : ExprId → DeclId → Prop where
  | name {id : ExprId} {expr : Expr} {name : NameId} {decl : DeclId} :
      tree.exprs.get? id = some expr → expr.form = .name name →
      state.names.uses[id]? = some decl → Root tree state id decl
  | const {id : ExprId} {expr : Expr} {receiver : ExprId} {name : NameId} {decl : DeclId} :
      tree.exprs.get? id = some expr → expr.form = .field receiver name →
      target? state id = some decl → tree.kindOf? decl = some .enumConst → Root tree state id decl
  | field {id : ExprId} {expr : Expr} {receiver : ExprId} {name : NameId} {decl : DeclId} :
      tree.exprs.get? id = some expr → expr.form = .field receiver name →
      (∀ const, target? state id = some const → tree.kindOf? const ≠ some .enumConst) →
      Root tree state receiver decl → Root tree state id decl
  | index {id : ExprId} {expr : Expr} {inner : ExprId} {indices : List ExprId} {decl : DeclId} :
      tree.exprs.get? id = some expr → expr.form = .index inner indices →
      Root tree state inner decl → Root tree state id decl

/-! ### Faults -/

/-- An assignment writes a constant: its target is a name or a field, and reaches a constant of
an enum or a global that is marked as constant. -/
def WritesConstant (tree : Tree) (state : Analysis) (target : ExprId) (written : DeclId)
    (decl : Decl) : Prop :=
  (∃ expr, tree.exprs.get? target = some expr ∧ expr.form.NamesPlace) ∧
    target? state target = some written ∧ tree.decls.get? written = some decl ∧
    (decl.kind = .enumConst ∨ decl.kind = .global ∧ decl.mods.has .const)

/-- A node breaks a rule, and the diagnostic that says so. -/
inductive Fault (tree : Tree) (state : Analysis) : Node → Diagnostic → Prop where
  /-- A member that is not public is reached, not through `this`, outside the class that
  declares it. -/
  | access {id : ExprId} {expr : Expr} {receiver : ExprId} {member : DeclId} {decl : Decl}
      {place : Place} :
      tree.exprs.get? id = some expr → expr.form.receiver? = some receiver →
      ¬tree.isThis receiver → target? state id = some member →
      tree.decls.get? member = some decl → decl.kind = .field ∨ decl.kind = .method →
      ¬decl.mods.has .isPublic → tree.Around (.expr id) place → decl.owner ≠ place.enclosing →
      Fault tree state (.expr id)
        (((Diagnostic.error .privateAccess expr.span
          [tree.nameOf member, (decl.owner.map tree.nameOf).getD ""]).withHint .makePublic
            [tree.nameOf member]).withNote decl.span "declared here")
  /-- A callable calls itself and is not marked for it. -/
  | recursion {id : ExprId} {expr : Expr} {callable : DeclId} {place : Place} :
      tree.exprs.get? id = some expr → expr.form.IsCall → tree.Around (.expr id) place →
      place.callable = some callable → target? state id = some callable →
      ¬(modsOf tree callable).has .recursive →
      Fault tree state (.expr id)
        ((Diagnostic.error .recursion expr.span [tree.nameOf callable]).withHint .addRec
          [tree.nameOf callable])
  /-- An object of an abstract class is created. -/
  | creation {id : ExprId} {expr : Expr} {created : TypeExprId} {inits : List FieldInit}
      {owner : DeclId} :
      tree.exprs.get? id = some expr → expr.form = .create created inits →
      state.names.typeRefs[created]? = some owner → tree.kindOf? owner = some .classDecl →
      (modsOf tree owner).has .isAbstract →
      Fault tree state (.expr id)
        (Diagnostic.error .abstractInstantiation expr.span [tree.nameOf owner])
  /-- A constant is assigned. -/
  | constant {id : StmtId} {stmt : Stmt} {target value : ExprId} {written : DeclId} {decl : Decl} :
      tree.stmts.get? id = some stmt → stmt.form = .assign target value →
      WritesConstant tree state target written decl →
      Fault tree state (.stmt id)
        ((Diagnostic.error .constAssign stmt.span [tree.nameOf written]).withNote decl.span
          "declared here")
  /-- A pure callable assigns to a parameter that is not marked for it. -/
  | parameter {id : StmtId} {stmt : Stmt} {target value : ExprId} {place : Place}
      {callable root : DeclId} {decl : Decl} :
      tree.stmts.get? id = some stmt → stmt.form = .assign target value →
      (∀ written decl, ¬WritesConstant tree state target written decl) →
      tree.Around (.stmt id) place → place.callable = some callable →
      (modsOf tree callable).has .pure → Root tree state target root →
      tree.decls.get? root = some decl → decl.kind = .param → ¬decl.mods.has .input →
      Fault tree state (.stmt id)
        ((Diagnostic.warning .pureSideEffect stmt.span
          [tree.nameOf callable, tree.nameOf root]).withHint .markIn [tree.nameOf root])
  /-- A pure callable assigns to a global. -/
  | global {id : StmtId} {stmt : Stmt} {target value : ExprId} {place : Place}
      {callable root : DeclId} {decl : Decl} :
      tree.stmts.get? id = some stmt → stmt.form = .assign target value →
      (∀ written decl, ¬WritesConstant tree state target written decl) →
      tree.Around (.stmt id) place → place.callable = some callable →
      (modsOf tree callable).has .pure → Root tree state target root →
      tree.decls.get? root = some decl → decl.kind = .global →
      Fault tree state (.stmt id)
        (Diagnostic.warning .pureSideEffect stmt.span [tree.nameOf callable, tree.nameOf root])

/-! ### The variable of a place is found -/

theorem rootWithin_eq_some_iff {tree : Tree} (forest : tree.Forest loose) (state : Analysis)
    {fuel : Nat} {id : Nat} {decl : DeclId} (enough : id < fuel) :
    rootWithin tree state fuel id = some decl ↔ Root tree state id decl := by
  induction fuel generalizing id with
  | zero => omega
  | succ fuel inductionHypothesis =>
    unfold rootWithin
    cases found : tree.exprs.get? id with
    | none =>
      refine ⟨nofun, fun root => ?_⟩
      cases root <;> simp_all
    | some expr =>
      have below {part : Nat} (isPart : .expr part ∈ expr.form.parts) : part < fuel := by
        have := forest.exprsBelow id expr found part isPart
        omega
      cases form : expr.form with
      | name name =>
        simp only [Option.map_some, form]
        refine ⟨.name found form, fun root => ?_⟩
        cases root <;> simp_all
      | field receiver name =>
        simp only [Option.map_some, form]
        have inner := @inductionHypothesis receiver (below (by simp [form, ExprForm.parts]))
        cases reached : (target? state id).filter fun id => tree.kindOf? id = some .enumConst with
        | some const =>
          obtain ⟨isTarget, isConst⟩ := Option.filter_eq_some_iff.mp reached
          have isConst : tree.kindOf? const = some .enumConst := by simpa using isConst
          constructor
          · rintro ⟨⟩
            exact .const found form isTarget isConst
          · intro root
            cases root with
            | const _ _ isTarget' => exact isTarget.symm.trans isTarget'
            | field _ _ never => exact absurd isConst (never const isTarget)
            | _ => simp_all
        | none =>
          have never : ∀ const, target? state id = some const →
              tree.kindOf? const ≠ some .enumConst := by
            intro const isTarget isConst
            rw [isTarget] at reached
            simp [isConst] at reached
          refine ⟨fun isRoot => .field found form never (inner.mp isRoot), fun root => ?_⟩
          cases root with
          | const _ _ isTarget isConst => exact absurd isConst (never decl isTarget)
          | field found' form' _ root =>
            cases found.symm.trans found'
            cases form.symm.trans form'
            exact inner.mpr root
          | _ => simp_all
      | index target indices =>
        simp only [Option.map_some, form]
        have inner := @inductionHypothesis target (below (by simp [form, ExprForm.parts]))
        refine ⟨fun isRoot => .index found form (inner.mp isRoot), fun root => ?_⟩
        cases root with
        | index found' form' root =>
          cases found.symm.trans found'
          cases form.symm.trans form'
          exact inner.mpr root
        | _ => simp_all
      | _ =>
        simp only [Option.map_some, form]
        refine ⟨nofun, fun root => ?_⟩
        cases root <;> simp_all

/-- The variable that is found for a place is the one it belongs to. -/
theorem root?_eq_some_iff {tree : Tree} (forest : tree.Forest loose) (state : Analysis)
    {id : ExprId} {decl : DeclId} (holds : tree.Holds (.expr id)) :
    root? tree state id = some decl ↔ Root tree state id decl := by
  obtain ⟨expr, found⟩ := Option.isSome_iff_exists.mp holds
  exact rootWithin_eq_some_iff forest state (Nat.lt_succ_of_le (Arena.get?_eq_some_le found).2)

/-! ### Faults as a list -/

/-- What is wrong with reaching a member from a place. -/
def accessFindings (tree : Tree) (place : Place) (receiver : ExprId) (member : Option DeclId)
    (span : Span) : List Diagnostic :=
  match member, member.bind tree.decls.get? with
  | some id, some decl =>
    if decl.kind ≠ .field ∧ decl.kind ≠ .method then []
    else if tree.isThis receiver then []
    else if decl.owner = place.enclosing ∨ decl.mods.has .isPublic then []
    else
      [((Diagnostic.error .privateAccess span
        [tree.nameOf id, (decl.owner.map tree.nameOf).getD ""]).withHint .makePublic
          [tree.nameOf id]).withNote decl.span "declared here"]
  | _, _ => []

/-- What is wrong with calling something from a place. -/
def recursionFindings (tree : Tree) (place : Place) (callee : Option DeclId) (span : Span) :
    List Diagnostic :=
  match place.callable with
  | none => []
  | some callable =>
    if callee ≠ some callable ∨ (modsOf tree callable).has .recursive then []
    else [(Diagnostic.error .recursion span [tree.nameOf callable]).withHint .addRec
      [tree.nameOf callable]]

/-- What is wrong with creating an object. -/
def creationFindings (tree : Tree) (state : Analysis) (created : TypeExprId) (span : Span) :
    List Diagnostic :=
  match state.names.typeRefs[created]? with
  | none => []
  | some id =>
    if tree.kindOf? id = some .classDecl ∧ (modsOf tree id).has .isAbstract then
      [Diagnostic.error .abstractInstantiation span [tree.nameOf id]]
    else []

/-- What a pure callable should not assign to. -/
def purityFindings (tree : Tree) (state : Analysis) (place : Place) (target : ExprId)
    (span : Span) : List Diagnostic :=
  match place.callable with
  | none => []
  | some callable =>
    if !(modsOf tree callable).has .pure then []
    else
      match root? tree state target, (root? tree state target).bind tree.decls.get? with
      | some id, some decl =>
        let complaint := Diagnostic.warning .pureSideEffect span
          [tree.nameOf callable, tree.nameOf id]
        if decl.kind = .param ∧ !decl.mods.has .input then
          [complaint.withHint .markIn [tree.nameOf id]]
        else if decl.kind = .global then [complaint]
        else []
      | _, _ => []

/-- What is wrong with an assignment. -/
def assignFindings (tree : Tree) (state : Analysis) (place : Place) (target : ExprId)
    (span : Span) : List Diagnostic :=
  match assigned? tree state target,
      ((assigned? tree state target).bind tree.decls.get?).filter isConstant with
  | some id, some decl =>
    [(Diagnostic.error .constAssign span [tree.nameOf id]).withNote decl.span "declared here"]
  | _, _ => purityFindings tree state place target span

/-- What is wrong with a node itself, when it stands in a place. -/
def findings (tree : Tree) (state : Analysis) (place : Place) : Node → List Diagnostic
  | .expr id =>
    match tree.exprs.get? id with
    | none => []
    | some expr =>
      match expr.form with
      | .field receiver _ => accessFindings tree place receiver (target? state id) expr.span
      | .call _ _ _ => recursionFindings tree place (target? state id) expr.span
      | .methodCall receiver _ _ =>
        accessFindings tree place receiver (target? state id) expr.span ++
          recursionFindings tree place (target? state id) expr.span
      | .create created _ => creationFindings tree state created expr.span
      | _ => []
  | .stmt id =>
    match tree.stmts.get? id with
    | none => []
    | some stmt =>
      match stmt.form with
      | .assign target _ => assignFindings tree state place target stmt.span
      | _ => []
  | _ => []

variable {tree : Tree} {state : Analysis} {place : Place} {diagnostic : Diagnostic}

theorem mem_accessFindings_iff {receiver : ExprId} {member : Option DeclId} :
    diagnostic ∈ accessFindings tree place receiver member span ↔
      ∃ id decl, member = some id ∧ tree.decls.get? id = some decl ∧
        (decl.kind = .field ∨ decl.kind = .method) ∧ ¬tree.isThis receiver ∧
        decl.owner ≠ place.enclosing ∧ ¬decl.mods.has .isPublic ∧
        diagnostic = ((Diagnostic.error .privateAccess span
          [tree.nameOf id, (decl.owner.map tree.nameOf).getD ""]).withHint .makePublic
            [tree.nameOf id]).withNote decl.span "declared here" := by
  cases member with
  | none => simp [accessFindings]
  | some id =>
    cases found : tree.decls.get? id with
    | none => simp [accessFindings, found]
    | some decl =>
      simp only [accessFindings, Option.bind_some, found]
      grind

theorem mem_recursionFindings_iff {callee : Option DeclId} :
    diagnostic ∈ recursionFindings tree place callee span ↔
      ∃ callable, place.callable = some callable ∧ callee = some callable ∧
        ¬(modsOf tree callable).has .recursive ∧
        diagnostic = (Diagnostic.error .recursion span [tree.nameOf callable]).withHint .addRec
          [tree.nameOf callable] := by
  unfold recursionFindings
  cases place.callable with
  | none => simp
  | some callable => grind

theorem mem_creationFindings_iff {created : TypeExprId} :
    diagnostic ∈ creationFindings tree state created span ↔
      ∃ owner, state.names.typeRefs[created]? = some owner ∧
        tree.kindOf? owner = some .classDecl ∧ (modsOf tree owner).has .isAbstract ∧
        diagnostic = Diagnostic.error .abstractInstantiation span [tree.nameOf owner] := by
  unfold creationFindings
  cases state.names.typeRefs[created]? with
  | none => simp
  | some owner => grind

theorem assigned?_eq_some_iff :
    assigned? tree state target = some written ↔
      (∃ expr, tree.exprs.get? target = some expr ∧ expr.form.NamesPlace) ∧
        target? state target = some written := by
  unfold assigned?
  cases tree.exprs.get? target with
  | none => simp
  | some expr => cases form : expr.form <;> simp [form, ExprForm.NamesPlace]

theorem isConstant_iff {decl : Decl} :
    isConstant decl ↔ decl.kind = .enumConst ∨ decl.kind = .global ∧ decl.mods.has .const := by
  simp [isConstant]

/-- What an assignment writes is found to be a constant exactly when it is one. -/
theorem writesConstant_iff {decl : Decl} :
    WritesConstant tree state target written decl ↔
      assigned? tree state target = some written ∧
        ((assigned? tree state target).bind tree.decls.get?).filter isConstant = some decl := by
  rw [WritesConstant, Option.filter_eq_some_iff, isConstant_iff]
  constructor
  · rintro ⟨place, isTarget, found, isConst⟩
    have isAssigned := assigned?_eq_some_iff.mpr ⟨place, isTarget⟩
    rw [isAssigned]
    exact ⟨rfl, found, isConst⟩
  · rintro ⟨isAssigned, found, isConst⟩
    rw [isAssigned, Option.bind_some] at found
    obtain ⟨place, isTarget⟩ := assigned?_eq_some_iff.mp isAssigned
    exact ⟨place, isTarget, found, isConst⟩

theorem mem_purityFindings_iff (forest : tree.Forest loose) (holds : tree.Holds (.expr target)) :
    diagnostic ∈ purityFindings tree state place target span ↔
      ∃ callable root decl, place.callable = some callable ∧ (modsOf tree callable).has .pure ∧
        Root tree state target root ∧ tree.decls.get? root = some decl ∧
        (decl.kind = .param ∧ ¬decl.mods.has .input ∧
          diagnostic = (Diagnostic.warning .pureSideEffect span
            [tree.nameOf callable, tree.nameOf root]).withHint .markIn [tree.nameOf root] ∨
        decl.kind = .global ∧
          diagnostic = Diagnostic.warning .pureSideEffect span
            [tree.nameOf callable, tree.nameOf root]) := by
  simp only [← root?_eq_some_iff forest state holds]
  unfold purityFindings
  cases place.callable with
  | none => simp
  | some callable =>
    cases root? tree state target with
    | none => grind
    | some root =>
      cases found : tree.decls.get? root with
      | none => grind
      | some decl => grind

theorem mem_assignFindings_iff :
    diagnostic ∈ assignFindings tree state place target span ↔
      (∃ written decl, WritesConstant tree state target written decl ∧
        diagnostic = (Diagnostic.error .constAssign span [tree.nameOf written]).withNote decl.span
          "declared here") ∨
      (∀ written decl, ¬WritesConstant tree state target written decl) ∧
        diagnostic ∈ purityFindings tree state place target span := by
  simp only [writesConstant_iff]
  unfold assignFindings
  cases assigned? tree state target with
  | none => simp
  | some written =>
    cases ((some written).bind tree.decls.get?).filter isConstant with
    | none => simp
    | some decl => simp

theorem holds_target (forest : tree.Forest loose) {id : StmtId} {stmt : Stmt}
    (found : tree.stmts.get? id = some stmt) (form : stmt.form = .assign target value) :
    tree.Holds (.expr target) :=
  forest.holds_part (show .expr target ∈ tree.parts (.stmt id) by
    simp [Tree.parts, found, form, StmtForm.parts])

theorem fault_of_mem_findings (forest : tree.Forest loose) {node : Node}
    (around : tree.Around node place) (member : diagnostic ∈ findings tree state place node) :
    Fault tree state node diagnostic := by
  cases node with
  | expr id =>
    simp only [findings] at member
    split at member
    · nomatch member
    · next expr found =>
      have access {receiver : ExprId} (isReceiver : expr.form.receiver? = some receiver)
          (member : diagnostic ∈
            accessFindings tree place receiver (target? state id) expr.span) :
          Fault tree state (.expr id) diagnostic := by
        obtain ⟨reached, decl, isTarget, isDecl, isMember, other, apart, hidden, rfl⟩ :=
          mem_accessFindings_iff.mp member
        exact .access found isReceiver other isTarget isDecl isMember hidden around apart
      have recursion (isCall : expr.form.IsCall)
          (member : diagnostic ∈
            recursionFindings tree place (target? state id) expr.span) :
          Fault tree state (.expr id) diagnostic := by
        obtain ⟨callable, isCallable, isTarget, unmarked, rfl⟩ :=
          mem_recursionFindings_iff.mp member
        exact .recursion found isCall around isCallable isTarget unmarked
      cases form : expr.form with
      | field receiver name =>
        simp only [form] at member
        exact access (by rw [form]; rfl) member
      | call name typeArgs args =>
        simp only [form] at member
        exact recursion (by rw [form]; trivial) member
      | methodCall receiver name args =>
        simp only [form, List.mem_append] at member
        rcases member with member | member
        · exact access (by rw [form]; rfl) member
        · exact recursion (by rw [form]; trivial) member
      | create created inits =>
        simp only [form] at member
        obtain ⟨owner, refers, isClass, isAbstract, rfl⟩ := mem_creationFindings_iff.mp member
        exact .creation found form refers isClass isAbstract
      | _ => simp [form] at member
  | stmt id =>
    simp only [findings] at member
    split at member
    · nomatch member
    · next stmt found =>
      cases form : stmt.form with
      | assign target value =>
        simp only [form] at member
        rcases mem_assignFindings_iff.mp member with
          ⟨written, decl, constant, rfl⟩ | ⟨never, member⟩
        · exact .constant found form constant
        · obtain ⟨callable, root, decl, isCallable, isPure, isRoot, isDecl, which⟩ :=
            (mem_purityFindings_iff forest (holds_target forest found form)).mp member
          rcases which with ⟨isParam, unmarked, rfl⟩ | ⟨isGlobal, rfl⟩
          · exact .parameter found form never around isCallable isPure isRoot isDecl isParam unmarked
          · exact .global found form never around isCallable isPure isRoot isDecl isGlobal
      | _ => simp [form] at member
  | _ => simp [findings] at member

theorem mem_findings_of_fault (forest : tree.Forest loose) {node : Node}
    (around : tree.Around node place) (fault : Fault tree state node diagnostic) :
    diagnostic ∈ findings tree state place node := by
  cases fault with
  | @access id expr receiver reached decl other found isReceiver notThis isTarget isDecl isMember
      hidden around' apart =>
    have member : _ ∈ accessFindings tree place receiver (target? state id) expr.span :=
      mem_accessFindings_iff.mpr ⟨reached, decl, isTarget, isDecl, isMember, notThis,
        around'.enclosing_eq around ▸ apart, hidden, rfl⟩
    cases form : expr.form with
    | field receiver' name =>
      obtain rfl : receiver' = receiver := Option.some.inj (by rw [← isReceiver, form]; rfl)
      simpa only [findings, found, form] using member
    | methodCall receiver' name args =>
      obtain rfl : receiver' = receiver := Option.some.inj (by rw [← isReceiver, form]; rfl)
      simp only [findings, found, form]
      exact List.mem_append_left _ member
    | _ => simp [form, ExprForm.receiver?] at isReceiver
  | @recursion id expr callable other found isCall around' isCallable isTarget unmarked =>
    have member : _ ∈ recursionFindings tree place (target? state id) expr.span :=
      mem_recursionFindings_iff.mpr
        ⟨callable, around'.callable_eq around ▸ isCallable, isTarget, unmarked, rfl⟩
    cases form : expr.form with
    | call name typeArgs args => simpa only [findings, found, form] using member
    | methodCall receiver name args =>
      simp only [findings, found, form]
      exact List.mem_append_right _ member
    | _ => simp [form, ExprForm.IsCall] at isCall
  | creation found form refers isClass isAbstract =>
    simp only [findings, found, form]
    exact mem_creationFindings_iff.mpr ⟨_, refers, isClass, isAbstract, rfl⟩
  | constant found form constant =>
    simp only [findings, found, form]
    exact mem_assignFindings_iff.mpr (.inl ⟨_, _, constant, rfl⟩)
  | @parameter id stmt target value other callable root decl found form never around' isCallable
      isPure isRoot isDecl isParam unmarked =>
    simp only [findings, found, form]
    exact mem_assignFindings_iff.mpr (.inr ⟨never,
      (mem_purityFindings_iff forest (holds_target forest found form)).mpr
      ⟨callable, root, decl, around'.callable_eq around ▸ isCallable, isPure, isRoot, isDecl,
        .inl ⟨isParam, unmarked, rfl⟩⟩⟩)
  | @global id stmt target value other callable root decl found form never around' isCallable
      isPure isRoot isDecl isGlobal =>
    simp only [findings, found, form]
    exact mem_assignFindings_iff.mpr (.inr ⟨never,
      (mem_purityFindings_iff forest (holds_target forest found form)).mpr
      ⟨callable, root, decl, around'.callable_eq around ▸ isCallable, isPure, isRoot, isDecl,
        .inr ⟨isGlobal, rfl⟩⟩⟩)

/-- What is found at a node, when it is looked for in the place where the node stands, is what
is wrong with it. -/
theorem mem_findings_iff (forest : tree.Forest loose) {node : Node}
    (around : tree.Around node place) :
    diagnostic ∈ findings tree state place node ↔ Fault tree state node diagnostic :=
  ⟨fault_of_mem_findings forest around, mem_findings_of_fault forest around⟩

/-- No two things that are wrong with a node have one code. -/
theorem nodup_codes_findings (tree : Tree) (state : Analysis) (place : Place) (node : Node) :
    ((findings tree state place node).map Diagnostic.code).Nodup := by
  have access (receiver : ExprId) (member : Option DeclId) (span : Span) :
      (accessFindings tree place receiver member span).map Diagnostic.code = [] ∨
        (accessFindings tree place receiver member span).map Diagnostic.code =
          [.privateAccess] := by
    unfold accessFindings
    grind [Diagnostic.error, Diagnostic.withHint, Diagnostic.withNote]
  have recursion (callee : Option DeclId) (span : Span) :
      (recursionFindings tree place callee span).map Diagnostic.code = [] ∨
        (recursionFindings tree place callee span).map Diagnostic.code = [.recursion] := by
    unfold recursionFindings
    grind [Diagnostic.error, Diagnostic.withHint]
  have short {found : List Diagnostic} (one : found.length ≤ 1) :
      (found.map Diagnostic.code).Nodup := by
    match found, one with
    | [], _ => exact List.nodup_nil
    | [_], _ => exact List.nodup_singleton _
  unfold findings
  split
  · split
    · exact List.nodup_nil
    · next id _ expr _ =>
      split
      · rcases access _ (target? state id) expr.span with same | same <;> rw [same] <;> simp
      · rcases recursion (target? state id) expr.span with same | same <;> rw [same] <;> simp
      · rw [List.map_append]
        rcases access _ (target? state id) expr.span with same | same <;>
          rcases recursion (target? state id) expr.span with same' | same' <;>
          rw [same, same'] <;> decide
      · refine short ?_
        unfold creationFindings
        grind
      · exact List.nodup_nil
  · split
    · exact List.nodup_nil
    · split
      · refine short ?_
        unfold assignFindings purityFindings
        grind
      · exact List.nodup_nil
  · exact List.nodup_nil

end Rules

end TreeCheck
