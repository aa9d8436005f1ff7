/-
Two loaders side by side. They come from one loader, and the second has had some more nodes
added that nothing leads to. What is built in both from then on is alike: the same files
and units, the same texts, and every node of the first has a twin in the second, with a
number that is larger by as many nodes as were added. Whether a build fails, and how, is
the same in both.

With nothing added the two are one loader, and what remains of being alike is that a build
leaves the nodes that were there before as they are.
-/

import Mathlib.Data.List.Forall2
import TreeCheck.Proofs.Tree.Loading
import TreeCheck.Proofs.Tree.Visit

namespace TreeCheck

variable {change change' : ProgramUnit → ProgramUnit} {form : ExprForm} {loader : Loader}

/-! ### Names -/

namespace Names

/-- Every number handed out keeps its text. -/
def Extends (before after : Names) : Prop :=
  ∀ id text, before.text? id = some text → after.text? id = some text

theorem Extends.refl (names : Names) : names.Extends names := fun _ _ found => found

theorem Extends.trans {before middle after : Names} (first : before.Extends middle)
    (second : middle.Extends after) : before.Extends after :=
  fun id text found => second id text (first id text found)

theorem text?_intern (names : Names) (text : String) :
    (names.intern text).2.text? (names.intern text).1 = some (Text.Composition.canonical text) := by
  unfold intern
  split
  · next id known =>
    obtain ⟨index, found, isIndex⟩ := Option.map_eq_some_iff.mp known
    have holds : names.texts[index] = Text.Composition.canonical text :=
      (Array.finIdxOf?_eq_some_iff.mp found).1
    subst isIndex
    rw [text?, ← holds, Fin.getElem_fin, Array.getElem?_eq_getElem]
  · simp [text?, size]

theorem extends_intern (names : Names) (text : String) : names.Extends (names.intern text).2 := by
  unfold intern
  split
  · exact .refl _
  · intro id other found
    have bound := (Array.getElem?_eq_some_iff.mp found).1
    rw [text?, Array.getElem?_push_lt bound, ← Array.getElem?_eq_getElem bound]
    exact found

end Names

/-- The names of two loaders. -/
structure NamesPair where
  first : Names
  second : Names

namespace NamesPair

/-- The two numbers stand for one text. -/
def Same (names : NamesPair) (name twin : NameId) : Prop :=
  ∃ text, names.first.text? name = some text ∧ names.second.text? twin = some text

def Extends (before after : NamesPair) : Prop :=
  before.first.Extends after.first ∧ before.second.Extends after.second

variable {before middle after : NamesPair}

theorem Extends.refl (names : NamesPair) : names.Extends names := ⟨.refl _, .refl _⟩

theorem Extends.trans (first : before.Extends middle) (second : middle.Extends after) :
    before.Extends after :=
  ⟨first.1.trans second.1, first.2.trans second.2⟩

theorem Same.mono {name twin : NameId} (same : before.Same name twin)
    (grown : before.Extends after) : after.Same name twin := by
  obtain ⟨text, found, found'⟩ := same
  exact ⟨text, grown.1 _ _ found, grown.2 _ _ found'⟩

end NamesPair

/-! ### Numbers and nodes -/

/-- Where two loaders come from, and how many nodes of each sort were added to the second. -/
structure Origin where
  loader : Loader
  addedDecls : Nat := 0
  addedStmts : Nat := 0
  addedExprs : Nat := 0
  addedTypes : Nat := 0

namespace Origin

variable (origin : Origin)

/-- The numbers of a new node and of its twin, in an arena of some size before. -/
def Moved (size added id twin : Nat) : Prop := size < id ∧ twin = id + added

abbrev Decl (id twin : DeclId) : Prop := Moved origin.loader.tree.decls.size origin.addedDecls id twin

abbrev Stmt (id twin : StmtId) : Prop := Moved origin.loader.tree.stmts.size origin.addedStmts id twin

abbrev Expr (id twin : ExprId) : Prop := Moved origin.loader.tree.exprs.size origin.addedExprs id twin

abbrev TypeExpr (id twin : TypeExprId) : Prop :=
  Moved origin.loader.tree.types.size origin.addedTypes id twin

/-- A declaration of the origin, or a new one and its twin. -/
def Member (id twin : DeclId) : Prop :=
  id ≤ origin.loader.tree.decls.size ∧ twin = id ∨ origin.Decl id twin

def Statement (id twin : StmtId) : Prop :=
  id ≤ origin.loader.tree.stmts.size ∧ twin = id ∨ origin.Stmt id twin

end Origin

section Alike

variable (origin : Origin) (names : NamesPair)

inductive TypeExprForm.Alike : TypeExprForm → TypeExprForm → Prop
  | named {name name' args args'} (same : names.Same name name')
      (each : List.Forall₂ (Option.Rel origin.TypeExpr) args args') :
      Alike (.named name args) (.named name' args')
  | list {base base'} (dims : UInt8) (moved : origin.TypeExpr base base') :
      Alike (.list base dims) (.list base' dims)
  | array {base base'} (dims : UInt8) (moved : origin.TypeExpr base base') :
      Alike (.array base dims) (.array base' dims)
  | tuple {elems elems'} (each : List.Forall₂ (Option.Rel origin.TypeExpr) elems elems') :
      Alike (.tuple elems) (.tuple elems')
  | union {members members'} (each : List.Forall₂ (Option.Rel origin.TypeExpr) members members') :
      Alike (.union members) (.union members')

structure TypeExpr.Alike (type twin : TypeExpr) : Prop where
  form : type.form.Alike origin names twin.form
  span : twin.span = type.span

structure FieldInit.Alike (init twin : FieldInit) : Prop where
  name : names.Same init.name twin.name
  value : origin.Expr init.value twin.value
  span : twin.span = init.span

inductive ExprForm.Alike : ExprForm → ExprForm → Prop
  | literal (kind : LiteralKind) (value : String) : Alike (.literal kind value) (.literal kind value)
  | name {name name'} (same : names.Same name name') : Alike (.name name) (.name name')
  | this : Alike .this .this
  | field {receiver receiver' name name'} (moved : origin.Expr receiver receiver')
      (same : names.Same name name') : Alike (.field receiver name) (.field receiver' name')
  | index {target target' indices indices'} (moved : origin.Expr target target')
      (each : List.Forall₂ origin.Expr indices indices') :
      Alike (.index target indices) (.index target' indices')
  | call {name name' typeArgs typeArgs' args args'} (same : names.Same name name')
      (types : List.Forall₂ (Option.Rel origin.TypeExpr) typeArgs typeArgs')
      (each : List.Forall₂ origin.Expr args args') :
      Alike (.call name typeArgs args) (.call name' typeArgs' args')
  | methodCall {receiver receiver' name name' args args'} (moved : origin.Expr receiver receiver')
      (same : names.Same name name') (each : List.Forall₂ origin.Expr args args') :
      Alike (.methodCall receiver name args) (.methodCall receiver' name' args')
  | binary {left left' right right'} (op : BinaryOp) (moved : origin.Expr left left')
      (moved' : origin.Expr right right') : Alike (.binary op left right) (.binary op left' right')
  | unary {operand operand'} (op : UnaryOp) (moved : origin.Expr operand operand') :
      Alike (.unary op operand) (.unary op operand')
  | cast {target target' operand operand'} (moved : origin.TypeExpr target target')
      (moved' : origin.Expr operand operand') : Alike (.cast target operand) (.cast target' operand')
  | create {type type' inits inits'} (moved : origin.TypeExpr type type')
      (each : List.Forall₂ (FieldInit.Alike origin names) inits inits') :
      Alike (.create type inits) (.create type' inits')
  | list {elem elem' elems elems'} (moved : Option.Rel origin.TypeExpr elem elem')
      (each : List.Forall₂ origin.Expr elems elems') : Alike (.list elem elems) (.list elem' elems')
  | tuple {elems elems'} (each : List.Forall₂ origin.Expr elems elems') :
      Alike (.tuple elems) (.tuple elems')

structure Expr.Alike (expr twin : Expr) : Prop where
  form : expr.form.Alike origin names twin.form
  span : twin.span = expr.span

structure CaseArm.Alike (arm twin : CaseArm) : Prop where
  values : List.Forall₂ origin.Expr arm.values twin.values
  body : origin.Stmt arm.body twin.body
  span : twin.span = arm.span

inductive StmtForm.Alike : StmtForm → StmtForm → Prop
  | block {stmts stmts'} (each : List.Forall₂ (Option.Rel origin.Stmt) stmts stmts') :
      Alike (.block stmts) (.block stmts')
  | decl {decl decl'} (moved : origin.Decl decl decl') : Alike (.decl decl) (.decl decl')
  | expr {expr expr'} (moved : origin.Expr expr expr') : Alike (.expr expr) (.expr expr')
  | assign {target target' value value'} (moved : origin.Expr target target')
      (moved' : origin.Expr value value') : Alike (.assign target value) (.assign target' value')
  | branch {cond cond' first first' second second'} (moved : origin.Expr cond cond')
      (thenMoved : origin.Stmt first first') (elseMoved : Option.Rel origin.Stmt second second') :
      Alike (.branch cond first second) (.branch cond' first' second')
  | whileLoop {cond cond' body body'} (moved : origin.Expr cond cond')
      (moved' : origin.Stmt body body') : Alike (.whileLoop cond body) (.whileLoop cond' body')
  | forLoop {counter counter' first first' last last' body body'}
      (counterMoved : origin.Decl counter counter') (firstMoved : origin.Expr first first')
      (lastMoved : origin.Expr last last') (bodyMoved : origin.Stmt body body') :
      Alike (.forLoop counter first last body) (.forLoop counter' first' last' body')
  | case {subject subject' arms arms' default default'} (moved : origin.Expr subject subject')
      (each : List.Forall₂ (CaseArm.Alike origin) arms arms')
      (defaultMoved : Option.Rel origin.Stmt default default') :
      Alike (.case subject arms default) (.case subject' arms' default')
  | ret {value value'} (moved : Option.Rel origin.Expr value value') : Alike (.ret value) (.ret value')

structure Stmt.Alike (stmt twin : Stmt) : Prop where
  form : stmt.form.Alike origin twin.form
  span : twin.span = stmt.span

structure Callable.Alike (callable twin : Callable) : Prop where
  params : List.Forall₂ origin.Decl callable.params twin.params
  typeParams : List.Forall₂ origin.Decl callable.typeParams twin.typeParams
  body : Option.Rel origin.Stmt callable.body twin.body

structure ClassBody.Alike (body twin : ClassBody) : Prop where
  base : Option.Rel origin.TypeExpr body.base twin.base
  typeParams : List.Forall₂ origin.Decl body.typeParams twin.typeParams
  fields : List.Forall₂ origin.Decl body.fields twin.fields
  methods : List.Forall₂ origin.Decl body.methods twin.methods

inductive DeclForm.Alike : DeclForm → DeclForm → Prop
  | variable (kind : VariableKind) : Alike (.variable kind) (.variable kind)
  | function {callable callable'} (alike : callable.Alike origin callable') :
      Alike (.function callable) (.function callable')
  | method {callable callable'} (alike : callable.Alike origin callable') :
      Alike (.method callable) (.method callable')
  | classDecl {body body'} (alike : body.Alike origin body') :
      Alike (.classDecl body) (.classDecl body')
  | enum {consts consts'} (each : List.Forall₂ origin.Decl consts consts') :
      Alike (.enum consts) (.enum consts')
  | templateParam (constraint : Constraint) : Alike (.templateParam constraint)
    (.templateParam constraint)
  | importDecl (path : String) (target : Option UnitId) :
      Alike (.importDecl path target) (.importDecl path target)

structure Decl.Alike (decl twin : Decl) : Prop where
  form : decl.form.Alike origin twin.form
  name : names.Same decl.name twin.name
  type : Option.Rel origin.TypeExpr decl.type twin.type
  init : Option.Rel origin.Expr decl.init twin.init
  mods : twin.mods = decl.mods
  owner : Option.Rel origin.Decl decl.owner twin.owner
  span : twin.span = decl.span

structure ProgramUnit.Alike (unit twin : ProgramUnit) : Prop where
  file : twin.file = unit.file
  span : twin.span = unit.span
  imports : List.Forall₂ origin.Member unit.imports twin.imports
  enums : List.Forall₂ origin.Member unit.enums twin.enums
  globals : List.Forall₂ origin.Member unit.globals twin.globals
  classes : List.Forall₂ origin.Member unit.classes twin.classes
  functions : List.Forall₂ origin.Member unit.functions twin.functions
  main : Option.Rel origin.Member unit.main twin.main
  stmts : List.Forall₂ origin.Statement unit.stmts twin.stmts

end Alike

/-! ### Later names -/

section Growth

variable {origin : Origin} {before after : NamesPair}

theorem TypeExprForm.Alike.mono {form twin : TypeExprForm} (alike : form.Alike origin before twin)
    (grown : before.Extends after) : form.Alike origin after twin := by
  cases alike with
  | named same each => exact .named (same.mono grown) each
  | list dims moved => exact .list dims moved
  | array dims moved => exact .array dims moved
  | tuple each => exact .tuple each
  | union each => exact .union each

theorem TypeExpr.Alike.mono {type twin : TypeExpr} (alike : type.Alike origin before twin)
    (grown : before.Extends after) : type.Alike origin after twin :=
  { alike with form := alike.form.mono grown }

theorem FieldInit.Alike.mono {init twin : FieldInit} (alike : init.Alike origin before twin)
    (grown : before.Extends after) : init.Alike origin after twin :=
  { alike with name := alike.name.mono grown }

theorem ExprForm.Alike.mono {twin : ExprForm} (alike : form.Alike origin before twin)
    (grown : before.Extends after) : form.Alike origin after twin := by
  cases alike with
  | literal kind value => exact .literal kind value
  | name same => exact .name (same.mono grown)
  | this => exact .this
  | field moved same => exact .field moved (same.mono grown)
  | index moved each => exact .index moved each
  | call same types each => exact .call (same.mono grown) types each
  | methodCall moved same each => exact .methodCall moved (same.mono grown) each
  | binary op moved moved' => exact .binary op moved moved'
  | unary op moved => exact .unary op moved
  | cast moved moved' => exact .cast moved moved'
  | create moved each => exact .create moved (each.imp fun _ _ alike => alike.mono grown)
  | list moved each => exact .list moved each
  | tuple each => exact .tuple each

theorem Expr.Alike.mono {expr twin : Expr} (alike : expr.Alike origin before twin)
    (grown : before.Extends after) : expr.Alike origin after twin :=
  { alike with form := alike.form.mono grown }

theorem Decl.Alike.mono {decl twin : Decl} (alike : decl.Alike origin before twin)
    (grown : before.Extends after) : decl.Alike origin after twin :=
  { alike with name := alike.name.mono grown }

end Growth

/-! ### Arenas -/

namespace Arena

variable {α : Type} {origin first second : Arena α} {added : Nat} {alike : α → α → Prop}

/-- Two arenas that were one, before some items were added to the second. -/
structure Beside (origin : Arena α) (added : Nat) (alike : α → α → Prop)
    (first second : Arena α) : Prop where
  grown : origin.size ≤ first.size
  size : second.size = first.size + added
  firstKept : ∀ id ≤ origin.size, first.get? id = origin.get? id
  secondKept : ∀ id ≤ origin.size, second.get? id = origin.get? id
  twins : ∀ id item, origin.size < id → first.get? id = some item →
    ∃ twin, second.get? (id + added) = some twin ∧ alike item twin

/-- Nothing is new yet. -/
theorem Beside.self (arena : Arena α) (alike : α → α → Prop) : arena.Beside 0 alike arena arena where
  grown := Nat.le_refl _
  size := rfl
  firstKept _ _ := rfl
  secondKept _ _ := rfl
  twins _ _ new found := absurd (get?_eq_some_le found).2 (Nat.not_le.mpr new)

section

variable (beside : Beside origin added alike first second)

include beside

theorem Beside.mono {more : α → α → Prop} (weaker : ∀ item twin, alike item twin → more item twin) :
    Beside origin added more first second := by
  refine { beside with twins := fun id item new found => ?_ }
  obtain ⟨twin, found', alike⟩ := beside.twins id item new found
  exact ⟨twin, found', weaker item twin alike⟩

theorem Beside.next :
    Origin.Moved origin.size added first.next second.next := by
  have grown := beside.grown
  have size := beside.size
  exact ⟨Nat.lt_succ_of_le grown, by simp only [Arena.next]; omega⟩

theorem Beside.push {item twin : α}
    (isAlike : alike item twin) :
    Beside origin added alike (first.push item) (second.push twin) := by
  have grown := beside.grown
  have size := beside.size
  constructor
  case grown =>
    rw [size_push]
    omega
  case size =>
    rw [size_push, size_push]
    omega
  case firstKept =>
    intro id old
    rw [get?_push_other _ _ (by simp only [Arena.next]; omega)]
    exact beside.firstKept id old
  case secondKept =>
    intro id old
    rw [get?_push_other _ _ (by simp only [Arena.next]; omega)]
    exact beside.secondKept id old
  case twins =>
    intro id other new found
    by_cases last : id = first.next
    · subst last
      rw [get?_push_self] at found
      cases found
      rw [show first.next + added = second.next by simp only [Arena.next]; omega, get?_push_self]
      exact ⟨twin, rfl, isAlike⟩
    · rw [get?_push_other _ _ last] at found
      rw [get?_push_other _ _ (by simp only [Arena.next] at last ⊢; omega)]
      exact beside.twins id other new found

/-- A new item and its twin are changed. -/
theorem Beside.modify {id twin : Nat}
    (moved : Origin.Moved origin.size added id twin) {change change' : α → α}
    (keeps : ∀ item twin, alike item twin → alike (change item) (change' twin)) :
    Beside origin added alike (first.modify id change) (second.modify twin change') := by
  obtain ⟨new, rfl⟩ := moved
  constructor
  case grown => rw [size_modify]; exact beside.grown
  case size => rw [size_modify, size_modify]; exact beside.size
  case firstKept =>
    intro other old
    rw [get?_modify, if_neg (by omega)]
    exact beside.firstKept other old
  case secondKept =>
    intro other old
    rw [get?_modify, if_neg (by omega)]
    exact beside.secondKept other old
  case twins =>
    intro other item new' found
    rw [get?_modify] at found ⊢
    by_cases same : other = id
    · rw [if_pos same] at found
      obtain ⟨old, there, rfl⟩ := Option.map_eq_some_iff.mp found
      obtain ⟨oldTwin, there', isAlike⟩ := beside.twins other old new' there
      rw [if_pos (congrArg (· + added) same), there']
      exact ⟨_, rfl, keeps _ _ isAlike⟩
    · rw [if_neg same] at found
      rw [if_neg fun sum => same (Nat.add_right_cancel sum)]
      exact beside.twins other item new' found

end

end Arena

/-! ### Loaders -/

/-- The names of two loaders. -/
abbrev Loader.namesBeside (first second : Loader) : NamesPair := ⟨first.tree.names, second.tree.names⟩

/-- Two loaders that were one, before the second had nodes added that nothing leads to. -/
structure Origin.Beside (origin : Origin) (first second : Loader) : Prop where
  source : first.source = origin.loader.source
  source' : second.source = first.source
  files : second.files = first.files
  registered : second.units = first.units
  unitCount : second.tree.units.size = first.tree.units.size
  unitsGrown : origin.loader.tree.units.size ≤ first.tree.units.size
  units : ∀ id unit, first.tree.units.get? id = some unit →
    ∃ twin, second.tree.units.get? id = some twin ∧ unit.Alike origin twin
  decls : origin.loader.tree.decls.Beside origin.addedDecls
    (Decl.Alike origin (first.namesBeside second)) first.tree.decls second.tree.decls
  stmts : origin.loader.tree.stmts.Beside origin.addedStmts (Stmt.Alike origin)
    first.tree.stmts second.tree.stmts
  exprs : origin.loader.tree.exprs.Beside origin.addedExprs
    (Expr.Alike origin (first.namesBeside second)) first.tree.exprs second.tree.exprs
  types : origin.loader.tree.types.Beside origin.addedTypes
    (TypeExpr.Alike origin (first.namesBeside second)) first.tree.types second.tree.types

namespace Loader

/-- The parts of every unit are there. -/
def Sound (loader : Loader) : Prop :=
  ∀ id unit, loader.tree.units.get? id = some unit → ∀ part ∈ unit.parts, loader.tree.Holds part

theorem sound_of_forest {loose : List Node} (forest : loader.tree.Forest loose) : loader.Sound := by
  intro id unit found part member
  have isPart : part ∈ loader.tree.parts (.unit id) := by
    simp only [Tree.parts, found, Option.map_some, Option.getD_some, member]
  exact forest.holds_part isPart

theorem Sound.alike (sound : loader.Sound) (origin : Origin) (isOrigin : origin.loader = loader)
    {id : UnitId} {unit : ProgramUnit} (found : loader.tree.units.get? id = some unit) :
    unit.Alike origin unit := by
  subst isOrigin
  have decl (kind : DeclKind) (decl : DeclId) (member : .decl kind decl ∈ unit.parts) :
      origin.Member decl decl := by
    obtain ⟨_, isDecl, _⟩ := Option.map_eq_some_iff.mp (sound id unit found _ member)
    exact .inl ⟨(Arena.get?_eq_some_le isDecl).2, rfl⟩
  have stmt (stmt : StmtId) (member : .stmt stmt ∈ unit.parts) : origin.Statement stmt stmt := by
    have isStmt : (origin.loader.tree.stmts.get? stmt).isSome := sound id unit found _ member
    exact .inl ⟨((Arena.isSome_get?_iff _ _).mp isStmt).2, rfl⟩
  have decls (kind : DeclKind) {decls : List DeclId}
      (members : ∀ id ∈ decls, .decl kind id ∈ unit.parts) :
      List.Forall₂ origin.Member decls decls :=
    List.forall₂_same.mpr fun id member => decl kind id (members id member)
  constructor
  case file => rfl
  case span => rfl
  case imports => exact decls .importDecl fun id member => by simp [ProgramUnit.parts, member]
  case enums => exact decls .enum fun id member => by simp [ProgramUnit.parts, member]
  case globals => exact decls .global fun id member => by simp [ProgramUnit.parts, member]
  case classes => exact decls .classDecl fun id member => by simp [ProgramUnit.parts, member]
  case functions => exact decls .function fun id member => by simp [ProgramUnit.parts, member]
  case main =>
    cases isMain : unit.main with
    | none => exact .none
    | some main => exact .some (decl .function main (by simp [ProgramUnit.parts, isMain]))
  case stmts =>
    exact List.forall₂_same.mpr fun id member => stmt id (by simp [ProgramUnit.parts, member])

/-- A loader is beside itself. -/
theorem Sound.beside (sound : loader.Sound) :
    Origin.Beside { loader := loader } loader loader where
  source := rfl
  source' := rfl
  files := rfl
  registered := rfl
  unitCount := rfl
  unitsGrown := Nat.le_refl _
  units _ unit found := ⟨unit, found, sound.alike _ rfl found⟩
  decls := .self _ _
  stmts := .self _ _
  exprs := .self _ _
  types := .self _ _

end Loader

/-- A unit is changed in both. -/
theorem Origin.Beside.modifyUnit {origin : Origin} {first second : Loader}
    (beside : origin.Beside first second) (id : UnitId)
    (keeps : ∀ unit unit', unit.Alike origin unit' → (change unit).Alike origin (change' unit')) :
    origin.Beside
      { first with tree := { first.tree with units := first.tree.units.modify id change } }
      { second with tree := { second.tree with units := second.tree.units.modify id change' } } := by
  refine { beside with unitCount := ?_, unitsGrown := ?_, units := fun other unit found => ?_ }
  · rw [Arena.size_modify, Arena.size_modify, beside.unitCount]
  · rw [Arena.size_modify]
    exact beside.unitsGrown
  · rw [Arena.get?_modify] at found ⊢
    split at found
    · next same =>
      obtain ⟨old, there, rfl⟩ := Option.map_eq_some_iff.mp found
      obtain ⟨twin, there', alike⟩ := beside.units other old there
      rw [if_pos same, there']
      exact ⟨_, rfl, keeps old twin alike⟩
    · next differs =>
      rw [if_neg differs]
      exact beside.units other unit found

/-- What a build may do to the units: it registers new ones, and leaves those alone that were there
before some number. -/
structure Loader.Later (mark : Nat) (before after : Loader) : Prop where
  names : before.tree.names.Extends after.tree.names
  registers : ∃ added, after.units = added ++ before.units ∧
    after.tree.units.size = before.tree.units.size + added.length ∧
    (added = [] → after.files = before.files)
  kept : ∀ id ≤ mark, after.tree.units.get? id = before.tree.units.get? id

namespace Loader.Later

variable {mark : Nat} {before middle after : Loader}

theorem refl (mark : Nat) (loader : Loader) : Later mark loader loader :=
  ⟨.refl _, ⟨[], rfl, rfl, fun _ => rfl⟩, fun _ _ => rfl⟩

theorem trans (first : Later mark before middle) (second : Later mark middle after) :
    Later mark before after := by
  obtain ⟨added, isAdded, count, files⟩ := first.registers
  obtain ⟨more, isAdded', count', files'⟩ := second.registers
  refine ⟨first.names.trans second.names, ⟨more ++ added, ?_, ?_, fun none => ?_⟩,
    fun id old => (second.kept id old).trans (first.kept id old)⟩
  · rw [isAdded', isAdded, List.append_assoc]
  · rw [count', count, List.length_append]
    omega
  · obtain ⟨rfl, rfl⟩ := List.append_eq_nil_iff.mp none
    exact (files' rfl).trans (files rfl)

end Loader.Later

/-! ### Actions -/

/-- What two loaders become. -/
structure Origin.Goes (origin : Origin) (first second after after' : Loader) : Prop where
  beside : origin.Beside after after'
  later : Loader.Later origin.loader.tree.units.size first after
  names : (first.namesBeside second).Extends (after.namesBeside after')

theorem Origin.Goes.trans {origin : Origin} {first second middle middle' after after' : Loader}
    (goes : origin.Goes first second middle middle')
    (goes' : origin.Goes middle middle' after after') : origin.Goes first second after after' :=
  ⟨goes'.beside, goes.later.trans goes'.later, goes.names.trans goes'.names⟩

namespace LoadM

variable {α β : Type} {origin : Origin} {names : NamesPair}

/-- The two results are values that are given together, or the same fault. -/
def Matches (origin : Origin) (first second : Loader) (gives : NamesPair → α → α → Prop) :
    EStateM.Result LoadError Loader α → EStateM.Result LoadError Loader α → Prop
  | .ok value after, .ok twin after' =>
    origin.Goes first second after after' ∧ gives (after.namesBeside after') value twin
  | .error fault after, .error fault' after' =>
    fault' = fault ∧ origin.Goes first second after after'
  | _, _ => False

theorem Matches.after {gives : NamesPair → α → α → Prop} {first second middle middle' : Loader}
    {result result' : EStateM.Result LoadError Loader α}
    (rest : Matches origin middle middle' gives result result')
    (goes : origin.Goes first second middle middle') :
    Matches origin first second gives result result' :=
  match result, result', rest with
  | .ok _ _, .ok _ _, ⟨goes', given⟩ => ⟨goes.trans goes', given⟩
  | .error _ _, .error _ _, ⟨same, goes'⟩ => ⟨same, goes.trans goes'⟩

/-- Two actions, each on a loader of its own, that stay side by side. Which numbers stand for the
same names is known from some moment on. -/
structure Twins (origin : Origin) (names : NamesPair) (action action' : LoadM α)
    (gives : NamesPair → α → α → Prop) : Prop where
  run : ∀ first second, origin.Beside first second →
    names.Extends (first.namesBeside second) →
      Matches origin first second gives (action first) (action' second)

namespace Twins

theorem stay {first second : Loader} (beside : origin.Beside first second) :
    origin.Goes first second first second :=
  ⟨beside, .refl _ _, .refl _⟩

theorem pure {gives : NamesPair → α → α → Prop} {value twin : α}
    (given : ∀ after, names.Extends after → gives after value twin) :
    Twins origin names (Pure.pure value) (Pure.pure twin) gives :=
  ⟨fun _ _ beside known => ⟨stay beside, given _ known⟩⟩

theorem throw {gives : NamesPair → α → α → Prop} (fault : LoadError) :
    Twins origin names (MonadExcept.throw fault) (MonadExcept.throw fault) gives :=
  ⟨fun _ _ beside _ => ⟨rfl, stay beside⟩⟩

theorem fail {gives : NamesPair → α → α → Prop} (place : BuildPlace) (subject : String)
    (extent : Doc.Extent) (fault : NodeFault) :
    Twins origin names (place.fail subject extent fault) (place.fail subject extent fault) gives :=
  throw _

theorem failThen {gives : NamesPair → β → β → Prop} {next next' : α → LoadM β}
    (place : BuildPlace) (subject : String) (extent : Doc.Extent) (fault : NodeFault) :
    Twins origin names (place.fail subject extent fault >>= next)
      (place.fail subject extent fault >>= next') gives :=
  ⟨fun _ _ beside _ => ⟨rfl, stay beside⟩⟩

theorem bind {gives : NamesPair → α → α → Prop} {result : NamesPair → β → β → Prop}
    {action action' : LoadM α} {next next' : α → LoadM β}
    (first : Twins origin names action action' gives)
    (second : ∀ later, names.Extends later → ∀ value twin, gives later value twin →
      Twins origin later (next value) (next' twin) result) :
    Twins origin names (action >>= next) (action' >>= next') result := by
  refine ⟨fun before before' beside known => ?_⟩
  have done := first.run before before' beside known
  show Matches origin before before' result (EStateM.bind action next before)
    (EStateM.bind action' next' before')
  unfold EStateM.bind
  cases ran : action before with
  | error fault after =>
    cases ran' : action' before' with
    | error fault' after' =>
      rw [ran, ran'] at done
      exact done
    | ok twin after' =>
      rw [ran, ran'] at done
      exact done.elim
  | ok value middle =>
    cases ran' : action' before' with
    | error fault' middle' =>
      rw [ran, ran'] at done
      exact done.elim
    | ok twin middle' =>
      rw [ran, ran'] at done
      obtain ⟨goes, given⟩ := done
      have rest := (second _ (known.trans goes.names) value twin given).run middle middle'
        goes.beside (.refl _)
      exact rest.after goes

theorem read {gives : NamesPair → β → β → Prop} {next next' : Loader → LoadM β}
    (each : ∀ first second, origin.Beside first second →
      Twins origin names (next first) (next' second) gives) :
    Twins origin names (get >>= next) (get >>= next') gives :=
  ⟨fun first second beside known => (each first second beside).run first second beside known⟩

/-! ### Steps -/

theorem intern (text : String) :
    Twins origin names (LoadM.intern text) (LoadM.intern text) NamesPair.Same := by
  refine ⟨fun first second beside _ => ?_⟩
  have grown : (first.namesBeside second).Extends
      ⟨(first.tree.names.intern text).2, (second.tree.names.intern text).2⟩ :=
    ⟨Names.extends_intern _ _, Names.extends_intern _ _⟩
  refine ⟨⟨?_, ⟨grown.1, ⟨[], rfl, rfl, fun _ => rfl⟩, fun _ _ => rfl⟩, grown⟩,
    _, Names.text?_intern _ text, Names.text?_intern _ text⟩
  exact { beside with
    decls := beside.decls.mono fun _ _ alike => alike.mono grown
    exprs := beside.exprs.mono fun _ _ alike => alike.mono grown
    types := beside.types.mono fun _ _ alike => alike.mono grown }

/-- A change of the tree that leaves names and units alone. -/
theorem goes_of_same {first second after after' : Loader} (beside : origin.Beside after after')
    (names : after.tree.names = first.tree.names) (names' : after'.tree.names = second.tree.names)
    (units : after.units = first.units) (files : after.files = first.files)
    (nodes : after.tree.units = first.tree.units) : origin.Goes first second after after' := by
  refine ⟨beside, ⟨?_, ⟨[], units, by rw [nodes]; rfl, fun _ => files⟩, fun _ _ => by rw [nodes]⟩,
    ?_, ?_⟩
  · rw [names]
    exact .refl _
  · dsimp only
    rw [names]
    exact .refl _
  · dsimp only
    rw [names']
    exact .refl _

theorem newExpr {form' : ExprForm} (span : Span) (alike : form.Alike origin names form') :
    Twins origin names (LoadM.newExpr ⟨form, span⟩) (LoadM.newExpr ⟨form', span⟩)
      fun _ => origin.Expr :=
  ⟨fun _ _ beside known =>
    ⟨goes_of_same { beside with exprs := beside.exprs.push ⟨alike.mono known, rfl⟩ }
      rfl rfl rfl rfl rfl, beside.exprs.next⟩⟩

theorem newStmt {form form' : StmtForm} (span : Span) (alike : form.Alike origin form') :
    Twins origin names (LoadM.newStmt ⟨form, span⟩) (LoadM.newStmt ⟨form', span⟩)
      fun _ => origin.Stmt :=
  ⟨fun _ _ beside _ =>
    ⟨goes_of_same { beside with stmts := beside.stmts.push ⟨alike, rfl⟩ }
      rfl rfl rfl rfl rfl, beside.stmts.next⟩⟩

theorem newType {form form' : TypeExprForm} (span : Span)
    (alike : form.Alike origin names form') :
    Twins origin names (LoadM.newType ⟨form, span⟩) (LoadM.newType ⟨form', span⟩)
      fun _ => origin.TypeExpr :=
  ⟨fun _ _ beside known =>
    ⟨goes_of_same { beside with types := beside.types.push ⟨alike.mono known, rfl⟩ }
      rfl rfl rfl rfl rfl, beside.types.next⟩⟩

theorem newDecl {decl decl' : Decl} (alike : decl.Alike origin names decl') :
    Twins origin names (LoadM.newDecl decl) (LoadM.newDecl decl') fun _ => origin.Decl :=
  ⟨fun _ _ beside known =>
    ⟨goes_of_same { beside with decls := beside.decls.push (alike.mono known) }
      rfl rfl rfl rfl rfl, beside.decls.next⟩⟩

theorem modifyDecl {id twin : DeclId} (moved : origin.Decl id twin) {change change' : Decl → Decl}
    (keeps : ∀ names decl decl', Decl.Alike origin names decl decl' →
      Decl.Alike origin names (change decl) (change' decl')) :
    Twins origin names (LoadM.modifyDecl id change) (LoadM.modifyDecl twin change')
      fun _ _ _ => True :=
  ⟨fun _ _ beside _ =>
    ⟨goes_of_same { beside with decls := beside.decls.modify moved (keeps _) }
      rfl rfl rfl rfl rfl, trivial⟩⟩

/-! ### Steps on units -/

/-- A unit gets the same number in both. -/
theorem registerUnit (path : String) (flags : FileFlags) :
    Twins origin names (LoadM.registerUnit path flags) (LoadM.registerUnit path flags)
      fun _ made twin => twin = made ∧ origin.loader.tree.units.size < made.1 := by
  refine ⟨fun first second beside _ => ?_⟩
  have grown := beside.unitsGrown
  have unitCount := beside.unitCount
  have sameNext : second.tree.units.next = first.tree.units.next := congrArg (· + 1) unitCount
  refine ⟨⟨?_, ⟨.refl _, ⟨[_], rfl, Arena.size_push _ _, nofun⟩, fun id old => ?_⟩, .refl _⟩,
    ?_, Nat.lt_succ_of_le grown⟩
  · refine { beside with
      files := congrArg (fun files : Files => (files.add path flags).2) beside.files
      registered := ?_, unitCount := ?_, unitsGrown := ?_, units := fun id unit found => ?_ }
    · dsimp only
      rw [beside.registered, sameNext]
    · rw [Arena.size_push, Arena.size_push, unitCount]
    · rw [Arena.size_push]
      omega
    · by_cases last : id = first.tree.units.next
      · subst last
        rw [Arena.get?_push_self] at found
        cases found
        refine ⟨_, by rw [← sameNext, Arena.get?_push_self], ?_⟩
        rw [beside.files]
        exact ⟨rfl, rfl, .nil, .nil, .nil, .nil, .nil, .none, .nil⟩
      · rw [Arena.get?_push_other _ _ last] at found
        rw [Arena.get?_push_other _ _ (sameNext ▸ last)]
        exact beside.units id unit found
  · rw [Arena.get?_push_other _ _ (by simp only [Arena.next]; omega)]
  · rw [beside.files, sameNext]

/-- A unit that is new in both is changed in both. -/
theorem modifyUnit {id : UnitId} (new : origin.loader.tree.units.size < id)
    (keeps : ∀ unit unit', ProgramUnit.Alike origin unit unit' →
      ProgramUnit.Alike origin (change unit) (change' unit')) :
    Twins origin names (LoadM.modifyUnit id change) (LoadM.modifyUnit id change')
      fun _ _ _ => True := by
  refine ⟨fun first second beside _ =>
    ⟨⟨beside.modifyUnit id keeps, ⟨.refl _, ⟨[], rfl, Arena.size_modify _ _ _, fun _ => rfl⟩,
      fun other old => ?_⟩, .refl _⟩, trivial⟩⟩
  exact (Arena.get?_modify _ _ _ _).trans (if_neg (by omega))

theorem ask (path : String) :
    Twins origin names (LoadM.ask path) (LoadM.ask path) fun _ answer twin => twin = answer :=
  ⟨fun _ _ beside _ =>
    ⟨⟨{ beside with }, ⟨.refl _, ⟨[], rfl, rfl, fun _ => rfl⟩, fun _ _ => rfl⟩, .refl _⟩,
      congrArg (fun source : ImportSource => source.find path) beside.source'⟩⟩

end Twins

end LoadM

end TreeCheck
