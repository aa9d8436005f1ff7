/-
Walks through a forest. Every node has one whole at most, and parts stand lower than what
they are parts of; so a walk from a node on comes to each node below it exactly once. The
walk here notes the names it comes by, each with the variable whose initial value it
stands in.
-/

import Mathlib.Logic.Relation
import TreeCheck.Analysis.State
import TreeCheck.Proofs.Tree.Parts

namespace TreeCheck

variable {first second node whole part below : Node} {loose : List Node} {id : ExprId}
  {unit : ProgramUnit} {name : NameId} {declaring found : Option NameId}

/-! ### Wholes -/

namespace Arena

variable {α : Type} {parts : α → List Node} {arena : Arena α}

theorem same_of_mentions_le_one (once : ∀ node, arena.mentions parts node ≤ 1) {first second : Nat}
    {item other : α} (found : arena.get? first = some item)
    (found' : arena.get? second = some other) (member : node ∈ parts item)
    (member' : node ∈ parts other) : first = second := by
  have nodup : (arena.items.toList.flatMap parts).Nodup := List.nodup_iff_count_le_one.mpr once
  cases first with
  | zero => nomatch found
  | succ index =>
    cases second with
    | zero => nomatch found'
    | succ index' =>
      obtain ⟨bound, rfl⟩ := Array.getElem?_eq_some_iff.mp found
      obtain ⟨bound', rfl⟩ := Array.getElem?_eq_some_iff.mp found'
      have disjoint := List.pairwise_iff_getElem.mp (List.nodup_flatMap.mp nodup).2
      rcases Nat.lt_trichotomy index index' with less | same | less
      · exact absurd member' (disjoint index index' bound bound' less member)
      · rw [same]
      · exact absurd member (disjoint index' index bound' bound less member')

end Arena

namespace Tree

/-- How often the nodes of the sort of a node mention another one. -/
def mentionsBy (tree : Tree) : Node → Node → Nat
  | .unit _ => tree.units.mentions ProgramUnit.parts
  | .decl _ _ => tree.decls.mentions Decl.parts
  | .stmt _ => tree.stmts.mentions fun stmt => stmt.form.parts
  | .expr _ => tree.exprs.mentions fun expr => expr.form.parts
  | .type _ => tree.types.mentions fun type => type.form.parts

variable {tree : Tree}

theorem mem_parts (member : part ∈ tree.parts whole) : 0 < tree.mentionsBy whole part := by
  have here {α : Type} {arena : Arena α} {parts : α → List Node} {id : Nat}
      (member : part ∈ ((arena.get? id).map parts).getD []) : 0 < arena.mentions parts part := by
    cases found : arena.get? id with
    | none => simp [found] at member
    | some item =>
      rw [found] at member
      exact Nat.lt_of_lt_of_le (List.count_pos_iff.mpr member)
        (Arena.count_le_mentions parts found part)
  cases whole with
  | unit id => exact here member
  | decl kind id => exact here member
  | stmt id => exact here member
  | expr id => exact here member
  | type id => exact here member

theorem mentionsBy_le (tree : Tree) (whole part : Node) : tree.mentionsBy whole part ≤
    tree.mentions part := by
  cases whole <;> simp only [mentionsBy, mentions] <;> omega

theorem Forest.holds_part (forest : tree.Forest loose) (member : part ∈ tree.parts whole) :
    tree.Holds part :=
  forest.present part (by
    have := mem_parts member
    have := tree.mentionsBy_le whole part
    omega)

/-- No node is a part of two others. -/
theorem Forest.whole_unique (forest : tree.Forest loose) {other : Node} (holds : tree.Holds whole)
    (holds' : tree.Holds other) (member : part ∈ tree.parts whole)
    (member' : part ∈ tree.parts other) : whole = other := by
  have within (node : Node) : tree.mentionsBy whole node ≤ 1 := by
    have := tree.mentionsBy_le whole node
    have := forest.once node
    omega
  have same {α : Type} {arena : Arena α} {parts : α → List Node}
      (once : ∀ node, arena.mentions parts node ≤ 1) {first second : Nat}
      (member : part ∈ ((arena.get? first).map parts).getD [])
      (member' : part ∈ ((arena.get? second).map parts).getD []) : first = second := by
    cases found : arena.get? first with
    | none => simp [found] at member
    | some item =>
      cases found' : arena.get? second with
      | none => simp [found'] at member'
      | some other =>
        rw [found] at member
        rw [found'] at member'
        exact Arena.same_of_mentions_le_one once found found' member member'
  -- Nodes of two sorts would mention the part twice between them.
  have twice := forest.once part
  have here := mem_parts member
  have there := mem_parts member'
  simp only [mentions] at twice
  cases whole with
  | unit id =>
    cases other with
    | unit id' => rw [same within member member']
    | _ => simp only [mentionsBy] at here there; omega
  | decl kind id =>
    cases other with
    | decl kind' id' =>
      obtain rfl := same within member member'
      rw [Option.some.inj (Eq.trans (Eq.symm holds) holds')]
    | _ => simp only [mentionsBy] at here there; omega
  | stmt id =>
    cases other with
    | stmt id' => rw [same within member member']
    | _ => simp only [mentionsBy] at here there; omega
  | expr id =>
    cases other with
    | expr id' => rw [same within member member']
    | _ => simp only [mentionsBy] at here there; omega
  | type id =>
    cases other with
    | type id' => rw [same within member member']
    | _ => simp only [mentionsBy] at here there; omega

theorem Forest.nodup_parts (forest : tree.Forest loose) (whole : Node) :
    (tree.parts whole).Nodup := by
  refine List.nodup_iff_count_le_one.mpr fun part => ?_
  have here {α : Type} (arena : Arena α) (parts : α → List Node) (id : Nat) :
      (((arena.get? id).map parts).getD []).count part ≤ arena.mentions parts part := by
    cases found : arena.get? id with
    | none => simp
    | some item => exact Arena.count_le_mentions parts found part
  have bound : (tree.parts whole).count part ≤ tree.mentionsBy whole part := by
    cases whole <;> exact here ..
  have := tree.mentionsBy_le whole part
  have := forest.once part
  omega

theorem Forest.nodup_classes (forest : tree.Forest loose) {id : UnitId}
    (found : tree.units.get? id = some unit) : unit.classes.Nodup := by
  have parts : tree.parts (.unit id) = unit.parts := by simp [parts, found]
  have nodup := forest.nodup_parts (.unit id)
  rw [parts, ProgramUnit.parts] at nodup
  have classes : (unit.classes.map (Node.decl .classDecl)).Nodup := by
    refine nodup.sublist ?_
    simp only [List.append_assoc]
    refine List.Sublist.trans ?_ (List.sublist_append_right _ _)
    refine List.Sublist.trans ?_ (List.sublist_append_right _ _)
    refine List.Sublist.trans ?_ (List.sublist_append_right _ _)
    exact List.sublist_append_left _ _
  exact classes.of_map

/-! ### Heights -/

/-- How high a kind of declaration stands above its parts. -/
def declHeight (tree : Tree) : DeclKind → Nat
  | .classDecl => tree.types.size + tree.exprs.size + tree.stmts.size + 5
  | .function | .method | .enum => tree.types.size + tree.exprs.size + tree.stmts.size + 4
  | _ => tree.types.size + tree.exprs.size + 2

/-- Parts stand lower than what they are parts of. -/
def height (tree : Tree) : Node → Nat
  | .unit _ => tree.types.size + tree.exprs.size + tree.stmts.size + 6
  | .decl kind _ => tree.declHeight kind
  | .stmt id => tree.types.size + tree.exprs.size + 2 + id
  | .expr id => tree.types.size + 1 + id
  | .type id => id

theorem height_le_of_holds (holds : tree.Holds part) : tree.height part ≤
    match part with
    | .unit _ => tree.types.size + tree.exprs.size + tree.stmts.size + 6
    | .decl kind _ => tree.declHeight kind
    | .stmt _ => tree.types.size + tree.exprs.size + tree.stmts.size + 2
    | .expr _ => tree.types.size + tree.exprs.size + 1
    | .type _ => tree.types.size := by
  have bound {α : Type} {arena : Arena α} {id : Nat} (there : (arena.get? id).isSome) :
      id ≤ arena.size := by
    obtain ⟨_, found⟩ := Option.isSome_iff_exists.mp there
    exact (Arena.get?_eq_some_le found).2
  cases part with
  | unit id => exact Nat.le_refl _
  | decl kind id => exact Nat.le_refl _
  | stmt id =>
    have := bound holds
    simp only [height]
    omega
  | expr id =>
    have := bound holds
    simp only [height]
    omega
  | type id => exact bound holds

theorem mem_typeParts {form : TypeExprForm} (member : part ∈ form.parts) :
    ∃ id, part = .type id := by
  cases form <;> simp [TypeExprForm.parts] at member <;> grind

theorem mem_exprParts {form : ExprForm} (member : part ∈ form.parts) :
    (∃ id, part = .type id) ∨ ∃ id, part = .expr id := by
  cases form <;> simp [ExprForm.parts] at member <;> grind

theorem mem_stmtParts {form : StmtForm} (member : part ∈ form.parts) :
    (∃ id, part = .expr id) ∨ (∃ id, part = .decl .localVar id) ∨ ∃ id, part = .stmt id := by
  cases form <;> simp [StmtForm.parts, CaseArm.parts] at member <;> grind

/-- What may be a part of a declaration of a kind. -/
theorem mem_declParts (tree : Tree) {decl : Decl} (member : part ∈ decl.parts) :
    (∃ id, part = .type id) ∨ (∃ id, part = .expr id) ∨
      (∃ kind id, part = .decl kind id ∧ tree.declHeight kind < tree.declHeight decl.kind) ∨
      ∃ id, part = .stmt id ∧ (decl.kind = .function ∨ decl.kind = .method) := by
  cases form : decl.form <;>
    simp [Decl.parts, DeclForm.parts, Callable.parts, ClassBody.parts, form] at member <;>
    grind [Decl.kind, declHeight]

theorem mem_unitParts (member : part ∈ unit.parts) :
    (∃ kind id, part = .decl kind id) ∨ ∃ id, part = .stmt id := by
  simp [ProgramUnit.parts] at member
  grind

theorem declHeight_le (tree : Tree) (kind : DeclKind) :
    tree.types.size + tree.exprs.size + 2 ≤ tree.declHeight kind ∧
      tree.declHeight kind ≤ tree.types.size + tree.exprs.size + tree.stmts.size + 5 := by
  cases kind <;> simp only [declHeight] <;> omega

theorem Forest.height_lt (forest : tree.Forest loose) (holds : tree.Holds whole)
    (member : part ∈ tree.parts whole) : tree.height part < tree.height whole := by
  have bound := height_le_of_holds (forest.holds_part member)
  cases whole with
  | unit id =>
    obtain ⟨unit, found⟩ := Option.isSome_iff_exists.mp holds
    simp only [parts, found, Option.map_some, Option.getD_some] at member
    obtain ⟨kind, other, rfl⟩ | ⟨other, rfl⟩ := mem_unitParts member
    · have := (tree.declHeight_le kind).2
      simp only [height] at bound ⊢
      omega
    · simp only [height] at bound ⊢
      omega
  | decl kind id =>
    obtain ⟨decl, found, rfl⟩ := Option.map_eq_some_iff.mp (show tree.kindOf? id = _ from holds)
    simp only [parts, found, Option.map_some, Option.getD_some] at member
    have low := (tree.declHeight_le decl.kind).1
    obtain ⟨other, rfl⟩ | ⟨other, rfl⟩ | ⟨kind, other, rfl, lower⟩ | ⟨other, rfl, callable⟩ :=
      tree.mem_declParts member
    · simp only [height] at bound ⊢
      omega
    · simp only [height] at bound ⊢
      omega
    · exact lower
    · have high : tree.declHeight decl.kind =
          tree.types.size + tree.exprs.size + tree.stmts.size + 4 := by
        rcases callable with function | method
        · rw [function]
          rfl
        · rw [method]
          rfl
      simp only [height] at bound ⊢
      omega
  | stmt id =>
    obtain ⟨stmt, found⟩ := Option.isSome_iff_exists.mp holds
    simp only [parts, found, Option.map_some, Option.getD_some] at member
    have positive := (Arena.get?_eq_some_le found).1
    obtain ⟨other, rfl⟩ | ⟨other, rfl⟩ | ⟨other, rfl⟩ := mem_stmtParts member
    · simp only [height] at bound ⊢
      omega
    · simp only [height, declHeight]
      omega
    · have := forest.stmtsBelow id stmt found other member
      simp only [height]
      omega
  | expr id =>
    obtain ⟨expr, found⟩ := Option.isSome_iff_exists.mp holds
    simp only [parts, found, Option.map_some, Option.getD_some] at member
    obtain ⟨other, rfl⟩ | ⟨other, rfl⟩ := mem_exprParts member
    · simp only [height] at bound ⊢
      omega
    · have := forest.exprsBelow id expr found other member
      simp only [height]
      omega
  | type id =>
    obtain ⟨type, found⟩ := Option.isSome_iff_exists.mp holds
    simp only [parts, found, Option.map_some, Option.getD_some] at member
    obtain ⟨other, rfl⟩ := mem_typeParts member
    exact forest.typesBelow id type found other member

/-! ### Reaching -/

/-- A node is the other one or stands somewhere below it. -/
def Reaches (tree : Tree) : Node → Node → Prop :=
  Relation.ReflTransGen fun whole part => part ∈ tree.parts whole

section

variable (forest : tree.Forest loose)

include forest

theorem Forest.holds_reached (holds : tree.Holds node)
    (reaches : tree.Reaches node below) : tree.Holds below := by
  cases reaches with
  | refl => exact holds
  | tail _ member => exact forest.holds_part member

theorem Forest.height_le (holds : tree.Holds node)
    (reaches : tree.Reaches node below) : tree.height below ≤ tree.height node := by
  induction reaches with
  | refl => exact Nat.le_refl _
  | tail reached member inductionHypothesis =>
    have := forest.height_lt (forest.holds_reached holds reached) member
    omega

/-- Of two nodes above a third one, one is above the other. -/
theorem Forest.reaches_or_reaches (holds : tree.Holds first)
    (holds' : tree.Holds second) (reaches : tree.Reaches first below)
    (reaches' : tree.Reaches second below) :
    tree.Reaches first second ∨ tree.Reaches second first := by
  induction reaches with
  | refl => exact .inr reaches'
  | @tail whole part reached member inductionHypothesis =>
    cases reaches' with
    | refl => exact .inl (reached.tail member)
    | @tail whole' _ reached' member' =>
      obtain rfl := forest.whole_unique (forest.holds_reached holds reached)
        (forest.holds_reached holds' reached') member member'
      exact inductionHypothesis reached'

/-- Different parts of a node have nothing in common below them. -/
theorem Forest.parts_apart (holds : tree.Holds whole)
    (member : first ∈ tree.parts whole) (member' : second ∈ tree.parts whole)
    (reaches : tree.Reaches first below) (reaches' : tree.Reaches second below) :
    first = second := by
  have apart {upper lower : Node} (isPart : upper ∈ tree.parts whole)
      (isPart' : lower ∈ tree.parts whole)
      (above : tree.Reaches upper lower) : upper = lower := by
    cases above with
    | refl => rfl
    | @tail middle _ reached last =>
      -- The whole of the lower one would stand below the upper one.
      obtain rfl := forest.whole_unique (forest.holds_reached (forest.holds_part isPart) reached)
        holds last isPart'
      have := forest.height_le (forest.holds_part isPart) reached
      have := forest.height_lt holds isPart
      omega
  rcases forest.reaches_or_reaches (forest.holds_part member) (forest.holds_part member') reaches
    reaches' with down | up
  · exact apart member member' down
  · exact (apart member' member up).symm

/-- What stands above a part stands above the whole, or is the part itself. -/
theorem Forest.reaches_whole {top : Node} (holds : tree.Holds top)
    (holds' : tree.Holds whole) (member : part ∈ tree.parts whole)
    (reaches : tree.Reaches top part) :
    top = part ∨ tree.Reaches top whole := by
  cases reaches with
  | refl => exact .inl rfl
  | tail reached member' =>
    exact .inr (forest.whole_unique (forest.holds_reached holds reached) holds' member' member ▸
      reached)

/-- Only units stand above classes. -/
theorem Forest.eq_of_reaches_class {top : Node} {id : DeclId}
    (holds : tree.Holds top) (noUnit : ∀ unit, top ≠ .unit unit)
    (reaches : tree.Reaches top (.decl .classDecl id)) : top = .decl .classDecl id := by
  cases reaches with
  | refl => rfl
  | tail reached member =>
    have lower := forest.height_lt (forest.holds_reached holds reached) member
    have upper := forest.height_le holds reached
    have bound := height_le_of_holds holds
    have isTop : tree.height (.decl .classDecl id) =
        tree.types.size + tree.exprs.size + tree.stmts.size + 5 := rfl
    cases top with
    | unit unit => exact absurd rfl (noUnit unit)
    | decl kind other =>
      have := (tree.declHeight_le kind).2
      simp only at bound
      omega
    | stmt other => simp only at bound; omega
    | expr other => simp only at bound; omega
    | type other => simp only at bound; omega

end

/-- A unit is no part of anything. -/
theorem unit_notMem_parts (tree : Tree) (whole : Node) (id : UnitId) :
    .unit id ∉ tree.parts whole := by
  have here {α : Type} {arena : Arena α} {parts : α → List Node} {index : Nat}
      (never : ∀ item, .unit id ∉ parts item) : .unit id ∉ ((arena.get? index).map parts).getD [] := by
    cases arena.get? index with
    | none => exact List.not_mem_nil
    | some item => exact never item
  cases whole with
  | unit index =>
    refine here fun unit member => ?_
    rcases mem_unitParts member with ⟨_, _, impossible⟩ | ⟨_, impossible⟩ <;> nomatch impossible
  | decl kind index =>
    refine here fun decl member => ?_
    rcases mem_declParts tree member with
      ⟨_, impossible⟩ | ⟨_, impossible⟩ | ⟨_, _, impossible, _⟩ | ⟨_, impossible, _⟩ <;>
      nomatch impossible
  | stmt index =>
    refine here fun stmt member => ?_
    rcases mem_stmtParts member with ⟨_, impossible⟩ | ⟨_, impossible⟩ | ⟨_, impossible⟩ <;>
      nomatch impossible
  | expr index =>
    refine here fun expr member => ?_
    rcases mem_exprParts member with ⟨_, impossible⟩ | ⟨_, impossible⟩ <;> nomatch impossible
  | type index =>
    refine here fun type member => ?_
    obtain ⟨_, impossible⟩ := mem_typeParts member
    nomatch impossible

theorem eq_of_reaches_unit {id : UnitId} (reaches : tree.Reaches whole (.unit id)) :
    whole = .unit id := by
  cases reaches with
  | refl => rfl
  | tail _ member => exact absurd member (tree.unit_notMem_parts _ id)

/-- No name stands below two units. -/
theorem Forest.unit_unique (forest : tree.Forest loose) {first second : UnitId}
    (holds : tree.Holds (.unit first)) (holds' : tree.Holds (.unit second))
    (reaches : tree.Reaches (.unit first) below) (reaches' : tree.Reaches (.unit second) below) :
    first = second := by
  rcases forest.reaches_or_reaches holds holds' reaches reaches' with down | up
  · exact Node.unit.inj (eq_of_reaches_unit down)
  · exact (Node.unit.inj (eq_of_reaches_unit up)).symm

theorem Forest.induction (forest : tree.Forest loose) {motive : Node → Prop}
    (step : ∀ node, tree.Holds node → (∀ part ∈ tree.parts node, motive part) → motive node)
    (node : Node) (holds : tree.Holds node) : motive node := by
  induction bound : tree.height node using Nat.strongRecOn generalizing node with
  | ind height inductionHypothesis =>
    subst bound
    exact step node holds fun part member =>
      inductionHypothesis _ (forest.height_lt holds member) part (forest.holds_part member) rfl

/-! ### Visits -/

/-- An expression that is a name. -/
def IsName (tree : Tree) (id : ExprId) (name : NameId) : Prop :=
  (tree.exprs.get? id).map Expr.form = some (.name name)

/-- The name that an expression is, zero for any other expression. -/
def nameAt (tree : Tree) (id : ExprId) : NameId :=
  match (tree.exprs.get? id).map Expr.form with
  | some (.name name) => name
  | _ => 0

theorem IsName.nameAt_eq (isName : tree.IsName id name) : tree.nameAt id = name := by
  simp only [IsName] at isName
  simp only [nameAt, isName]

/-- The expression at a node, if it is a name. -/
def nameHere (tree : Tree) : Node → List ExprId
  | .expr id =>
    match (tree.exprs.get? id).map Expr.form with
    | some (.name _) => [id]
    | _ => []
  | _ => []

/-- The name of the variable whose initial value a part stands in. -/
def declaringBelow (tree : Tree) (declaring : Option NameId) : Node → Node → Option NameId
  | .expr _, _ => declaring
  | .decl _ id, .expr _ => (tree.decls.get? id).map Decl.name
  | _, _ => none

def visitWithin (tree : Tree) : Nat → Option NameId → Node → List (ExprId × Option NameId)
  | 0, _, _ => []
  | fuel + 1, declaring, node =>
    (tree.nameHere node).map (·, declaring) ++ (tree.parts node).flatMap fun part =>
      visitWithin tree fuel (tree.declaringBelow declaring node part) part

/-- The names at a node and below it, each with the name of the variable whose initial value it
stands in. -/
def visit (tree : Tree) (declaring : Option NameId) (node : Node) : List (ExprId × Option NameId) :=
  tree.visitWithin (tree.height node + 1) declaring node

theorem Forest.visitWithin_eq (forest : tree.Forest loose) {fuel : Nat} (holds : tree.Holds node)
    (enough : tree.height node < fuel) :
    tree.visitWithin fuel declaring node = tree.visit declaring node := by
  unfold visit
  generalize enough' : tree.height node + 1 = other
  have other_enough : tree.height node < other := by omega
  clear enough'
  induction fuel generalizing declaring node other with
  | zero => omega
  | succ fuel inductionHypothesis =>
    cases other with
    | zero => omega
    | succ other =>
      unfold visitWithin
      congr 1
      refine List.flatMap_congr fun part member => ?_
      have := forest.height_lt holds member
      exact inductionHypothesis (forest.holds_part member) (by omega) other (by omega)

theorem Forest.visit_eq (forest : tree.Forest loose) (declaring : Option NameId)
    (holds : tree.Holds node) :
    tree.visit declaring node = (tree.nameHere node).map (·, declaring) ++
      (tree.parts node).flatMap fun part =>
        tree.visit (tree.declaringBelow declaring node part) part := by
  rw [visit, visitWithin]
  congr 1
  exact List.flatMap_congr fun part member =>
    forest.visitWithin_eq (forest.holds_part member) (forest.height_lt holds member)

theorem mem_nameHere : id ∈ tree.nameHere node ↔ node = .expr id ∧ ∃ name, tree.IsName id name := by
  cases node with
  | expr other =>
    simp only [nameHere, IsName]
    split
    · next name found =>
      rw [List.mem_singleton]
      constructor
      · rintro rfl
        exact ⟨rfl, name, found⟩
      · rintro ⟨⟨⟩, _⟩
        rfl
    · next absent =>
      refine ⟨nofun, ?_⟩
      rintro ⟨⟨⟩, name, found⟩
      exact absurd found (absent name)
  | _ => simp [nameHere]

/-- Nothing but what is below a node is visited from it. -/
theorem Forest.reaches_of_mem_visit (forest : tree.Forest loose) (holds : tree.Holds node)
    (member : (id, found) ∈ tree.visit declaring node) :
    tree.Reaches node (.expr id) ∧ ∃ name, tree.IsName id name := by
  refine forest.induction (motive := fun node => ∀ declaring found,
    (id, found) ∈ tree.visit declaring node →
      tree.Reaches node (.expr id) ∧ ∃ name, tree.IsName id name) ?_ node holds declaring found member
  intro node holds inductionHypothesis declaring found member
  rw [forest.visit_eq declaring holds] at member
  rcases List.mem_append.mp member with here | below
  · obtain ⟨_, inside, ⟨⟩⟩ := List.mem_map.mp here
    rw [mem_nameHere] at inside
    obtain ⟨rfl, isName⟩ := inside
    exact ⟨.refl, isName⟩
  · obtain ⟨part, isPart, below⟩ := List.mem_flatMap.mp below
    obtain ⟨reaches, isName⟩ := inductionHypothesis part isPart _ _ below
    exact ⟨reaches.head isPart, isName⟩

/-- Every name below a node is visited from it. -/
theorem Forest.mem_visit (forest : tree.Forest loose) (holds : tree.Holds node)
    (isName : tree.IsName id name) (reaches : tree.Reaches node (.expr id))
    (declaring : Option NameId) : ∃ found, (id, found) ∈ tree.visit declaring node := by
  induction reaches using Relation.ReflTransGen.head_induction_on generalizing declaring with
  | refl =>
    refine ⟨declaring, ?_⟩
    rw [forest.visit_eq declaring holds]
    have here : id ∈ tree.nameHere (.expr id) := by
      rw [mem_nameHere]
      exact ⟨rfl, name, isName⟩
    exact List.mem_append_left _ (List.mem_map_of_mem here)
  | head isPart _ inductionHypothesis =>
    obtain ⟨found, member⟩ := inductionHypothesis (forest.holds_part isPart)
      (tree.declaringBelow declaring _ _)
    refine ⟨found, ?_⟩
    rw [forest.visit_eq declaring holds]
    exact List.mem_append_right _ (List.mem_flatMap.mpr ⟨_, isPart, member⟩)

/-- No name is visited twice. -/
theorem Forest.nodup_visit (forest : tree.Forest loose) (declaring : Option NameId)
    (holds : tree.Holds node) : ((tree.visit declaring node).map Prod.fst).Nodup := by
  refine forest.induction (motive := fun node => ∀ declaring,
    ((tree.visit declaring node).map Prod.fst).Nodup) ?_ node holds declaring
  intro node holds inductionHypothesis declaring
  rw [forest.visit_eq declaring holds, List.map_append, List.map_map, List.map_flatMap]
  have below {part : Node} (isPart : part ∈ tree.parts node) {id : ExprId}
      {inner : Option NameId} (member : id ∈ (tree.visit inner part).map Prod.fst) :
      tree.Reaches part (.expr id) := by
    obtain ⟨⟨_, found⟩, visited, rfl⟩ := List.mem_map.mp member
    exact (forest.reaches_of_mem_visit (forest.holds_part isPart) visited).1
  have single : (tree.nameHere node).map (Prod.fst ∘ fun id => (id, declaring)) =
      tree.nameHere node := List.map_id _
  rw [single]
  refine List.Nodup.append ?_ (List.nodup_flatMap.mpr ⟨?_, ?_⟩) ?_
  · cases node with
    | expr id =>
      simp only [nameHere]
      split
      · exact List.nodup_singleton _
      · exact List.nodup_nil
    | _ => exact List.nodup_nil
  · exact fun part isPart => inductionHypothesis part isPart _
  · refine (forest.nodup_parts node).imp_of_mem fun {first second} isPart isPart' different => ?_
    intro id member member'
    exact different (forest.parts_apart holds isPart isPart' (below isPart member)
      (below isPart' member'))
  · intro id here member
    obtain ⟨part, isPart, visited⟩ := List.mem_flatMap.mp member
    rw [mem_nameHere] at here
    obtain ⟨rfl, _⟩ := here
    have := forest.height_le (forest.holds_part isPart) (below isPart visited)
    have := forest.height_lt holds isPart
    omega

/-- An expression stands in the initial value of a variable with a name. -/
def InInitialOf (tree : Tree) (id : ExprId) (name : NameId) : Prop :=
  ∃ owner decl init, tree.decls.get? owner = some decl ∧ decl.init = some init ∧
    decl.name = name ∧ tree.Reaches (.expr init) (.expr id)

section

variable (forest : tree.Forest loose)

include forest

theorem Forest.inInitialOf_of_mem_visit (holds : tree.Holds node)
    (member : (id, some name) ∈ tree.visit declaring node) :
    declaring = some name ∧ (∃ other, node = .expr other) ∨ tree.InInitialOf id name := by
  refine forest.induction (motive := fun node => ∀ declaring,
    (id, some name) ∈ tree.visit declaring node →
      declaring = some name ∧ (∃ other, node = .expr other) ∨ tree.InInitialOf id name)
    ?_ node holds declaring member
  intro node holds inductionHypothesis declaring member
  rw [forest.visit_eq declaring holds] at member
  rcases List.mem_append.mp member with here | below
  · obtain ⟨_, inside, ⟨⟩⟩ := List.mem_map.mp here
    rw [mem_nameHere] at inside
    obtain ⟨rfl, _⟩ := inside
    exact .inl ⟨rfl, id, rfl⟩
  · obtain ⟨part, isPart, visited⟩ := List.mem_flatMap.mp below
    have reaches := (forest.reaches_of_mem_visit (forest.holds_part isPart) visited).1
    rcases inductionHypothesis part isPart _ visited with ⟨same, other, rfl⟩ | inside
    · cases node with
      | expr whole => exact .inl ⟨same, whole, rfl⟩
      | decl kind owner =>
        obtain ⟨decl, found, rfl⟩ := Option.map_eq_some_iff.mp same
        refine .inr ⟨owner, decl, other, found, ?_, rfl, reaches⟩
        simp only [parts, found, Option.map_some, Option.getD_some] at isPart
        cases form : decl.form <;>
          simp [Decl.parts, DeclForm.parts, Callable.parts, ClassBody.parts, form] at isPart <;>
          exact isPart
      | _ => cases same
    · exact .inr inside

/-- Inside an expression nothing is declared. -/
theorem Forest.declaring_of_mem_visit (holds : tree.Holds node)
    (member : (id, found) ∈ tree.visit declaring node) :
    (∀ other, node ≠ .type other) ∧ ((∃ other, node = .expr other) → found = declaring) := by
  refine forest.induction (motive := fun node => ∀ declaring found,
    (id, found) ∈ tree.visit declaring node →
      (∀ other, node ≠ .type other) ∧ ((∃ other, node = .expr other) → found = declaring))
    ?_ node holds declaring found member
  intro node holds inductionHypothesis declaring found member
  rw [forest.visit_eq declaring holds] at member
  rcases List.mem_append.mp member with here | below
  · obtain ⟨_, inside, ⟨⟩⟩ := List.mem_map.mp here
    rw [mem_nameHere] at inside
    obtain ⟨rfl, _⟩ := inside
    exact ⟨nofun, fun _ => rfl⟩
  · obtain ⟨part, isPart, visited⟩ := List.mem_flatMap.mp below
    obtain ⟨noType, same⟩ := inductionHypothesis part isPart _ _ visited
    constructor
    · rintro other rfl
      obtain ⟨type, there⟩ := Option.isSome_iff_exists.mp holds
      simp only [parts, there, Option.map_some, Option.getD_some] at isPart
      obtain ⟨inner, rfl⟩ := mem_typeParts isPart
      exact noType inner rfl
    · rintro ⟨other, rfl⟩
      obtain ⟨expr, there⟩ := Option.isSome_iff_exists.mp holds
      simp only [parts, there, Option.map_some, Option.getD_some] at isPart
      obtain ⟨inner, rfl⟩ | ⟨inner, rfl⟩ := mem_exprParts isPart
      · exact absurd rfl (noType inner)
      · exact same ⟨inner, rfl⟩

/-- There are no names in a written type. -/
theorem Forest.visit_type {id : TypeExprId}
    (holds : tree.Holds (.type id)) (declaring : Option NameId) :
    tree.visit declaring (.type id) = [] := by
  refine List.eq_nil_iff_forall_not_mem.mpr fun entry member => ?_
  exact (forest.declaring_of_mem_visit holds member).1 id rfl

theorem Forest.mem_visit_of_reaches (holds : tree.Holds node)
    (reaches : tree.Reaches node below) {entry : ExprId × Option NameId}
    (visited : ∀ declaring, entry ∈ tree.visit declaring below) (declaring : Option NameId) :
    entry ∈ tree.visit declaring node := by
  induction reaches using Relation.ReflTransGen.head_induction_on generalizing declaring with
  | refl => exact visited declaring
  | head isPart _ inductionHypothesis =>
    rw [forest.visit_eq declaring holds]
    exact List.mem_append_right _ (List.mem_flatMap.mpr
      ⟨_, isPart, inductionHypothesis (forest.holds_part isPart) _⟩)

/-- What stands in the initial value of a variable is visited as such. -/
theorem Forest.mem_visit_of_inInitialOf {unit : UnitId}
    (holds : tree.Holds (.unit unit)) {own : NameId} (isName : tree.IsName id own)
    (reaches : tree.Reaches (.unit unit) (.expr id)) (inside : tree.InInitialOf id name) :
    (id, some name) ∈ tree.visit none (.unit unit) := by
  obtain ⟨owner, decl, init, found, isInit, rfl, below⟩ := inside
  have isPart : .expr init ∈ tree.parts (.decl decl.kind owner) := by
    simp [parts, found, Decl.parts, isInit]
  have ownerHolds : tree.Holds (.decl decl.kind owner) := by
    simp [Holds, kindOf?, found]
  have ownerVisits (declaring : Option NameId) :
      (id, some decl.name) ∈ tree.visit declaring (.decl decl.kind owner) := by
    obtain ⟨context, member⟩ := forest.mem_visit (forest.holds_part isPart) isName below
      (some decl.name)
    obtain rfl := (forest.declaring_of_mem_visit (forest.holds_part isPart) member).2 ⟨init, rfl⟩
    rw [forest.visit_eq declaring ownerHolds]
    refine List.mem_append_right _ (List.mem_flatMap.mpr ⟨_, isPart, ?_⟩)
    simpa only [declaringBelow, found, Option.map_some] using member
  rcases forest.reaches_or_reaches holds ownerHolds reaches (below.head isPart) with down | up
  · exact forest.mem_visit_of_reaches holds down ownerVisits none
  · -- Nothing stands above a unit.
    have low := forest.height_le ownerHolds up
    have := (tree.declHeight_le decl.kind).2
    simp only [height] at low
    omega

/-- A name of a unit is visited as one in the initial value of a variable exactly when it
stands in one. -/
theorem Forest.mem_visit_iff_inInitialOf {unit : UnitId}
    (holds : tree.Holds (.unit unit)) (member : (id, found) ∈ tree.visit none (.unit unit))
    (name : NameId) : found = some name ↔ tree.InInitialOf id name := by
  constructor
  · rintro rfl
    rcases forest.inInitialOf_of_mem_visit holds member with ⟨impossible, _⟩ | inside
    · nomatch impossible
    · exact inside
  · intro inside
    obtain ⟨reaches, own, isName⟩ := forest.reaches_of_mem_visit holds member
    have member' := forest.mem_visit_of_inInitialOf holds isName reaches inside
    exact congrArg Prod.snd (List.inj_on_of_nodup_map (forest.nodup_visit none holds) member
      member' rfl)

end

end Tree

end TreeCheck

namespace TreeCheck

/-! ### Places

Each node below a node may be given its place: the class and the callable that were entered last on the
way down. Classes stand higher than callables, and callables higher than what is in their bodies; so a
node has at most one class and one callable around it, and the place on the way down names them. -/

section Placing

variable {other place : Place} {node : Node} {kind : DeclKind}

/-- The place inside a node, when another place is around it. -/
def Place.entering (place : Place) : Node → Place
  | .decl .classDecl id => { place with enclosing := some id }
  | .decl .function id => { place with callable := some id }
  | .decl .method id => { place with callable := some id }
  | _ => place

namespace Tree

variable {tree : Tree} {loose : List Node}

/-! ### Places on the way down -/

def placedWithin (tree : Tree) : Nat → Place → Node → List (Node × Place)
  | 0, _, _ => []
  | fuel + 1, place, node =>
    (node, place.entering node) ::
      (tree.parts node).flatMap (placedWithin tree fuel (place.entering node))

/-- A node and everything below it, each with the place that one comes to it in. -/
def placed (tree : Tree) (place : Place) (node : Node) : List (Node × Place) :=
  tree.placedWithin (tree.height node + 1) place node

theorem Forest.placedWithin_eq (forest : tree.Forest loose) {fuel other : Nat}
    (holds : tree.Holds node) (enough : tree.height node < fuel)
    (enough' : tree.height node < other) :
    tree.placedWithin fuel place node = tree.placedWithin other place node := by
  induction fuel generalizing node place other with
  | zero => omega
  | succ fuel inductionHypothesis =>
    cases other with
    | zero => omega
    | succ other =>
      unfold placedWithin
      congr 1
      refine List.flatMap_congr fun part member => ?_
      have := forest.height_lt holds member
      exact inductionHypothesis (forest.holds_part member) (by omega) (by omega)

theorem Forest.placed_eq (forest : tree.Forest loose) (holds : tree.Holds node) :
    tree.placed place node = (node, place.entering node) ::
      (tree.parts node).flatMap (tree.placed (place.entering node)) := by
  rw [placed, placedWithin]
  congr 1
  refine List.flatMap_congr fun part member => ?_
  exact forest.placedWithin_eq (forest.holds_part member) (forest.height_lt holds member)
    (Nat.lt_succ_self _)

theorem Forest.mem_placed_iff (forest : tree.Forest loose) {other : Node}
    (holds : tree.Holds node) :
    other ∈ (tree.placed place node).map Prod.fst ↔ tree.Reaches node other := by
  constructor
  · refine forest.induction (motive := fun node => ∀ place,
      other ∈ (tree.placed place node).map Prod.fst → tree.Reaches node other)
      (fun node holds inductionHypothesis place member => ?_) node holds place
    rw [forest.placed_eq holds, List.map_cons, List.mem_cons, List.map_flatMap] at member
    rcases member with rfl | member
    · exact .refl
    · obtain ⟨part, isPart, member⟩ := List.mem_flatMap.mp member
      exact (inductionHypothesis part isPart _ member).head isPart
  · intro reaches
    induction reaches using Relation.ReflTransGen.head_induction_on generalizing place with
    | refl =>
      rw [forest.placed_eq holds]
      exact .head _
    | head isPart _ inductionHypothesis =>
      rw [forest.placed_eq holds, List.map_cons, List.map_flatMap]
      exact .tail _ (List.mem_flatMap.mpr
        ⟨_, isPart, inductionHypothesis (forest.holds_part isPart)⟩)

theorem Forest.nodup_placed (forest : tree.Forest loose) (holds : tree.Holds node) :
    ((tree.placed place node).map Prod.fst).Nodup := by
  refine forest.induction (motive := fun node => ∀ place,
    ((tree.placed place node).map Prod.fst).Nodup)
    (fun node holds inductionHypothesis place => ?_) node holds place
  rw [forest.placed_eq holds, List.map_cons, List.map_flatMap, List.nodup_cons, List.nodup_flatMap]
  refine ⟨fun member => ?_, fun part isPart => inductionHypothesis part isPart _, ?_⟩
  · obtain ⟨part, isPart, member⟩ := List.mem_flatMap.mp member
    have reaches := (forest.mem_placed_iff (forest.holds_part isPart)).mp member
    exact absurd (forest.height_le (forest.holds_part isPart) reaches)
      (Nat.not_le.mpr (forest.height_lt holds isPart))
  · refine (forest.nodup_parts node).imp_of_mem fun {first second} isPart isPart' different => ?_
    intro other member member'
    exact different (forest.parts_apart holds isPart isPart'
      ((forest.mem_placed_iff (forest.holds_part isPart)).mp member)
      ((forest.mem_placed_iff (forest.holds_part isPart')).mp member'))

/-! ### What stands around a node -/

/-- A place names the class and the callable around a node, if there are any. -/
structure Around (tree : Tree) (node : Node) (place : Place) : Prop where
  enclosing : ∀ id, place.enclosing = some id ↔
    tree.kindOf? id = some .classDecl ∧ tree.Reaches (.decl .classDecl id) node
  callable : ∀ id, place.callable = some id ↔
    ∃ kind : DeclKind, kind.isCallable ∧ tree.kindOf? id = some kind ∧
      tree.Reaches (.decl kind id) node

/-- Of two nodes of one height neither stands below the other. -/
theorem Forest.eq_of_reaches (forest : tree.Forest loose) {first second : Node}
    (holds : tree.Holds first) (reaches : tree.Reaches first second)
    (same : tree.height first = tree.height second) : first = second := by
  cases reaches using Relation.ReflTransGen.head_induction_on with
  | refl => rfl
  | head isPart reaches =>
    have := forest.height_lt holds isPart
    have := forest.height_le (forest.holds_part isPart) reaches
    omega

theorem height_of_isCallable (callable : kind.isCallable) (id : DeclId) :
    tree.height (.decl kind id) = tree.types.size + tree.exprs.size + tree.stmts.size + 4 := by
  cases kind <;> first | rfl | nomatch callable

/-- Nothing stands around a unit. -/
theorem around_unit (tree : Tree) (id : UnitId) : tree.Around (.unit id) {} where
  enclosing := fun _ =>
    ⟨nofun, fun ⟨_, reaches⟩ => nomatch eq_of_reaches_unit reaches⟩
  callable := fun _ =>
    ⟨nofun, fun ⟨_, _, _, reaches⟩ => nomatch eq_of_reaches_unit reaches⟩

namespace Around

variable {whole : Node} {place : Place}

theorem enclosing_eq (around : tree.Around node place) (around' : tree.Around node other) :
    place.enclosing = other.enclosing :=
  Option.ext fun id => (around.enclosing id).trans (around'.enclosing id).symm

theorem callable_eq (around : tree.Around node place) (around' : tree.Around node other) :
    place.callable = other.callable :=
  Option.ext fun id => (around.callable id).trans (around'.callable id).symm

/-- A part that is neither a class nor a callable stands where its whole does. -/
theorem part (forest : tree.Forest loose) {part : Node} (around : tree.Around whole place)
    (holds : tree.Holds whole) (member : part ∈ tree.parts whole)
    (noClass : ∀ id, part ≠ .decl .classDecl id)
    (noCallable : ∀ kind : DeclKind, kind.isCallable → ∀ id, part ≠ .decl kind id) :
    tree.Around part place where
  enclosing := fun id => by
    rw [around.enclosing]
    refine and_congr_right fun isClass => ⟨fun reaches => reaches.tail member, fun reaches => ?_⟩
    exact (forest.reaches_whole (show tree.Holds (.decl .classDecl id) from isClass) holds member
      reaches).resolve_left fun same => noClass id same.symm
  callable := fun id => by
    rw [around.callable]
    refine exists_congr fun kind => and_congr_right fun isCallable => and_congr_right fun isKind =>
      ⟨fun reaches => reaches.tail member, fun reaches => ?_⟩
    exact (forest.reaches_whole (show tree.Holds (.decl kind id) from isKind) holds member
      reaches).resolve_left fun same => noCallable kind isCallable id same.symm

/-- A class stands in itself. -/
theorem classPart (forest : tree.Forest loose) (around : tree.Around whole place)
    (holds : tree.Holds whole) {id : DeclId} (member : .decl .classDecl id ∈ tree.parts whole) :
    tree.Around (.decl .classDecl id) { place with enclosing := some id } where
  enclosing := fun other => by
    refine ⟨fun same => Option.some.inj same ▸ ⟨forest.holds_part member, .refl⟩, ?_⟩
    rintro ⟨isClass, reaches⟩
    exact congrArg some (Node.decl.inj (forest.eq_of_reaches isClass reaches rfl)).2.symm
  callable := fun other => by
    rw [around.callable]
    refine exists_congr fun kind => and_congr_right fun isCallable => and_congr_right fun isKind =>
      ⟨fun reaches => reaches.tail member, fun reaches => ?_⟩
    refine (forest.reaches_whole (show tree.Holds (.decl kind other) from isKind) holds member
      reaches).resolve_left fun same => ?_
    cases same
    nomatch isCallable

/-- A callable stands in itself. -/
theorem callablePart (forest : tree.Forest loose) (around : tree.Around whole place)
    (holds : tree.Holds whole) (isCallable : kind.isCallable) {id : DeclId}
    (member : .decl kind id ∈ tree.parts whole) :
    tree.Around (.decl kind id) { place with callable := some id } where
  enclosing := fun other => by
    rw [around.enclosing]
    refine and_congr_right fun isClass => ⟨fun reaches => reaches.tail member, fun reaches => ?_⟩
    refine (forest.reaches_whole (show tree.Holds (.decl .classDecl other) from isClass) holds
      member reaches).resolve_left fun same => ?_
    cases same
    nomatch isCallable
  callable := fun other => by
    constructor
    · rintro same
      cases same
      exact ⟨kind, isCallable, forest.holds_part member, .refl⟩
    · rintro ⟨otherKind, isCallable', isKind, reaches⟩
      have same := forest.eq_of_reaches (show tree.Holds (.decl otherKind other) from isKind) reaches (by
        rw [height_of_isCallable isCallable', height_of_isCallable isCallable])
      exact congrArg some (Node.decl.inj same).2.symm

/-- On the way down the place stays the one around. -/
theorem entering (forest : tree.Forest loose) {part : Node} (around : tree.Around whole place)
    (holds : tree.Holds whole) (member : part ∈ tree.parts whole) :
    tree.Around part (place.entering part) := by
  cases part with
  | decl kind id =>
    cases kind with
    | classDecl => exact around.classPart forest holds member
    | function => exact around.callablePart forest holds rfl member
    | method => exact around.callablePart forest holds rfl member
    | _ => exact around.part forest holds member nofun (by rintro kind isCallable id ⟨⟩; nomatch isCallable)
  | _ => exact around.part forest holds member nofun nofun

end Around

theorem Forest.around_of_mem_placed (forest : tree.Forest loose) (holds : tree.Holds node)
    (around : tree.Around node (place.entering node)) :
    ∀ entry ∈ tree.placed place node, tree.Around entry.1 entry.2 := by
  refine forest.induction (motive := fun node => ∀ place, tree.Around node (Place.entering place node) →
    ∀ entry ∈ tree.placed place node, tree.Around entry.1 entry.2)
    (fun node holds inductionHypothesis place around entry member => ?_) node holds place around
  rw [forest.placed_eq holds, List.mem_cons] at member
  rcases member with rfl | member
  · exact around
  · obtain ⟨part, isPart, member⟩ := List.mem_flatMap.mp member
    exact inductionHypothesis part isPart _ (around.entering forest holds isPart) entry member

end Tree

end Placing

end TreeCheck
