/-
Labels can be read back. A label shows lists by brackets around, arrays by brackets behind,
and unions by bars without anything around, so it does not show everything: brackets of
lists inside each other run together, and a union inside an array looks like a union with an
array in it. Where a label is legible, these do not occur and nothing is cut off, and then
there is one shape only that has the label.

Two legible labels are compared by their texts from the front, whatever follows them. A list
of more brackets is compared to one of fewer by taking the brackets off that both have; what
is left is again a list on one side, which may be either one. The induction is therefore on
the depths of both labels together.
-/

import Mathlib.Data.List.Forall2
import TreeCheck.Types.Table

namespace TreeCheck

variable {rest rest' : List Char} {dims levels levels' : Nat} {elem elem' shape : Shape}

/-- What a type is made of, all the way down. A type without parts stands for itself, and an
instance names its class. -/
inductive Shape where
  | leaf (id : TypeId)
  | apply (generic : TypeId) (args : List Shape)
  | list (dims : Nat) (elem : Shape)
  | array (dims : Nat) (elem : Shape)
  | tuple (members : List Shape)
  | union (members : List Shape)

namespace Shape

/-- So many pairs of brackets. -/
def brackets (dims : Nat) : List Char := (List.replicate dims ['[', ']']).flatten

/-- The label of a shape that may nest so many levels; `text` are the names of types without
parts. -/
def shown (text : TypeId → List Char) : Nat → Shape → List Char
  | 0, _ => ['.', '.', '.']
  | _ + 1, .leaf id => text id
  | levels + 1, .apply generic args =>
    text generic ++ '<' :: ([',', ' '].intercalate (args.map (shown text levels)) ++ ['>'])
  | levels + 1, .list dims elem =>
    List.replicate dims '[' ++ (shown text levels elem ++ List.replicate dims ']')
  | levels + 1, .array dims elem => shown text levels elem ++ brackets dims
  | levels + 1, .tuple members =>
    '(' :: ([',', ' '].intercalate (members.map (shown text levels)) ++ [')'])
  | levels + 1, .union members => [' ', '|', ' '].intercalate (members.map (shown text levels))

def IsList : Shape → Prop
  | .list .. => True
  | _ => False

def IsUnion : Shape → Prop
  | .union _ => True
  | _ => False

/-- Shapes whose labels have no brackets behind and no bars outside of brackets. -/
def IsAtom : Shape → Prop
  | .array .. | .union _ => False
  | _ => True

/-- Nothing is cut off within so many levels, no list stands directly in a list, and no array or
union directly in an array, nor a union in a union. -/
def Legible (names : TypeId → Prop) : Nat → Shape → Prop
  | 0, _ => False
  | _ + 1, .leaf id => names id
  | levels + 1, .apply generic args =>
    names generic ∧ args ≠ [] ∧ ∀ arg ∈ args, arg.Legible names levels
  | levels + 1, .list dims elem => 0 < dims ∧ ¬elem.IsList ∧ elem.Legible names levels
  | levels + 1, .array dims elem => 0 < dims ∧ elem.IsAtom ∧ elem.Legible names levels
  | levels + 1, .tuple members => ∀ member ∈ members, member.Legible names levels
  | levels + 1, .union members =>
    2 ≤ members.length ∧ ∀ member ∈ members, ¬member.IsUnion ∧ member.Legible names levels

/-! ### Texts from the front -/

/-- Punctuation marks of labels. -/
def marks : List Char := ['<', '>', '[', ']', '(', ')', ',', '|', '.', ' ']

/-- The text is over, or goes on with one of some marks. -/
def Follows (allowed : List Char) (rest : List Char) : Prop := ∀ first ∈ rest.head?, first ∈ allowed

theorem Follows.cons {allowed : List Char} {first : Char} (among : first ∈ allowed)
    (rest : List Char) : Follows allowed (first :: rest) := by
  rintro other isFirst
  rwa [← Option.some.inj isFirst]

theorem Follows.mono {few many : List Char} (fewer : few ⊆ many) (follows : Follows few rest) :
    Follows many rest :=
  fun first isFirst => fewer (follows first isFirst)

/-- Words that end where something else begins end at the same place. -/
theorem cancel_word {isWord : Char → Prop} {word word' : List Char}
    (all : ∀ letter ∈ word, isWord letter) (all' : ∀ letter ∈ word', isWord letter)
    (ends : ∀ first ∈ rest.head?, ¬isWord first) (ends' : ∀ first ∈ rest'.head?, ¬isWord first)
    (same : word ++ rest = word' ++ rest') : word = word' ∧ rest = rest' := by
  induction word generalizing word' with
  | nil =>
    cases word' with
    | nil => exact ⟨rfl, same⟩
    | cons letter others =>
      rw [List.nil_append] at same
      subst same
      exact absurd (all' letter (.head _)) (ends letter rfl)
  | cons letter others inductionHypothesis =>
    cases word' with
    | nil =>
      rw [List.nil_append] at same
      subst same
      exact absurd (all letter (.head _)) (ends' letter rfl)
    | cons letter' others' =>
      obtain ⟨rfl, equal⟩ := List.cons.inj same
      obtain ⟨rfl, isRest⟩ := inductionHypothesis
        (fun other among => all other (.tail _ among))
        (fun other among => all' other (.tail _ among)) equal
      exact ⟨rfl, isRest⟩

section Joined

variable {α β : Type} {print : α → List Char} {print' : β → List Char} (same : α → β → Prop)
  {mark : Char} {separator : List Char}
variable {items : List α} {items' : List β}

/-- Parts with separators between them are told apart one by one, if each can be told from what
follows it. -/
theorem cancel_joined (stops : List Char) (fresh : mark ∉ stops) {first : α} {first' : β}
    (each : ∀ item ∈ first :: items, ∀ item' ∈ first' :: items', ∀ rest rest',
      Follows (mark :: stops) rest → Follows (mark :: stops) rest' →
      print item ++ rest = print' item' ++ rest' → same item item' ∧ rest = rest')
    (follows : Follows stops rest) (follows' : Follows stops rest')
    (equal : (mark :: separator).intercalate ((first :: items).map print) ++ rest =
      (mark :: separator).intercalate ((first' :: items').map print') ++ rest') :
    List.Forall₂ same (first :: items) (first' :: items') ∧ rest = rest' := by
  have apart {rest : List Char} (follows : Follows stops rest) : rest.head? ≠ some mark :=
    fun isFirst => fresh (follows mark isFirst)
  have more := List.subset_cons_self mark stops
  induction items generalizing first first' items' with
  | nil =>
    cases items' with
    | nil =>
      obtain ⟨isSame, rfl⟩ := each first (.head _) first' (.head _) rest rest'
        (follows.mono more) (follows'.mono more) (by simpa using equal)
      exact ⟨.cons isSame .nil, rfl⟩
    | cons second' others' =>
      simp only [List.map_cons, List.map_nil, List.intercalate_singleton,
        List.intercalate_cons_cons, List.append_assoc, List.cons_append] at equal
      obtain ⟨-, isRest⟩ := each first (.head _) first' (.head _) rest _
        (follows.mono more) (.cons (.head _) _) equal
      exact absurd (congrArg List.head? isRest) (apart follows)
  | cons second others inductionHypothesis =>
    cases items' with
    | nil =>
      simp only [List.map_cons, List.map_nil, List.intercalate_singleton,
        List.intercalate_cons_cons, List.append_assoc, List.cons_append] at equal
      obtain ⟨-, isRest⟩ := each first (.head _) first' (.head _) _ rest'
        (.cons (.head _) _) (follows'.mono more) equal
      exact absurd (congrArg List.head? isRest.symm) (apart follows')
    | cons second' others' =>
      simp only [List.map_cons, List.intercalate_cons_cons, List.append_assoc,
        List.cons_append] at equal
      obtain ⟨isSame, isRest⟩ := each first (.head _) first' (.head _) _ _
        (.cons (.head _) _) (.cons (.head _) _) equal
      obtain ⟨areSame, rfl⟩ := inductionHypothesis
        (fun item among item' among' => each item (.tail _ among) item'
          (.tail _ among'))
        (by simpa using (List.append_cancel_left (List.cons.inj isRest).2))
      exact ⟨.cons isSame areSame, rfl⟩

theorem joined_begins {α : Type} (print : α → List Char) (separator : List Char) (first : α)
    (others : List α) (rest : List Char) : ∃ rest',
      separator.intercalate ((first :: others).map print) ++ rest = print first ++ rest' := by
  cases others with
  | nil => exact ⟨rest, by simp⟩
  | cons second others =>
    refine ⟨separator ++ separator.intercalate ((second :: others).map print) ++ rest, ?_⟩
    rw [List.map_cons, List.map_cons, List.intercalate_cons_cons]
    simp only [List.append_assoc]

/-- The same in brackets, where there may be no parts at all. -/
theorem cancel_enclosed {close : Char} (fresh : mark ≠ close)
    (each : ∀ item ∈ items, ∀ item' ∈ items', ∀ rest rest',
      Follows [mark, close] rest → Follows [mark, close] rest' →
      print item ++ rest = print' item' ++ rest' → same item item' ∧ rest = rest')
    (opens : ∀ item ∈ items, ∀ rest, (print item ++ rest).head? ≠ some close)
    (opens' : ∀ item ∈ items', ∀ rest, (print' item ++ rest).head? ≠ some close)
    (equal : (mark :: separator).intercalate (items.map print) ++ close :: rest =
      (mark :: separator).intercalate (items'.map print') ++ close :: rest') :
    List.Forall₂ same items items' ∧ rest = rest' := by
  cases items with
  | nil =>
    cases items' with
    | nil => exact ⟨.nil, (List.cons.inj equal).2⟩
    | cons first' others' =>
      obtain ⟨rest'', isRest⟩ :=
        joined_begins print' (mark :: separator) first' others' (close :: rest')
      rw [isRest] at equal
      exact absurd (congrArg List.head? equal).symm (opens' first' (.head _) _)
  | cons first others =>
    cases items' with
    | nil =>
      obtain ⟨rest'', isRest⟩ :=
        joined_begins print (mark :: separator) first others (close :: rest)
      rw [isRest] at equal
      exact absurd (congrArg List.head? equal) (opens first (.head _) _)
    | cons first' others' =>
      obtain ⟨areSame, isRest⟩ := cancel_joined same [close] (by simpa using fresh) each
        (.cons (.head _) _) (.cons (.head _) _) equal
      exact ⟨areSame, (List.cons.inj isRest).2⟩

end Joined

/-! ### Reading back -/

/-- What may come behind a shape without brackets behind and bars outside, behind one without bars
outside, and behind any. -/
def afterAtom : List Char := ['[', ' ', ',', ')', ']', '>']

def afterPart : List Char := [' ', ',', ')', ']', '>']

def afterAll : List Char := [',', ')', ']', '>']

section Reading

variable {text : TypeId → List Char} {names : TypeId → Prop} {depth : Nat}

/-- Among legible shapes of some sort, with levels that are so many together, labels tell which it
is and where it ends. -/
def Cancels (text : TypeId → List Char) (names : TypeId → Prop) (sort : Shape → Prop)
    (follow : List Char) (depth : Nat) : Prop :=
  ∀ ⦃levels levels' : Nat⦄ ⦃shape shape' : Shape⦄ ⦃rest rest' : List Char⦄,
    levels + levels' ≤ depth → sort shape → sort shape' →
    shape.Legible names levels → shape'.Legible names levels' →
    Follows follow rest → Follows follow rest' →
    shown text levels shape ++ rest = shown text levels' shape' ++ rest' →
    shape = shape' ∧ rest = rest'

/-- Names are words without punctuation, and different for different types. -/
structure Naming (text : TypeId → List Char) (names : TypeId → Prop) : Prop where
  some : ∀ {id}, names id → text id ≠ []
  plain : ∀ {id}, names id → ∀ letter ∈ text id, letter ∉ marks
  apart : ∀ {id other}, names id → names other → text id = text other → id = other

namespace Naming

variable (naming : Naming text names) {id other : TypeId} {rest rest' : List Char}

include naming

theorem head_notMem (isName : names id) (rest : List Char) :
    ∃ letter others, text id ++ rest = letter :: others ∧ letter ∉ marks := by
  cases isText : text id with
  | nil => exact absurd isText (naming.some isName)
  | cons letter others =>
    exact ⟨letter, others ++ rest, rfl, naming.plain isName letter (isText ▸ .head _)⟩

/-- No name begins with a punctuation mark. -/
theorem ne_mark (isName : names id) {mark : Char} (isMark : mark ∈ marks) :
    text id ++ rest ≠ mark :: rest' := by
  intro equal
  obtain ⟨letter, others, isText, notMark⟩ := naming.head_notMem isName rest
  rw [isText] at equal
  exact notMark ((List.cons.inj equal).1 ▸ isMark)

theorem cancel (isName : names id) (isName' : names other)
    (ends : Follows marks rest) (ends' : Follows marks rest')
    (equal : text id ++ rest = text other ++ rest') : id = other ∧ rest = rest' := by
  obtain ⟨same, isRest⟩ := cancel_word (naming.plain isName) (naming.plain isName')
    (fun first isFirst plain => plain (ends first isFirst))
    (fun first isFirst plain => plain (ends' first isFirst)) equal
  exact ⟨naming.apart isName isName' same, isRest⟩

end Naming

theorem eq_of_forall₂ {items items' : List Shape} (same : List.Forall₂ Eq items items') :
    items = items' :=
  List.forall₂_eq_eq_eq ▸ same

/-- No label begins with a closing mark. -/
theorem Legible.head_ne (naming : Naming text names) {levels : Nat} {shape : Shape}
    (legible : shape.Legible names levels) {mark : Char} (isMark : mark ∈ marks)
    (closing : mark ≠ '[' ∧ mark ≠ '(') (rest : List Char) :
    (shown text levels shape ++ rest).head? ≠ some mark := by
  have named {id : TypeId} (isName : names id) (rest : List Char) :
      (text id ++ rest).head? ≠ some mark := by
    intro isFirst
    obtain ⟨letter, others, isText, notMark⟩ := naming.head_notMem isName rest
    rw [isText] at isFirst
    exact notMark (Option.some.inj isFirst ▸ isMark)
  induction levels generalizing shape rest with
  | zero => exact absurd legible id
  | succ levels inductionHypothesis =>
    cases shape with
    | leaf id => exact named legible rest
    | apply generic args =>
      rw [shown, List.append_assoc]
      exact named legible.1 _
    | list dims elem =>
      obtain ⟨dims, rfl⟩ := Nat.exists_eq_add_one_of_ne_zero (Nat.ne_of_gt legible.1)
      exact fun isFirst => closing.1 (Option.some.inj isFirst).symm
    | array dims elem =>
      rw [shown, List.append_assoc]
      exact inductionHypothesis legible.2.2 _
    | tuple members => exact fun isFirst => closing.2 (Option.some.inj isFirst).symm
    | union members =>
      cases members with
      | nil => exact absurd legible.1 (by simp)
      | cons first others =>
        obtain ⟨rest', isRest⟩ := joined_begins (shown text levels) [' ', '|', ' '] first others rest
        rw [shown, isRest]
        exact inductionHypothesis (legible.2 first (.head _)).2 rest'

theorem afterAtom_marks : afterAtom ⊆ marks := by decide

/-- Legible parts in brackets. -/
theorem cancels_enclosed (naming : Naming text names) {levels levels' : Nat} {close : Char}
    (isClose : close ∈ [')', '>'])
    (inner : Cancels text names (fun _ => True) afterAll (levels + levels'))
    {items items' : List Shape} (legible : ∀ item ∈ items, item.Legible names levels)
    (legible' : ∀ item ∈ items', item.Legible names levels') {rest rest' : List Char}
    (equal : [',', ' '].intercalate (items.map (shown text levels)) ++ close :: rest =
      [',', ' '].intercalate (items'.map (shown text levels')) ++ close :: rest') :
    items = items' ∧ rest = rest' := by
  have closes : ',' ≠ close ∧ [',', close] ⊆ afterAll ∧ close ∈ marks ∧ close ≠ '[' ∧ close ≠ '(' := by
    simp only [List.mem_cons, List.not_mem_nil, or_false] at isClose
    rcases isClose with rfl | rfl <;> decide
  obtain ⟨fresh, among, isMark, closing⟩ := closes
  obtain ⟨areSame, isRest⟩ := cancel_enclosed Eq fresh
    (fun item isItem item' isItem' rest rest' follows follows' equal =>
      inner (Nat.le_refl _) trivial trivial (legible item isItem) (legible' item' isItem')
        (follows.mono among) (follows'.mono among) equal)
    (fun item isItem rest => (legible item isItem).head_ne naming isMark closing rest)
    (fun item isItem rest => (legible' item isItem).head_ne naming isMark closing rest) equal
  exact ⟨eq_of_forall₂ areSame, isRest⟩

theorem follows_closing (positive : 0 < dims) (rest : List Char) :
    Follows afterAll (List.replicate dims ']' ++ rest) := by
  obtain ⟨dims, rfl⟩ := Nat.exists_eq_add_one_of_ne_zero (Nat.ne_of_gt positive)
  exact .cons (by decide) _

/-- Brackets around are taken off on both sides. Where one side has more of them, a list is left
there, which the element of the other side cannot be. -/
theorem not_fewer_brackets {more : Nat}
    (inner : Cancels text names (fun _ => True) afterAll (levels + (levels' + 1)))
    (legible : (list dims elem).Legible names (levels + 1))
    (legible' : (list (dims + (more + 1)) elem').Legible names (levels' + 1))
    (equal : shown text (levels + 1) (list dims elem) ++ rest =
      shown text (levels' + 1) (list (dims + (more + 1)) elem') ++ rest') : False := by
  have left : shown text levels elem ++ (List.replicate dims ']' ++ rest) =
      shown text (levels' + 1) (list (more + 1) elem') ++ (List.replicate dims ']' ++ rest') := by
    have closing : List.replicate (dims + (more + 1)) ']' =
        List.replicate (more + 1) ']' ++ List.replicate dims ']' := by
      rw [Nat.add_comm, List.replicate_add]
    rw [shown, shown, closing, List.replicate_add] at equal
    simp only [List.append_assoc] at equal
    rw [shown]
    simpa only [List.append_assoc] using List.append_cancel_left equal
  have legible'' : (list (more + 1) elem').Legible names (levels' + 1) :=
    ⟨Nat.succ_pos more, legible'.2⟩
  obtain ⟨isList, -⟩ := inner (Nat.le_refl _) trivial trivial legible.2.2 legible''
    (follows_closing legible.1 rest) (follows_closing legible.1 rest') left
  exact legible.2.1 (isList ▸ trivial)

theorem cancel_lists (inner : ∀ less < depth, Cancels text names (fun _ => True) afterAll less)
    {dims' : Nat} (small : levels + levels' + 1 < depth)
    (legible : (list dims elem).Legible names (levels + 1))
    (legible' : (list dims' elem').Legible names (levels' + 1))
    (equal : shown text (levels + 1) (list dims elem) ++ rest =
      shown text (levels' + 1) (list dims' elem') ++ rest') :
    list dims elem = list dims' elem' ∧ rest = rest' := by
  rcases Nat.lt_trichotomy dims dims' with less | rfl | less
  · obtain ⟨more, rfl⟩ := Nat.exists_eq_add_of_lt less
    exact (not_fewer_brackets (inner (levels + (levels' + 1)) small) legible legible' equal).elim
  · simp only [shown, List.append_assoc] at equal
    obtain ⟨rfl, isRest⟩ := inner (levels + levels') (by omega) (Nat.le_refl _) trivial trivial
      legible.2.2 legible'.2.2 (follows_closing legible.1 rest) (follows_closing legible.1 rest')
      (List.append_cancel_left equal)
    exact ⟨rfl, List.append_cancel_left isRest⟩
  · obtain ⟨more, rfl⟩ := Nat.exists_eq_add_of_lt less
    exact (not_fewer_brackets (inner (levels' + (levels + 1)) (by omega)) legible' legible
      equal.symm).elim

/-- Shapes whose labels end with their last bracket, or are names. -/
theorem cancels_atoms (naming : Naming text names)
    (inner : ∀ less < depth, Cancels text names (fun _ => True) afterAll less) :
    Cancels text names IsAtom afterAtom depth := by
  intro levels levels' shape shape' rest rest' small isAtom isAtom' legible legible' follows
    follows' equal
  cases levels with
  | zero => exact absurd legible id
  | succ levels =>
  cases levels' with
  | zero => exact absurd legible' id
  | succ levels' =>
  have ends := follows.mono afterAtom_marks
  have ends' := follows'.mono afterAtom_marks
  have inside := inner (levels + levels') (by omega)
  have notOpened {rest rest'' : List Char} (follows : Follows afterAtom rest) :
      rest ≠ '<' :: rest'' := by
    rintro rfl
    exact absurd (follows '<' rfl) (by decide)
  cases shape with
  | leaf id =>
    cases shape' with
    | leaf other =>
      obtain ⟨rfl, isRest⟩ := naming.cancel legible legible' ends ends' equal
      exact ⟨rfl, isRest⟩
    | apply generic args =>
      simp only [shown, List.append_assoc, List.cons_append] at equal
      obtain ⟨-, isRest⟩ := naming.cancel legible legible'.1 ends (.cons (by decide) _) equal
      exact absurd isRest (notOpened follows)
    | list dims elem =>
      obtain ⟨dims, rfl⟩ := Nat.exists_eq_add_one_of_ne_zero (Nat.ne_of_gt legible'.1)
      exact absurd equal (naming.ne_mark legible (by decide))
    | tuple members => exact absurd equal (naming.ne_mark legible (by decide))
    | array dims elem => exact isAtom'.elim
    | union members => exact isAtom'.elim
  | apply generic args =>
    simp only [shown, List.append_assoc, List.cons_append] at equal
    cases shape' with
    | leaf other =>
      obtain ⟨-, isRest⟩ := naming.cancel legible.1 legible' (.cons (by decide) _) ends' equal
      exact absurd isRest.symm (notOpened follows')
    | apply generic' args' =>
      simp only [shown, List.append_assoc, List.cons_append] at equal
      obtain ⟨rfl, isArgs⟩ := naming.cancel legible.1 legible'.1 (.cons (by decide) _)
        (.cons (by decide) _) equal
      obtain ⟨rfl, isRest⟩ := cancels_enclosed naming (by decide) inside legible.2.2 legible'.2.2
        (List.cons.inj isArgs).2
      exact ⟨rfl, isRest⟩
    | list dims elem =>
      obtain ⟨dims, rfl⟩ := Nat.exists_eq_add_one_of_ne_zero (Nat.ne_of_gt legible'.1)
      exact absurd equal (naming.ne_mark legible.1 (by decide))
    | tuple members => exact absurd equal (naming.ne_mark legible.1 (by decide))
    | array dims elem => exact isAtom'.elim
    | union members => exact isAtom'.elim
  | list dims elem =>
    cases shape' with
    | list dims' elem' => exact cancel_lists inner (by omega) legible legible' equal
    | leaf other =>
      obtain ⟨dims, rfl⟩ := Nat.exists_eq_add_one_of_ne_zero (Nat.ne_of_gt legible.1)
      exact absurd equal.symm (naming.ne_mark legible' (by decide))
    | apply generic args =>
      obtain ⟨dims, rfl⟩ := Nat.exists_eq_add_one_of_ne_zero (Nat.ne_of_gt legible.1)
      simp only [shown, List.append_assoc] at equal
      exact absurd equal.symm (naming.ne_mark legible'.1 (by decide))
    | tuple members =>
      obtain ⟨dims, rfl⟩ := Nat.exists_eq_add_one_of_ne_zero (Nat.ne_of_gt legible.1)
      exact absurd (congrArg List.head? equal) (by simp [shown, List.replicate_succ])
    | array dims elem => exact isAtom'.elim
    | union members => exact isAtom'.elim
  | tuple members =>
    cases shape' with
    | tuple members' =>
      simp only [shown, List.append_assoc, List.cons_append] at equal
      obtain ⟨rfl, isRest⟩ := cancels_enclosed naming (by decide) inside legible legible'
        (List.cons.inj equal).2
      exact ⟨rfl, isRest⟩
    | leaf other => exact absurd equal.symm (naming.ne_mark legible' (by decide))
    | apply generic args =>
      simp only [shown, List.append_assoc] at equal
      exact absurd equal.symm (naming.ne_mark legible'.1 (by decide))
    | list dims elem =>
      obtain ⟨dims, rfl⟩ := Nat.exists_eq_add_one_of_ne_zero (Nat.ne_of_gt legible'.1)
      exact absurd (congrArg List.head? equal) (by simp [shown, List.replicate_succ])
    | array dims elem => exact isAtom'.elim
    | union members => exact isAtom'.elim
  | array dims elem => exact isAtom.elim
  | union members => exact isAtom.elim

theorem brackets_succ (dims : Nat) : brackets (dims + 1) = '[' :: ']' :: brackets dims := by
  simp [brackets, List.replicate_succ]

theorem cancel_brackets {dims' : Nat} (follows : Follows afterPart rest)
    (follows' : Follows afterPart rest') (equal : brackets dims ++ rest = brackets dims' ++ rest') :
    dims = dims' ∧ rest = rest' := by
  have notOpened {rest rest'' : List Char} (follows : Follows afterPart rest) :
      rest ≠ '[' :: rest'' := by
    rintro rfl
    exact absurd (follows '[' rfl) (by decide)
  induction dims generalizing dims' with
  | zero =>
    cases dims' with
    | zero => exact ⟨rfl, equal⟩
    | succ dims' =>
      rw [brackets_succ] at equal
      exact absurd equal (notOpened follows)
  | succ dims inductionHypothesis =>
    cases dims' with
    | zero =>
      rw [brackets_succ] at equal
      exact absurd equal.symm (notOpened follows')
    | succ dims' =>
      rw [brackets_succ, brackets_succ] at equal
      obtain ⟨rfl, isRest⟩ := inductionHypothesis (List.cons.inj (List.cons.inj equal).2).2
      exact ⟨rfl, isRest⟩

theorem follows_brackets (dims : Nat) (follows : Follows afterPart rest) :
    Follows afterAtom (brackets dims ++ rest) := by
  cases dims with
  | zero => exact follows.mono (by decide)
  | succ dims =>
    rw [brackets_succ]
    exact .cons (by decide) _

/-- A shape without bars outside, as one without brackets behind and so many pairs of brackets. -/
theorem exists_atom (text : TypeId → List Char) (notUnion : ¬shape.IsUnion)
    (legible : shape.Legible names levels) : ∃ base level dims, level ≤ levels ∧ IsAtom base ∧
      base.Legible names level ∧ (shape = base ∧ dims = 0 ∨ shape = array dims base ∧ 0 < dims) ∧
      shown text levels shape = shown text level base ++ brackets dims := by
  have itself (isAtom : shape.IsAtom) : ∃ base level dims, level ≤ levels ∧ IsAtom base ∧
      base.Legible names level ∧ (shape = base ∧ dims = 0 ∨ shape = array dims base ∧ 0 < dims) ∧
      shown text levels shape = shown text level base ++ brackets dims :=
    ⟨shape, levels, 0, Nat.le_refl _, isAtom, legible, .inl ⟨rfl, rfl⟩, by simp [brackets]⟩
  cases shape with
  | array dims elem =>
    cases levels with
    | zero => exact absurd legible id
    | succ levels =>
      exact ⟨elem, levels, dims, Nat.le_succ _, legible.2.1, legible.2.2, .inr ⟨rfl, legible.1⟩, rfl⟩
  | union members => exact absurd trivial notUnion
  | leaf id => exact itself trivial
  | apply generic args => exact itself trivial
  | list dims elem => exact itself trivial
  | tuple members => exact itself trivial

/-- Shapes whose labels have no bars outside of brackets. -/
theorem cancels_parts (atoms : Cancels text names IsAtom afterAtom depth) :
    Cancels text names (fun shape => ¬shape.IsUnion) afterPart depth := by
  intro levels levels' shape shape' rest rest' small notUnion notUnion' legible legible' follows
    follows' equal
  obtain ⟨base, level, dims, less, isAtom, isBase, isShape, isShown⟩ :=
    exists_atom text notUnion legible
  obtain ⟨base', level', dims', less', isAtom', isBase', isShape', isShown'⟩ :=
    exists_atom text notUnion' legible'
  rw [isShown, isShown', List.append_assoc, List.append_assoc] at equal
  obtain ⟨rfl, isBrackets⟩ := atoms (by omega) isAtom isAtom' isBase isBase'
    (follows_brackets dims follows) (follows_brackets dims' follows') equal
  obtain ⟨rfl, isRest⟩ := cancel_brackets follows follows' isBrackets
  refine ⟨?_, isRest⟩
  rcases isShape with ⟨rfl, rfl⟩ | ⟨rfl, positive⟩
  · rcases isShape' with ⟨rfl, -⟩ | ⟨-, positive⟩
    · rfl
    · exact absurd positive (Nat.lt_irrefl 0)
  · rcases isShape' with ⟨-, rfl⟩ | ⟨rfl, -⟩
    · exact absurd positive (Nat.lt_irrefl 0)
    · rfl

/-- A shape as what stands between its bars. -/
theorem exists_members (text : TypeId → List Char) (legible : shape.Legible names levels) :
    ∃ first others level, level ≤ levels ∧
      (∀ member ∈ first :: others, ¬IsUnion member ∧ member.Legible names level) ∧
      (shape = first ∧ others = [] ∨ shape = union (first :: others) ∧ others ≠ []) ∧
      shown text levels shape = [' ', '|', ' '].intercalate
        ((first :: others).map (shown text level)) := by
  by_cases isUnion : shape.IsUnion
  · cases shape with
    | union members =>
      cases levels with
      | zero => exact absurd legible id
      | succ levels =>
        match members, legible with
        | first :: second :: others, ⟨_, areLegible⟩ =>
          exact ⟨first, second :: others, levels, Nat.le_succ _, areLegible, .inr ⟨rfl, nofun⟩, rfl⟩
        | [_], ⟨several, _⟩ => exact absurd several (by simp)
        | [], ⟨several, _⟩ => exact absurd several (by simp)
    | _ => exact isUnion.elim
  · refine ⟨shape, [], levels, Nat.le_refl _, fun member among => ?_, .inl ⟨rfl, rfl⟩, by simp⟩
    obtain rfl := List.mem_singleton.mp among
    exact ⟨isUnion, legible⟩

theorem cancels_all (parts : Cancels text names (fun shape => ¬shape.IsUnion) afterPart depth) :
    Cancels text names (fun _ => True) afterAll depth := by
  intro levels levels' shape shape' rest rest' small _ _ legible legible' follows follows' equal
  obtain ⟨first, others, level, less, areLegible, isShape, isShown⟩ :=
    exists_members text legible
  obtain ⟨first', others', level', less', areLegible', isShape', isShown'⟩ :=
    exists_members text legible'
  rw [isShown, isShown'] at equal
  obtain ⟨areSame, isRest⟩ := cancel_joined Eq afterAll (by decide)
    (fun member among member' among' rest rest' follows follows' equal =>
      parts (by omega) (areLegible member among).1 (areLegible' member' among').1
        (areLegible member among).2 (areLegible' member' among').2 follows follows' equal)
    follows follows' equal
  cases eq_of_forall₂ areSame
  refine ⟨?_, isRest⟩
  rcases isShape with ⟨rfl, rfl⟩ | ⟨rfl, several⟩
  · rcases isShape' with ⟨rfl, -⟩ | ⟨-, several⟩
    · rfl
    · exact absurd rfl several
  · rcases isShape' with ⟨-, rfl⟩ | ⟨rfl, -⟩
    · exact absurd rfl several
    · rfl

/-- A legible label tells what shape it is of, and where it ends. -/
theorem cancels (naming : Naming text names) (depth : Nat) :
    Cancels text names (fun _ => True) afterAll depth := by
  induction depth using Nat.strongRecOn with
  | _ depth inductionHypothesis =>
    exact cancels_all (cancels_parts (cancels_atoms naming inductionHypothesis))

end Reading

end Shape

end TreeCheck
