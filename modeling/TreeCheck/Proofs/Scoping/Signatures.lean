/-
The keys of callables. A key is the name of the callable and, in parentheses, one code for each
parameter; a code shows how the type of the parameter is written, without places and without
template arguments, and what sort of thing every name in it means. Codes can be read back, as
long as names do not hold the marks that codes are made of, so callables have the same key
exactly if they have the same name and their parameters are written alike.

One thing a code does not show: a template parameter of the callable itself has the same code
as one of the class around it. `Standing.shown` is what is left of a name's standing.

Codes are compared from the front, whatever follows them. The first letter says which form the
type has, and the induction is on how deep the codes were made.
-/

import TreeCheck.Proofs.Reporting.Actions
import TreeCheck.Proofs.Scoping.Tables
import TreeCheck.Proofs.Tree.Loading
import TreeCheck.Proofs.Types.Equality
import TreeCheck.Resolve.Units

namespace TreeCheck

variable {name' : String} {rest rest' : List Char} {dims : UInt8}

/-! ### Names in signatures -/

/-- The primitive types with their kinds. -/
def TypeKind.builtins : List (String × TypeKind) :=
  [("Int", .int), ("Char", .char), ("Bool", .bool), ("String", .string), ("Text", .text),
    ("Real", .real), ("Void", .void)]

theorem TypeKind.mem_builtins {name : String} {kind : TypeKind}
    (isBuiltin : TypeKind.ofBuiltin? name = some kind) : (name, kind) ∈ builtins := by
  unfold TypeKind.ofBuiltin? at isBuiltin
  split at isBuiltin <;> cases isBuiltin <;> decide

/-- Primitive types are told apart by their kinds. -/
theorem TypeKind.ofBuiltin?_inj {name : String} {kind : TypeKind}
    (isBuiltin : TypeKind.ofBuiltin? name = some kind)
    (isBuiltin' : TypeKind.ofBuiltin? name' = some kind) : name = name' := by
  have apart : ∀ first ∈ builtins, ∀ second ∈ builtins, first.2 = second.2 → first.1 = second.1 := by
    decide
  exact apart _ (mem_builtins isBuiltin) _ (mem_builtins isBuiltin') rfl

/-- What a name in a signature means. -/
inductive Standing where
  | primitive | ownParam | classDecl | enum | param | unresolved
  deriving DecidableEq, Repr

/-- What a name means where a callable with some template parameters of its own is declared. -/
def standing (tree : Tree) (meaning? : Key → Option DeclId) (own : List String) (name : String) :
    Standing :=
  if (TypeKind.ofBuiltin? name).isSome then .primitive
  else if name ∈ own then .ownParam
  else
    match (meaning? (.ofName name)).bind tree.kindOf? with
    | some .classDecl => .classDecl
    | some .enum => .enum
    | some .templateParam => .param
    | _ => .unresolved

namespace Standing

/-- What a key shows: a template parameter, whoever has it. -/
def shown : Standing → Standing
  | .ownParam => .param
  | standing => standing

/-- The kind whose letter a name that is not primitive is shown with. -/
def kind : Standing → TypeKind
  | .classDecl => .classType
  | .enum => .enum
  | .ownParam | .param => .param
  | .primitive | .unresolved => .invalid

theorem kind_shown (standing : Standing) : standing.shown.kind = standing.kind := by
  cases standing <;> rfl

theorem shown_eq_of_kind {first second : Standing} (different : first ≠ .primitive)
    (different' : second ≠ .primitive) (same : first.kind = second.kind) :
    first.shown = second.shown := by
  cases first <;> cases second <;> simp_all [kind, shown]

end Standing

/-- A name without the marks that keys are made of. -/
def PlainName (name : String) : Prop :=
  ∀ mark ∈ ['(', ')', '<', '>', ',', '|'], mark ∉ name.toList

/-! ### Types that are written alike -/

namespace Tree

variable (tree : Tree)

/-- The form of a type, if there is one. -/
def formAt? (id : Option TypeExprId) : Option TypeExprForm :=
  (tree.typeAt? id).map fun (_, written) => written.form

/-- Types are written alike if they have the same form, down to the names in them, which are the
same and have the same standing. Places do not count, nor do template arguments. -/
inductive Alike (rank rank' : String → Standing) : Option TypeExprId → Option TypeExprId → Prop where
  | missing {id id' : Option TypeExprId} : tree.formAt? id = none → tree.formAt? id' = none →
      Alike rank rank' id id'
  | named {id id' : Option TypeExprId} {name name' : NameId} {args args' : List (Option TypeExprId)} :
      tree.formAt? id = some (.named name args) → tree.formAt? id' = some (.named name' args') →
      tree.text name = tree.text name' → rank (tree.text name) = rank' (tree.text name') →
      Alike rank rank' id id'
  | list {id id' : Option TypeExprId} {base base' : TypeExprId} {dims : UInt8} :
      tree.formAt? id = some (.list base dims) → tree.formAt? id' = some (.list base' dims) →
      Alike rank rank' (some base) (some base') → Alike rank rank' id id'
  | array {id id' : Option TypeExprId} {base base' : TypeExprId} {dims : UInt8} :
      tree.formAt? id = some (.array base dims) → tree.formAt? id' = some (.array base' dims) →
      Alike rank rank' (some base) (some base') → Alike rank rank' id id'
  | tuple {id id' : Option TypeExprId} {members members' : List (Option TypeExprId)} :
      tree.formAt? id = some (.tuple members) → tree.formAt? id' = some (.tuple members') →
      List.Forall₂ (Alike rank rank') members members' → Alike rank rank' id id'
  | union {id id' : Option TypeExprId} {members members' : List (Option TypeExprId)} :
      tree.formAt? id = some (.union members) → tree.formAt? id' = some (.union members') →
      List.Forall₂ (Alike rank rank') members members' → Alike rank rank' id id'

variable {tree}

end Tree

/-- The types that a type of some form is made of, other than template arguments. -/
def TypeExprForm.members : TypeExprForm → List (Option TypeExprId)
  | .named .. => []
  | .list base _ | .array base _ => [some base]
  | .tuple members | .union members => members

/-- The names in a type, other than in template arguments. -/
inductive Tree.Spells (tree : Tree) : Option TypeExprId → String → Prop where
  | itself {id : Option TypeExprId} {name : NameId} {args : List (Option TypeExprId)} :
      tree.formAt? id = some (.named name args) → Spells tree id (tree.text name)
  | inside {id member : Option TypeExprId} {form : TypeExprForm} {name : String} :
      tree.formAt? id = some form → member ∈ form.members → Spells tree member name →
      Spells tree id name

namespace Resolve

variable {tree : Tree} {meaning? : Key → Option DeclId}

/-! ### Codes as texts -/

theorem nameCode_eq (own : List String) (name : String) :
    nameCode tree meaning? own name = match TypeKind.ofBuiltin? name with
      | some kind => String.singleton kind.code
      | none => bracketed (standing tree meaning? own name).kind name := by
  unfold nameCode standing
  cases TypeKind.ofBuiltin? name with
  | some kind => rfl
  | none =>
    simp only [Option.isSome_none, Bool.false_eq_true, if_false]
    by_cases isOwn : name ∈ own
    · simp only [isOwn, if_true]
      rfl
    · simp only [isOwn, if_false]
      cases (meaning? (.ofName name)).bind tree.kindOf? with
      | none => rfl
      | some kind => cases kind <;> rfl

/-- The code of a type as a list of characters. -/
def codeText (tree : Tree) (meaning? : Key → Option DeclId) (own : List String) (fuel : Nat)
    (id : Option TypeExprId) : List Char :=
  (typeCodeWithin tree meaning? own fuel id).toList

/-- The kind whose letter the code of a name begins with. -/
def nameKind (tree : Tree) (meaning? : Key → Option DeclId) (own : List String) (name : String) :
    TypeKind :=
  (TypeKind.ofBuiltin? name).getD (standing tree meaning? own name).kind

/-- The kind whose letter the code of a type begins with. -/
def kindAt (tree : Tree) (meaning? : Key → Option DeclId) (own : List String)
    (id : Option TypeExprId) : TypeKind :=
  match tree.formAt? id with
  | none => .invalid
  | some (.named name _) => nameKind tree meaning? own (tree.text name)
  | some (.list ..) => .list
  | some (.array ..) => .array
  | some (.tuple _) => .tuple
  | some (.union _) => .multi

section

variable {own : List String} {fuel : Nat} {id : Option TypeExprId}

attribute [local simp] codeText typeCodeWithin TypeKind.code bracketed

theorem codeText_missing (missing : tree.formAt? id = none) :
    codeText tree meaning? own fuel id = ['?'] := by
  have nothing : tree.typeAt? id = none := Option.map_eq_none_iff.mp missing
  cases fuel with
  | zero => simp
  | succ fuel => simp [nothing]

theorem typeAt?_of_formAt? {form : TypeExprForm} (isForm : tree.formAt? id = some form) :
    ∃ at' written, tree.typeAt? id = some (at', written) ∧ written.form = form := by
  obtain ⟨⟨at', written⟩, there, isForm⟩ := Option.map_eq_some_iff.mp isForm
  exact ⟨at', written, there, isForm⟩

theorem codeText_named {name : NameId} {args : List (Option TypeExprId)}
    (isForm : tree.formAt? id = some (.named name args)) :
    codeText tree meaning? own (fuel + 1) id =
      (nameKind tree meaning? own (tree.text name)).code ::
        if (TypeKind.ofBuiltin? (tree.text name)).isSome then []
        else '<' :: ((tree.text name).toList ++ ['>']) := by
  obtain ⟨_, written, there, form⟩ := typeAt?_of_formAt? isForm
  simp only [codeText, typeCodeWithin, there, form, nameCode_eq, nameKind]
  cases TypeKind.ofBuiltin? (tree.text name) <;> simp

theorem codeText_list {base : TypeExprId} (isForm : tree.formAt? id = some (.list base dims)) :
    codeText tree meaning? own (fuel + 1) id =
      'L' :: (Nat.toDigits 10 dims.toNat ++
        '<' :: (codeText tree meaning? own fuel (some base) ++ ['>'])) := by
  obtain ⟨_, written, there, form⟩ := typeAt?_of_formAt? isForm
  simp [there, form, Nat.toString_eq_repr]

theorem codeText_array {base : TypeExprId} (isForm : tree.formAt? id = some (.array base dims)) :
    codeText tree meaning? own (fuel + 1) id =
      'A' :: (Nat.toDigits 10 dims.toNat ++
        '<' :: (codeText tree meaning? own fuel (some base) ++ ['>'])) := by
  obtain ⟨_, written, there, form⟩ := typeAt?_of_formAt? isForm
  simp [there, form, Nat.toString_eq_repr]

theorem codeText_tuple {members : List (Option TypeExprId)}
    (isForm : tree.formAt? id = some (.tuple members)) :
    codeText tree meaning? own (fuel + 1) id =
      'T' :: '<' :: ([','].intercalate (members.map (codeText tree meaning? own fuel)) ++ ['>']) := by
  obtain ⟨_, written, there, form⟩ := typeAt?_of_formAt? isForm
  simp [there, form, TypeTable.toList_join]
  rfl

theorem codeText_union {members : List (Option TypeExprId)}
    (isForm : tree.formAt? id = some (.union members)) :
    codeText tree meaning? own (fuel + 1) id =
      'M' :: '<' :: (['|'].intercalate (members.map (codeText tree meaning? own fuel)) ++ ['>']) := by
  obtain ⟨_, written, there, form⟩ := typeAt?_of_formAt? isForm
  simp [there, form, TypeTable.toList_join]
  rfl

/-- The first letter of a code. -/
theorem codeText_begins : ∃ later,
    codeText tree meaning? own (fuel + 1) id = (kindAt tree meaning? own id).code :: later := by
  unfold kindAt
  cases isForm : tree.formAt? id with
  | none => exact ⟨[], codeText_missing isForm⟩
  | some form =>
    cases form with
    | named name args => exact ⟨_, codeText_named isForm⟩
    | list base dims => exact ⟨_, codeText_list isForm⟩
    | array base dims => exact ⟨_, codeText_array isForm⟩
    | tuple members => exact ⟨_, codeText_tuple isForm⟩
    | union members => exact ⟨_, codeText_union isForm⟩

/-- No name has the letter of a form that is no name. -/
theorem nameKind_notMem (name : String) :
    nameKind tree meaning? own name ∉ [.list, .array, .tuple, .multi] := by
  unfold nameKind
  cases isBuiltin : TypeKind.ofBuiltin? name with
  | none => cases standing tree meaning? own name <;> decide
  | some kind =>
    have apart : ∀ builtin ∈ TypeKind.builtins,
        builtin.2 ∉ [TypeKind.list, .array, .tuple, .multi] := by decide
    exact apart _ (TypeKind.mem_builtins isBuiltin)

/-- What the first letter of a code says about the form of the type. -/
theorem kindAt_spec (id : Option TypeExprId) :
    match kindAt tree meaning? own id with
    | .list => ∃ base dims, tree.formAt? id = some (.list base dims)
    | .array => ∃ base dims, tree.formAt? id = some (.array base dims)
    | .tuple => ∃ members, tree.formAt? id = some (.tuple members)
    | .multi => ∃ members, tree.formAt? id = some (.union members)
    | kind => tree.formAt? id = none ∧ kind = .invalid ∨
        ∃ name args, tree.formAt? id = some (.named name args) ∧
          nameKind tree meaning? own (tree.text name) = kind := by
  unfold kindAt
  cases isForm : tree.formAt? id with
  | none => exact .inl ⟨rfl, rfl⟩
  | some form =>
    cases form with
    | named name args =>
      have other : nameKind tree meaning? own (tree.text name) ∉ _ := nameKind_notMem _
      cases isKind : nameKind tree meaning? own (tree.text name) with
      | list | array | tuple | multi =>
        rw [isKind] at other
        exact absurd (by decide) other
      | _ => simp [isKind]
    | list base dims => exact ⟨base, dims, rfl⟩
    | array base dims => exact ⟨base, dims, rfl⟩
    | tuple members => exact ⟨members, rfl⟩
    | union members => exact ⟨members, rfl⟩

end

/-! ### Codes from the front -/

/-- Marks that may come behind a code. -/
def behindCode : List Char := [',', '|', '>', ')']

/-- Names end where a bracket closes. -/
theorem cancel_name {name : String} (plain : PlainName name) (plain' : PlainName name')
    (equal : name.toList ++ '>' :: rest = name'.toList ++ '>' :: rest') :
    name = name' ∧ rest = rest' := by
  have ends (rest : List Char) : ∀ letter ∈ ('>' :: rest).head?, ¬letter ≠ '>' := by
    rintro letter isFirst
    rw [← Option.some.inj isFirst]
    exact fun differs => differs rfl
  have words {name : String} (plain : PlainName name) : ∀ letter ∈ name.toList, letter ≠ '>' := by
    rintro letter among rfl
    exact plain '>' (by decide) among
  obtain ⟨same, isRest⟩ :=
    Shape.cancel_word (words plain) (words plain') (ends rest) (ends rest') equal
  exact ⟨String.toList_injective same, (List.cons.inj isRest).2⟩

/-- Names are read back with their standing, as far as it is shown. -/
theorem cancel_nameText {own own' : List String} {name name' : String} (plain : PlainName name)
    (plain' : PlainName name') {rest rest' : List Char} (follows : Shape.Follows behindCode rest)
    (follows' : Shape.Follows behindCode rest')
    (sameKind : nameKind tree meaning? own name = nameKind tree meaning? own' name')
    (equal : (if (TypeKind.ofBuiltin? name).isSome then [] else '<' :: (name.toList ++ ['>'])) ++ rest =
      (if (TypeKind.ofBuiltin? name').isSome then [] else '<' :: (name'.toList ++ ['>'])) ++ rest') :
    name = name' ∧ (standing tree meaning? own name).shown = (standing tree meaning? own' name').shown ∧
      rest = rest' := by
  have noBracket {rest : List Char} (follows : Shape.Follows behindCode rest) (later : List Char) :
      rest ≠ '<' :: later := by
    rintro rfl
    exact absurd (follows '<' rfl) (by decide)
  unfold nameKind at sameKind
  cases isBuiltin : TypeKind.ofBuiltin? name with
  | some kind =>
    cases isBuiltin' : TypeKind.ofBuiltin? name' with
    | some kind' =>
      rw [isBuiltin, isBuiltin'] at sameKind equal
      obtain rfl : kind = kind' := sameKind
      refine ⟨TypeKind.ofBuiltin?_inj isBuiltin isBuiltin', ?_, equal⟩
      simp [standing, isBuiltin, isBuiltin']
    | none =>
      rw [isBuiltin, isBuiltin'] at equal
      exact absurd equal (noBracket follows _)
  | none =>
    cases isBuiltin' : TypeKind.ofBuiltin? name' with
    | some kind' =>
      rw [isBuiltin, isBuiltin'] at equal
      exact absurd equal.symm (noBracket follows' _)
    | none =>
      rw [isBuiltin, isBuiltin'] at sameKind equal
      have same : name.toList ++ '>' :: rest = name'.toList ++ '>' :: rest' := by
        simpa using equal
      obtain ⟨rfl, isRest⟩ := cancel_name plain plain' same
      refine ⟨rfl, Standing.shown_eq_of_kind ?_ ?_ sameKind, isRest⟩ <;>
      · simp only [standing, isBuiltin, Option.isSome_none, Bool.false_eq_true, if_false]
        split
        · nofun
        · split <;> nofun

variable {loose : List Node}

/-- A type that is there has a number below some bound. -/
def Within (tree : Tree) (bound : Nat) (id : Option TypeExprId) : Prop :=
  ∀ type ∈ id, (tree.types.get? type).isSome → type < bound

theorem Within.member (forest : tree.Forest loose) {bound : Nat} {id member : Option TypeExprId}
    {form : TypeExprForm} (within : Within tree (bound + 1) id)
    (isForm : tree.formAt? id = some form) (isMember : member ∈ form.members) :
    Within tree bound member := by
  rintro part rfl -
  obtain ⟨at', written, there, rfl⟩ := typeAt?_of_formAt? isForm
  obtain ⟨type, rfl, found⟩ := Option.bind_eq_some_iff.mp there
  obtain ⟨other, isType, same⟩ := Option.map_eq_some_iff.mp found
  obtain ⟨rfl, rfl⟩ := Prod.mk.inj same
  have isPart : .type part ∈ other.form.parts := by
    cases form : other.form with
    | named name args => simp [form, TypeExprForm.members] at isMember
    | list base dims | array base dims =>
      simp [form, TypeExprForm.members] at isMember
      simp [TypeExprForm.parts, isMember]
    | tuple members | union members =>
      simp [form, TypeExprForm.members] at isMember
      simp [TypeExprForm.parts, isMember]
  exact Nat.lt_of_lt_of_le (forest.typesBelow type other isType part isPart)
    (Nat.le_of_lt_succ (within type rfl (Option.isSome_of_mem isType)))

/-- No code begins with a mark that may come behind one. -/
theorem codeText_head (own : List String) (fuel : Nat) (id : Option TypeExprId)
    (rest : List Char) :
    ∀ mark ∈ behindCode, (codeText tree meaning? own fuel id ++ rest).head? ≠ some mark := by
  have begins : ∃ kind later, codeText tree meaning? own fuel id = TypeKind.code kind :: later := by
    cases fuel with
    | zero => exact ⟨.invalid, [], by simp [codeText, typeCodeWithin]; rfl⟩
    | succ fuel => exact ⟨_, codeText_begins⟩
  obtain ⟨kind, later, text⟩ := begins
  have apart : kind.code ∉ behindCode := by cases kind <;> decide
  rintro mark among isFirst
  rw [text] at isFirst
  exact apart (Option.some.inj isFirst ▸ among)

/-- The code of no name is that of a type that is missing. -/
theorem missing_ne_named {own own' : List String} {fuel : Nat} {id id' : Option TypeExprId}
    (missing : tree.formAt? id = none) {name : NameId} {args : List (Option TypeExprId)}
    (isForm : tree.formAt? id' = some (.named name args))
    (follows : Shape.Follows behindCode rest) :
    codeText tree meaning? own (fuel + 1) id ++ rest ≠
      codeText tree meaning? own' (fuel + 1) id' ++ rest' := by
  rw [codeText_missing missing, codeText_named isForm]
  intro equal
  obtain ⟨sameLetter, later⟩ := List.cons.inj equal
  have isKind := TypeTable.code_injective .invalid _ sameLetter
  unfold nameKind at isKind
  cases isBuiltin : TypeKind.ofBuiltin? (tree.text name) with
  | some kind =>
    have apart : ∀ builtin ∈ TypeKind.builtins, TypeKind.invalid ≠ builtin.2 := by decide
    rw [isBuiltin] at isKind
    exact apart _ (TypeKind.mem_builtins isBuiltin) isKind
  | none =>
    rw [isBuiltin] at later
    obtain rfl : rest = _ := later
    exact absurd (follows '<' rfl) (by decide)

/-- Codes are read back: types with the same code are written alike, and what comes behind the codes
is the same too. -/
theorem cancel_codes (forest : tree.Forest loose) {own own' : List String} (fuel : Nat)
    {id id' : Option TypeExprId} (within : Within tree fuel id) (within' : Within tree fuel id')
    (plain : ∀ name, tree.Spells id name → PlainName name)
    (plain' : ∀ name, tree.Spells id' name → PlainName name) {rest rest' : List Char}
    (follows : Shape.Follows behindCode rest) (follows' : Shape.Follows behindCode rest')
    (equal : codeText tree meaning? own fuel id ++ rest =
      codeText tree meaning? own' fuel id' ++ rest') :
    tree.Alike (fun name => (standing tree meaning? own name).shown)
      (fun name => (standing tree meaning? own' name).shown) id id' ∧ rest = rest' := by
  induction fuel generalizing id id' rest rest' with
  | zero =>
    have missing {id : Option TypeExprId} (within : Within tree 0 id) : tree.formAt? id = none := by
      by_contra isForm
      obtain ⟨form, isForm⟩ := Option.ne_none_iff_exists'.mp isForm
      obtain ⟨at', written, there, -⟩ := typeAt?_of_formAt? isForm
      obtain ⟨type, rfl, found⟩ := Option.bind_eq_some_iff.mp there
      obtain ⟨other, isType, -⟩ := Option.map_eq_some_iff.mp found
      exact absurd (within type rfl (Option.isSome_of_mem isType)) (Nat.not_lt_zero _)
    rw [codeText_missing (missing within), codeText_missing (missing within')] at equal
    exact ⟨.missing (missing within) (missing within'), (List.cons.inj equal).2⟩
  | succ fuel inductionHypothesis =>
    -- The first letter says which form both have.
    obtain ⟨later, text⟩ := @codeText_begins tree meaning? own fuel id
    obtain ⟨later', text'⟩ := @codeText_begins tree meaning? own' fuel id'
    have sameKind : kindAt tree meaning? own id = kindAt tree meaning? own' id' := by
      rw [text, text'] at equal
      exact TypeTable.code_injective _ _ (List.cons.inj equal).1
    have spec := @kindAt_spec tree meaning? own id
    have spec' := @kindAt_spec tree meaning? own' id'
    rw [← sameKind] at spec'
    have inner {form form' : TypeExprForm} (isForm : tree.formAt? id = some form)
        (isForm' : tree.formAt? id' = some form') {member member' : Option TypeExprId}
        (isMember : member ∈ form.members) (isMember' : member' ∈ form'.members)
        {rest rest' : List Char} := @inductionHypothesis member member'
      (within.member forest isForm isMember) (within'.member forest isForm' isMember')
      (fun name spells => plain name (.inside isForm isMember spells))
      (fun name spells => plain' name (.inside isForm' isMember' spells)) rest rest'
    cases isKind : kindAt tree meaning? own id with
    | list =>
      rw [isKind] at spec spec'
      obtain ⟨base, dims, isForm⟩ := spec
      obtain ⟨base', dims', isForm'⟩ := spec'
      rw [codeText_list isForm, codeText_list isForm'] at equal
      simp only [List.cons_append, List.append_assoc, List.nil_append] at equal
      obtain ⟨isDims, inside⟩ := TypeTable.cancel_digits (List.cons.inj equal).2
      obtain rfl := UInt8.toNat_inj.mp isDims
      obtain ⟨alike, isRest⟩ := inner isForm isForm' (.head _) (.head _)
        (.cons (by decide) _) (.cons (by decide) _) inside
      exact ⟨.list isForm isForm' alike, (List.cons.inj isRest).2⟩
    | array =>
      rw [isKind] at spec spec'
      obtain ⟨base, dims, isForm⟩ := spec
      obtain ⟨base', dims', isForm'⟩ := spec'
      rw [codeText_array isForm, codeText_array isForm'] at equal
      simp only [List.cons_append, List.append_assoc, List.nil_append] at equal
      obtain ⟨isDims, inside⟩ := TypeTable.cancel_digits (List.cons.inj equal).2
      obtain rfl := UInt8.toNat_inj.mp isDims
      obtain ⟨alike, isRest⟩ := inner isForm isForm' (.head _) (.head _)
        (.cons (by decide) _) (.cons (by decide) _) inside
      exact ⟨.array isForm isForm' alike, (List.cons.inj isRest).2⟩
    | tuple =>
      rw [isKind] at spec spec'
      obtain ⟨members, isForm⟩ := spec
      obtain ⟨members', isForm'⟩ := spec'
      rw [codeText_tuple isForm, codeText_tuple isForm'] at equal
      simp only [List.cons_append, List.append_assoc, List.nil_append] at equal
      obtain ⟨alike, isRest⟩ := Shape.cancel_enclosed _ (by decide)
        (fun member isMember member' isMember' _ _ follows follows' =>
          inner isForm isForm' isMember isMember' (follows.mono (by decide))
            (follows'.mono (by decide)))
        (fun member _ rest => codeText_head own fuel member rest '>' (by decide))
        (fun member _ rest => codeText_head own' fuel member rest '>' (by decide))
        (List.cons.inj (List.cons.inj equal).2).2
      exact ⟨.tuple isForm isForm' alike, isRest⟩
    | multi =>
      rw [isKind] at spec spec'
      obtain ⟨members, isForm⟩ := spec
      obtain ⟨members', isForm'⟩ := spec'
      rw [codeText_union isForm, codeText_union isForm'] at equal
      simp only [List.cons_append, List.append_assoc, List.nil_append] at equal
      obtain ⟨alike, isRest⟩ := Shape.cancel_enclosed _ (by decide)
        (fun member isMember member' isMember' _ _ follows follows' =>
          inner isForm isForm' isMember isMember' (follows.mono (by decide))
            (follows'.mono (by decide)))
        (fun member _ rest => codeText_head own fuel member rest '>' (by decide))
        (fun member _ rest => codeText_head own' fuel member rest '>' (by decide))
        (List.cons.inj (List.cons.inj equal).2).2
      exact ⟨.union isForm isForm' alike, isRest⟩
    | _ =>
      rw [isKind] at spec spec'
      rcases spec with ⟨missing, -⟩ | ⟨name, args, isForm, sameAs⟩
      · rcases spec' with ⟨missing', -⟩ | ⟨name', args', isForm', -⟩
        · rw [codeText_missing missing, codeText_missing missing'] at equal
          exact ⟨.missing missing missing', (List.cons.inj equal).2⟩
        · exact absurd equal (missing_ne_named missing isForm' follows)
      · rcases spec' with ⟨missing', -⟩ | ⟨name', args', isForm', sameAs'⟩
        · exact absurd equal.symm (missing_ne_named missing' isForm follows')
        · rw [codeText_named isForm, codeText_named isForm'] at equal
          obtain ⟨isName, isStanding, isRest⟩ := cancel_nameText (plain _ (.itself isForm))
            (plain' _ (.itself isForm')) follows follows' (sameAs.trans sameAs'.symm)
            (List.cons.inj equal).2
          exact ⟨.named isForm isForm' isName isStanding, isRest⟩

/-- Types that are written alike have the same code. -/
theorem codeText_congr {own own' : List String} (fuel : Nat) {id id' : Option TypeExprId}
    (alike : tree.Alike (fun name => (standing tree meaning? own name).shown)
      (fun name => (standing tree meaning? own' name).shown) id id') :
    codeText tree meaning? own fuel id = codeText tree meaning? own' fuel id' := by
  induction fuel generalizing id id' with
  | zero => rfl
  | succ fuel inductionHypothesis =>
    have members {members members' : List (Option TypeExprId)}
        (alike : List.Forall₂ (tree.Alike (fun name => (standing tree meaning? own name).shown)
          (fun name => (standing tree meaning? own' name).shown)) members members') :
        members.map (codeText tree meaning? own fuel) =
          members'.map (codeText tree meaning? own' fuel) := by
      rw [← List.forall₂_eq_eq_eq, List.forall₂_map_left_iff, List.forall₂_map_right_iff]
      exact alike.imp fun _ _ => inductionHypothesis
    cases alike with
    | missing missing missing' => rw [codeText_missing missing, codeText_missing missing']
    | named isForm isForm' isName isStanding =>
      rw [← isName] at isStanding
      have isKind := congrArg Standing.kind isStanding
      rw [Standing.kind_shown, Standing.kind_shown] at isKind
      rw [codeText_named isForm, codeText_named isForm', ← isName, nameKind, nameKind, isKind]
    | list isForm isForm' alike =>
      rw [codeText_list isForm, codeText_list isForm', inductionHypothesis alike]
    | array isForm isForm' alike =>
      rw [codeText_array isForm, codeText_array isForm', inductionHypothesis alike]
    | tuple isForm isForm' alike =>
      rw [codeText_tuple isForm, codeText_tuple isForm', members alike]
    | union isForm isForm' alike =>
      rw [codeText_union isForm, codeText_union isForm', members alike]

end Resolve

/-! ### Keys -/

/-- The type of a parameter. -/
def Tree.paramType (tree : Tree) (param : DeclId) : Option TypeExprId :=
  (tree.decls.get? param).bind Decl.type

/-- The names in the parameters of a callable are without the marks that keys are made of. -/
def Tree.PlainParams (tree : Tree) (callable : Callable) : Prop :=
  ∀ param ∈ callable.params, ∀ name, tree.Spells (tree.paramType param) name → PlainName name

/-- What the names in the parameters of a callable mean where it is declared. -/
def Tree.standingIn (tree : Tree) (table : ScopeTable) (callable : Callable) : String → Standing :=
  standing tree table.meaning? (callable.typeParams.map tree.nameOf)

/-- Callables of the same name with parameters that are written alike, one by one; `rank` says how
far the standing of names counts. -/
def Tree.SameSignature (tree : Tree) (table : ScopeTable) (rank : Standing → Standing)
    (name name' : String) (callable callable' : Callable) : Prop :=
  name = name' ∧ List.Forall₂ (fun param param' =>
    tree.Alike (rank ∘ tree.standingIn table callable) (rank ∘ tree.standingIn table callable')
      (tree.paramType param) (tree.paramType param')) callable.params callable'.params

namespace Resolve

variable {tree : Tree} {loose : List Node} {table : ScopeTable} {name name' : String}
  {callable callable' : Callable}

/-- A key as a list of characters. -/
theorem keyText_eq :
    (signatureKey tree table.meaning? name callable).text.toList =
      name.toList ++ '(' :: ([','].intercalate (callable.params.map fun param =>
        codeText tree table.meaning? (callable.typeParams.map tree.nameOf) (tree.types.size + 1)
          (tree.paramType param)) ++ [')']) := by
  simp only [signatureKey, Key.ofSignature, String.toList_append, TypeTable.toList_join,
    List.map_map, List.append_assoc]
  rfl

theorem within_size (tree : Tree) (id : Option TypeExprId) :
    Within tree (tree.types.size + 1) id := by
  intro type _ present
  obtain ⟨written, found⟩ := Option.isSome_iff_exists.mp present
  exact Nat.lt_succ_of_le (Arena.get?_eq_some_le found).2

theorem signatureKey_eq_iff (forest : tree.Forest loose) (plain : PlainName name)
    (plain' : PlainName name') (params : tree.PlainParams callable)
    (params' : tree.PlainParams callable') :
    signatureKey tree table.meaning? name callable =
        signatureKey tree table.meaning? name' callable' ↔
      tree.SameSignature table Standing.shown name name' callable callable' := by
  constructor
  · intro same
    have equal := congrArg (fun key => key.text.toList) same
    rw [keyText_eq, keyText_eq] at equal
    have ends (rest : List Char) : ∀ letter ∈ ('(' :: rest).head?, ¬letter ≠ '(' := by
      rintro letter isFirst
      rw [← Option.some.inj isFirst]
      exact fun differs => differs rfl
    have words {name : String} (plain : PlainName name) :
        ∀ letter ∈ name.toList, letter ≠ '(' := by
      rintro letter among rfl
      exact plain '(' (by decide) among
    obtain ⟨isName, isRest⟩ :=
      Shape.cancel_word (words plain) (words plain') (ends _) (ends _) equal
    refine ⟨String.toList_injective isName, ?_⟩
    exact (Shape.cancel_enclosed _ (by decide)
      (fun param isParam param' isParam' _ _ follows follows' =>
        cancel_codes forest _ (within_size tree _) (within_size tree _) (params param isParam)
          (params' param' isParam') (follows.mono (by decide)) (follows'.mono (by decide)))
      (fun param _ rest => codeText_head _ _ _ rest ')' (by decide))
      (fun param _ rest => codeText_head _ _ _ rest ')' (by decide))
      (List.cons.inj isRest).2).1
  · rintro ⟨rfl, alike⟩
    have codes : callable.params.map (fun param =>
        codeText tree table.meaning? (callable.typeParams.map tree.nameOf) (tree.types.size + 1)
          (tree.paramType param)) = callable'.params.map fun param =>
        codeText tree table.meaning? (callable'.typeParams.map tree.nameOf) (tree.types.size + 1)
          (tree.paramType param) := by
      rw [← List.forall₂_eq_eq_eq, List.forall₂_map_left_iff, List.forall₂_map_right_iff]
      exact alike.imp fun _ _ => codeText_congr _
    have text : (signatureKey tree table.meaning? name callable).text =
        (signatureKey tree table.meaning? name callable').text := by
      refine String.toList_injective ?_
      rw [keyText_eq, keyText_eq, codes]
    exact congrArg Key.mk text

/-- The name in front of a key. -/
theorem name_signatureKey (plain : PlainName name) :
    (signatureKey tree table.meaning? name callable).name = name := by
  have words : ∀ letter ∈ name.toList, decide (letter ≠ '(') = true := by
    intro letter among
    refine decide_eq_true ?_
    rintro rfl
    exact plain '(' (by decide) among
  rw [Key.name, keyText_eq, List.takeWhile_append_of_pos words, List.takeWhile_cons_of_neg (by simp),
    List.append_nil, String.ofList_toList]

theorem signatureKey_ne_ofName {other : String} (plain : PlainName other) :
    signatureKey tree table.meaning? name callable ≠ .ofName other := by
  intro same
  have text : other.toList = _ := (congrArg (fun key => key.text.toList) same).symm.trans keyText_eq
  exact plain '(' (by decide) (text ▸ by simp)

end Resolve

/-- Keys can be read back. In one state of the scopes, callables have the same key exactly if they
have the same name, as many parameters, and parameter types that are written alike, where a
template parameter of the callable itself counts as one of the class around it. The name can be
taken from a key, and no key of a callable is the key of a name. -/
theorem signature_keys_are_read_back {loader : Loader} (reached : loader.Reached)
    (table : ScopeTable) {name name' : String} {callable callable' : Callable}
    (plain : PlainName name) (plain' : PlainName name')
    (params : loader.tree.PlainParams callable) (params' : loader.tree.PlainParams callable') :
    (Resolve.signatureKey loader.tree table.meaning? name callable =
        Resolve.signatureKey loader.tree table.meaning? name' callable' ↔
      loader.tree.SameSignature table Standing.shown name name' callable callable') ∧
    (Resolve.signatureKey loader.tree table.meaning? name callable).name = name ∧
    ∀ other, PlainName other →
      Resolve.signatureKey loader.tree table.meaning? name callable ≠ .ofName other :=
  ⟨Resolve.signatureKey_eq_iff reached.forest plain plain' params params',
    Resolve.name_signatureKey plain, fun _ => Resolve.signatureKey_ne_ofName⟩

/-! ### A template parameter of either kind -/

namespace Tree

variable {tree : Tree} {id id' : Option TypeExprId}

/-- What a type is written as that is a name. -/
def nameAt? (tree : Tree) (id : Option TypeExprId) : Option String :=
  match tree.formAt? id with
  | some (.named name _) => some (tree.text name)
  | _ => none

theorem formAt?_of_nameAt? {text : String} (isName : tree.nameAt? id = some text) :
    ∃ name args, tree.formAt? id = some (.named name args) ∧ tree.text name = text := by
  unfold nameAt? at isName
  split at isName
  · next name args isForm => exact ⟨name, args, isForm, Option.some.inj isName⟩
  · nomatch isName

theorem Spells.eq_of_nameAt? {other text : String} (spells : tree.Spells id other)
    (isName : tree.nameAt? id = some text) : other = text := by
  obtain ⟨name, args, isForm, rfl⟩ := formAt?_of_nameAt? isName
  cases spells with
  | itself isForm' =>
    cases isForm'.symm.trans isForm
    rfl
  | inside isForm' isMember =>
    cases isForm'.symm.trans isForm
    nomatch isMember

theorem Alike.rank_eq {rank rank' : String → Standing} (alike : tree.Alike rank rank' id id')
    {text : String} (isName : tree.nameAt? id = some text) (isName' : tree.nameAt? id' = some text) :
    rank text = rank' text := by
  obtain ⟨name, args, isForm, rfl⟩ := formAt?_of_nameAt? isName
  obtain ⟨name', args', isForm', same⟩ := formAt?_of_nameAt? isName'
  cases alike with
  | missing missing => nomatch missing.symm.trans isForm
  | named form form' isText isRank =>
    cases form.symm.trans isForm
    cases form'.symm.trans isForm'
    rwa [← isText] at isRank
  | list form => nomatch form.symm.trans isForm
  | array form => nomatch form.symm.trans isForm
  | tuple form => nomatch form.symm.trans isForm
  | union form => nomatch form.symm.trans isForm

end Tree

/-- A class with a template parameter, one method that has a template parameter of the same name
and a parameter of that type, and one that means the parameter of the class. -/
def sheltered : Loader :=
  let param : Option Doc.Variable := some { name := "x", type := some { kind := "named", name := "T" } }
  let document : Doc.Document :=
    { version := 1
      units := [some
        { path := "a"
          classes := [some
            { name := "C", typeParams := [some { name := "T" }]
              methods := [some { name := "f", typeParams := [some { name := "T" }], params := [param] },
                some { name := "f", params := [param] }] }] }] }
  Loader.behind (Loader.load document {})

/-- The scopes with that of the class on top, as they are when its methods are declared. -/
def shelteredScopes : ScopeTable :=
  let names := (Acts.behind (Resolve.program sheltered.tree 1 true {})).names
  { names.scopes with stack := [names.scopeOf 6] }

/-- One of the methods. -/
def shelteredMethod (id : DeclId) : Callable := (sheltered.tree.callable? id).getD default

theorem sheltered_runs :
    (sheltered.tree.callable? 2).isSome ∧ (sheltered.tree.callable? 5).isSome ∧
      (shelteredMethod 2).params = [1] ∧ (shelteredMethod 5).params = [4] ∧
      sheltered.tree.nameAt? (sheltered.tree.paramType 1) = some "T" ∧
      sheltered.tree.nameAt? (sheltered.tree.paramType 4) = some "T" ∧
      sheltered.tree.standingIn shelteredScopes (shelteredMethod 2) "T" = .ownParam ∧
      sheltered.tree.standingIn shelteredScopes (shelteredMethod 5) "T" = .param ∧
      Resolve.signatureKey sheltered.tree shelteredScopes.meaning? "f" (shelteredMethod 2) =
        Resolve.signatureKey sheltered.tree shelteredScopes.meaning? "f" (shelteredMethod 5) := by
  simp only [shelteredScopes, shelteredMethod, sheltered, Loader.load_eq_loadWithin]
  decide +kernel

theorem sheltered_plain :
    PlainName "f" ∧ sheltered.tree.PlainParams (shelteredMethod 2) ∧
      sheltered.tree.PlainParams (shelteredMethod 5) := by
  obtain ⟨-, -, params, params', isName, isName', -⟩ := sheltered_runs
  have plain : PlainName "T" := by simp [PlainName]
  refine ⟨by simp [PlainName], ?_, ?_⟩
  · intro param isParam name spells
    rw [params, List.mem_singleton] at isParam
    subst isParam
    exact spells.eq_of_nameAt? isName ▸ plain
  · intro param isParam name spells
    rw [params', List.mem_singleton] at isParam
    subst isParam
    exact spells.eq_of_nameAt? isName' ▸ plain

theorem signature_keys_are_read_back_sheltered :
    sheltered.tree.SameSignature shelteredScopes Standing.shown "f" "f" (shelteredMethod 2)
        (shelteredMethod 5) ∧
      (Resolve.signatureKey sheltered.tree shelteredScopes.meaning? "f" (shelteredMethod 2)).name =
        "f" ∧
      Resolve.signatureKey sheltered.tree shelteredScopes.meaning? "f" (shelteredMethod 2) ≠
        .ofName "T" := by
  obtain ⟨-, -, -, -, -, -, -, -, same⟩ := sheltered_runs
  obtain ⟨plain, params, params'⟩ := sheltered_plain
  have reached : sheltered.Reached := .load _ (.fresh {})
  obtain ⟨equal, isName, apart⟩ :=
    signature_keys_are_read_back reached shelteredScopes plain plain params params'
  exact ⟨equal.mp same, isName, apart "T" (by simp [PlainName])⟩

/-- Keys do not show all of the standing of a name: the methods have one key, and are written alike
but for what the name in them means, a template parameter of the method in one and of the class in
the other. -/
theorem own_parameters_are_not_told_apart :
    (sheltered.tree.callable? 2).isSome ∧ (sheltered.tree.callable? 5).isSome ∧
      sheltered.tree.PlainParams (shelteredMethod 2) ∧
      sheltered.tree.PlainParams (shelteredMethod 5) ∧
      ¬(Resolve.signatureKey sheltered.tree shelteredScopes.meaning? "f" (shelteredMethod 2) =
          Resolve.signatureKey sheltered.tree shelteredScopes.meaning? "f" (shelteredMethod 5) ↔
        sheltered.tree.SameSignature shelteredScopes id "f" "f" (shelteredMethod 2)
          (shelteredMethod 5)) := by
  obtain ⟨there, there', params, params', isName, isName', isOwn, isOuter, same⟩ := sheltered_runs
  obtain ⟨-, plain, plain'⟩ := sheltered_plain
  refine ⟨there, there', plain, plain', fun equal => ?_⟩
  obtain ⟨-, alike⟩ := equal.mp same
  rw [params, params', List.forall₂_cons] at alike
  have sameStanding := alike.1.rank_eq isName isName'
  simp only [Function.comp_apply, isOwn, isOuter] at sameStanding
  nomatch sameStanding

end TreeCheck
