/-
The records of a document and their data. Every kind of record keeps to the schema when it
is turned into data, and comes back from them as it was; that a field was forgotten, or
taken for its neighbour, would show here. Two lists are written though they are empty, the
values of an arm and the constants of an enumeration: without lists that are given but
empty, a record is the record of the data without empty lists.
-/

import TreeCheck.Doc.Records
import TreeCheck.Proofs.Wire.Data

namespace TreeCheck.Doc

open Datum

variable {key : String} {optional : Bool}

/-! ### Records without empty lists -/

/-- A list that is given but empty is as good as none. -/
def normalGiven {α : Type} : Option (List α) → Option (List α)
  | some [] => none
  | given => given

mutual

/-- The statement without lists that are given but empty. -/
def Stmt.normal : Stmt → Stmt
  | ⟨kind, stmts, decl, expr, target, value, cond, thenBranch, elseBranch, body, loopName, first,
      last, subject, arms, default, span⟩ =>
    ⟨kind, Stmt.normalItems stmts, decl, expr, target, value, cond, Stmt.normalLink thenBranch,
      Stmt.normalLink elseBranch, Stmt.normalLink body, loopName, first, last, subject,
      Arm.normalItems arms, Stmt.normalLink default, span⟩

def Stmt.normalLink : Option Stmt → Option Stmt
  | none => none
  | some value => some value.normal

def Stmt.normalItems : List (Option Stmt) → List (Option Stmt)
  | [] => []
  | item :: rest => Stmt.normalLink item :: Stmt.normalItems rest

def Arm.normal : Arm → Arm
  | ⟨values, body, span⟩ => ⟨normalGiven values, Stmt.normalLink body, span⟩

def Arm.normalLink : Option Arm → Option Arm
  | none => none
  | some value => some value.normal

def Arm.normalItems : List (Option Arm) → List (Option Arm)
  | [] => []
  | item :: rest => Arm.normalLink item :: Arm.normalItems rest

end

def Function.normal (function : Function) : Function :=
  { function with body := Stmt.normalItems function.body }

def Class.normal (item : Class) : Class :=
  { item with methods := item.methods.map (·.map Function.normal) }

def Enumeration.normal (enum : Enumeration) : Enumeration :=
  { enum with consts := normalGiven enum.consts }

def Unit.normal (unit : Unit) : Unit :=
  { unit with
    enums := unit.enums.map (·.map Enumeration.normal)
    classes := unit.classes.map (·.map Class.normal)
    functions := unit.functions.map (·.map Function.normal)
    main := unit.main.map Function.normal }

/-- The document without lists that are given but empty. -/
def Document.normal (document : Document) : Document :=
  { document with units := document.units.map (·.map Unit.normal) }

/-! ### Fields -/

/-- What may stand in a field of a record. -/
def Field.Holds (field : Field) (value : Datum) : Prop :=
  value.Fits field.shape ∧
    (field.optional = true → value.isEmpty = true → value = field.shape.empty)

section
variable {key : String} {optional : Bool}

attribute [local simp] isEmpty ofNat Shape.empty

theorem holds_text (value : String) : Field.Holds ⟨key, .text, optional⟩ (.text value) :=
  ⟨trivial, fun _ empty => by simpa using empty⟩

theorem holds_flag (value : Bool) : Field.Holds ⟨key, .flag, optional⟩ (.flag value) :=
  ⟨trivial, fun _ empty => by simpa using empty⟩

/-- A position has 32 bits in a record, no more than the schema allows. -/
theorem holds_position (value : UInt32) :
    Field.Holds ⟨key, .position, optional⟩ (.ofNat value.toNat) :=
  ⟨⟨Int.natCast_nonneg _, Int.ofNat_lt.mpr value.toNat_lt⟩,
    fun _ empty => by simpa using empty⟩

theorem holds_dimensions (value : UInt8) :
    Field.Holds ⟨key, .dimensions, optional⟩ (.ofNat value.toNat) :=
  ⟨⟨Int.natCast_nonneg _, Int.ofNat_lt.mpr value.toNat_lt⟩,
    fun _ empty => by simpa using empty⟩

theorem itemsFit_map {α : Type} {convert : α → Datum} {shape : Shape} {items : List α}
    (fits : ∀ item ∈ items, (convert item).Fits shape) :
    Datum.ItemsFit shape (items.map convert) := by
  induction items with
  | nil => trivial
  | cons item rest inductionHypothesis =>
    exact ⟨fits item (.head _),
      inductionHypothesis fun other member => fits other (.tail _ member)⟩

/-- A list of texts is absent when it is empty, as the schema has it. -/
theorem holds_texts (values : List String) :
    Field.Holds ⟨key, .texts, optional⟩ (.ofTexts values) := by
  cases values with
  | nil => exact ⟨trivial, fun _ _ => rfl⟩
  | cons value values =>
    exact ⟨⟨rfl, itemsFit_map fun _ _ => trivial⟩, fun _ empty => by
      simp [ofTexts] at empty⟩

theorem holds_extent (extent : Extent) : Field.Holds ⟨key, .extent, optional⟩ extent.toDatum :=
  ⟨⟨holds_position _, holds_position _, holds_position _, holds_position _, trivial⟩,
    fun _ empty => by simp [Extent.toDatum] at empty⟩

end

@[simp]
theorem Extent.ofDatum_toDatum (extent : Extent) : Extent.ofDatum extent.toDatum = extent := by
  simp [Extent.toDatum, Extent.ofDatum, ofNat, getNumber]

@[simp]
theorem Extent.normal_toDatum (extent : Extent) : extent.toDatum.normal = extent.toDatum := rfl

/-- An absent list of texts is read as an empty one. -/
@[simp]
theorem Datum.getTexts_ofTexts (values : List String) : (ofTexts values).getTexts = values := by
  cases values with
  | nil => rfl
  | cons value values => simp [ofTexts, getTexts, getText, Function.comp_def]

@[simp]
theorem Datum.normal_ofTexts (values : List String) :
    (ofTexts values).normal = .ofTexts values := by
  cases values with
  | nil => rfl
  | cons value values =>
    simp [ofTexts, normal, normalAll_eq_map, Function.comp_def]

/-! ### Kinds of records -/

/-- A record keeps to the schema as data, comes back from its data, and is without empty lists
when its data are. -/
structure Faithful {α : Type} (kind : RecordKind) (write : α → Datum) (read? : Datum → Option α)
    (normal : α → α) (value : α) : Prop where
  fits : (write value).Fits (.link kind)
  read : read? (write value) = some value
  normal : (write value).normal = write (normal value)

section
variable {α : Type} {kind : RecordKind} {write : α → Datum} {read? : Datum → Option α}
  {normal : α → α}

/-! A link -/

section
variable {link : Option α} (faithful : ∀ value ∈ link, Faithful kind write read? normal value)
include faithful

theorem fits_ofOption : (ofOption write link).Fits (.link kind) := by
  cases link with
  | none => trivial
  | some value => exact (faithful value rfl).fits

/-- Only a missing record is left out. -/
theorem holds_link : Field.Holds ⟨key, .link kind, optional⟩ (.ofOption write link) := by
  refine ⟨fits_ofOption faithful, fun _ empty => ?_⟩
  cases link with
  | none => rfl
  | some value =>
    have fits := (faithful value rfl).fits
    simp only [ofOption] at empty ⊢
    cases written : write value <;> simp_all [Datum.Fits, isEmpty, Shape.empty]

/-- A missing record is read as missing. -/
theorem read_ofOption (absent : read? .absent = none) :
    read? (.ofOption write link) = link := by
  cases link with
  | none => exact absent
  | some value => exact (faithful value rfl).read

theorem normal_ofOption :
    (ofOption write link).normal = .ofOption write (link.map normal) := by
  cases link with
  | none => rfl
  | some value => exact (faithful value rfl).normal

end

/-! A list -/

section
variable {items : List (Option α)}
  (faithful : ∀ value, some value ∈ items → Faithful kind write read? normal value)
include faithful

theorem fits_list : (list (items.map (.ofOption write)) []).Fits (.links kind) :=
  ⟨rfl, itemsFit_map fun _ member => fits_ofOption fun value given =>
    faithful value (given ▸ member)⟩

theorem holds_links : Field.Holds ⟨key, .links kind, optional⟩ (.ofItems write items) := by
  cases items with
  | nil => exact ⟨trivial, fun _ _ => rfl⟩
  | cons item items =>
    exact ⟨fits_list faithful, fun _ empty => by simp [ofItems, isEmpty] at empty⟩

/-- Each record of a list comes back, and each gap in it. -/
theorem map_read (absent : read? .absent = none) :
    (items.map (ofOption write)).map read? = items := by
  have each : items.map (read? ∘ ofOption write) = items.map id :=
    List.map_congr_left fun item member =>
      read_ofOption (fun value given => faithful value (given ▸ member)) absent
  rw [List.map_map, each, List.map_id]

/-- An absent list of records is read as an empty one. -/
theorem itemsOf_ofItems (absent : read? .absent = none) :
    itemsOf read? (.ofItems write items) = items := by
  cases items with
  | nil => rfl
  | cons item items => exact map_read faithful absent

theorem map_normal :
    normalAll (items.map (ofOption write)) =
      (items.map (·.map normal)).map (ofOption write) := by
  rw [normalAll_eq_map, List.map_map, List.map_map]
  refine List.map_congr_left fun item member => ?_
  exact normal_ofOption fun value given => faithful value (given ▸ member)

theorem normal_ofItems :
    (ofItems write items).normal = .ofItems write (items.map (·.map normal)) := by
  cases items with
  | nil => rfl
  | cons item items => exact congrArg (list · []) (map_normal faithful)

end

/-! A list that is told apart from none when it is empty -/

/-- The list, written whenever it is given. -/
def Datum.ofGiven (convert : α → Datum) : Option (List (Option α)) → Datum
  | none => .absent
  | some items => .list (items.map (.ofOption convert)) []

section
variable {given : Option (List (Option α))}
  (faithful : ∀ items ∈ given, ∀ value, some value ∈ items → Faithful kind write read? id value)
include faithful

theorem holds_given : Field.Holds ⟨key, .links kind, false⟩ (.ofGiven write given) := by
  refine ⟨?_, nofun⟩
  cases given with
  | none => trivial
  | some items => exact fits_list (faithful items rfl)

theorem givenItemsOf_ofGiven (absent : read? .absent = none) :
    givenItemsOf read? (.ofGiven write given) = given := by
  cases given with
  | none => rfl
  | some items => exact congrArg some (map_read (faithful items rfl) absent)

theorem normal_ofGiven :
    (ofGiven write given).normal = .ofGiven write (normalGiven given) := by
  match given with
  | none | some [] => rfl
  | some (item :: items) =>
    have same := map_normal (faithful (item :: items) rfl)
    simp only [Option.map_id_fun, id_eq, List.map_id_fun'] at same
    exact congrArg (list · []) same

end

end

/-! ### Links and lists of one kind

Expressions, statements and types are written and read by mutual recursion, so each kind has
functions of its own for links and lists of it. They do what the general ones do. -/

/-- A function that goes through a list by its recursion. -/
theorem eq_map {α β : Type} {list : List α → List β} {convert : α → β} (nil : list [] = [])
    (cons : ∀ item rest, list (item :: rest) = convert item :: list rest) (items : List α) :
    list items = items.map convert := by
  induction items with
  | nil => exact nil
  | cons item rest inductionHypothesis => rw [cons, List.map_cons, inductionHypothesis]

section
variable {α : Type} {write : α → Datum} {link : Option α → Datum}
  {data : List (Option α) → List Datum}

/-- A function that writes a link in either case as the record it leads to. -/
theorem eq_ofOption (absent : link none = .absent) (given : ∀ value, link (some value) = write value) :
    link = .ofOption write := by
  funext item
  cases item with
  | none => exact absent
  | some value => exact given value

/-- A function that writes a list of links one by one. -/
theorem eq_map_ofOption (links : link = .ofOption write) (nil : data [] = [])
    (cons : ∀ item rest, data (item :: rest) = link item :: data rest) (items : List (Option α)) :
    data items = items.map (.ofOption write) :=
  links ▸ eq_map nil cons items

/-- A function that writes such a list, and leaves it out when it is empty. -/
theorem eq_ofItems {whole : List (Option α) → Datum} (links : link = .ofOption write)
    (nil : data [] = []) (cons : ∀ item rest, data (item :: rest) = link item :: data rest)
    (empty : whole [] = .absent)
    (given : ∀ item rest, whole (item :: rest) = .list (link item :: data rest) [])
    (items : List (Option α)) : whole items = .ofItems write items := by
  cases items with
  | nil => exact empty
  | cons item rest =>
    rw [given, ← cons, eq_map_ofOption links nil cons]
    rfl

end

/-! ### Types -/

abbrev TypeExpr.Faithful : TypeExpr → Prop := Doc.Faithful .typeExpr toDatum ofDatum? id

namespace TypeExpr

theorem linkToDatum_eq : linkToDatum = ofOption toDatum := eq_ofOption rfl fun _ => rfl

theorem itemsToDatum_eq (items : List (Option TypeExpr)) :
    itemsToDatum items = .ofItems toDatum items :=
  eq_ofItems linkToDatum_eq rfl (fun _ _ => rfl) rfl (fun _ _ => rfl) items

theorem itemsOfDatum_eq (datum : Datum) : itemsOfDatum datum = itemsOf ofDatum? datum := by
  cases datum with
  | list items kept => exact eq_map rfl (fun _ _ => rfl) items
  | _ => rfl

end TypeExpr

mutual

theorem TypeExpr.faithful : (value : TypeExpr) → value.Faithful
  | ⟨kind, name, args, base, dims, elems, span⟩ => by
    have args' := faithful_items args
    have base' := faithful_link base
    have elems' := faithful_items elems
    constructor
    · rw [toDatum, itemsToDatum_eq, itemsToDatum_eq, linkToDatum_eq]
      exact ⟨holds_text _, holds_text _, holds_links args', holds_link base', holds_dimensions _,
        holds_links elems', holds_extent _, trivial⟩
    · simp [toDatum, ofDatum?, itemsToDatum_eq, linkToDatum_eq, itemsOfDatum_eq,
        itemsOf_ofItems args' rfl, itemsOf_ofItems elems' rfl, read_ofOption base' rfl,
        getText, getNumber, ofNat]
    · simp [toDatum, normal, normalAll, itemsToDatum_eq, linkToDatum_eq,
        normal_ofItems args', normal_ofItems elems', normal_ofOption base', ofNat]

theorem TypeExpr.faithful_link : (link : Option TypeExpr) → ∀ value ∈ link, value.Faithful
  | none => nofun
  | some value => fun _ given => by cases given; exact value.faithful

theorem TypeExpr.faithful_items : (items : List (Option TypeExpr)) →
    ∀ value, some value ∈ items → value.Faithful
  | [] => nofun
  | item :: rest => fun value member => by
    rcases List.mem_cons.mp member with here | further
    · exact TypeExpr.faithful_link item value here.symm
    · exact TypeExpr.faithful_items rest value further

end

/-! ### Expressions -/

abbrev Expr.Faithful : Expr → Prop := Doc.Faithful .expression toDatum ofDatum? id

abbrev Init.Faithful : Init → Prop := Doc.Faithful .initializer toDatum ofDatum? id

namespace Expr

theorem linkToDatum_eq : linkToDatum = ofOption toDatum := eq_ofOption rfl fun _ => rfl

theorem itemsToDatum_eq (items : List (Option Expr)) :
    itemsToDatum items = .ofItems toDatum items :=
  eq_ofItems linkToDatum_eq rfl (fun _ _ => rfl) rfl (fun _ _ => rfl) items

theorem itemsOfDatum_eq (datum : Datum) : itemsOfDatum datum = itemsOf ofDatum? datum := by
  cases datum with
  | list items kept => exact eq_map rfl (fun _ _ => rfl) items
  | _ => rfl

theorem givenToDatum_eq (given : Option (List (Option Expr))) :
    givenToDatum given = .ofGiven toDatum given := by
  cases given with
  | none => rfl
  | some items =>
    exact congrArg (list · []) (eq_map_ofOption linkToDatum_eq rfl (fun _ _ => rfl) items)

theorem givenOfDatum?_eq (datum : Datum) : givenOfDatum? datum = givenItemsOf ofDatum? datum := by
  cases datum with
  | list items kept => exact congrArg some (eq_map rfl (fun _ _ => rfl) items)
  | _ => rfl

end Expr

namespace Init

theorem linkToDatum_eq : linkToDatum = ofOption toDatum := eq_ofOption rfl fun _ => rfl

theorem itemsToDatum_eq (items : List (Option Init)) :
    itemsToDatum items = .ofItems toDatum items :=
  eq_ofItems linkToDatum_eq rfl (fun _ _ => rfl) rfl (fun _ _ => rfl) items

theorem itemsOfDatum_eq (datum : Datum) : itemsOfDatum datum = itemsOf ofDatum? datum := by
  cases datum with
  | list items kept => exact eq_map rfl (fun _ _ => rfl) items
  | _ => rfl

end Init

mutual

theorem Expr.faithful : (value : Expr) → value.Faithful
  | ⟨kind, lit, value, name, receiver, target, typeArgs, args, op, left, right, operand, type,
      inits, elems, span⟩ => by
    have receiver' := Expr.faithful_link receiver
    have target' := Expr.faithful_link target
    have typeArgs' := TypeExpr.faithful_items typeArgs
    have args' := Expr.faithful_items args
    have left' := Expr.faithful_link left
    have right' := Expr.faithful_link right
    have operand' := Expr.faithful_link operand
    have type' := TypeExpr.faithful_link type
    have inits' := Init.faithful_items inits
    have elems' := Expr.faithful_items elems
    constructor
    · simp only [Expr.toDatum, Expr.linkToDatum_eq, Expr.itemsToDatum_eq, Init.itemsToDatum_eq,
        TypeExpr.linkToDatum_eq, TypeExpr.itemsToDatum_eq]
      exact ⟨holds_text _, holds_text _, holds_text _, holds_text _, holds_link receiver',
        holds_link target', holds_links typeArgs', holds_links args', holds_text _,
        holds_link left', holds_link right', holds_link operand', holds_link type',
        holds_links inits', holds_links elems', holds_extent _, trivial⟩
    · simp [Expr.toDatum, Expr.ofDatum?, Expr.linkToDatum_eq, Expr.itemsToDatum_eq,
        Init.itemsToDatum_eq, TypeExpr.linkToDatum_eq, TypeExpr.itemsToDatum_eq,
        Expr.itemsOfDatum_eq, Init.itemsOfDatum_eq, TypeExpr.itemsOfDatum_eq,
        read_ofOption receiver' rfl, read_ofOption target' rfl, itemsOf_ofItems typeArgs' rfl,
        itemsOf_ofItems args' rfl, read_ofOption left' rfl, read_ofOption right' rfl,
        read_ofOption operand' rfl, read_ofOption type' rfl, itemsOf_ofItems inits' rfl,
        itemsOf_ofItems elems' rfl, getText]
    · simp [Expr.toDatum, normal, normalAll, Expr.linkToDatum_eq,
        Expr.itemsToDatum_eq, Init.itemsToDatum_eq, TypeExpr.linkToDatum_eq,
        TypeExpr.itemsToDatum_eq, normal_ofOption receiver', normal_ofOption target',
        normal_ofItems typeArgs', normal_ofItems args', normal_ofOption left',
        normal_ofOption right', normal_ofOption operand', normal_ofOption type',
        normal_ofItems inits', normal_ofItems elems']

theorem Expr.faithful_link : (link : Option Expr) → ∀ value ∈ link, value.Faithful
  | none => nofun
  | some value => fun _ given => by cases given; exact value.faithful

theorem Expr.faithful_items : (items : List (Option Expr)) →
    ∀ value, some value ∈ items → value.Faithful
  | [] => nofun
  | item :: rest => fun value member => by
    rcases List.mem_cons.mp member with here | further
    · exact Expr.faithful_link item value here.symm
    · exact Expr.faithful_items rest value further

theorem Init.faithful : (value : Init) → value.Faithful
  | ⟨field, value, span⟩ => by
    have value' := Expr.faithful_link value
    constructor
    · rw [Init.toDatum, Expr.linkToDatum_eq]
      exact ⟨holds_text _, holds_link value', holds_extent _, trivial⟩
    · simp [Init.toDatum, Init.ofDatum?, Expr.linkToDatum_eq, read_ofOption value' rfl,
        getText]
    · simp [Init.toDatum, normal, normalAll, Expr.linkToDatum_eq,
        normal_ofOption value']

theorem Init.faithful_link : (link : Option Init) → ∀ value ∈ link, value.Faithful
  | none => nofun
  | some value => fun _ given => by cases given; exact value.faithful

theorem Init.faithful_items : (items : List (Option Init)) →
    ∀ value, some value ∈ items → value.Faithful
  | [] => nofun
  | item :: rest => fun value member => by
    rcases List.mem_cons.mp member with here | further
    · exact Init.faithful_link item value here.symm
    · exact Init.faithful_items rest value further

end

/-! ### Statements -/

abbrev Variable.Faithful : Variable → Prop := Doc.Faithful .variable toDatum ofDatum? id

theorem Variable.faithful (item : Variable) : item.Faithful := by
  have type' := TypeExpr.faithful_link item.type
  have init' := Expr.faithful_link item.init
  constructor
  · rw [toDatum, TypeExpr.linkToDatum_eq, Expr.linkToDatum_eq]
    exact ⟨holds_text _, holds_link type', holds_link init', holds_texts _, holds_extent _,
      trivial⟩
  · simp [toDatum, ofDatum?, TypeExpr.linkToDatum_eq, Expr.linkToDatum_eq,
      read_ofOption type' rfl, read_ofOption init' rfl, getText]
  · simp [toDatum, normal, normalAll, TypeExpr.linkToDatum_eq, Expr.linkToDatum_eq,
      normal_ofOption type', normal_ofOption init']

abbrev Stmt.Faithful : Stmt → Prop := Doc.Faithful .statement toDatum ofDatum? normal

abbrev Arm.Faithful : Arm → Prop := Doc.Faithful .arm toDatum ofDatum? normal

namespace Stmt

theorem linkToDatum_eq : linkToDatum = ofOption toDatum := eq_ofOption rfl fun _ => rfl

theorem itemsToDatum_eq (items : List (Option Stmt)) :
    itemsToDatum items = .ofItems toDatum items :=
  eq_ofItems linkToDatum_eq rfl (fun _ _ => rfl) rfl (fun _ _ => rfl) items

theorem itemsOfDatum_eq (datum : Datum) : itemsOfDatum datum = itemsOf ofDatum? datum := by
  cases datum with
  | list items kept => exact eq_map rfl (fun _ _ => rfl) items
  | _ => rfl

theorem normalLink_eq : normalLink = Option.map normal := by
  funext link
  cases link with
  | none | some value => rfl

theorem normalItems_eq (items : List (Option Stmt)) :
    normalItems items = items.map (·.map normal) :=
  (eq_map rfl (fun _ _ => rfl) items).trans (by rw [normalLink_eq])

end Stmt

namespace Arm

theorem linkToDatum_eq : linkToDatum = ofOption toDatum := eq_ofOption rfl fun _ => rfl

theorem itemsToDatum_eq (items : List (Option Arm)) :
    itemsToDatum items = .ofItems toDatum items :=
  eq_ofItems linkToDatum_eq rfl (fun _ _ => rfl) rfl (fun _ _ => rfl) items

theorem itemsOfDatum_eq (datum : Datum) : itemsOfDatum datum = itemsOf ofDatum? datum := by
  cases datum with
  | list items kept => exact eq_map rfl (fun _ _ => rfl) items
  | _ => rfl

theorem normalLink_eq : normalLink = Option.map normal := by
  funext link
  cases link with
  | none | some value => rfl

theorem normalItems_eq (items : List (Option Arm)) :
    normalItems items = items.map (·.map normal) :=
  (eq_map rfl (fun _ _ => rfl) items).trans (by rw [normalLink_eq])

end Arm

mutual

theorem Stmt.faithful : (value : Stmt) → value.Faithful
  | ⟨kind, stmts, decl, expr, target, value, cond, thenBranch, elseBranch, body, loopName, first,
      last, subject, arms, default, span⟩ => by
    have stmts' := Stmt.faithful_items stmts
    have decl' : ∀ item ∈ decl, item.Faithful := fun item _ => item.faithful
    have expr' := Expr.faithful_link expr
    have target' := Expr.faithful_link target
    have value' := Expr.faithful_link value
    have cond' := Expr.faithful_link cond
    have then' := Stmt.faithful_link thenBranch
    have else' := Stmt.faithful_link elseBranch
    have body' := Stmt.faithful_link body
    have first' := Expr.faithful_link first
    have last' := Expr.faithful_link last
    have subject' := Expr.faithful_link subject
    have arms' := Arm.faithful_items arms
    have default' := Stmt.faithful_link default
    constructor
    · simp only [Stmt.toDatum, Stmt.linkToDatum_eq, Stmt.itemsToDatum_eq, Arm.itemsToDatum_eq,
        Expr.linkToDatum_eq]
      exact ⟨holds_text _, holds_links stmts', holds_link decl', holds_link expr',
        holds_link target', holds_link value', holds_link cond', holds_link then',
        holds_link else', holds_link body', holds_text _, holds_link first', holds_link last',
        holds_link subject', holds_links arms', holds_link default', holds_extent _, trivial⟩
    · simp [Stmt.toDatum, Stmt.ofDatum?, Stmt.linkToDatum_eq, Stmt.itemsToDatum_eq,
        Arm.itemsToDatum_eq, Expr.linkToDatum_eq, Stmt.itemsOfDatum_eq, Arm.itemsOfDatum_eq,
        itemsOf_ofItems stmts' rfl, read_ofOption decl' rfl, read_ofOption expr' rfl,
        read_ofOption target' rfl, read_ofOption value' rfl, read_ofOption cond' rfl,
        read_ofOption then' rfl, read_ofOption else' rfl, read_ofOption body' rfl,
        read_ofOption first' rfl, read_ofOption last' rfl, read_ofOption subject' rfl,
        itemsOf_ofItems arms' rfl, read_ofOption default' rfl, getText]
    · simp [Stmt.toDatum, Stmt.normal, normal, normalAll, Stmt.linkToDatum_eq,
        Stmt.itemsToDatum_eq, Arm.itemsToDatum_eq, Expr.linkToDatum_eq, Stmt.normalLink_eq,
        Stmt.normalItems_eq, Arm.normalItems_eq, normal_ofItems stmts', normal_ofOption decl',
        normal_ofOption expr', normal_ofOption target', normal_ofOption value',
        normal_ofOption cond', normal_ofOption then', normal_ofOption else',
        normal_ofOption body', normal_ofOption first', normal_ofOption last',
        normal_ofOption subject', normal_ofItems arms', normal_ofOption default']

theorem Stmt.faithful_link : (link : Option Stmt) → ∀ value ∈ link, value.Faithful
  | none => nofun
  | some value => fun _ given => by cases given; exact value.faithful

theorem Stmt.faithful_items : (items : List (Option Stmt)) →
    ∀ value, some value ∈ items → value.Faithful
  | [] => nofun
  | item :: rest => fun value member => by
    rcases List.mem_cons.mp member with here | further
    · exact Stmt.faithful_link item value here.symm
    · exact Stmt.faithful_items rest value further

theorem Arm.faithful : (value : Arm) → value.Faithful
  | ⟨values, body, span⟩ => by
    have values' : ∀ items ∈ values, ∀ value, some value ∈ items → value.Faithful :=
      fun _ _ value _ => value.faithful
    have body' := Stmt.faithful_link body
    constructor
    · rw [Arm.toDatum, Expr.givenToDatum_eq, Stmt.linkToDatum_eq]
      exact ⟨holds_given values', holds_link body', holds_extent _, trivial⟩
    · simp [Arm.toDatum, Arm.ofDatum?, Expr.givenToDatum_eq, Expr.givenOfDatum?_eq,
        Stmt.linkToDatum_eq, givenItemsOf_ofGiven values' rfl, read_ofOption body' rfl]
    · simp [Arm.toDatum, Arm.normal, normal, normalAll, Expr.givenToDatum_eq,
        Stmt.linkToDatum_eq, Stmt.normalLink_eq, normal_ofGiven values', normal_ofOption body']

theorem Arm.faithful_link : (link : Option Arm) → ∀ value ∈ link, value.Faithful
  | none => nofun
  | some value => fun _ given => by cases given; exact value.faithful

theorem Arm.faithful_items : (items : List (Option Arm)) →
    ∀ value, some value ∈ items → value.Faithful
  | [] => nofun
  | item :: rest => fun value member => by
    rcases List.mem_cons.mp member with here | further
    · exact Arm.faithful_link item value here.symm
    · exact Arm.faithful_items rest value further

end

/-! ### Declarations -/

abbrev TypeParam.Faithful : TypeParam → Prop := Doc.Faithful .typeParam toDatum ofDatum? id

abbrev Function.Faithful : Function → Prop := Doc.Faithful .function toDatum ofDatum? normal

abbrev Class.Faithful : Class → Prop := Doc.Faithful .classItem toDatum ofDatum? normal

abbrev Constant.Faithful : Constant → Prop := Doc.Faithful .constant toDatum ofDatum? id

abbrev Enumeration.Faithful : Enumeration → Prop :=
  Doc.Faithful .enumeration toDatum ofDatum? normal

abbrev Import.Faithful : Import → Prop := Doc.Faithful .importItem toDatum ofDatum? id

theorem TypeParam.faithful (param : TypeParam) : param.Faithful := by
  constructor
  · exact ⟨holds_text _, holds_text _, holds_extent _, trivial⟩
  · simp [toDatum, ofDatum?, getText]
  · simp [toDatum, normal, normalAll]

theorem Function.faithful (function : Function) : function.Faithful := by
  have typeParams' : ∀ param, some param ∈ function.typeParams → param.Faithful :=
    fun param _ => param.faithful
  have params' : ∀ param, some param ∈ function.params → param.Faithful :=
    fun param _ => param.faithful
  have result' := TypeExpr.faithful_link function.result
  have body' := Stmt.faithful_items function.body
  constructor
  · rw [toDatum, TypeExpr.linkToDatum_eq, Stmt.itemsToDatum_eq]
    exact ⟨holds_text _, holds_links typeParams', holds_links params', holds_link result',
      holds_links body', holds_flag _, holds_texts _, holds_extent _, trivial⟩
  · simp [toDatum, ofDatum?, TypeExpr.linkToDatum_eq, Stmt.itemsToDatum_eq, Stmt.itemsOfDatum_eq,
      itemsOf_ofItems typeParams' rfl, itemsOf_ofItems params' rfl, read_ofOption result' rfl,
      itemsOf_ofItems body' rfl, Datum.getText, Datum.getFlag]
  · simp [toDatum, normal, Datum.normal, Datum.normalAll, TypeExpr.linkToDatum_eq,
      Stmt.itemsToDatum_eq, Stmt.normalItems_eq, normal_ofItems typeParams',
      normal_ofItems params', normal_ofOption result', normal_ofItems body']

theorem Class.faithful (item : Class) : item.Faithful := by
  have typeParams' : ∀ param, some param ∈ item.typeParams → param.Faithful :=
    fun param _ => param.faithful
  have base' := TypeExpr.faithful_link item.base
  have fields' : ∀ field, some field ∈ item.fields → field.Faithful := fun field _ => field.faithful
  have methods' : ∀ method, some method ∈ item.methods → method.Faithful :=
    fun method _ => method.faithful
  constructor
  · rw [toDatum, TypeExpr.linkToDatum_eq]
    exact ⟨holds_text _, holds_links typeParams', holds_link base', holds_links fields',
      holds_links methods', holds_texts _, holds_extent _, trivial⟩
  · simp [toDatum, ofDatum?, TypeExpr.linkToDatum_eq, itemsOf_ofItems typeParams' rfl,
      read_ofOption base' rfl, itemsOf_ofItems fields' rfl, itemsOf_ofItems methods' rfl,
      Datum.getText]
  · simp [toDatum, normal, Datum.normal, Datum.normalAll, TypeExpr.linkToDatum_eq,
      normal_ofItems typeParams', normal_ofOption base', normal_ofItems fields',
      normal_ofItems methods']

theorem Constant.faithful (constant : Constant) : constant.Faithful := by
  constructor
  · exact ⟨holds_text _, holds_extent _, trivial⟩
  · simp [toDatum, ofDatum?, getText]
  · simp [toDatum, normal, normalAll]

theorem Enumeration.toDatum_eq (enum : Enumeration) :
    enum.toDatum = .record [.text enum.name, .ofGiven Constant.toDatum enum.consts,
      .ofTexts enum.mods, enum.span.toDatum] := by
  obtain ⟨name, consts, mods, span⟩ := enum
  cases consts <;> rfl

theorem Enumeration.faithful (enum : Enumeration) : enum.Faithful := by
  have consts' : ∀ items ∈ enum.consts, ∀ constant, some constant ∈ items → constant.Faithful :=
    fun _ _ constant _ => constant.faithful
  constructor
  · rw [toDatum_eq]
    exact ⟨holds_text _, holds_given consts', holds_texts _, holds_extent _, trivial⟩
  · simp [toDatum_eq, ofDatum?, givenItemsOf_ofGiven consts' rfl, Datum.getText]
  · simp [toDatum_eq, normal, Datum.normal, Datum.normalAll, normal_ofGiven consts']

theorem Import.faithful (item : Import) : item.Faithful := by
  constructor
  · exact ⟨holds_text _, holds_extent _, trivial⟩
  · simp [toDatum, ofDatum?, getText]
  · simp [toDatum, normal, normalAll]

/-! ### Units and documents -/

abbrev Unit.Faithful : Unit → Prop := Doc.Faithful .unit toDatum ofDatum? normal

theorem Unit.faithful (unit : Unit) : unit.Faithful := by
  have imports' : ∀ item, some item ∈ unit.imports → item.Faithful := fun item _ => item.faithful
  have enums' : ∀ item, some item ∈ unit.enums → item.Faithful := fun item _ => item.faithful
  have globals' : ∀ item, some item ∈ unit.globals → item.Faithful := fun item _ => item.faithful
  have classes' : ∀ item, some item ∈ unit.classes → item.Faithful := fun item _ => item.faithful
  have functions' : ∀ item, some item ∈ unit.functions → item.Faithful :=
    fun item _ => item.faithful
  have main' : ∀ item ∈ unit.main, item.Faithful := fun item _ => item.faithful
  constructor
  · exact ⟨holds_text _, holds_links imports', holds_links enums', holds_links globals',
      holds_links classes', holds_links functions', holds_link main', trivial⟩
  · simp [toDatum, ofDatum?, itemsOf_ofItems imports' rfl, itemsOf_ofItems enums' rfl,
      itemsOf_ofItems globals' rfl, itemsOf_ofItems classes' rfl, itemsOf_ofItems functions' rfl,
      read_ofOption main' rfl, Datum.getText]
  · simp [toDatum, normal, Datum.normal, Datum.normalAll, normal_ofItems imports',
      normal_ofItems enums', normal_ofItems globals', normal_ofItems classes',
      normal_ofItems functions', normal_ofOption main']

section
variable (document : Document)

theorem Document.fits_toDatum (least : -Nat.pow 2 63 ≤ document.version)
    (below : document.version < Nat.pow 2 63) : document.toDatum.Fits (.link .document) := by
  have units' : ∀ unit, some unit ∈ document.units → unit.Faithful := fun unit _ => unit.faithful
  exact ⟨⟨⟨least, below⟩, nofun⟩, ⟨fits_list units', nofun⟩, trivial⟩

theorem Document.ofDatum?_toDatum : Document.ofDatum? document.toDatum = some document := by
  have units' : ∀ unit, some unit ∈ document.units → unit.Faithful := fun unit _ => unit.faithful
  simp only [toDatum, ofDatum?, itemsOf, map_read units' rfl, getNumber]

theorem Document.normal_toDatum (given : document.units ≠ []) :
    document.toDatum.normal = document.normal.toDatum := by
  have units' : ∀ unit, some unit ∈ document.units → unit.Faithful := fun unit _ => unit.faithful
  obtain ⟨version, units⟩ := document
  cases units with
  | nil => exact absurd rfl given
  | cons unit units =>
    exact congrArg (fun items => record [.number version, .list items []])
      (map_normal units')

end

end TreeCheck.Doc
