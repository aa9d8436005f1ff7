/-
Documents as data, and the way through JSON. The schema says of every field what may stand
in it, and a datum that keeps to this is read back from its JSON form exactly: a field is
found at its place by its key, since the keys of a record differ, and a field that was left
out because it was empty holds what every field holds at first.
-/

import TreeCheck.Doc.Json
import TreeCheck.Proofs.Wire.JsonText

namespace TreeCheck.Doc

open Datum

variable {value : Int} {shape : Shape} {values : List Datum}

/-! ### Data that keep to the schema -/

mutual

/-- A datum is one of a shape: numbers keep to their widths, records have their fields. -/
def Datum.Fits : Shape → Datum → Prop
  | .text, .text _ => True
  | .flag, .flag _ => True
  | .version, .number value => -Nat.pow 2 63 ≤ value ∧ value < Nat.pow 2 63
  | .position, .number value => 0 ≤ value ∧ value < Nat.pow 2 32
  | .dimensions, .number value => 0 ≤ value ∧ value < Nat.pow 2 8
  | .extent, .record values => Datum.FieldsFit RecordKind.extent.fields values
  | .link _, .absent => True
  | .link kind, .record values => Datum.FieldsFit kind.fields values
  | .texts, .absent => True
  | .texts, .list items kept => kept = [] ∧ Datum.ItemsFit .text items
  | .links _, .absent => True
  | .links kind, .list items kept => kept = [] ∧ Datum.ItemsFit (.link kind) items
  | _, _ => False

def Datum.ItemsFit (shape : Shape) : List Datum → Prop
  | [] => True
  | item :: rest => Datum.Fits shape item ∧ Datum.ItemsFit shape rest

/-- The fields of a record. One that may be left out is empty in one way only. -/
def Datum.FieldsFit : List Field → List Datum → Prop
  | [], [] => True
  | field :: fields, value :: rest =>
    (Datum.Fits field.shape value ∧
      (field.optional = true → value.isEmpty = true → value = field.shape.empty)) ∧
      Datum.FieldsFit fields rest
  | _, _ => False

end

/-! ### Keys -/

namespace RecordKind

/-- No record has two fields under one key. -/
theorem nodup_keys (kind : RecordKind) : (kind.fields.map (·.key)).Nodup := by
  cases kind <;> decide

variable {kind : RecordKind} {before after : List Field} {field : Field}

/-- A key leads to the field that has it. -/
theorem index?_key (place : kind.fields = before ++ field :: after) :
    kind.index? (· = field.key) = some (before.length, field.shape) := by
  have nodup := kind.nodup_keys
  rw [place, List.map_append, List.map_cons, List.nodup_append] at nodup
  have earlier : before.zipIdx.find? (fun entry => decide (entry.1.key = field.key)) = none := by
    rw [List.find?_eq_none]
    rintro ⟨other, index⟩ member
    have listed : other.key ∈ before.map (·.key) :=
      List.mem_map_of_mem (List.fst_mem_of_mem_zipIdx member)
    simpa using nodup.2.2 other.key listed field.key (.head _)
  rw [index?, place, List.zipIdx_append, List.find?_append, earlier, List.zipIdx_cons]
  simp

/-- A key leads to the place of its field and to the shape there. -/
theorem written?_key (place : kind.fields = before ++ field :: after) :
    kind.written? field.key = some (before.length, field.shape) := by
  rw [written?, index?_key place]

end RecordKind

/-! ### Numbers -/

/-- A number within bounds comes back from its decimal digits. -/
theorem signed?_toString (least : -Nat.pow 2 63 ≤ value) (below : value < Nat.pow 2 63) :
    signed? (toString value) = some value := by
  rw [signed?, Json.int?_toString]
  exact if_pos ⟨least, below⟩

theorem unsigned?_toString {bound : Nat} (least : 0 ≤ value) (below : value < bound) :
    unsigned? bound (toString value) = some value := by
  have noSign : (toString value).toList.head? ≠ some '-' := by
    obtain ⟨size, rfl⟩ := Int.eq_ofNat_of_zero_le least
    obtain ⟨first, others, spelled, isDigit⟩ := Json.toDigits_cons size
    have literal : toString (size : Int) = String.ofList (Nat.toDigits 10 size) := rfl
    rw [literal, String.toList_ofList, spelled]
    simpa using (Json.isDigit_ne isDigit).1
  rw [unsigned?, if_neg noSign, Json.int?_toString]
  exact if_pos below

theorem Shape.number?_toString (fits : (number value).Fits shape) :
    shape.number? (toString value) = some value := by
  cases shape with
  | version => exact signed?_toString fits.1 fits.2
  | position => exact unsigned?_toString fits.1 fits.2
  | dimensions => exact unsigned?_toString fits.1 fits.2
  | _ => exact absurd fits (by simp [Datum.Fits])

/-! ### From JSON -/

/-- A list read where none was read before. -/
theorem readInto?_array {strict : Bool} {items : List Json}
    (list : shape = .texts ∨ ∃ kind, shape = .links kind)
    (read : readItems? strict shape.item [] items = some (values, [])) :
    readInto? strict shape shape.empty (.array items) = some (.list values []) := by
  cases items with
  | nil =>
    obtain rfl : values = [] := by simpa [readItems?] using read.symm
    rcases list with rfl | ⟨kind, rfl⟩ <;> rfl
  | cons item items =>
    rcases list with rfl | ⟨kind, rfl⟩ <;>
      simp [readInto?, Shape.empty, backing, read]

mutual

/-- What was written is read back, over a field nothing was read into. -/
theorem readInto?_toJson (strict : Bool) : (value : Datum) → {shape : Shape} → value.Fits shape →
    readInto? strict shape shape.empty (value.toJson shape) = some value
  | .absent, shape, fits => by
    cases shape <;> simp_all [Datum.Fits, toJson, readInto?]
  | .text value, shape, fits => by
    cases shape <;> simp_all [Datum.Fits, toJson, readInto?]
  | .flag value, shape, fits => by
    cases shape <;> simp_all [Datum.Fits, toJson, readInto?]
  | .number value, shape, fits => by
    rw [toJson, Json.ofInt, readInto?, Shape.number?_toString fits, Option.map_some]
  | .record values, shape, fits => by
    have fields {kind : RecordKind} (fit : Datum.FieldsFit kind.fields values) :
        readFields? strict kind kind.empty (fieldsToJson kind.fields values) =
          some values :=
      readFields?_fieldsToJson strict values (List.nil_append kind.fields).symm
        (show [].length = [].length from rfl) fit
    cases shape with
    | extent =>
      simp only [toJson, Shape.kind?, readInto?, Shape.empty, emptyExtent,
        fieldsOr]
      exact congrArg (Option.map record) (fields fits)
    | link kind =>
      simp only [toJson, Shape.kind?, readInto?, Shape.empty, fieldsOr]
      exact congrArg (Option.map record) (fields fits)
    | _ => exact absurd fits (by simp [Datum.Fits])
  | .list items kept, shape, fits => by
    cases shape with
    | texts =>
      obtain ⟨rfl, fit⟩ := fits
      exact readInto?_array (.inl rfl) (readItems?_itemsToJson strict items fit)
    | links kind =>
      obtain ⟨rfl, fit⟩ := fits
      exact readInto?_array (.inr ⟨kind, rfl⟩) (readItems?_itemsToJson strict items fit)
    | _ => exact absurd fits (by simp [Datum.Fits])

theorem readItems?_itemsToJson (strict : Bool) : (items : List Datum) → {shape : Shape} →
    Datum.ItemsFit shape items →
    readItems? strict shape [] (itemsToJson shape items) = some (items, [])
  | [], shape, _ => rfl
  | item :: items, shape, fits => by
    rw [itemsToJson, readItems?]
    simp [readInto?_toJson strict item fits.1, readItems?_itemsToJson strict items fits.2]

/-- The fields that come behind some that were read already. -/
theorem readFields?_fieldsToJson (strict : Bool) : (values : List Datum) → {kind : RecordKind} →
    {before fields : List Field} → {earlier : List Datum} → kind.fields = before ++ fields →
    earlier.length = before.length → Datum.FieldsFit fields values →
    readFields? strict kind (earlier ++ fields.map (·.shape.empty))
      (fieldsToJson fields values) = some (earlier ++ values)
  | [], kind, before, [], earlier, _, _, _ => by
    simp [fieldsToJson, readFields?]
  | [], kind, before, field :: fields, earlier, _, _, fits => by
    simp [Datum.FieldsFit] at fits
  | value :: values, kind, before, [], earlier, _, _, fits => by
    simp [Datum.FieldsFit] at fits
  | value :: values, kind, before, field :: fields, earlier, place, length, fits => by
    obtain ⟨⟨fit, plain⟩, rest⟩ := fits
    have further : kind.fields = (before ++ [field]) ++ fields := by rw [place]; simp
    have others := readFields?_fieldsToJson strict values further
      (show (earlier ++ [value]).length = _ by simp [length]) rest
    rw [List.append_assoc, List.append_assoc] at others
    rw [fieldsToJson]
    by_cases leftOut : (field.optional && value.isEmpty) = true
    · rw [Bool.and_eq_true] at leftOut
      rw [if_pos (by simp [leftOut]), List.map_cons, ← plain leftOut.1 leftOut.2]
      exact others
    · have here : (earlier ++ (field :: fields).map (·.shape.empty))[before.length]? =
          some field.shape.empty := by
        simp [← length]
      rw [if_neg leftOut, readFields?, RecordKind.written?_key place]
      simp only [here, Option.getD_some, readInto?_toJson strict value fit, Option.bind_eq_bind,
        Option.bind_some]
      rw [← length]
      simpa using others

end

/-- The fields of a record are found by their keys, whichever were left out. -/
theorem readRecord?_toJson (strict : Bool) {kind : RecordKind}
    (fits : (record values).Fits (.link kind)) :
    readRecord? strict kind ((record values).toJson (.link kind)) = some values :=
  readFields?_fieldsToJson strict values (List.nil_append kind.fields).symm
    (show [].length = [].length from rfl) fits

mutual

/-- Of data comes JSON whose numbers are whole. -/
theorem Datum.whole_toJson : (value : Datum) → (shape : Shape) → (value.toJson shape).Whole
  | .absent, _ | .text _, _ | .flag _, _ => trivial
  | .number value, _ => ⟨value, rfl⟩
  | .record values, shape => by
    rw [toJson]
    split
    · exact whole_fieldsToJson values _
    · trivial
  | .list items _, shape => whole_itemsToJson items shape.item

theorem Datum.whole_itemsToJson : (items : List Datum) → (shape : Shape) →
    Json.ItemsWhole (itemsToJson shape items)
  | [], _ => trivial
  | item :: items, shape => ⟨whole_toJson item shape, whole_itemsToJson items shape⟩

theorem Datum.whole_fieldsToJson : (values : List Datum) → (fields : List Field) →
    Json.FieldsWhole (fieldsToJson fields values)
  | [], [] | [], _ :: _ | _ :: _, [] => by simp [fieldsToJson, Json.FieldsWhole]
  | value :: values, field :: fields => by
    rw [fieldsToJson]
    split
    · exact whole_fieldsToJson values fields
    · exact ⟨whole_toJson value field.shape, whole_fieldsToJson values fields⟩

end

/-! ### Empty lists -/

mutual

/-- The datum with nothing in the place of every empty list. -/
def Datum.normal : Datum → Datum
  | .record values => .record (normalAll values)
  | .list items kept => if items.isEmpty then .absent else .list (normalAll items) kept
  | value => value

def Datum.normalAll : List Datum → List Datum
  | [] => []
  | value :: rest => normal value :: normalAll rest

end

theorem Datum.normalAll_eq_map (values : List Datum) :
    normalAll values = values.map normal := by
  induction values with
  | nil => rfl
  | cons value rest inductionHypothesis => rw [normalAll, inductionHypothesis, List.map_cons]

/-- A datum is not emptied by leaving out the empty lists in it. -/
theorem Datum.isEmpty_normal (value : Datum) : value.normal.isEmpty = value.isEmpty := by
  cases value with
  | list items kept => cases items <;> rfl
  | _ => rfl

mutual

/-- Empty lists are left out once and for all. -/
theorem Datum.normal_normal : (value : Datum) → value.normal.normal = value.normal
  | .absent | .text _ | .flag _ | .number _ => rfl
  | .record values => congrArg record (normalAll_normalAll values)
  | .list [] _ => rfl
  | .list (item :: items) kept =>
    congrArg (list · kept) (normalAll_normalAll (item :: items))

theorem Datum.normalAll_normalAll : (values : List Datum) →
    normalAll (normalAll values) = normalAll values
  | [] => rfl
  | value :: rest => by
    rw [normalAll, normalAll, normal_normal value,
      normalAll_normalAll rest]

end

mutual

/-- Without empty lists no more brackets are needed. -/
theorem Datum.depth_normal : (value : Datum) → (shape : Shape) →
    (value.normal.toJson shape).depth ≤ (value.toJson shape).depth
  | .absent, _ | .text _, _ | .flag _, _ | .number _, _ => Nat.le_refl _
  | .record values, shape => by
    rw [normal, toJson, toJson]
    split
    · exact Nat.succ_le_succ (fieldsDepth_normal values _)
    · exact Nat.le_refl _
  | .list [] _, _ => Nat.zero_le _
  | .list (item :: items) _, shape =>
    Nat.succ_le_succ (itemsDepth_normal (item :: items) shape.item)

theorem Datum.itemsDepth_normal : (items : List Datum) → (shape : Shape) →
    Json.itemsDepth (itemsToJson shape (normalAll items)) ≤
      Json.itemsDepth (itemsToJson shape items)
  | [], _ => Nat.le_refl _
  | item :: items, shape => by
    have first := depth_normal item shape
    have others := itemsDepth_normal items shape
    simp only [normalAll, itemsToJson, Json.itemsDepth]
    omega

theorem Datum.fieldsDepth_normal : (values : List Datum) → (fields : List Field) →
    Json.fieldsDepth (fieldsToJson fields (normalAll values)) ≤
      Json.fieldsDepth (fieldsToJson fields values)
  | [], _ => Nat.le_refl _
  | _ :: _, [] => Nat.le_refl _
  | value :: values, field :: fields => by
    rw [normalAll, fieldsToJson, fieldsToJson, isEmpty_normal]
    split
    · exact fieldsDepth_normal values fields
    · have first := depth_normal value field.shape
      have others := fieldsDepth_normal values fields
      simp only [Json.fieldsDepth]
      omega

end

end TreeCheck.Doc
