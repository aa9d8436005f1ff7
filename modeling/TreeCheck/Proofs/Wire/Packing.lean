/-
Documents as data, and the way through the binary form. The bytes of a datum are read as
one value, its wire value, and that value is unpacked to the datum again, except that a
list that was given but empty comes back as none: a field that is empty in any way is not
written, and then holds what every field holds at first.

Every length has to be below two to the power of 32, which is as much as a header of the
form can say.
-/

import TreeCheck.Doc.Msgpack
import TreeCheck.Proofs.Text.Utf8
import TreeCheck.Proofs.Wire.Data

namespace TreeCheck.Doc

open Msgpack

open Msgpack (natOfBytes readNat? readInt? readText? head)

variable {width length : Nat} {value : Int} {code : UInt8} {shape : Shape} {values : List Datum}

/-! ### Numbers in bytes -/

theorem pow_succ_byte (width : Nat) : Nat.pow 2 (8 * (width + 1)) = Nat.pow 2 (8 * width) * 256 :=
  Nat.pow_add 2 (8 * width) 8

theorem length_bigEndian (width value : Nat) : (bigEndian width value).length = width := by
  induction width with
  | zero => rfl
  | succ width inductionHypothesis => rw [bigEndian, List.length_cons, inductionHypothesis]

/-- Bytes add up to what they were taken from, as far as they reach. -/
theorem foldl_bigEndian (width value start : Nat) :
    (bigEndian width value).foldl (fun value byte => value * 256 + byte.toNat) start =
      start * Nat.pow 2 (8 * width) + value % Nat.pow 2 (8 * width) := by
  induction width generalizing start with
  | zero => simp [bigEndian, Nat.mod_one]
  | succ width inductionHypothesis =>
    rw [bigEndian, List.foldl_cons, inductionHypothesis, pow_succ_byte, Nat.mod_mul,
      UInt8.toNat_ofNat', Nat.add_mul]
    simp only [Nat.reducePow]
    ac_rfl

/-- A number comes back from as many bytes as hold it. -/
theorem readNat?_bigEndian {value : Nat} (below : value < Nat.pow 2 (8 * width)) (rest : List UInt8) :
    readNat? width (bigEndian width value ++ rest) = some (value, rest) := by
  have length := length_bigEndian width value
  have back : natOfBytes (bigEndian width value) = value := by
    rw [natOfBytes, foldl_bigEndian, Nat.zero_mul, Nat.zero_add, Nat.mod_eq_of_lt below]
  rw [readNat?, takeBytes?, if_pos (by simp [length]), Option.map_some,
    List.take_left' length, List.drop_left' length]
  exact congrArg (fun value => some (value, rest)) back

/-! ### Headers -/

section
variable {value length : Nat}

/-- A number below 0x80 is its own first byte. -/
theorem head_small (small : value < 0x80) : head (UInt8.ofNat value) = .value (.int value) := by
  rw [head, UInt8.toNat_ofNat_of_lt' (show value < 256 by omega), if_pos small]

theorem head_map (short : length < 16) : head (UInt8.ofNat (0x80 + length)) = .map length := by
  rw [head, UInt8.toNat_ofNat_of_lt' (show 0x80 + length < 256 by omega), if_neg (by omega),
    if_pos (by omega), Nat.add_sub_cancel_left]

theorem head_array (short : length < 16) : head (UInt8.ofNat (0x90 + length)) = .array length := by
  rw [head, UInt8.toNat_ofNat_of_lt' (show 0x90 + length < 256 by omega), if_neg (by omega),
    if_neg (by omega), if_pos (by omega), Nat.add_sub_cancel_left]

theorem head_text (short : length < 32) : head (UInt8.ofNat (0xa0 + length)) = .text length := by
  rw [head, UInt8.toNat_ofNat_of_lt' (show 0xa0 + length < 256 by omega), if_neg (by omega),
    if_neg (by omega), if_neg (by omega), if_pos (by omega), Nat.add_sub_cancel_left]

end

attribute [local simp] Msgpack.readValue?

/-- A header of any length leads to what follows behind a length. -/
theorem readValue?_sizedHead {fuel short limit medium long : Nat}
    (follow : Nat → List UInt8 → Option (Msgpack × List UInt8))
    (within : ∀ length < limit, ∀ rest,
      readValue? (fuel + 1) (UInt8.ofNat (short + length) :: rest) = follow length rest)
    (inTwo : ∀ rest, readValue? (fuel + 1) (UInt8.ofNat medium :: rest) =
      (readNat? 2 rest).bind fun (length, rest) => follow length rest)
    (inFour : ∀ rest, readValue? (fuel + 1) (UInt8.ofNat long :: rest) =
      (readNat? 4 rest).bind fun (length, rest) => follow length rest) (below : length < Nat.pow 2 32)
    (rest : List UInt8) :
    readValue? (fuel + 1) (sizedHead short limit medium long length ++ rest) =
      follow length rest := by
  unfold sizedHead
  split
  · exact within length ‹_› rest
  split
  · have fits : length < Nat.pow 2 (8 * 2) := ‹_›
    rw [List.cons_append, inTwo, readNat?_bigEndian fits, Option.bind_some]
  · have fits : length < Nat.pow 2 (8 * 4) := below
    rw [List.cons_append, inFour, readNat?_bigEndian fits, Option.bind_some]

/-- Behind the header of an array, in any of its forms, its items are read. -/
theorem readValue?_arrayHead (below : length < Nat.pow 2 32) (fuel : Nat) (rest : List UInt8) :
    Msgpack.readValue? (fuel + 1) (arrayHead length ++ rest) =
      (Msgpack.readItems? fuel length rest).map fun (items, rest) => (.array items, rest) := by
  refine readValue?_sizedHead
    (fun length rest => (Msgpack.readItems? fuel length rest).map fun (items, rest) =>
      (.array items, rest)) (fun length short rest => ?_) (fun rest => ?_) (fun rest => ?_) below
    rest
  · rw [Msgpack.readValue?, head_array short]
  · rw [Msgpack.readValue?, show head (UInt8.ofNat 0xdc) = .sizedArray 2 from rfl]
    exact congrArg (readNat? 2 rest).bind (funext fun _ => Option.map_eq_bind.symm)
  · rw [Msgpack.readValue?, show head (UInt8.ofNat 0xdd) = .sizedArray 4 from rfl]
    exact congrArg (readNat? 4 rest).bind (funext fun _ => Option.map_eq_bind.symm)

/-- Behind the header of a map, in any of its forms, its entries are read. -/
theorem readValue?_mapHead (below : length < Nat.pow 2 32) (fuel : Nat) (rest : List UInt8) :
    readValue? (fuel + 1) (mapHead length ++ rest) =
      (readEntries? fuel length rest).map fun (entries, rest) => (.map entries, rest) := by
  refine readValue?_sizedHead
    (fun length rest => (readEntries? fuel length rest).map fun (entries, rest) =>
      (.map entries, rest)) (fun length short rest => ?_) (fun rest => ?_) (fun rest => ?_) below
    rest
  · rw [readValue?, head_map short]
  · rw [readValue?, show head (UInt8.ofNat 0xde) = .sizedMap 2 from rfl]
    exact congrArg (readNat? 2 rest).bind (funext fun _ => Option.map_eq_bind.symm)
  · rw [readValue?, show head (UInt8.ofNat 0xdf) = .sizedMap 4 from rfl]
    exact congrArg (readNat? 4 rest).bind (funext fun _ => Option.map_eq_bind.symm)

/-- The bytes of a text are read as that text. -/
theorem readValue?_packText {value : String}
    (below : (Text.Utf8.encode value).length < Nat.pow 2 32) (fuel : Nat) (rest : List UInt8) :
    readValue? (fuel + 1) (packText value ++ rest) =
      some (.text (Text.Utf8.encode value), rest) := by
  generalize bytes_eq : Text.Utf8.encode value = bytes at below ⊢
  have taken : readText? bytes.length (bytes ++ rest) = some (.text bytes, rest) := by
    simp [readText?, takeBytes?]
  rw [packText, bytes_eq, List.append_assoc]
  split
  · rename_i byte
    have fits : bytes.length < Nat.pow 2 (8 * 1) := byte.2
    simp [show head 0xd9 = .sizedText 1 from rfl, readNat?_bigEndian fits, taken]
  · rw [readValue?_sizedHead (fun length rest => readText? length rest)
      (fun length short rest => ?_) (fun rest => ?_) (fun rest => ?_) below, taken]
    · rw [readValue?, head_text short]
    · rw [readValue?, show head (UInt8.ofNat 0xda) = .sizedText 2 from rfl]
      rfl
    · rw [readValue?, show head (UInt8.ofNat 0xdb) = .sizedText 4 from rfl]
      rfl

/-- An unsigned number behind the code of its width. -/
theorem readValue?_unsigned {value : Nat} (heads : head code = .int width false)
    (below : value < Nat.pow 2 (8 * width)) (fuel : Nat) (rest : List UInt8) :
    readValue? (fuel + 1) (code :: bigEndian width value ++ rest) =
      some (.int value, rest) := by
  simp [heads, readNat?_bigEndian below]

/-- A negative number behind the code of its width, in two's complement. -/
theorem readValue?_signed (heads : head code = .int width true) (negative : value < 0)
    (least : -(Nat.pow 2 (8 * width) : Int) ≤ 2 * value) (fuel : Nat) (rest : List UInt8) :
    readValue? (fuel + 1)
        (code :: bigEndian width (value + Nat.pow 2 (8 * width)).toNat ++ rest) =
      some (.int value, rest) := by
  have below : (value + Nat.pow 2 (8 * width)).toNat < Nat.pow 2 (8 * width) := by omega
  have large : ¬ 2 * (value + Nat.pow 2 (8 * width)).toNat < Nat.pow 2 (8 * width) := by omega
  have back : ((value + Nat.pow 2 (8 * width)).toNat : Int) - Nat.pow 2 (8 * width) = value := by omega
  rw [List.cons_append, readValue?, heads]
  simp only [readInt?, readNat?_bigEndian below, Option.map_some, if_neg large, back]

/-- The five ways in which a number is written that is not negative. -/
theorem readValue?_packShortest_ofNat {value : Nat} (below : value < Nat.pow 2 64) (fuel : Nat)
    (rest : List UInt8) :
    readValue? (fuel + 1) (packShortest value ++ rest) = some (.int value, rest) := by
  rw [packShortest, if_pos (Int.natCast_nonneg value), Int.toNat_natCast]
  dsimp only
  split
  · rw [List.singleton_append, readValue?, head_small ‹_›]
  split
  · exact readValue?_unsigned rfl (show value < Nat.pow 2 (8 * 1) from ‹_›) fuel rest
  split
  · exact readValue?_unsigned rfl (show value < Nat.pow 2 (8 * 2) from ‹_›) fuel rest
  split
  · exact readValue?_unsigned rfl (show value < Nat.pow 2 (8 * 4) from ‹_›) fuel rest
  · exact readValue?_unsigned rfl (show value < Nat.pow 2 (8 * 8) from below) fuel rest

/-- The five ways in which a negative number is written. -/
theorem readValue?_packShortest_neg (negative : value < 0) (least : -Nat.pow 2 63 ≤ value) (fuel : Nat)
    (rest : List UInt8) :
    readValue? (fuel + 1) (packShortest value ++ rest) = some (.int value, rest) := by
  have wide : (Nat.pow 2 (8 * 8) : Int) = 2 * Nat.pow 2 63 := by decide
  have half : (Nat.pow 2 (8 * 4) : Int) = 2 * Nat.pow 2 31 := by decide
  have quarter : (Nat.pow 2 (8 * 2) : Int) = 2 * Nat.pow 2 15 := by decide
  have byte : (Nat.pow 2 (8 * 1) : Int) = 2 * Nat.pow 2 7 := by decide
  rw [packShortest, if_neg (by omega)]
  split
  · have code : (UInt8.ofNat (value + 256).toNat).toNat = (value + 256).toNat :=
      UInt8.toNat_ofNat_of_lt' (show (value + 256).toNat < 256 by omega)
    have back : ((value + 256).toNat : Int) - 256 = value := by omega
    have heads : head (UInt8.ofNat (value + 256).toNat) = .value (.int value) := by
      rw [head, code, if_neg (by omega), if_neg (by omega), if_neg (by omega), if_neg (by omega),
        if_pos (by omega), back]
    rw [List.singleton_append, readValue?, heads]
  split
  · exact readValue?_signed rfl negative (show -(Nat.pow 2 (8 * 1) : Int) ≤ 2 * value by omega) fuel
      rest
  split
  · exact readValue?_signed rfl negative (show -(Nat.pow 2 (8 * 2) : Int) ≤ 2 * value by omega) fuel
      rest
  split
  · exact readValue?_signed rfl negative (show -(Nat.pow 2 (8 * 4) : Int) ≤ 2 * value by omega) fuel
      rest
  · exact readValue?_signed rfl negative (show -(Nat.pow 2 (8 * 8) : Int) ≤ 2 * value by omega) fuel
      rest

/-- The bytes of a number are read as that number. -/
theorem readValue?_packNumber (fits : (Datum.number value).Fits shape) (fuel : Nat)
    (rest : List UInt8) :
    readValue? (fuel + 1) (packNumber shape value ++ rest) = some (.int value, rest) := by
  have wide : Nat.pow 2 64 = 2 * Nat.pow 2 63 := by decide
  cases shape with
  | version =>
    rcases Int.lt_or_le value 0 with negative | positive
    · exact readValue?_packShortest_neg negative fits.1 fuel rest
    · obtain ⟨value, rfl⟩ := Int.eq_ofNat_of_zero_le positive
      have below : (value : Int) < Nat.pow 2 63 := fits.2
      exact readValue?_packShortest_ofNat (by omega) fuel rest
  | position =>
    obtain ⟨value, rfl⟩ := Int.eq_ofNat_of_zero_le fits.1
    exact readValue?_unsigned rfl (show value < Nat.pow 2 (8 * 4) from Int.ofNat_lt.mp fits.2) fuel rest
  | dimensions =>
    obtain ⟨value, rfl⟩ := Int.eq_ofNat_of_zero_le fits.1
    exact readValue?_unsigned rfl (show value < Nat.pow 2 (8 * 1) from Int.ofNat_lt.mp fits.2) fuel rest
  | _ => exact absurd fits (by simp [Datum.Fits])

/-! ### The wire value of a datum -/

mutual

/-- No text and no list is longer than a header can say. -/
def Datum.Sized : Datum → Prop
  | .text value => (Text.Utf8.encode value).length < Nat.pow 2 32
  | .record values => Datum.AllSized values
  | .list items _ => items.length < Nat.pow 2 32 ∧ Datum.AllSized items
  | _ => True

def Datum.AllSized : List Datum → Prop
  | [] => True
  | value :: rest => Datum.Sized value ∧ Datum.AllSized rest

end

mutual

def Datum.decideSized : (value : Datum) → Decidable value.Sized
  | .absent | .flag _ | .number _ => isTrue trivial
  | .text value =>
    decidable_of_iff ((value.toList.flatMap String.utf8EncodeChar).length < Nat.pow 2 32)
      (by rw [Datum.Sized, Text.Utf8.encode_eq])
  | .record values => Datum.decideAllSized values
  | .list items _ =>
    have : Decidable (Datum.AllSized items) := Datum.decideAllSized items
    inferInstanceAs (Decidable (items.length < Nat.pow 2 32 ∧ Datum.AllSized items))

def Datum.decideAllSized : (values : List Datum) → Decidable (Datum.AllSized values)
  | [] => isTrue trivial
  | value :: rest =>
    have : Decidable value.Sized := Datum.decideSized value
    have : Decidable (Datum.AllSized rest) := Datum.decideAllSized rest
    inferInstanceAs (Decidable (value.Sized ∧ Datum.AllSized rest))

end

instance (value : Datum) : Decidable value.Sized := value.decideSized

mutual

/-- The value that the bytes of a datum stand for. -/
def Datum.wire (shape : Shape) : Datum → Msgpack
  | .absent => .nil
  | .text value => .text (Text.Utf8.encode value)
  | .flag value => .bool value
  | .number value => .int value
  | .record values =>
    match shape.kind? with
    | some kind => .map (Datum.wireFields kind.fields values)
    | none => .nil
  | .list items _ => .array (Datum.wireItems shape.item items)

def Datum.wireItems (shape : Shape) : List Datum → List Msgpack
  | [] => []
  | item :: rest => Datum.wire shape item :: Datum.wireItems shape rest

def Datum.wireFields : List Field → List Datum → List (Msgpack × Msgpack)
  | field :: fields, value :: rest =>
    if value.isBlank field.shape then Datum.wireFields fields rest
    else (.text (Text.Utf8.encode field.key), Datum.wire field.shape value) ::
      Datum.wireFields fields rest
  | _, _ => []

end

/-- No more fields are written than the schema has. -/
theorem Datum.length_packFields (fields : List Field) (values : List Datum) :
    (Datum.packFields fields values).length ≤ fields.length := by
  induction fields generalizing values with
  | nil => cases values <;> exact Nat.le_refl _
  | cons field fields inductionHypothesis =>
    cases values with
    | nil => exact Nat.zero_le _
    | cons value values =>
      have fewer := inductionHypothesis values
      rw [Datum.packFields]
      split <;> simp only [List.length_cons] <;> omega

/-- A record has few fields with short keys. -/
theorem RecordKind.sized (kind : RecordKind) :
    kind.fields.length < Nat.pow 2 32 ∧
      ∀ field ∈ kind.fields, (Text.Utf8.encode field.key).length < Nat.pow 2 32 := by
  simp only [Text.Utf8.encode_eq]
  cases kind <;> decide

/-- No header is empty, so reading a value takes fuel from the bytes. -/
theorem length_sizedHead (short limit medium long length : Nat) :
    0 < (sizedHead short limit medium long length).length := by
  unfold sizedHead
  split
  · exact Nat.succ_pos _
  split <;> exact Nat.succ_pos _

/-- What is read from some bytes is not read from none. -/
theorem length_of_readValue? {fuel : Nat} {bytes rest : List UInt8} {value : Msgpack}
    (read : readValue? fuel (bytes ++ []) = some (value, rest)) : 0 < bytes.length := by
  cases bytes with
  | nil => simp [readValue?] at read
  | cons first others => exact Nat.succ_pos _

mutual

/-- The bytes of a datum are read as its wire value, by twice as many units of fuel as there are
bytes and one. -/
theorem readValue?_pack : (value : Datum) → {shape : Shape} → value.Fits shape → value.Sized →
    ∀ {fuel : Nat} (rest : List UInt8), 2 * (value.pack shape).length ≤ fuel →
    Msgpack.readValue? (fuel + 1) (value.pack shape ++ rest) = some (value.wire shape, rest)
  | .absent, _, _, _, _, _, _ => rfl
  | .text value, shape, _, sized, fuel, rest, _ => readValue?_packText sized fuel rest
  | .flag value, shape, _, _, fuel, rest, _ => by cases value <;> rfl
  | .number value, shape, fits, _, fuel, rest, _ => readValue?_packNumber fits fuel rest
  | .record values, shape, fits, sized, fuel, rest, enough => by
    have record {kind : RecordKind} (leads : shape.kind? = some kind)
        (fit : Datum.FieldsFit kind.fields values) :
        Msgpack.readValue? (fuel + 1) ((Datum.record values).pack shape ++ rest) =
          some ((Datum.record values).wire shape, rest) := by
      simp only [Datum.pack, Datum.wire, leads, List.length_append, List.append_assoc] at enough ⊢
      have some := length_sizedHead 0x80 16 0xde 0xdf
        (Datum.packFields kind.fields values).length
      rw [← mapHead] at some
      obtain ⟨fuel, rfl⟩ : ∃ less, fuel = less + 2 := ⟨fuel - 2, by omega⟩
      have few := Nat.lt_of_le_of_lt (Datum.length_packFields kind.fields values) kind.sized.1
      rw [readValue?_mapHead few,
        readEntries?_pack values kind.sized.2 fit sized rest (by omega), Option.map_some]
    cases shape with
    | extent => exact record rfl fits
    | link kind => exact record rfl fits
    | _ => exact absurd fits (by simp [Datum.Fits])
  | .list items kept, shape, fits, sized, fuel, rest, enough => by
    have list (fit : Datum.ItemsFit shape.item items) :
        Msgpack.readValue? (fuel + 1) ((Datum.list items kept).pack shape ++ rest) =
          some ((Datum.list items kept).wire shape, rest) := by
      rw [Datum.pack, List.length_append] at enough
      have some := length_sizedHead 0x90 16 0xdc 0xdd items.length
      rw [← arrayHead] at some
      obtain ⟨fuel, rfl⟩ : ∃ less, fuel = less + 2 := ⟨fuel - 2, by omega⟩
      rw [Datum.pack, Datum.wire, List.append_assoc, readValue?_arrayHead sized.1,
        readItems?_pack items fit sized.2 rest (by omega), Option.map_some]
    cases shape with
    | texts => exact list fits.2
    | links kind => exact list fits.2
    | _ => exact absurd fits (by simp [Datum.Fits])

theorem readItems?_pack : (items : List Datum) → {shape : Shape} → Datum.ItemsFit shape items →
    Datum.AllSized items → ∀ {fuel : Nat} (rest : List UInt8),
    2 * (Datum.packItems shape items).flatten.length ≤ fuel →
    Msgpack.readItems? (fuel + 2) items.length ((Datum.packItems shape items).flatten ++ rest) =
      some (Datum.wireItems shape items, rest)
  | [], _, _, _, _, _, _ => rfl
  | item :: items, shape, fits, sized, fuel, rest, enough => by
    have some := length_of_readValue? (readValue?_pack item fits.1 sized.1 [] (Nat.le_refl _))
    rw [Datum.packItems, List.flatten_cons, List.length_append] at enough
    obtain ⟨fuel, rfl⟩ : ∃ less, fuel = less + 1 := ⟨fuel - 1, by omega⟩
    rw [Datum.packItems, List.flatten_cons, List.append_assoc, List.length_cons,
      Msgpack.readItems?, readValue?_pack item fits.1 sized.1 _ (by omega)]
    simp only [Option.bind_eq_bind, Option.bind_some, Option.pure_def, Datum.wireItems,
      readItems?_pack items fits.2 sized.2 rest (show 2 * _ ≤ fuel by omega)]

theorem readEntries?_pack : (values : List Datum) → {fields : List Field} →
    (∀ field ∈ fields, (Text.Utf8.encode field.key).length < Nat.pow 2 32) →
    Datum.FieldsFit fields values → Datum.AllSized values →
    ∀ {fuel : Nat} (rest : List UInt8),
    2 * (Datum.packFields fields values).flatten.length ≤ fuel →
    readEntries? (fuel + 2) (Datum.packFields fields values).length
        ((Datum.packFields fields values).flatten ++ rest) =
      some (Datum.wireFields fields values, rest)
  | [], fields, _, _, _, fuel, rest, _ => by
    simp [Datum.packFields, Datum.wireFields, readEntries?]
  | value :: values, [], _, fits, _, _, _, _ => by
    simp [Datum.FieldsFit] at fits
  | value :: values, field :: fields, keys, fits, sized, fuel, rest, enough => by
    have further : ∀ field ∈ fields, (Text.Utf8.encode field.key).length < Nat.pow 2 32 :=
      fun other member => keys other (.tail _ member)
    rw [Datum.packFields] at enough ⊢
    rw [Datum.wireFields]
    by_cases blank : value.isBlank field.shape = true
    · rw [if_pos blank] at enough ⊢
      rw [if_pos blank]
      exact readEntries?_pack values further fits.2 sized.2 rest enough
    · have some := length_of_readValue? (readValue?_pack value fits.1.1 sized.1 [] (Nat.le_refl _))
      rw [if_neg blank, List.flatten_cons, List.length_append, List.length_append] at enough
      obtain ⟨fuel, rfl⟩ : ∃ less, fuel = less + 1 := ⟨fuel - 1, by omega⟩
      rw [if_neg blank, if_neg blank, List.flatten_cons, List.append_assoc, List.append_assoc,
        List.length_cons, readEntries?,
        readValue?_packText (keys field (.head _))]
      simp only [Option.bind_eq_bind, Option.bind_some, Option.pure_def,
        readValue?_pack value fits.1.1 sized.1 _ (show 2 * _ ≤ fuel + 1 by omega),
        readEntries?_pack values further fits.2 sized.2 rest (show 2 * _ ≤ fuel by omega)]

end

/-! ### From the wire value -/

namespace Datum

/-- An empty field is like one that nothing was read into. -/
theorem eq_empty_of_isEmpty {value : Datum} (fits : value.Fits shape)
    (empty : value.isEmpty = true) :
    value.normal = shape.empty := by
  cases value with
  | record values => simp [isEmpty] at empty
  | list items kept =>
    obtain rfl : items = [] := by simpa [isEmpty] using empty
    cases shape <;> first | rfl | exact absurd fits (by simp [Fits])
  | _ => cases shape <;> simp_all [Fits, isEmpty, normal, Shape.empty]

/-- Empty values are those that unpacking a record starts with. -/
theorem normalAll_of_isEmpty {fields : List Field} (fits : FieldsFit fields values)
    (empty : ∀ value ∈ values, value.isEmpty = true) :
    normalAll values = fields.map (·.shape.empty) := by
  induction fields generalizing values with
  | nil =>
    cases values with
    | nil => rfl
    | cons value values => simp [FieldsFit] at fits
  | cons field fields inductionHypothesis =>
    cases values with
    | nil => simp [FieldsFit] at fits
    | cons value values =>
      rw [normalAll, List.map_cons, eq_empty_of_isEmpty fits.1.1 (empty value (.head _)),
        inductionHypothesis fits.2 fun other member => empty other (.tail _ member)]

/-- A span whose positions are all unknown is like one that nothing was read into. -/
theorem eq_empty_of_isBlank {value : Datum} (fits : value.Fits shape)
    (blank : value.isBlank shape = true) : value.normal = shape.empty := by
  cases shape with
  | extent =>
    cases value with
    | record values =>
      rw [normal, normalAll_of_isEmpty fits (List.all_eq_true.mp blank)]
      rfl
    | _ => exact absurd fits (by simp [Fits])
  | _ => exact eq_empty_of_isEmpty fits blank

/-- An empty list as a field is blank. -/
theorem ne_list_of_isBlank {value : Datum} (given : ¬ value.isBlank shape = true)
    (kept : List Datum) : value ≠ .list [] kept := by
  rintro rfl
  cases shape <;> exact given rfl

/-- The items of a list are no lists. -/
theorem ne_list_of_item {item : Datum} (list : shape = .texts ∨ ∃ kind, shape = .links kind)
    (fits : item.Fits shape.item) (kept : List Datum) : item ≠ .list [] kept := by
  rintro rfl
  rcases list with rfl | ⟨kind, rfl⟩ <;> exact fits

end Datum

/-- A number that fits a field is not wrapped by it. -/
theorem Shape.reduce_of_fits (fits : (Datum.number value).Fits shape) :
    shape.reduce value = some value := by
  cases shape with
  | version =>
    have wide : (Nat.pow 2 64 : Int) = 2 * Nat.pow 2 63 := by decide
    have least : -(Nat.pow 2 63 : Int) ≤ value := fits.1
    have below : value < (Nat.pow 2 63 : Int) := fits.2
    exact congrArg some (Int.bmod_eq_of_le_mul_two (by omega) (by omega))
  | position => exact congrArg some (Int.emod_eq_of_lt fits.1 fits.2)
  | dimensions => exact congrArg some (Int.emod_eq_of_lt fits.1 fits.2)
  | _ => exact absurd fits (by simp [Datum.Fits])

mutual

/-- The wire value of a datum other than an empty list is unpacked to the datum, without the empty
lists in it. -/
theorem unpackInto?_wire : (value : Datum) → {shape : Shape} → value.Fits shape →
    (∀ kept, value ≠ .list [] kept) →
    unpackInto? shape shape.empty (value.wire shape) = some value.normal
  | .absent, shape, fits, _ => by
    cases shape <;> first | rfl | exact absurd fits (by simp [Datum.Fits])
  | .text value, shape, fits, _ => by
    cases shape <;> simp_all [Datum.Fits, Datum.wire, unpackInto?, Datum.normal, textOfBytes]
  | .flag value, shape, fits, _ => by
    cases shape <;> simp_all [Datum.Fits, Datum.wire, unpackInto?, Datum.normal]
  | .number value, shape, fits, _ => by
    rw [Datum.wire, unpackInto?, Shape.reduce_of_fits fits]
    rfl
  | .record values, shape, fits, _ => by
    have fields {kind : RecordKind} (fit : Datum.FieldsFit kind.fields values) :
        unpackEntries? kind kind.empty (Datum.wireFields kind.fields values) =
          some (Datum.normalAll values) :=
      unpackEntries?_wireFields values (List.nil_append kind.fields).symm
        (show [].length = [].length from rfl) fit
    cases shape with
    | extent => exact congrArg (Option.map Datum.record) (fields fits)
    | link kind => exact congrArg (Option.map Datum.record) (fields fits)
    | _ => exact absurd fits (by simp [Datum.Fits])
  | .list items kept, shape, fits, given => by
    have normal : (Datum.list items kept).normal = .list (Datum.normalAll items) kept := by
      cases items with
      | nil => exact absurd rfl (given kept)
      | cons item items => rfl
    cases shape with
    | texts =>
      obtain ⟨rfl, fit⟩ := fits
      rw [normal, Datum.wire, unpackInto?]
      exact congrArg (Option.map fun read : List Datum × List Datum => Datum.list read.1 [])
        (unpackItems?_wireItems items (.inl rfl) fit)
    | links kind =>
      obtain ⟨rfl, fit⟩ := fits
      rw [normal, Datum.wire, unpackInto?]
      exact congrArg (Option.map fun read : List Datum × List Datum => Datum.list read.1 read.2)
        (unpackItems?_wireItems items (.inr ⟨kind, rfl⟩) fit)
    | _ => exact absurd fits (by simp [Datum.Fits])

theorem unpackItems?_wireItems : (items : List Datum) → {shape : Shape} →
    (shape = .texts ∨ ∃ kind, shape = .links kind) → Datum.ItemsFit shape.item items →
    unpackItems? shape.item [] (Datum.wireItems shape.item items) =
      some (Datum.normalAll items, [])
  | [], _, _, _ => rfl
  | item :: items, shape, list, fits => by
    rw [Datum.wireItems, unpackItems?]
    simp [unpackInto?_wire item fits.1 (Datum.ne_list_of_item list fits.1),
      unpackItems?_wireItems items list fits.2, Datum.normalAll]

/-- The fields that come behind some that were unpacked already. -/
theorem unpackEntries?_wireFields : (values : List Datum) → {kind : RecordKind} →
    {before fields : List Field} → {earlier : List Datum} → kind.fields = before ++ fields →
    earlier.length = before.length → Datum.FieldsFit fields values →
    unpackEntries? kind (earlier ++ fields.map (·.shape.empty)) (Datum.wireFields fields values) =
      some (earlier ++ Datum.normalAll values)
  | [], kind, before, [], earlier, _, _, _ => by
    simp [Datum.wireFields, unpackEntries?, Datum.normalAll]
  | [], kind, before, field :: fields, earlier, _, _, fits => by
    simp [Datum.FieldsFit] at fits
  | value :: values, kind, before, [], earlier, _, _, fits => by
    simp [Datum.FieldsFit] at fits
  | value :: values, kind, before, field :: fields, earlier, place, length, fits => by
    have further : kind.fields = (before ++ [field]) ++ fields := by rw [place]; simp
    have others := unpackEntries?_wireFields values further
      (show (earlier ++ [value.normal]).length = _ by simp [length]) fits.2
    rw [List.append_assoc, List.append_assoc] at others
    rw [Datum.wireFields, Datum.normalAll]
    by_cases blank : value.isBlank field.shape = true
    · rw [if_pos blank, List.map_cons, ← Datum.eq_empty_of_isBlank fits.1.1 blank]
      exact others
    · have here : (earlier ++ (field :: fields).map (·.shape.empty))[before.length]? =
          some field.shape.empty := by
        simp [← length]
      have key : (keyOf? (.text (Text.Utf8.encode field.key))).bind
          (fun name => kind.index? (· = name)) = some (before.length, field.shape) := by
        rw [keyOf?, textOfBytes, Text.Utf8.ofBytes_encode, Option.bind_some,
          RecordKind.index?_key place]
      rw [if_neg blank, unpackEntries?, key]
      simp only [here, Option.getD_some, Option.bind_eq_bind, Option.bind_some,
        unpackInto?_wire value fits.1.1 (Datum.ne_list_of_isBlank blank)]
      rw [← length]
      simpa using others

end

/-- A record is unpacked into an empty one, entry by entry. -/
theorem unpackRecord?_wire {kind : RecordKind} (fits : (Datum.record values).Fits (.link kind)) :
    unpackRecord? kind ((Datum.record values).wire (.link kind)) =
      some (Datum.normalAll values) := by
  have unpacked := unpackInto?_wire (.record values) fits (fun _ => nofun)
  rw [unpackRecord?, show Datum.absent = (Shape.link kind).empty from rfl, unpacked]
  rfl

/-! ### Empty lists -/

namespace Datum

/-- Empty lists in a field do not decide whether it is left out. -/
theorem isBlank_normal (shape : Shape) (value : Datum) :
    value.normal.isBlank shape = value.isBlank shape := by
  have all (values : List Datum) :
      (normalAll values).all isEmpty = values.all isEmpty := by
    rw [normalAll_eq_map, List.all_map]
    exact congrArg values.all (funext isEmpty_normal)
  cases shape with
  | extent =>
    cases value with
    | record values => exact all values
    | list items kept => cases items <;> rfl
    | _ => rfl
  | _ => exact isEmpty_normal value

mutual

/-- The bytes of a datum other than an empty list are those without the empty lists in it. -/
theorem pack_normal : (value : Datum) → {shape : Shape} → value.Fits shape →
    (∀ kept, value ≠ .list [] kept) → value.normal.pack shape = value.pack shape
  | .absent, _, _, _ | .text _, _, _, _ | .flag _, _, _, _ | .number _, _, _, _ => rfl
  | .record values, shape, fits, _ => by
    rw [normal, pack, pack]
    cases shape with
    | extent => simp only [Shape.kind?, packFields_normal values fits]
    | link kind => simp only [Shape.kind?, packFields_normal values fits]
    | _ => exact absurd fits (by simp [Fits])
  | .list [] kept, shape, fits, given => absurd rfl (given kept)
  | .list (item :: items) kept, shape, fits, _ => by
    have length : (normalAll (item :: items)).length = (item :: items).length := by
      rw [normalAll_eq_map, List.length_map]
    have same (list : shape = .texts ∨ ∃ kind, shape = .links kind)
        (fit : ItemsFit shape.item (item :: items)) :
        (Datum.list (normalAll (item :: items)) kept).pack shape =
          (Datum.list (item :: items) kept).pack shape := by
      rw [pack, pack, length, packItems_normal (item :: items) list fit]
    cases shape with
    | texts => exact same (.inl rfl) fits.2
    | links kind => exact same (.inr ⟨kind, rfl⟩) fits.2
    | _ => exact absurd fits (by simp [Fits])

theorem packItems_normal : (items : List Datum) → {shape : Shape} →
    (shape = .texts ∨ ∃ kind, shape = .links kind) → ItemsFit shape.item items →
    packItems shape.item (normalAll items) = packItems shape.item items
  | [], _, _, _ => rfl
  | item :: items, shape, ofList, fits => by
    rw [normalAll, packItems, packItems, pack_normal item fits.1 (ne_list_of_item ofList fits.1),
      packItems_normal items ofList fits.2]

theorem packFields_normal : (values : List Datum) → {fields : List Field} →
    FieldsFit fields values → packFields fields (normalAll values) = packFields fields values
  | [], _, _ => rfl
  | _ :: _, [], fits => by simp [FieldsFit] at fits
  | value :: values, field :: fields, fits => by
    rw [normalAll, packFields, packFields, isBlank_normal]
    by_cases blank : value.isBlank field.shape = true
    · rw [if_pos blank, if_pos blank, packFields_normal values fits.2]
    · rw [if_neg blank, if_neg blank, pack_normal value fits.1.1 (ne_list_of_isBlank blank),
        packFields_normal values fits.2]

end

mutual

theorem sized_normal : (value : Datum) → value.Sized → value.normal.Sized
  | .absent, _ | .flag _, _ | .number _, _ => trivial
  | .text _, sized => sized
  | .record values, sized => allSized_normal values sized
  | .list [] _, _ => trivial
  | .list (item :: items) _, sized => by
    refine ⟨?_, allSized_normal (item :: items) sized.2⟩
    rw [normalAll_eq_map, List.length_map]
    exact sized.1

theorem allSized_normal : (values : List Datum) → AllSized values → AllSized (normalAll values)
  | [], _ => trivial
  | value :: values, sized => ⟨sized_normal value sized.1, allSized_normal values sized.2⟩

end

end Datum

end TreeCheck.Doc
