/-
Bytes give back the text they were made from. A character of a text is written in one to
four bytes, and the reader takes exactly these: it tries two bytes before three and three
before four, so what has to be seen is that the first byte of a longer form is refused by
the shorter ones, and that the length of the form is the one the code needs.
-/

import TreeCheck.Text.Utf8

namespace TreeCheck.Text.Utf8

variable {first second : UInt8} {character : Char}

/-! ### The bytes of one character -/

theorem isContinuation_ofNat (value : Nat) :
    isContinuation (UInt8.ofNat (value % 64 + 128)) = true := by
  simp only [isContinuation, Bool.and_eq_true, decide_eq_true_eq, UInt8.le_iff_toNat_le,
    UInt8.lt_iff_toNat_lt, UInt8.toNat_ofNat', UInt8.reduceToNat]
  omega

theorem payload_ofNat (value : Nat) : payload (UInt8.ofNat (value % 64 + 128)) = value % 64 := by
  simp only [payload, UInt8.toNat_ofNat']
  omega

theorem character?_toNat (character : Char) {least : Nat} (enough : least ≤ character.toNat) :
    character? least character.toNat = some character := by
  rw [character?, if_pos ⟨enough, character.valid⟩, Char.ofNat_toNat]

theorem two?_of_lead (lead : 0xe0 ≤ first.toNat) : two? first second = none := by
  rw [two?, if_neg]
  simp only [Bool.and_eq_true, decide_eq_true_eq, UInt8.lt_iff_toNat_lt, UInt8.reduceToNat]
  omega

theorem three?_of_lead {third : UInt8} (lead : 0xf0 ≤ first.toNat) :
    three? first second third = none := by
  rw [three?, if_neg]
  simp only [Bool.and_eq_true, decide_eq_true_eq, UInt8.lt_iff_toNat_lt, UInt8.reduceToNat]
  omega

theorem two?_encoded (enough : 0x80 ≤ character.toNat) (below : character.toNat < 0x800) :
    two? (UInt8.ofNat (character.toNat / 64 % 32 + 0xc0))
        (UInt8.ofNat (character.toNat % 64 + 128)) = some character := by
  have code : character.toNat / 64 % 32 * 64 + character.toNat % 64 = character.toNat := by omega
  rw [two?, if_pos, payload_ofNat]
  · rw [show (UInt8.ofNat (character.toNat / 64 % 32 + 0xc0)).toNat % 32 =
      character.toNat / 64 % 32 by rw [UInt8.toNat_ofNat']; omega, code]
    exact character?_toNat character enough
  · simp only [isContinuation_ofNat, Bool.and_true, Bool.and_eq_true, decide_eq_true_eq,
      UInt8.le_iff_toNat_le, UInt8.lt_iff_toNat_lt, UInt8.toNat_ofNat', UInt8.reduceToNat]
    omega

theorem three?_encoded (enough : 0x800 ≤ character.toNat) (below : character.toNat < 0x10000) :
    three? (UInt8.ofNat (character.toNat / 4096 % 16 + 0xe0))
        (UInt8.ofNat (character.toNat / 64 % 64 + 128))
        (UInt8.ofNat (character.toNat % 64 + 128)) = some character := by
  have code : (character.toNat / 4096 % 16 * 64 + character.toNat / 64 % 64) * 64 +
      character.toNat % 64 = character.toNat := by omega
  rw [three?, if_pos, payload_ofNat, payload_ofNat]
  · rw [show (UInt8.ofNat (character.toNat / 4096 % 16 + 0xe0)).toNat % 16 =
      character.toNat / 4096 % 16 by rw [UInt8.toNat_ofNat']; omega, code]
    exact character?_toNat character enough
  · simp only [isContinuation_ofNat, Bool.and_true, Bool.and_eq_true, decide_eq_true_eq,
      UInt8.le_iff_toNat_le, UInt8.lt_iff_toNat_lt, UInt8.toNat_ofNat', UInt8.reduceToNat]
    omega

theorem four?_encoded (enough : 0x10000 ≤ character.toNat) :
    four? (UInt8.ofNat (character.toNat / 262144 % 8 + 0xf0))
        (UInt8.ofNat (character.toNat / 4096 % 64 + 128))
        (UInt8.ofNat (character.toNat / 64 % 64 + 128))
        (UInt8.ofNat (character.toNat % 64 + 128)) = some character := by
  have below : character.toNat < 0x110000 := by
    rcases character.valid with small | large <;> simp only [Char.toNat] at * <;> omega
  have code : ((character.toNat / 262144 % 8 * 64 + character.toNat / 4096 % 64) * 64 +
      character.toNat / 64 % 64) * 64 + character.toNat % 64 = character.toNat := by omega
  rw [four?, if_pos, payload_ofNat, payload_ofNat, payload_ofNat]
  · rw [show (UInt8.ofNat (character.toNat / 262144 % 8 + 0xf0)).toNat % 8 =
      character.toNat / 262144 % 8 by rw [UInt8.toNat_ofNat']; omega, code]
    exact character?_toNat character enough
  · simp only [isContinuation_ofNat, Bool.and_true, Bool.and_eq_true, decide_eq_true_eq,
      UInt8.le_iff_toNat_le, UInt8.lt_iff_toNat_lt, UInt8.toNat_ofNat', UInt8.reduceToNat]
    omega

/-! ### The first character of some bytes -/

section
variable {first second third fourth : UInt8} {character : Char} {rest : List UInt8}

attribute [local simp] head

theorem head_one (small : first.toNat < 0x80) :
    head first rest = (Char.ofNat first.toNat, 0) := by
  simp [show first < 0x80 from UInt8.lt_iff_toNat_lt.mpr small]

theorem not_lt_of_lead (lead : 0x80 ≤ first.toNat) : ¬ first < 0x80 := by
  simpa [UInt8.lt_iff_toNat_lt] using lead

theorem head_two (lead : 0x80 ≤ first.toNat) (found : two? first second = some character) :
    head first (second :: rest) = (character, 1) := by
  simp [not_lt_of_lead lead, found]

theorem head_three (lead : 0xe0 ≤ first.toNat)
    (found : three? first second third = some character) :
    head first (second :: third :: rest) = (character, 2) := by
  simp [not_lt_of_lead (show 0x80 ≤ first.toNat by omega), two?_of_lead lead, found]

theorem head_four (lead : 0xf0 ≤ first.toNat)
    (found : four? first second third fourth = some character) :
    head first (second :: third :: fourth :: rest) = (character, 3) := by
  simp [not_lt_of_lead (show 0x80 ≤ first.toNat by omega),
    two?_of_lead (show 0xe0 ≤ first.toNat by omega), three?_of_lead lead, found]

end

/-! ### Texts -/

/-- How a character is written goes by the size of its code. -/
theorem utf8EncodeChar_eq (character : Char) :
    String.utf8EncodeChar character =
      if character.toNat ≤ 0x7f then [UInt8.ofNat character.toNat]
      else if character.toNat ≤ 0x7ff then
        [UInt8.ofNat (character.toNat / 64 % 32 + 0xc0), UInt8.ofNat (character.toNat % 64 + 128)]
      else if character.toNat ≤ 0xffff then
        [UInt8.ofNat (character.toNat / 4096 % 16 + 0xe0),
          UInt8.ofNat (character.toNat / 64 % 64 + 128), UInt8.ofNat (character.toNat % 64 + 128)]
      else
        [UInt8.ofNat (character.toNat / 262144 % 8 + 0xf0),
          UInt8.ofNat (character.toNat / 4096 % 64 + 128),
          UInt8.ofNat (character.toNat / 64 % 64 + 128),
          UInt8.ofNat (character.toNat % 64 + 128)] :=
  rfl

theorem toNat_lead (value bits least : Nat) (positive : 0 < bits) (room : bits + least ≤ 256) :
    (UInt8.ofNat (value % bits + least)).toNat = value % bits + least := by
  have below : value % bits < bits := Nat.mod_lt value positive
  exact UInt8.toNat_ofNat_of_lt' (show value % bits + least < 256 by omega)

theorem decodeFrom_cons (first : UInt8) (rest : List UInt8) :
    decodeFrom 0 (first :: rest) = (head first rest).1 :: decodeFrom (head first rest).2 rest :=
  rfl

/-- The reader takes the character at the front together with all of its bytes. -/
theorem decodeFrom_utf8EncodeChar (character : Char) (rest : List UInt8) :
    decodeFrom 0 (String.utf8EncodeChar character ++ rest) = character :: decodeFrom 0 rest := by
  rw [utf8EncodeChar_eq]
  by_cases one : character.toNat ≤ 0x7f
  · have code : (UInt8.ofNat character.toNat).toNat = character.toNat :=
      UInt8.toNat_ofNat_of_lt' (show character.toNat < 256 by omega)
    rw [if_pos one, List.singleton_append, decodeFrom_cons, head_one (by omega), code,
      Char.ofNat_toNat]
  rw [if_neg one]
  by_cases two : character.toNat ≤ 0x7ff
  · have lead := toNat_lead (character.toNat / 64) 32 0xc0 (by decide) (by decide)
    rw [if_pos two, List.cons_append, decodeFrom_cons, List.singleton_append,
      head_two (by omega) (two?_encoded (by omega) (by omega))]
    rfl
  rw [if_neg two]
  by_cases three : character.toNat ≤ 0xffff
  · have lead := toNat_lead (character.toNat / 4096) 16 0xe0 (by decide) (by decide)
    rw [if_pos three, List.cons_append, decodeFrom_cons, List.cons_append, List.singleton_append,
      head_three (by omega) (three?_encoded (by omega) (by omega))]
    rfl
  · have lead := toNat_lead (character.toNat / 262144) 8 0xf0 (by decide) (by decide)
    rw [if_neg three, List.cons_append, decodeFrom_cons, List.cons_append, List.cons_append,
      List.singleton_append, head_four (by omega) (four?_encoded (by omega))]
    rfl

theorem toList_loop (bytes : ByteArray) (index : Nat) (done : List UInt8) :
    ByteArray.toList.loop bytes index done = done.reverse ++ bytes.data.toList.drop index := by
  fun_induction ByteArray.toList.loop bytes index done with
  | case1 index done inside inductionHypothesis =>
    have within : index < bytes.data.toList.length := inside
    rw [inductionHypothesis, List.drop_eq_getElem_cons within]
    simp [ByteArray.get!, inside]
  | case2 index done outside =>
    rw [List.drop_eq_nil_of_le (by simpa using outside), List.append_nil]

theorem encode_eq (text : String) :
    encode text = text.toList.flatMap String.utf8EncodeChar := by
  rw [encode, String.toUTF8_eq_toByteArray, ByteArray.toList, toList_loop]
  conv => lhs; rw [← String.ofList_toList (s := text)]
  exact List.toList_data_toByteArray

theorem decode_encode (text : String) : decode (encode text) = text.toList := by
  rw [encode_eq, decode]
  induction text.toList with
  | nil => rfl
  | cons character rest inductionHypothesis =>
    rw [List.flatMap_cons, decodeFrom_utf8EncodeChar, inductionHypothesis]

@[simp]
theorem ofBytes_encode (text : String) : ofBytes (encode text) = text := by
  rw [ofBytes, decode_encode, String.ofList_toList]

end TreeCheck.Text.Utf8
