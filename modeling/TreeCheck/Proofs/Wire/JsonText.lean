/-
The reader of JSON text takes back what the writer wrote. Three things shape the proof.
A number does not say where it ends, so what follows a value has to begin with something
that cannot go on with it. The reader's fuel is counted in characters: a value needs at
most two units for each of its own. And the reader skips blanks before it looks at
anything, so the writer's line ends and indentation only have to be seen to be blank.
-/

import TreeCheck.Json.Reader
import TreeCheck.Json.Writer

namespace TreeCheck.Json

open Text

variable {front closing digits rest : List Char} {character : Char} {value : Json}
  {items : List Json} {fields : List (String × Json)} {name : String}

/-! ### What the writer writes -/

mutual

/-- How many brackets stand around the innermost part of a value. -/
def depth : Json → Nat
  | .array items => itemsDepth items + 1
  | .object fields => fieldsDepth fields + 1
  | _ => 0

def itemsDepth : List Json → Nat
  | [] => 0
  | item :: rest => max (depth item) (itemsDepth rest)

def fieldsDepth : List (String × Json) → Nat
  | [] => 0
  | (_, value) :: rest => max (depth value) (fieldsDepth rest)

end

mutual

/-- Every number is the literal of a whole one. -/
def Whole : Json → Prop
  | .number literal => ∃ value : Int, literal = toString value
  | .array items => ItemsWhole items
  | .object fields => FieldsWhole fields
  | _ => True

def ItemsWhole : List Json → Prop
  | [] => True
  | item :: rest => Whole item ∧ ItemsWhole rest

def FieldsWhole : List (String × Json) → Prop
  | [] => True
  | (_, value) :: rest => Whole value ∧ FieldsWhole rest

end

/-! ### Blanks -/

/-- Nothing but blanks. -/
def Blank (text : List Char) : Prop := ∀ character ∈ text, isBlank character = true

theorem skipBlanks_append (blank : Blank front) (text : List Char) :
    skipBlanks (front ++ text) = skipBlanks text :=
  List.dropWhile_append_of_pos blank

theorem skipBlanks_cons (ink : isBlank character = false) (text : List Char) :
    skipBlanks (character :: text) = character :: text :=
  List.dropWhile_cons_of_neg (by simp [ink])

/-- What is left behind blanks begins with ink. -/
theorem skipBlanks_idem (text : List Char) : skipBlanks (skipBlanks text) = skipBlanks text := by
  induction text with
  | nil => rfl
  | cons character rest inductionHypothesis =>
    cases blank : isBlank character with
    | true => simpa [skipBlanks, blank] using inductionHypothesis
    | false => rw [skipBlanks_cons blank, skipBlanks_cons blank]

/-- Each reader skips blanks first, so it sees none of those in front. -/
theorem readValue?_skipBlanks (fuel levels : Nat) (text : List Char) :
    readValue? fuel levels (skipBlanks text) = readValue? fuel levels text := by
  cases fuel with
  | zero => rfl
  | succ fuel => simp only [readValue?, skipBlanks_idem]

theorem readValue?_blank (blank : Blank front) (fuel levels : Nat) (text : List Char) :
    readValue? fuel levels (front ++ text) = readValue? fuel levels text := by
  rw [← readValue?_skipBlanks, skipBlanks_append blank, readValue?_skipBlanks]

theorem readItems?_skipBlanks (fuel levels : Nat) (text : List Char) :
    readItems? fuel levels (skipBlanks text) = readItems? fuel levels text := by
  cases fuel with
  | zero => rfl
  | succ fuel => simp only [readItems?, readValue?_skipBlanks]

theorem readItems?_blank (blank : Blank front) (fuel levels : Nat) (text : List Char) :
    readItems? fuel levels (front ++ text) = readItems? fuel levels text := by
  rw [← readItems?_skipBlanks, skipBlanks_append blank, readItems?_skipBlanks]

theorem readFields?_skipBlanks (fuel levels : Nat) (text : List Char) :
    readFields? fuel levels (skipBlanks text) = readFields? fuel levels text := by
  cases fuel with
  | zero => rfl
  | succ fuel => simp only [readFields?, skipBlanks_idem]

theorem readFields?_blank (blank : Blank front) (fuel levels : Nat) (text : List Char) :
    readFields? fuel levels (front ++ text) = readFields? fuel levels text := by
  rw [← readFields?_skipBlanks, skipBlanks_append blank, readFields?_skipBlanks]

/-! ### Numbers -/

/-- What follows a value cannot be taken for more of a number. -/
def Ends (rest : List Char) : Prop :=
  ∀ character ∈ rest.head?, character.isDigit = false ∧ character ≠ '.' ∧ character ≠ 'e' ∧
    character ≠ 'E'

theorem Ends.of_blank (blank : isBlank character = true) (rest : List Char) :
    Ends (character :: rest) := by
  simp only [isBlank, Bool.or_eq_true, decide_eq_true_eq] at blank
  rintro _ ⟨⟩
  rcases blank with ((rfl | rfl) | rfl) | rfl <;> decide

/-- Blanks before a mark end a number as the mark does. -/
theorem Ends.of_closing (blank : Blank closing) {mark : Char} (ends : Ends [mark])
    (rest : List Char) : Ends (closing ++ mark :: rest) := by
  cases closing with
  | nil => exact ends
  | cons character others => exact .of_blank (blank character (.head _)) _

/-- Digits are read up to what ends a number. -/
theorem spanDigits_append (all : ∀ digit ∈ digits, digit.isDigit = true) (ends : Ends rest) :
    spanDigits (digits ++ rest) = (digits, rest) := by
  have stops : rest.takeWhile Char.isDigit = [] ∧ rest.dropWhile Char.isDigit = rest := by
    cases rest with
    | nil => exact ⟨rfl, rfl⟩
    | cons character others => simp [(ends character rfl).1]
  rw [spanDigits, List.takeWhile_append_of_pos all, List.dropWhile_append_of_pos all, stops.1,
    stops.2, List.append_nil]

theorem readFraction?_of_ends (ends : Ends rest) : readFraction? rest = some ([], rest) := by
  unfold readFraction?
  split
  · exact absurd rfl (ends '.' rfl).2.1
  · rfl

theorem readExponent?_of_ends (ends : Ends rest) : readExponent? rest = some ([], rest) := by
  unfold readExponent?
  split
  · rename_i mark others
    obtain ⟨-, -, small, large⟩ := ends mark rfl
    rw [if_neg (by simp [small, large])]
  · rfl

/-- The decimal digits of a number begin with zero for zero alone. -/
theorem head?_toDigits {value : Nat} (positive : 0 < value) :
    (Nat.toDigits 10 value).head? ≠ some '0' := by
  induction value using Nat.strongRecOn with
  | ind value inductionHypothesis =>
    rw [Nat.toDigits_eq_if (by decide)]
    split
    · rename_i small
      have digit : ∀ digit < 10, 0 < digit → digit.digitChar ≠ '0' := by decide
      simpa using digit value small positive
    · have smaller := inductionHypothesis (value / 10) (by omega) (by omega)
      have some := List.head?_eq_some_head (Nat.toDigits_ne_nil (n := value / 10) (b := 10))
      rw [List.head?_append, some]
      rwa [some] at smaller

/-- The digits of a number have no zero in front, as the reader demands. -/
theorem readWhole?_toDigits (value : Nat) (ends : Ends rest) :
    readWhole? (Nat.toDigits 10 value ++ rest) = some (Nat.toDigits 10 value, rest) := by
  have digits : ∀ digit ∈ Nat.toDigits 10 value, digit.isDigit = true :=
    fun digit => Nat.isDigit_of_mem_toDigits (by decide) (by decide)
  rcases Nat.eq_zero_or_pos value with rfl | positive
  · rfl
  · have head := head?_toDigits positive
    obtain ⟨first, others, spelled⟩ := List.exists_cons_of_ne_nil
      (Nat.toDigits_ne_nil (n := value) (b := 10))
    rw [spelled] at head digits ⊢
    unfold readWhole?
    split
    · rename_i begins
      simp_all
    · rw [spanDigits_append digits ends]

/-- A digit is none of the marks by which other values are told. -/
theorem isDigit_ne {digit : Char} (isDigit : digit.isDigit = true) :
    digit ≠ '-' ∧ digit ≠ '\x7b' ∧ digit ≠ '[' ∧ digit ≠ '"' ∧ digit ≠ 't' ∧ digit ≠ 'f' ∧
      digit ≠ 'n' := by
  refine ⟨?_, ?_, ?_, ?_, ?_, ?_, ?_⟩ <;> (rintro rfl; revert isDigit; decide)

theorem toDigits_cons (value : Nat) :
    ∃ first others, Nat.toDigits 10 value = first :: others ∧ first.isDigit = true := by
  obtain ⟨first, others, spelled⟩ := List.exists_cons_of_ne_nil
    (Nat.toDigits_ne_nil (n := value) (b := 10))
  exact ⟨first, others, spelled, Nat.isDigit_of_mem_toDigits (by decide) (by decide)
    (spelled ▸ List.mem_cons_self)⟩

/-- A number is read without fraction and exponent where it ends. -/
theorem readNumber?_toDigits (value : Nat) (ends : Ends rest) :
    readNumber? (Nat.toDigits 10 value ++ rest) =
      some (String.ofList (Nat.toDigits 10 value), rest) := by
  obtain ⟨first, others, spelled, isDigit⟩ := toDigits_cons value
  unfold readNumber?
  split
  rename_i sign behind split
  have unsigned : sign = [] ∧ Nat.toDigits 10 value ++ rest = behind := by
    simpa [spelled, (isDigit_ne isDigit).1] using split
  obtain ⟨rfl, rfl⟩ := unsigned
  simp [readWhole?_toDigits value ends, readFraction?_of_ends ends, readExponent?_of_ends ends]

theorem readNumber?_minus (value : Nat) (ends : Ends rest) :
    readNumber? ('-' :: (Nat.toDigits 10 value ++ rest)) =
      some (String.ofList ('-' :: Nat.toDigits 10 value), rest) := by
  simp [readNumber?, readWhole?_toDigits value ends, readFraction?_of_ends ends,
    readExponent?_of_ends ends]

/-- The literal of a whole number: its digits, with a sign in front if it is negative. -/
theorem toString_cases (value : Int) :
    (∃ size, toString value = String.ofList (Nat.toDigits 10 size) ∧ value = (size : Int)) ∨
      ∃ size, toString value = String.ofList ('-' :: Nat.toDigits 10 size) ∧
        value = -(size : Int) := by
  cases value with
  | ofNat size => exact .inl ⟨size, rfl, rfl⟩
  | negSucc size =>
    refine .inr ⟨size + 1, ?_, Int.negSucc_eq size⟩
    rw [String.ofList_cons]
    rfl

/-- The literal of a whole number is read to its end. -/
theorem readNumber?_toString (value : Int) (ends : Ends rest) :
    readNumber? ((toString value).toList ++ rest) = some (toString value, rest) := by
  obtain ⟨size, literal, -⟩ | ⟨size, literal, -⟩ := toString_cases value
  · rw [literal, String.toList_ofList, readNumber?_toDigits size ends]
  · rw [literal, String.toList_ofList, List.cons_append, readNumber?_minus size ends]

/-- Adding digits up from the left gives the number they write. -/
theorem foldl_digits (digits : List Char) (all : ∀ digit ∈ digits, digit.isDigit = true)
    (start : Nat) :
    digits.foldl (fun (value : Int) digit => value * 10 + (digit.toNat - '0'.toNat)) start =
      (Nat.ofDigitChars 10 digits start : Nat) := by
  induction digits generalizing start with
  | nil => simp
  | cons digit rest inductionHypothesis =>
    have least : '0'.toNat ≤ digit.toNat := by
      have bounds := all digit (.head _)
      simp only [Char.isDigit, Bool.and_eq_true, decide_eq_true_eq] at bounds
      exact UInt32.le_iff_toNat_le.mp bounds.1
    rw [List.foldl_cons, Nat.ofDigitChars_cons,
      ← inductionHypothesis fun other member => all other (.tail _ member)]
    congr 1
    omega

theorem digitsValue_toDigits (size : Nat) :
    int?.digitsValue (Nat.toDigits 10 size) = some (size : Int) := by
  have all : ∀ digit ∈ Nat.toDigits 10 size, digit.isDigit = true :=
    fun digit => Nat.isDigit_of_mem_toDigits (by decide) (by decide)
  have value := foldl_digits _ all 0
  rw [Nat.ofDigitChars_ten_toDigits] at value
  rw [int?.digitsValue.eq_2 _ (Nat.toDigits_ne_nil (n := size) (b := 10)), ← value]
  rfl

/-- The literal of a whole number stands for that number. -/
theorem int?_toString (value : Int) : int? (toString value) = some value := by
  have all (size : Nat) : (Nat.toDigits 10 size).all Char.isDigit = true :=
    List.all_eq_true.mpr fun digit => Nat.isDigit_of_mem_toDigits (by decide) (by decide)
  obtain ⟨size, literal, rfl⟩ | ⟨size, literal, rfl⟩ := toString_cases value
  · obtain ⟨first, others, spelled, isDigit⟩ := toDigits_cons size
    rw [literal]
    unfold int?
    rw [String.toList_ofList]
    split
    · rename_i digits begins
      rw [spelled] at begins
      exact absurd (List.cons.inj begins).1 (isDigit_ne isDigit).1
    · rw [if_pos (all size), digitsValue_toDigits]
  · rw [literal, int?, String.toList_ofList]
    simp only [all size, if_true, digitsValue_toDigits, Option.map_some]

/-! ### Texts -/

theorem readUnit?_append {unit : Nat} (read : readUnit? digits = some (unit, []))
    (rest : List Char) :
    readUnit? (digits ++ rest) = some (unit, rest) := by
  unfold readUnit? at read
  split at read
  · simp only [List.cons_append, readUnit?]
    simp only [Option.bind_eq_bind, Option.bind_eq_some_iff, Option.pure_def, Option.some.injEq,
      Prod.mk.injEq] at read ⊢
    obtain ⟨first, one, second, two, third, three, fourth, four, value, rfl⟩ := read
    exact ⟨first, one, second, two, third, three, fourth, four, value, rfl⟩
  · simp at read

/-- The codes that are written with four hexadecimal digits. -/
def hexCodes : List Nat := List.range 32 ++ [0x26, 0x3c, 0x3e, 0x2028, 0x2029]

/-- A control character is written as four digits, and these are read as its code. -/
theorem readUnit?_padded {code : Nat} (coded : code ∈ hexCodes) (rest : List Char) :
    readUnit? ((Text.Hex.padded 4 code).toList ++ rest) = some (code, rest) := by
  have all : ∀ code ∈ hexCodes, readUnit? (Text.Hex.padded 4 code).toList = some (code, []) := by
    decide
  exact readUnit?_append (all code coded) rest

/-- Behind a backslash an escape is read as one character. -/
theorem readCharacters?_backslash {text : List Char}
    (escape : readEscape? text = some (character, rest)) (fuel : Nat) :
    readCharacters? (fuel + 1) ('\\' :: text) =
      (readCharacters? fuel rest).map fun (tail, rest) => (character :: tail, rest) := by
  rw [readCharacters?, if_neg (by decide), if_pos rfl, escape]
  change (readCharacters? fuel rest).bind _ = _
  cases readCharacters? fuel rest <;> rfl

/-- A character that needs no escape stands for itself. -/
theorem readCharacters?_plain (noQuote : character ≠ '"') (noBackslash : character ≠ '\\')
    (noControl : 0x20 ≤ character.toNat) (fuel : Nat) (rest : List Char) :
    readCharacters? (fuel + 1) (character :: rest) =
      (readCharacters? fuel rest).map fun (tail, rest) => (character :: tail, rest) := by
  rw [readCharacters?, if_neg noQuote, if_neg noBackslash, if_neg (by omega)]
  cases readCharacters? fuel rest <;> rfl

theorem readEscape?_hex (coded : character.toNat ∈ hexCodes) (rest : List Char) :
    readEscape? ('u' :: ((Text.Hex.padded 4 character.toNat).toList ++ rest)) =
      some (character, rest) := by
  have noHalf : ∀ code ∈ hexCodes, isHighSurrogate code = false ∧ isLowSurrogate code = false := by
    decide
  obtain ⟨high, low⟩ := noHalf _ coded
  simp [readEscape?, readUnit?_padded coded, characterOfUnit, high, low]

/-- The reader takes an escaped character as one. -/
theorem readCharacters?_escaped (character : Char) (fuel : Nat) (rest : List Char) :
    readCharacters? (fuel + 1) ((escaped character).toList ++ rest) =
      (readCharacters? fuel rest).map fun (tail, rest) => (character :: tail, rest) := by
  have ofCode {code : Nat} (coded : character.toNat = code) : character = Char.ofNat code := by
    rw [← coded, Char.ofNat_toNat]
  unfold escaped
  dsimp only
  split
  · subst_vars
    exact readCharacters?_backslash rfl fuel
  split
  · subst_vars
    exact readCharacters?_backslash rfl fuel
  split
  · rename_i backspace
    rw [ofCode backspace]
    exact readCharacters?_backslash rfl fuel
  split
  · rename_i formFeed
    rw [ofCode formFeed]
    exact readCharacters?_backslash rfl fuel
  split
  · subst_vars
    exact readCharacters?_backslash rfl fuel
  split
  · subst_vars
    exact readCharacters?_backslash rfl fuel
  split
  · subst_vars
    exact readCharacters?_backslash rfl fuel
  split
  · rename_i coded
    have listed : character.toNat ∈ hexCodes := by
      simp only [hexCodes, List.mem_append, List.mem_range, List.mem_cons, List.not_mem_nil]
      rcases coded with small | rfl | rfl | rfl | line | paragraph
      · exact .inl small
      all_goals right
      · decide
      · decide
      · decide
      · simp [line]
      · simp [paragraph]
    have spelled : "\\u".toList = ['\\', 'u'] := rfl
    rw [String.toList_append, spelled, List.append_assoc, List.cons_append, List.cons_append,
      List.nil_append]
    exact readCharacters?_backslash (readEscape?_hex listed rest) fuel
  · rename_i noQuote noBackslash _ _ _ _ _ uncoded
    rw [String.toList_singleton]
    exact readCharacters?_plain noQuote noBackslash (by omega) fuel rest

/-- Escaped characters are read one by one up to the quote. -/
theorem readCharacters?_join (characters rest : List Char) {fuel : Nat}
    (enough : characters.length < fuel) :
    readCharacters? fuel ((String.join (characters.map escaped)).toList ++ '"' :: rest) =
      some (characters, rest) := by
  induction characters generalizing fuel with
  | nil =>
    obtain ⟨fuel, rfl⟩ := Nat.exists_eq_succ_of_ne_zero (Nat.ne_of_gt enough)
    rfl
  | cons character others inductionHypothesis =>
    rw [List.length_cons] at enough
    obtain ⟨fuel, rfl⟩ := Nat.exists_eq_succ_of_ne_zero (show fuel ≠ 0 by omega)
    rw [List.map_cons, String.join_cons, String.toList_append, List.append_assoc,
      readCharacters?_escaped, inductionHypothesis (by omega)]
    rfl

/-- No character is escaped by nothing: without fuel the reader would find it. -/
theorem length_escaped (character : Char) : 0 < (escaped character).toList.length := by
  have read := readCharacters?_escaped character 1 ['"']
  cases spelled : (escaped character).toList with
  | nil => simp [spelled, readCharacters?] at read
  | cons first others => exact Nat.succ_pos _

/-- Escaping makes no text shorter, so the length of the text is fuel enough. -/
theorem length_join (characters : List Char) :
    characters.length ≤ (String.join (characters.map escaped)).toList.length := by
  induction characters with
  | nil => exact Nat.zero_le _
  | cons character others inductionHypothesis =>
    have positive := length_escaped character
    rw [List.map_cons, String.join_cons, String.toList_append, List.length_append,
      List.length_cons]
    omega

/-- A quoted text is read to its closing quote. -/
theorem readString?_quoted (text : String) (rest : List Char) :
    ∃ tail, (quoted text).toList ++ rest = '"' :: tail ∧ readString? tail = some (text, rest) := by
  refine ⟨(String.join (text.toList.map escaped)).toList ++ '"' :: rest, ?_, ?_⟩
  · simp [quoted]
  · have enough := length_join text.toList
    rw [readString?, readCharacters?_join _ _ (by rw [List.length_append]; omega), Option.map_some]
    simp only [String.ofList_toList]

/-! ### Arrays and objects -/

section
variable {fuel levels : Nat} {text rest behind : List Char}

/-- Where an item can be read, the array is not taken for an empty one. -/
theorem readValue?_array (read : readItems? fuel levels text = some (items, rest)) :
    readValue? (fuel + 1) (levels + 1) ('[' :: text) = some (.array items, rest) := by
  -- Where a closing bracket stands no item could have been read.
  have open? : ∀ others, skipBlanks text ≠ ']' :: others := by
    intro others closes
    rw [← readItems?_skipBlanks, closes] at read
    rcases fuel with - | - | fuel <;> cases read
  simp only [readValue?, skipBlanks_cons (show isBlank '[' = false from rfl)]
  rw [readItems?_skipBlanks, read]
  rfl

theorem readValue?_object (read : readFields? fuel levels text = some (fields, rest)) :
    readValue? (fuel + 1) (levels + 1) ('\x7b' :: text) = some (.object fields, rest) := by
  have open? : ∀ others, skipBlanks text ≠ '\x7d' :: others := by
    intro others closes
    rw [← readFields?_skipBlanks, closes] at read
    rcases fuel with - | fuel <;> cases read
  simp only [readValue?, skipBlanks_cons (show isBlank '\x7b' = false from rfl)]
  rw [readFields?_skipBlanks, read]
  rfl

/-- Behind the last item the bracket closes the array. -/
theorem readItems?_last {item : Json} {closing : List Char} (blank : Blank closing)
    (read : readValue? fuel levels text = some (item, closing ++ ']' :: rest)) :
    readItems? (fuel + 1) levels text = some ([item], rest) := by
  rw [readItems?, read]
  simp [skipBlanks_append blank, skipBlanks_cons (show isBlank ']' = false from rfl)]

/-- Behind a comma the next item is read. -/
theorem readItems?_more {item : Json}
    (first : readValue? fuel levels text = some (item, ',' :: behind))
    (others : readItems? fuel levels behind = some (items, rest)) :
    readItems? (fuel + 1) levels text = some (item :: items, rest) := by
  rw [readItems?, first]
  simp [skipBlanks_cons (show isBlank ',' = false from rfl), others]

/-- Behind the last field the brace closes the object. -/
theorem readFields?_last (blank : Blank closing)
    (read : readValue? fuel levels text = some (value, closing ++ '\x7d' :: rest)) :
    readFields? (fuel + 1) levels ((quoted name).toList ++ ':' :: text) =
      some ([(name, value)], rest) := by
  obtain ⟨tail, spelled, key⟩ := readString?_quoted name (':' :: text)
  rw [spelled, readFields?, skipBlanks_cons (show isBlank '"' = false from rfl)]
  simp [key, read, skipBlanks_append blank, skipBlanks_cons (show isBlank ':' = false from rfl),
    skipBlanks_cons (show isBlank '\x7d' = false from rfl)]

theorem readFields?_more (first : readValue? fuel levels text = some (value, ',' :: behind))
    (others : readFields? fuel levels behind = some (fields, rest)) :
    readFields? (fuel + 1) levels ((quoted name).toList ++ ':' :: text) =
      some ((name, value) :: fields, rest) := by
  obtain ⟨tail, spelled, key⟩ := readString?_quoted name (':' :: text)
  rw [spelled, readFields?, skipBlanks_cons (show isBlank '"' = false from rfl)]
  simp [key, first, others, skipBlanks_cons (show isBlank ':' = false from rfl),
    skipBlanks_cons (show isBlank ',' = false from rfl)]

end

/-! ### Values -/

/-- What begins with a digit or a minus is read as a number. -/
theorem readValue?_number {first : Char} (begins : first = '-' ∨ first.isDigit = true)
    (fuel levels : Nat) (text : List Char) :
    readValue? (fuel + 1) levels (first :: text) =
      (readNumber? (first :: text)).map fun (literal, rest) => (.number literal, rest) := by
  have others : isBlank first = false ∧ first ≠ '\x7b' ∧ first ≠ '[' ∧ first ≠ '"' ∧ first ≠ 't' ∧
      first ≠ 'f' ∧ first ≠ 'n' := by
    rcases begins with rfl | isDigit
    · decide
    · refine ⟨?_, (isDigit_ne isDigit).2⟩
      cases blank : isBlank first with
      | false => rfl
      | true => exact absurd ((Ends.of_blank blank []) first rfl).1 (by simp [isDigit])
  obtain ⟨ink, brace, bracket, quote, t, f, n⟩ := others
  rw [readValue?, skipBlanks_cons ink]
  split <;> first | rfl | exact absurd (List.cons.inj ‹_›).1 ‹_›

/-- A negative number is told from the others by its sign. -/
theorem readValue?_toString (value : Int) (ends : Ends rest) (fuel levels : Nat) :
    readValue? (fuel + 1) levels ((toString value).toList ++ rest) =
      some (.number (toString value), rest) := by
  have read := readNumber?_toString value ends
  have begins : ∃ first others, (toString value).toList = first :: others ∧
      (first = '-' ∨ first.isDigit = true) := by
    obtain ⟨size, literal, -⟩ | ⟨size, literal, -⟩ := toString_cases value
    · obtain ⟨first, others, spelled, isDigit⟩ := toDigits_cons size
      exact ⟨first, others, by rw [literal, String.toList_ofList, spelled], .inr isDigit⟩
    · exact ⟨'-', _, by rw [literal, String.toList_ofList], .inl rfl⟩
  obtain ⟨first, others, spelled, begins⟩ := begins
  rw [spelled, List.cons_append] at read ⊢
  rw [readValue?_number begins, read]
  rfl

theorem blank_repeated (count : Nat) : Blank (repeated "  " count).toList := by
  induction count with
  | zero => simp [repeated, Blank]
  | succ count inductionHypothesis =>
    intro character member
    rw [repeated, String.toList_append, List.mem_append] at member
    rcases member with space | further
    · exact List.all_eq_true.mp (by decide : "  ".toList.all isBlank = true) character space
    · exact inductionHypothesis character further

/-- The line end and the indentation in front of a part. -/
def lineStart (level : Nat) : String := "\n" ++ repeated "  " level

/-- A new line with its indentation is nothing but blanks. -/
theorem blank_lineStart (level : Nat) : Blank (lineStart level).toList := by
  intro character member
  rw [lineStart, String.toList_append, List.mem_append] at member
  rcases member with lineEnd | space
  · exact List.all_eq_true.mp (by decide : "\n".toList.all isBlank = true) character lineEnd
  · exact blank_repeated level character space

section
variable {opening closing : String} {first last : Char}

/-- Enclosed parts are a mark, the first part on a line of its own, and the rest. -/
theorem enclosed_cons (opens : opening.toList = [first]) (closes : closing.toList = [last])
    (level : Nat) (part : String) (parts : List String) (rest : List Char) :
    (enclosed opening closing level (part :: parts)).toList ++ rest =
      first :: ((lineStart (level + 1)).toList ++
        ((join ("," ++ lineStart (level + 1)) (part :: parts)).toList ++
          ((lineStart level).toList ++ last :: rest))) := by
  simp [enclosed, lineStart, opens, closes]

/-- What is enclosed is longer than its parts, by which fuel is counted. -/
theorem length_enclosed (opens : opening.toList = [first]) (closes : closing.toList = [last])
    (level : Nat) (part : String) (parts : List String) :
    (join ("," ++ lineStart (level + 1)) (part :: parts)).toList.length + 2 ≤
      (enclosed opening closing level (part :: parts)).toList.length := by
  have spelled := congrArg List.length (enclosed_cons opens closes level part parts [])
  simp only [List.length_append, List.length_cons, List.length_nil] at spelled
  omega

end

theorem readValue?_space (fuel levels : Nat) (text : List Char) :
    readValue? fuel levels (' ' :: text) = readValue? fuel levels text := by
  have space : Blank [' '] := by simp [Blank, isBlank]
  exact readValue?_blank space fuel levels text

theorem join_cons_cons (separator first second : String) (parts : List String) :
    join separator (first :: second :: parts) =
      first ++ separator ++ join separator (second :: parts) :=
  rfl

mutual

/-- The indented text of a value is read as that value, by twice as many units of fuel as it has
characters and one. -/
theorem readValue?_indented : (value : Json) → value.Whole → ∀ {fuel levels : Nat} (level : Nat)
    {rest : List Char}, value.depth ≤ levels → 2 * (indented level value).toList.length ≤ fuel →
    Ends rest →
    readValue? (fuel + 1) levels ((indented level value).toList ++ rest) = some (value, rest)
  | .null, _, fuel, levels, level, rest, _, _, _ => by
    simp [indented, readValue?, skipBlanks, isBlank, afterWord?]
  | .bool value, _, fuel, levels, level, rest, _, _, _ => by
    cases value <;> simp [indented, readValue?, skipBlanks, isBlank, afterWord?]
  | .number literal, ⟨value, literal_eq⟩, fuel, levels, level, rest, _, _, ends => by
    rw [literal_eq]
    exact readValue?_toString value ends fuel levels
  | .text value, _, fuel, levels, level, rest, _, _, _ => by
    obtain ⟨tail, spelled, read⟩ := readString?_quoted value rest
    rw [indented, spelled, readValue?, skipBlanks_cons (show isBlank '"' = false from rfl)]
    simp only [read, Option.map_some]
  | .array [], _, fuel, levels, level, rest, shallow, enough, _ => by
    obtain ⟨levels, rfl⟩ := Nat.exists_eq_add_of_lt shallow
    simp [indented, indentedItems, enclosed, readValue?, skipBlanks, isBlank]
  | .array (item :: items), whole, fuel, levels, level, rest, shallow, enough, _ => by
    have opens : "[".toList = ['['] := rfl
    have closes : "]".toList = [']'] := rfl
    rw [depth] at shallow
    rw [indented, indentedItems] at enough ⊢
    have length := length_enclosed opens closes level (indented (level + 1) item)
      (indentedItems (level + 1) items)
    obtain ⟨levels, rfl⟩ : ∃ fewer, levels = fewer + 1 := ⟨levels - 1, by omega⟩
    obtain ⟨fuel, rfl⟩ : ∃ less, fuel = less + 2 := ⟨fuel - 2, by omega⟩
    rw [enclosed_cons opens closes]
    refine readValue?_array ?_
    rw [readItems?_blank (blank_lineStart (level + 1)), ← indentedItems]
    refine readItems?_indented (item :: items) (List.cons_ne_nil _ _) whole (level + 1)
      (blank_lineStart (level + 1)) (blank_lineStart level) (Nat.le_of_succ_le_succ shallow) ?_
    rw [indentedItems]
    omega
  | .object [], _, fuel, levels, level, rest, shallow, enough, _ => by
    obtain ⟨levels, rfl⟩ := Nat.exists_eq_add_of_lt shallow
    simp [indented, indentedFields, enclosed, readValue?, skipBlanks, isBlank]
  | .object (field :: fields), whole, fuel, levels, level, rest, shallow, enough, _ => by
    have opens : "\x7b".toList = ['\x7b'] := rfl
    have closes : "\x7d".toList = ['\x7d'] := rfl
    rw [depth] at shallow
    rw [indented, indentedFields] at enough ⊢
    have length := length_enclosed opens closes level
      (quoted field.1 ++ ": " ++ indented (level + 1) field.2) (indentedFields (level + 1) fields)
    obtain ⟨levels, rfl⟩ : ∃ fewer, levels = fewer + 1 := ⟨levels - 1, by omega⟩
    obtain ⟨fuel, rfl⟩ : ∃ less, fuel = less + 2 := ⟨fuel - 2, by omega⟩
    rw [enclosed_cons opens closes]
    refine readValue?_object ?_
    rw [readFields?_blank (blank_lineStart (level + 1)), ← indentedFields]
    refine readFields?_indented (field :: fields) (List.cons_ne_nil _ _) whole (level + 1)
      (blank_lineStart (level + 1)) (blank_lineStart level) (Nat.le_of_succ_le_succ shallow) ?_
    rw [indentedFields]
    omega

theorem readItems?_indented : (items : List Json) → items ≠ [] → ItemsWhole items →
    ∀ {fuel levels : Nat} (level : Nat) {inner : String} {closing rest : List Char},
    Blank inner.toList → Blank closing → itemsDepth items ≤ levels →
    2 * (join ("," ++ inner) (indentedItems level items)).toList.length ≤ fuel →
    readItems? (fuel + 2) levels ((join ("," ++ inner) (indentedItems level items)).toList ++
      (closing ++ ']' :: rest)) = some (items, rest)
  | [], given, _, _, _, _, _, _, _, _, _, _, _ => absurd rfl given
  | [item], _, whole, fuel, levels, level, inner, closing, rest, blank, blankEnd, shallow,
    enough => by
    have here : item.depth ≤ levels := Nat.le_trans (Nat.le_max_left _ _) shallow
    simp only [indentedItems, join] at enough ⊢
    exact readItems?_last blankEnd (readValue?_indented item whole.1 level here (by omega)
      (.of_closing blankEnd (by simp [Ends]) rest))
  | item :: next :: items, _, whole, fuel, levels, level, inner, closing, rest, blank, blankEnd,
    shallow, enough => by
    rw [indentedItems, indentedItems, join_cons_cons, ← indentedItems] at enough ⊢
    have comma : ",".toList = [','] := rfl
    have here : item.depth ≤ levels := Nat.le_trans (Nat.le_max_left _ _) shallow
    simp only [String.toList_append, List.length_append, List.append_assoc, comma,
      List.length_cons, List.cons_append, List.nil_append] at enough ⊢
    obtain ⟨fuel, rfl⟩ : ∃ less, fuel = less + 1 := ⟨fuel - 1, by omega⟩
    refine readItems?_more (readValue?_indented item whole.1 level here (by omega)
      (by simp [Ends])) ?_
    rw [readItems?_blank blank]
    exact readItems?_indented (next :: items) (List.cons_ne_nil _ _) whole.2 level blank blankEnd
      (Nat.le_trans (Nat.le_max_right _ _) shallow) (by omega)

theorem readFields?_indented : (fields : List (String × Json)) → fields ≠ [] →
    FieldsWhole fields →
    ∀ {fuel levels : Nat} (level : Nat) {inner : String} {closing rest : List Char},
    Blank inner.toList → Blank closing → fieldsDepth fields ≤ levels →
    2 * (join ("," ++ inner) (indentedFields level fields)).toList.length ≤ fuel →
    readFields? (fuel + 2) levels
      ((join ("," ++ inner) (indentedFields level fields)).toList ++
        (closing ++ '\x7d' :: rest)) = some (fields, rest)
  | [], given, _, _, _, _, _, _, _, _, _, _, _ => absurd rfl given
  | (name, value) :: fields, _, whole, fuel, levels, level, inner, closing, rest, blank, blankEnd,
    shallow, enough => by
    have colon : ": ".toList = [':', ' '] := rfl
    have comma : ",".toList = [','] := rfl
    have here : value.depth ≤ levels := Nat.le_trans (Nat.le_max_left _ _) shallow
    have behind : fieldsDepth fields ≤ levels := Nat.le_trans (Nat.le_max_right _ _) shallow
    cases fields with
    | nil =>
      simp only [indentedFields, join, String.toList_append, List.length_append, colon,
        List.append_assoc, List.length_cons, List.cons_append, List.nil_append] at enough ⊢
      exact readFields?_last blankEnd ((readValue?_space _ _ _).trans (readValue?_indented value
        whole.1 level here (by omega) (.of_closing blankEnd (by simp [Ends]) rest)))
    | cons next fields =>
      obtain ⟨nextName, nextValue⟩ := next
      rw [indentedFields, indentedFields, join_cons_cons, ← indentedFields] at enough ⊢
      simp only [String.toList_append, List.length_append, List.append_assoc, comma, colon,
        List.length_cons, List.cons_append, List.nil_append] at enough ⊢
      obtain ⟨fuel, rfl⟩ : ∃ less, fuel = less + 1 := ⟨fuel - 1, by omega⟩
      refine readFields?_more ((readValue?_space _ _ _).trans (readValue?_indented value whole.1
        level here (by omega) (by simp [Ends]))) ?_
      rw [readFields?_blank blank]
      exact readFields?_indented ((nextName, nextValue) :: fields) (List.cons_ne_nil _ _) whole.2
        level blank blankEnd behind (by omega)

end

/-- The text of a document is read to its line end. -/
theorem read?_document (whole : value.Whole) (shallow : value.depth ≤ nestingLimit) :
    read? (document value).toList = some (value, ['\n']) := by
  rw [document, String.toList_append, read?]
  refine readValue?_indented value whole 0 shallow ?_ (by simp [Ends])
  rw [List.length_append]
  omega

end TreeCheck.Json
