/-
Text as bytes and back. Reading never fails: a byte that belongs to no well-formed
character is read as the replacement character.
-/

namespace TreeCheck.Text.Utf8

def replacement : Char := Char.ofNat 0xfffd

def isContinuation (byte : UInt8) : Bool := 0x80 ≤ byte && byte < 0xc0

/-- The low six bits of a continuation byte. -/
def payload (byte : UInt8) : Nat := byte.toNat % 64

/-- The character of a code, if the code is one that needs at least the length it was written
with and is no surrogate. -/
def character? (least code : Nat) : Option Char :=
  if least ≤ code ∧ code.isValidChar then some (Char.ofNat code) else none

def two? (first second : UInt8) : Option Char :=
  if 0xc0 ≤ first && first < 0xe0 && isContinuation second then
    character? 0x80 (first.toNat % 32 * 64 + payload second)
  else none

def three? (first second third : UInt8) : Option Char :=
  if 0xe0 ≤ first && first < 0xf0 && isContinuation second && isContinuation third then
    character? 0x800 ((first.toNat % 16 * 64 + payload second) * 64 + payload third)
  else none

def four? (first second third fourth : UInt8) : Option Char :=
  if 0xf0 ≤ first && first < 0xf8 && isContinuation second && isContinuation third &&
      isContinuation fourth then
    character? 0x10000
      (((first.toNat % 8 * 64 + payload second) * 64 + payload third) * 64 + payload fourth)
  else none

/-- The character at the front, and how many bytes behind its first one belong to it. -/
def head (first : UInt8) (rest : List UInt8) : Char × Nat :=
  if first < 0x80 then (Char.ofNat first.toNat, 0)
  else
    match rest with
    | second :: rest =>
      match two? first second with
      | some character => (character, 1)
      | none =>
        match rest with
        | third :: rest =>
          match three? first second third with
          | some character => (character, 2)
          | none =>
            match rest with
            | fourth :: _ =>
              match four? first second third fourth with
              | some character => (character, 3)
              | none => (replacement, 0)
            | [] => (replacement, 0)
        | [] => (replacement, 0)
    | [] => (replacement, 0)

/-- Decodes behind `skipped` bytes that belong to the character before. -/
def decodeFrom (skipped : Nat) : List UInt8 → List Char
  | [] => []
  | first :: rest =>
    match skipped with
    | more + 1 => decodeFrom more rest
    | 0 =>
      let (character, extra) := head first rest
      character :: decodeFrom extra rest

def decode (bytes : List UInt8) : List Char := decodeFrom 0 bytes

def encode (text : String) : List UInt8 := text.toUTF8.toList

def ofBytes (bytes : List UInt8) : String := String.ofList (decode bytes)

/-- The text of well-formed bytes, and nothing for others. -/
def ofBytes? (bytes : List UInt8) : Option String := String.fromUTF8? ⟨bytes.toArray⟩

end TreeCheck.Text.Utf8
