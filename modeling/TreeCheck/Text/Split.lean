/-
Cutting blanks off a text; cutting a text at a separator, and putting the parts together
again.
-/

namespace TreeCheck.Text

/-- Spaces of all widths, tabs and line ends. -/
def isBlank (character : Char) : Bool :=
  let code := character.toNat
  (0x9 ≤ code && code ≤ 0xd) || code = 0x20 || code = 0x85 || code = 0xa0 || code = 0x1680 ||
    (0x2000 ≤ code && code ≤ 0x200a) || code = 0x2028 || code = 0x2029 || code = 0x202f ||
    code = 0x205f || code = 0x3000

def trimList (text : List Char) : List Char :=
  ((text.dropWhile isBlank).reverse.dropWhile isBlank).reverse

/-- The text without the blanks at its ends. -/
def trim (text : String) : String := String.ofList (trimList text.toList)

end TreeCheck.Text

namespace TreeCheck.Text

/-- The parts between the occurrences of a separator; there is always at least one. -/
def splitList {α : Type} [DecidableEq α] (separator : α) : List α → List (List α)
  | [] => [[]]
  | item :: rest =>
    if item = separator then [] :: splitList separator rest
    else
      match splitList separator rest with
      | [] => [[item]]
      | part :: parts => (item :: part) :: parts

def splitOn (separator : Char) (text : String) : List String :=
  (splitList separator text.toList).map String.ofList

def join (separator : String) : List String → String
  | [] => ""
  | [part] => part
  | part :: rest => part ++ separator ++ join separator rest

/-- The text repeated. -/
def repeated (text : String) : Nat → String
  | 0 => ""
  | count + 1 => text ++ repeated text count

theorem splitList_ne_nil {α : Type} [DecidableEq α] (separator : α) (items : List α) :
    splitList separator items ≠ [] := by
  induction items with
  | nil => simp [splitList]
  | cons item rest inductionHypothesis =>
    unfold splitList
    split
    · simp
    · split <;> simp

end TreeCheck.Text
