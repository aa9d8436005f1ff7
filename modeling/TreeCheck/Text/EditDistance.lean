/-
The edit distance of Levenshtein between two sequences, row by row: inserting and deleting an
item cost one, and the price of replacing one is given, which is two between names. And the
closest of several candidates: names that were misspelt are suggested by it.
-/

namespace TreeCheck.Text

/-- The next row of the distance table, behind its first entry: `left` is the entry just
written, `diagonal` the entry above it, `above` the rest of the row above. -/
def distanceRow {α : Type} [DecidableEq α] (price : Nat) (item : α) (left diagonal : Nat) :
    List α → List Nat → List Nat
  | other :: others, up :: above =>
    let change := if item = other then diagonal else diagonal + price
    let entry := min change (min (left + 1) (up + 1))
    entry :: distanceRow price item entry up others above
  | _, _ => []

/-- The last row of the distance table, one row for each item of the source. -/
def distanceRows {α : Type} [DecidableEq α] (price : Nat) (target : List α) :
    List α → List Nat → List Nat
  | [], row => row
  | item :: rest, first :: above =>
    distanceRows price target rest
      ((first + 1) :: distanceRow price item (first + 1) first target above)
  | _ :: _, [] => []

/-- The least cost of edits from one sequence to the other. -/
def distance {α : Type} [DecidableEq α] (price : Nat) (source target : List α) : Nat :=
  let row := distanceRows price target source (List.range (target.length + 1))
  row.getLast?.getD 0

/-- The distance of names: a replaced character counts as deleted and inserted. -/
def editDistance (source target : String) : Nat := distance 2 source.toList target.toList

/-- The better of the nearest candidate so far and one more. Before there is one, a candidate
has to be within `bound` edits. -/
def nearer (name : String) (bound : Int) (best : Option (String × Nat)) (candidate : String) :
    Option (String × Nat) :=
  if candidate = name ∨ candidate = "" then best
  else
    let distance := editDistance name candidate
    let near := match best with
      | some (_, least) => decide (distance < least)
      | none => decide ((distance : Int) ≤ bound)
    if near then some (candidate, distance) else best

/-- The candidate nearest to a name within `bound` edits; of several as near, the first. The
name itself and the empty text are no candidates. -/
def closest? (name : String) (candidates : List String) (bound : Int) : Option String :=
  (candidates.foldl (nearer name bound) none).map Prod.fst

end TreeCheck.Text
