/-
When a value may be stored where another type is expected, when a cast is legal, and
when a type may be passed for a template parameter. An unknown type is compatible with
everything, so that one failed look-up does not lead to more complaints.
-/

import TreeCheck.Types.Hierarchy
import TreeCheck.Types.Label

namespace TreeCheck.TypeM

/-- Whether a type, or one that looks the same, is among the bases of another. -/
def isAncestor (ancestor id : TypeId) : TypeM Bool := do
  let chain ← ancestors id
  let table ← get
  return chain.any fun base => base = ancestor || table.equal base ancestor

/-- How deep compatibility looks into types; deeper down everything is compatible. -/
def compatibilityDepth : Nat := 16

def compatibleWithin : Nat → TypeId → TypeId → TypeM Bool
  | 0, _, _ => pure true
  | levels + 1, left, right => do
    if left = 0 ∨ right = 0 then return true
    let table ← get
    if table.equal left right then return true
    match (table.form? left).getD .invalid, (table.form? right).getD .invalid with
    | .multi _, _ =>
      (table.elems left).anyM fun candidate => compatibleWithin levels candidate right
    | _, .multi _ =>
      (table.elems right).anyM fun candidate => compatibleWithin levels left candidate
    | .classType _, .classType _ =>
      if ← isAncestor left right then return true
      isAncestor right left
    | .list leftElem leftDims, .list rightElem rightDims
    | .array leftElem leftDims, .array rightElem rightDims =>
      if leftDims.toNat + 1 < rightDims.toNat ∨ rightDims.toNat + 1 < leftDims.toNat then
        return false
      compatibleWithin levels leftElem rightElem
    | .tuple _, .tuple _ =>
      let leftElems := table.elems left
      let rightElems := table.elems right
      if leftElems.length ≠ rightElems.length then return false
      (leftElems.zip rightElems).allM fun (leftElem, rightElem) =>
        compatibleWithin levels leftElem rightElem
    | _, _ => return false

/-- Whether a value of the type `right` may be stored in a place of the type `left`. -/
def compatible (left right : TypeId) : TypeM Bool :=
  compatibleWithin (compatibilityDepth + 1) left right

end TypeM

namespace TypeTable

/-- Whether an explicit cast is legal: to the same type, between integers and reals or
characters, and from an enum to integers. -/
def castable (table : TypeTable) (target source : TypeId) : Bool :=
  if target = 0 ∨ source = 0 then true
  else if table.equal target source then true
  else
    match table.kindOf target, table.kindOf source with
    | .real, .int | .int, .real | .char, .int | .int, .char | .int, .enum => true
    | _, _ => false

/-- Whether a type may be passed for a template parameter with a constraint. A template
parameter satisfies the constraint it carries itself. -/
def satisfies (table : TypeTable) (constraint : Constraint) (id : TypeId) : Bool :=
  if id = 0 then true
  else
    match table.paramInfo? id with
    | some info => constraint = .any || info.constraint = constraint
    | none =>
      let kind := table.kindOf id
      match constraint with
      | .any => true
      | .discrete => kind.isDiscrete
      | .scalar => kind.isScalar
      | .isClass => kind = .classType

end TypeTable

end TreeCheck
