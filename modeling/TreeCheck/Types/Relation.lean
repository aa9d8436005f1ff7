/-
The relations between types, by name. Each can be asked of two types, or of all pairs among
some types at once.
-/

import TreeCheck.Types.Operators

namespace TreeCheck

inductive TypeRelation where
  | equal | compatible | castable | ancestor
  | operands (op : BinaryOp)
  deriving DecidableEq, Repr

namespace TypeRelation

def ofName? : String → Option TypeRelation
  | "equal" => some .equal
  | "compat" => some .compatible
  | "cast" => some .castable
  | "isanc" => some .ancestor
  | op => (BinaryOp.ofText? op).map .operands

/-- Whether the relation holds between two types. -/
def holds (relation : TypeRelation) (left right : TypeId) : TypeM Bool := do
  match relation with
  | .equal => return (← get).equal left right
  | .compatible => TypeM.compatible left right
  | .castable => return (← get).castable left right
  | .ancestor => TypeM.isAncestor left right
  | .operands op => return (← TypeM.binaryType? op left right).isSome

/-- Whether the relation of a name holds; a name that stands for none never does. -/
def named (name : String) (left right : TypeId) : TypeM Bool :=
  match ofName? name with
  | some relation => relation.holds left right
  | none => pure false

/-- For each type, to which of all of them it stands in a relation: `1` where it does. -/
def matrix (name : String) (types : List TypeId) : TypeM (List String) :=
  types.mapM fun left => do
    let flags ← types.mapM (named name left)
    return String.ofList (flags.map fun flag => if flag then '1' else '0')

end TypeRelation

end TreeCheck
