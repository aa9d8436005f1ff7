/-
How types are shown, and the codes by which signatures tell them apart. A label is what
diagnostics show; it is cut short beyond eight levels of nesting. A signature code is
not cut; it names a class without its template arguments.
-/

import TreeCheck.Types.Table

namespace TreeCheck.TypeTable

/-- How deep a label shows the parts of a type. -/
def labelDepth : Nat := 8

/-- The label of a type that may nest so many levels more. -/
def labelWithin (table : TypeTable) : Nat → TypeId → String
  | 0, _ => "..."
  | levels + 1, id =>
    match table.form? id with
    | none => "?"
    | some form =>
      match form with
      | .invalid => "?"
      | .void => "Void"
      | .int => "Int"
      | .char => "Char"
      | .bool => "Bool"
      | .string => "String"
      | .text => "Text"
      | .real => "Real"
      | .enum slot => ((table.enums.get? slot).map EnumInfo.name).getD ""
      | .param slot => ((table.params.get? slot).map ParamInfo.name).getD ""
      | .classType slot =>
        let info := (table.classes.get? slot).getD {}
        if info.args.isEmpty then info.name
        else info.name ++ "<" ++ Text.join ", " (info.args.map (table.labelWithin levels)) ++ ">"
      | .list elem dims =>
        Text.repeated "[" dims.toNat ++ table.labelWithin levels elem ++
          Text.repeated "]" dims.toNat
      | .array elem dims => table.labelWithin levels elem ++ Text.repeated "[]" dims.toNat
      | .tuple _ => "(" ++ Text.join ", " ((table.elems id).map (table.labelWithin levels)) ++ ")"
      | .multi _ => Text.join " | " ((table.elems id).map (table.labelWithin levels))

def label (table : TypeTable) (id : TypeId) : String := table.labelWithin (labelDepth + 1) id

/-- The code of a type that nests at most so many levels. -/
def signatureWithin (table : TypeTable) : Nat → TypeId → String
  | 0, _ => "?"
  | levels + 1, id =>
    match table.form? id with
    | none => "?"
    | some form =>
      let code := String.singleton form.kind.code
      match form with
      | .enum _ | .param _ => code ++ "<" ++ table.label id ++ ">"
      | .classType slot => code ++ "<" ++ ((table.classes.get? slot).map ClassInfo.name).getD "" ++ ">"
      | .list elem dims | .array elem dims =>
        code ++ toString dims.toNat ++ "<" ++ table.signatureWithin levels elem ++ ">"
      | .tuple _ =>
        code ++ "<" ++ Text.join "," ((table.elems id).map (table.signatureWithin levels)) ++ ">"
      | .multi _ =>
        code ++ "<" ++ Text.join "|" ((table.elems id).map (table.signatureWithin levels)) ++ ">"
      | _ => code

/-- The code of a type. The parts of a type are older than the type, so no type nests deeper
than there are types. -/
def signature (table : TypeTable) (id : TypeId) : String :=
  table.signatureWithin (table.size + 1) id

/-- Types are equal when neither their codes nor their labels tell them apart. -/
def equal (table : TypeTable) (first second : TypeId) : Bool :=
  if first = second then true
  else
    match table.form? first, table.form? second with
    | some firstForm, some secondForm =>
      firstForm.kind = secondForm.kind && table.signature first = table.signature second &&
        table.label first = table.label second
    | _, _ => false

end TreeCheck.TypeTable
