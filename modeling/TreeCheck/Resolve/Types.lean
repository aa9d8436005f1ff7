/-
Resolution of written types: every name in a type has to mean a primitive type, or a
class, an enum or a template parameter that is in view. The codes of a signature are
made here too, since they are made of written types.
-/

import TreeCheck.Analysis.State
import TreeCheck.Text.EditDistance

namespace TreeCheck

/-- A written type with its number. -/
def Tree.typeAt? (tree : Tree) (id : Option TypeExprId) : Option (TypeExprId × TypeExpr) :=
  id.bind fun id => (tree.types.get? id).map fun written => (id, written)

/-- Declarations that may be meant by a name in a type. -/
def DeclKind.isTypeName : DeclKind → Bool
  | .classDecl | .enum | .templateParam => true
  | _ => false

namespace Resolve

open AnalysisM

/-- How many edits a suggested name may be away. -/
def suggestionBound : Int := 2

/-- A diagnostic with the nearest candidate as a hint, if one is near. -/
def suggesting (name : String) (candidates : List String) (diagnostic : Diagnostic) :
    Diagnostic :=
  match Text.closest? name candidates suggestionBound with
  | some best => diagnostic.withHint .didYouMean [best]
  | none => diagnostic

/-! ### References -/

/-- The primitive types, and the names in view that may stand in a type. -/
def typeNames (tree : Tree) : AnalysisM (List String) := do
  let table ← scopes
  let isType (name : String) : Bool :=
    match table.meaning? (.ofName name) with
    | some id => ((tree.kindOf? id).map DeclKind.isTypeName).getD false
    | none => false
  return ["Int", "Char", "Bool", "String", "Text", "Real", "Void"] ++
    (← visibleNames).filter isType

/-- Records what a name in a type refers to. A primitive type refers to no declaration. -/
def referTo (tree : Tree) (id : TypeExprId) (span : Span) (missing : Code) (name : String) :
    AnalysisM (Option DeclId) := do
  if (TypeKind.ofBuiltin? name).isSome then return none
  match ← find? (.ofName name) with
  | some decl =>
    if ((tree.kindOf? decl).map DeclKind.isTypeName).getD false then
      modifyNames fun names => { names with typeRefs := names.typeRefs.insert id decl }
      return some decl
    else complain
  | none => complain
where
  complain : AnalysisM (Option DeclId) := do
    report (suggesting name (← typeNames tree) (.error missing span [name]))
    return none

/-- Resolves the names inside a type; a type with a name of its own gives what the name refers
to. `missing` is what an unknown name of its own is reported as. -/
def typeWithin (tree : Tree) : Nat → Code → Option TypeExprId → AnalysisM (Option DeclId)
  | 0, _, _ => return none
  | fuel + 1, missing, id => do
    match tree.typeAt? id with
    | none => return none
    | some (id, written) =>
      match written.form with
      | .named name args =>
        args.forM fun arg => discard (typeWithin tree fuel .undeclaredType arg)
        referTo tree id written.span missing (tree.text name)
      | .list base _ | .array base _ =>
        discard (typeWithin tree fuel .undeclaredType (some base))
        return none
      | .tuple members | .union members =>
        members.forM fun member => discard (typeWithin tree fuel .undeclaredType member)
        return none

/-- Resolves a type. The parts of a type have smaller numbers, so none nests deeper than there
are types. -/
def type (tree : Tree) (id : Option TypeExprId) : AnalysisM (Option DeclId) :=
  typeWithin tree (tree.types.size + 1) .undeclaredType id

/-- Resolves a type that has to be a class. -/
def classType (tree : Tree) (id : TypeExprId) : AnalysisM Unit := do
  match ← typeWithin tree (tree.types.size + 1) .undeclaredClass (some id) with
  | none => return
  | some decl =>
    if tree.kindOf? decl ≠ some .classDecl then
      let span := ((tree.types.get? id).map TypeExpr.span).getD {}
      error .undeclaredClass span [tree.nameOf decl]

/-! ### Signatures -/

/-- A letter with something in angle brackets. -/
def bracketed (kind : TypeKind) (inside : String) : String :=
  String.singleton kind.code ++ "<" ++ inside ++ ">"

/-- The code of a name in a signature, where `meaning?` says what it means. Template parameters
of the callable itself are not bound when its signature is made, and are known by name. -/
def nameCode (tree : Tree) (meaning? : Key → Option DeclId) (own : List String) (name : String) :
    String :=
  match TypeKind.ofBuiltin? name with
  | some kind => String.singleton kind.code
  | none =>
    if name ∈ own then bracketed .param name
    else
      match (meaning? (.ofName name)).bind tree.kindOf? with
      | some .classDecl => bracketed .classType name
      | some .enum => bracketed .enum name
      | some .templateParam => bracketed .param name
      | _ => bracketed .invalid name

def typeCodeWithin (tree : Tree) (meaning? : Key → Option DeclId) (own : List String) :
    Nat → Option TypeExprId → String
  | 0, _ => "?"
  | fuel + 1, id =>
    match tree.typeAt? id with
    | none => "?"
    | some (_, written) =>
      match written.form with
      | .named name _ => nameCode tree meaning? own (tree.text name)
      | .list base dims =>
        String.singleton TypeKind.list.code ++ toString dims.toNat ++ "<" ++
          typeCodeWithin tree meaning? own fuel (some base) ++ ">"
      | .array base dims =>
        String.singleton TypeKind.array.code ++ toString dims.toNat ++ "<" ++
          typeCodeWithin tree meaning? own fuel (some base) ++ ">"
      | .tuple members =>
        bracketed .tuple (Text.join "," (members.map (typeCodeWithin tree meaning? own fuel)))
      | .union members =>
        bracketed .multi (Text.join "|" (members.map (typeCodeWithin tree meaning? own fuel)))

/-- The code of a written type in a signature. -/
def typeCode (tree : Tree) (meaning? : Key → Option DeclId) (own : List String)
    (id : Option TypeExprId) : String :=
  typeCodeWithin tree meaning? own (tree.types.size + 1) id

/-- The key of a callable, where `meaning?` says what the names in its signature mean. -/
def signatureKey (tree : Tree) (meaning? : Key → Option DeclId) (name : String)
    (callable : Callable) : Key :=
  let own := callable.typeParams.map tree.nameOf
  .ofSignature name
    (callable.params.map fun param =>
      typeCode tree meaning? own ((tree.decls.get? param).bind Decl.type))

end Resolve

end TreeCheck
