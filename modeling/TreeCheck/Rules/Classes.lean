/-
The rules on classes: a base is neither final nor a template, a final method is not
overridden, a method without a body stands in an abstract class, and a class that is not
abstract implements every abstract method it inherits.
-/

import TreeCheck.Analysis.State

namespace TreeCheck

namespace Rules

open AnalysisM

def modsOf (tree : Tree) (id : DeclId) : Modifiers :=
  ((tree.decls.get? id).map Decl.mods).getD .none

/-- Whether a callable has a body. -/
def hasBody (tree : Tree) (id : DeclId) : Bool :=
  ((tree.callable? id).bind Callable.body).isSome

/-! ### Obligations -/

/-- The signatures that were left without a body, in order of first mention, and whether they
still are. -/
abbrev Obligations := List (Key × Bool)

/-- Says of a signature that is listed whether it is without a body. -/
def Obligations.settle (key : Key) (isOpen : Bool) (obligations : Obligations) : Obligations :=
  obligations.map fun (other, state) => if other = key then (other, isOpen) else (other, state)

/-- A method with a body discharges its signature; one without a body, in an abstract class,
opens it. -/
def oblige (tree : Tree) (names : Resolution) (isAbstract : Bool) (obligations : Obligations)
    (method : DeclId) : Obligations :=
  match names.keys[method]? with
  | none => obligations
  | some key =>
    if hasBody tree method then obligations.settle key false
    else if isAbstract then
      if obligations.any (·.1 = key) then obligations.settle key true
      else obligations ++ [(key, true)]
    else obligations

/-- The names of the abstract methods that a class does not implement, walking from its
outermost base down to the class. -/
def unimplemented (tree : Tree) (names : Resolution) (id : DeclId) : List String :=
  let chain := (names.ancestors id).reverse ++ [id]
  let obligations := chain.foldl
    (fun obligations level =>
      let methods := ((tree.classBody? level).map ClassBody.methods).getD []
      methods.foldl (oblige tree names ((modsOf tree level).has .isAbstract)) obligations)
    []
  (obligations.filter Prod.snd).map fun (key, _) => key.name

/-! ### Checks -/

def checkBase (tree : Tree) (id : DeclId) (decl : Decl) (base : DeclId) : AnalysisM Unit := do
  match tree.decls.get? base with
  | none => return
  | some baseDecl =>
    let name := tree.nameOf id
    let baseName := tree.nameOf base
    if baseDecl.mods.has .isFinal then
      report <| ((Diagnostic.error .finalBase decl.span [baseName, name]).withHint .removeFinal
        [baseName]).withNote baseDecl.span "declared final here"
    if !baseDecl.typeParams.isEmpty then
      error .templatedBase decl.span [baseName, name]

/-- Records what a method overrides, which must not be final. -/
def checkOverride (tree : Tree) (owner method : DeclId) (decl : Decl) : AnalysisM Unit := do
  match (← get).names.overridden? method owner with
  | none => return
  | some inherited =>
    modifyTyping fun typing => { typing with overrides := typing.overrides.insert method inherited }
    match tree.decls.get? inherited with
    | none => return
    | some inheritedDecl =>
      if inheritedDecl.mods.has .isFinal then
        let inheritedOwner := (inheritedDecl.owner.map tree.nameOf).getD ""
        report <| (Diagnostic.error .finalOverride decl.span
          [tree.nameOf method, inheritedOwner]).withNote inheritedDecl.span
            "final method declared here"

def checkMethod (tree : Tree) (owner : DeclId) (isAbstract : Bool) (method : DeclId) :
    AnalysisM Unit := do
  match tree.decls.get? method with
  | none => return
  | some decl =>
    checkOverride tree owner method decl
    if !hasBody tree method ∧ !isAbstract then
      error .bodilessConcrete decl.span [tree.nameOf method, tree.nameOf owner]

/-- Checks the header of a class and its methods. -/
def checkClass (tree : Tree) (id : DeclId) : AnalysisM Unit := do
  match tree.decls.get? id, tree.classBody? id with
  | some decl, some body =>
    let isAbstract := decl.mods.has .isAbstract
    (← get).names.bases[id]?.forM (checkBase tree id decl)
    body.methods.forM (checkMethod tree id isAbstract)
    if !isAbstract then
      match unimplemented tree (← get).names id with
      | [] => return
      | missing =>
        let names := Text.join ", " missing
        let name := tree.nameOf id
        report <| (Diagnostic.error .abstractIncomplete decl.span [name, names]).withHint
          .implement [names, name]
  | _, _ => return

end Rules

end TreeCheck
