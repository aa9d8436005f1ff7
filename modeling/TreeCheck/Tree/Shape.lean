/-
The shape a built unit has: every declaration at the top level is of the kind its place
implies, members and parameters point back at what they belong to, and spans lie in the
file of the unit. The check reports every violation it finds.
-/

import TreeCheck.Tree.Nodes

namespace TreeCheck

/-- A way in which a unit is out of shape. -/
inductive ShapeFault where
  | noUnit (unit : UnitId)
  | noDecl (decl : DeclId)
  | kind (decl : DeclId) (found wanted : DeclKind)
  | owner (decl : DeclId) (name : String) (found wanted : Option DeclId)
  | emptySpan (decl : DeclId) (name : String)
  | file (decl : DeclId) (name : String) (found wanted : FileId)
  deriving DecidableEq, Repr

namespace ShapeFault

def message : ShapeFault → String
  | .noUnit unit => s!"unit {unit} not found"
  | .noDecl decl => s!"nil decl for id={decl}"
  | .kind decl found wanted => s!"decl {decl}: kind {found.name}, want {wanted.name}"
  | .owner decl name found wanted =>
    s!"decl {decl} ({name}): owner {found.getD 0}, want {wanted.getD 0}"
  | .emptySpan decl name => s!"decl {decl} ({name}): empty span"
  | .file decl name found wanted => s!"decl {decl} ({name}): span file {found}, unit file {wanted}"

end ShapeFault

namespace Tree

/-- The faults of one declaration. -/
def declFaults (tree : Tree) (file : FileId) (wanted : DeclKind) (owner : Option DeclId)
    (id : DeclId) : List ShapeFault :=
  match tree.decls.get? id with
  | none => [.noDecl id]
  | some decl =>
    let name := tree.text decl.name
    (if decl.kind ≠ wanted then [.kind id decl.kind wanted] else []) ++
    (if decl.owner ≠ owner then [.owner id name decl.owner owner] else []) ++
    (if decl.span.isEmpty then [.emptySpan id name]
      else if decl.span.file ≠ file then [.file id name decl.span.file file]
      else [])

/-- The faults of a callable, its parameters and its template parameters. -/
def callableFaults (tree : Tree) (file : FileId) (wanted : DeclKind) (owner : Option DeclId)
    (id : DeclId) : List ShapeFault :=
  tree.declFaults file wanted owner id ++
    match tree.callable? id with
    | none => []
    | some callable =>
      callable.params.flatMap (tree.declFaults file .param (some id)) ++
        callable.typeParams.flatMap (tree.declFaults file .templateParam (some id))

def enumFaults (tree : Tree) (file : FileId) (id : DeclId) : List ShapeFault :=
  tree.declFaults file .enum none id ++
    match (tree.decls.get? id).bind Decl.consts? with
    | none => []
    | some consts => consts.flatMap (tree.declFaults file .enumConst (some id))

def classFaults (tree : Tree) (file : FileId) (id : DeclId) : List ShapeFault :=
  tree.declFaults file .classDecl none id ++
    match tree.classBody? id with
    | none => []
    | some body =>
      body.fields.flatMap (tree.declFaults file .field (some id)) ++
        body.methods.flatMap (tree.callableFaults file .method (some id)) ++
        body.typeParams.flatMap (tree.declFaults file .templateParam (some id))

/-- Everything about a unit that is out of shape. -/
def shapeFaults (tree : Tree) (id : UnitId) : List ShapeFault :=
  match tree.units.get? id with
  | none => [.noUnit id]
  | some unit =>
    unit.imports.flatMap (tree.declFaults unit.file .importDecl none) ++
      unit.enums.flatMap (tree.enumFaults unit.file) ++
      unit.globals.flatMap (tree.declFaults unit.file .global none) ++
      unit.classes.flatMap (tree.classFaults unit.file) ++
      unit.functions.flatMap (tree.callableFaults unit.file .function none) ++
      unit.main.toList.flatMap (tree.callableFaults unit.file .function none)

end Tree

end TreeCheck
