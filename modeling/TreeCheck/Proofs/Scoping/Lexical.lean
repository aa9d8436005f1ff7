/-
Lexical scoping, without a table of scopes. Names are looked up in an environment, which
is a stack of frames, and a walk through a program passes its environment on. A frame
holds what was accepted so far, in order: the first declaration of a key in a frame wins,
and a local name that would hide certain others is not accepted. Whatever is walked in a
frame of its own leaves the environment around it as it was.

A walk gives the environment it ends in and, for every name it comes by, what becomes of
the name: it refers to a declaration, or it means nothing, or it stands in the initial
value of the variable it names.
-/

import TreeCheck.Proofs.Imports.Attaching
import TreeCheck.Proofs.Tree.Visit
import TreeCheck.Resolve.Stmts

namespace TreeCheck.Lexical

/-- What a unit, class, callable, block or loop declares, in the order of acceptance. -/
abbrev Frame := List (Key × DeclId)

/-- The frames in which a name is looked up, innermost first. The frames of the imported units
come last. -/
abbrev Env := List Frame

/-- What becomes of a name. -/
inductive Outcome where
  | refersTo (decl : DeclId)
  | unknown
  /-- The name stands in the initial value of the variable it names. -/
  | ownInitial
  deriving DecidableEq

/-- A name that a walk came by, with the name of the variable whose initial value it stands in
and what it means in the environment. -/
structure Entry where
  expr : ExprId
  declaring : Option NameId
  meaning : Option DeclId

/-- A name in the initial value of a variable of that name comes to nothing, whatever it
means. -/
def Entry.outcome (tree : Tree) (entry : Entry) : Outcome :=
  if entry.declaring = some (tree.nameAt entry.expr) then .ownInitial
  else
    match entry.meaning with
    | some decl => .refersTo decl
    | none => .unknown

/-! ### Environments -/

namespace Env

/-- A key means what it means in the innermost frame that holds it. -/
def find? (env : Env) (key : Key) : Option DeclId := env.findSome? (·.lookup key)

/-- Adds a declaration to the innermost frame, unless its key is taken there. -/
def declare (env : Env) (key : Key) (decl : DeclId) : Env :=
  match env with
  | [] => []
  | frame :: outer =>
    if (frame.lookup key).isSome then frame :: outer else (frame ++ [(key, decl)]) :: outer

/-- A name means a class, enum, global or constant, or a function of that name is in view. -/
def holdsHideable (tree : Tree) (env : Env) (name : String) : Bool :=
  ((env.find? (.ofName name)).bind tree.kindOf?).any DeclKind.isHideable ||
    env.flatten.any fun (key, _) => key.isSignature && key.name == name &&
      (env.find? key).bind tree.kindOf? == some .function

def declareVariable (tree : Tree) (id : DeclId) (decl : Decl) (env : Env) : Env :=
  if decl.kind.mayHide && env.holdsHideable tree (tree.text decl.name) then env
  else env.declare (.ofName (tree.text decl.name)) id

def declareName (tree : Tree) (id : DeclId) (env : Env) : Env :=
  env.declare (.ofName (tree.nameOf id)) id

/-- Adds a callable under its signature. -/
def declareSignature (tree : Tree) (id : DeclId) (env : Env) : Env :=
  match tree.callable? id with
  | none => env
  | some callable => env.declare (Resolve.signatureKey tree env.find? (tree.nameOf id) callable) id

/-- What becomes of the names in an expression. -/
def entries (tree : Tree) (env : Env) (declaring : Option NameId) (id : ExprId) : List Entry :=
  (tree.visit declaring (.expr id)).map fun (expr, declaring) =>
    ⟨expr, declaring, env.find? (.ofName (tree.text (tree.nameAt expr)))⟩

end Env

/-! ### Walks -/

/-- A walk goes from one environment to another and collects what becomes of names. -/
abbrev Walk := Env → Env × List Entry

namespace Walk

def skip : Walk := fun env => (env, [])

def andThen (first second : Walk) : Walk := fun env =>
  ((second (first env).1).1, (first env).2 ++ (second (first env).1).2)

def each {α : Type} (items : List α) (walk : α → Walk) : Walk :=
  items.foldr (fun item rest => (walk item).andThen rest) skip

/-- Changes the environment. -/
def change (step : Env → Env) : Walk := fun env => (step env, [])

/-- A walk in a frame of its own. -/
def nested (inner : Walk) : Walk := fun env => (env, (inner ([] :: env)).2)

/-- Looks up the names in an expression. -/
def names (tree : Tree) (declaring : Option NameId) (id : ExprId) : Walk := fun env =>
  (env, env.entries tree declaring id)

end Walk

open Walk

/-! ### Variables and statements -/

/-- The names in the initial value of a variable are looked up before it is declared. -/
def declared (tree : Tree) (id : DeclId) : Walk :=
  match tree.decls.get? id with
  | none => skip
  | some decl =>
    (each decl.init.toList (names tree (some decl.name))).andThen
      (change (Env.declareVariable tree id decl))

/-- A branch, loop or arm has a frame of its own, which is that of the block if it is one. -/
def inOwnFrame (tree : Tree) (walk : StmtId → Walk) (id : StmtId) : Walk :=
  match (tree.stmts.get? id).map Stmt.form with
  | none => skip
  | some (.block _) => walk id
  | some _ => nested (walk id)

def stmtWithin (tree : Tree) : Nat → StmtId → Walk
  | 0, _ => skip
  | fuel + 1, id =>
    let inner := stmtWithin tree fuel
    match (tree.stmts.get? id).map Stmt.form with
    | none => skip
    | some (.block stmts) => nested (each stmts.reduceOption inner)
    | some (.decl id) => declared tree id
    | some (.expr value) => names tree none value
    | some (.assign target value) => (names tree none target).andThen (names tree none value)
    | some (.branch cond thenBranch elseBranch) =>
      (names tree none cond).andThen <| (inOwnFrame tree inner thenBranch).andThen <|
        each elseBranch.toList (inOwnFrame tree inner)
    | some (.whileLoop cond body) => (names tree none cond).andThen (inOwnFrame tree inner body)
    | some (.forLoop counter first last body) =>
      (names tree none first).andThen <| (names tree none last).andThen <|
        nested ((declared tree counter).andThen (inOwnFrame tree inner body))
    | some (.case subject arms default) =>
      (names tree none subject).andThen <|
        (each arms fun arm =>
          (each arm.values (names tree none)).andThen (inOwnFrame tree inner arm.body)).andThen <|
        each default.toList (inOwnFrame tree inner)
    | some (.ret value) => each value.toList (names tree none)

def stmt (tree : Tree) (id : StmtId) : Walk := stmtWithin tree (tree.stmts.size + 1) id

/-! ### Callables and classes -/

/-- Template parameters are declared under their names. -/
def templateParams (tree : Tree) (params : List DeclId) : Walk :=
  each params fun param => change (Env.declareName tree param)

/-- The template parameters, the parameters and the statements of a callable share a frame. -/
def callableBody (tree : Tree) (id : DeclId) : Walk :=
  match tree.callable? id with
  | none => skip
  | some callable =>
    nested <|
      (templateParams tree callable.typeParams).andThen <|
      (each callable.params (declared tree)).andThen <|
      each callable.body.toList fun body =>
        each (Resolve.bodyStmts tree body).reduceOption (stmt tree)

/-- The class, enum or template parameter that a written type names. -/
def typeName? (tree : Tree) (env : Env) (id : TypeExprId) : Option DeclId :=
  match (tree.types.get? id).map TypeExpr.form with
  | some (.named name _) =>
    if (TypeKind.ofBuiltin? (tree.text name)).isSome then none
    else
      (env.find? (.ofName (tree.text name))).filter fun decl =>
        (tree.kindOf? decl).any DeclKind.isTypeName
  | _ => none

/-- The frames of the classes walked so far, and the classes found to inherit from
themselves. -/
structure Classes where
  frames : List (DeclId × Frame) := []
  cyclic : List DeclId := []

/-- The classes with the frame of one more. -/
def Classes.add (classes : Classes) (id : DeclId) (frame : Frame) : Classes :=
  { classes with frames := (id, frame) :: classes.frames }

theorem Classes.lookup_add (classes : Classes) (id other : DeclId) (frame : Frame) :
    (classes.add id frame).frames.lookup other =
      if other = id then some frame else classes.frames.lookup other := by
  by_cases same : other = id
  · subst same
    simp [Classes.add]
  · have different : (other == id) = false := by simpa using same
    simp [Classes.add, List.lookup_cons, same, different]

/-- The fields of a class, its own and inherited ones. -/
def Classes.fields (classes : Classes) (tree : Tree) (id : DeclId) : Frame :=
  ((classes.frames.lookup id).getD []).filter fun (_, decl) => tree.kindOf? decl = some .field

/-- Takes over the fields of the base of a class. A class that inherits from itself has none. -/
def inherit (tree : Tree) (classes : Classes) (id : DeclId) (base : TypeExprId) (env : Env) :
    Env :=
  match (typeName? tree env base).filter fun found => tree.kindOf? found = some .classDecl with
  | none => env
  | some found =>
    if id ∈ classes.cyclic then env
    else (classes.fields tree found).foldl (fun env (key, field) => env.declare key field) env

/-- What a class declares itself, and the bodies of its methods. -/
def members (tree : Tree) (body : ClassBody) : Walk :=
  (each body.fields (declared tree)).andThen <|
  (each body.methods fun method => change (Env.declareSignature tree method)).andThen <|
  each body.methods (callableBody tree)

/-- The frame of a class starts with its template parameters and the fields of its base. -/
def classBody (tree : Tree) (classes : Classes) (id : DeclId) : Walk :=
  match tree.classBody? id with
  | none => skip
  | some body =>
    (templateParams tree body.typeParams).andThen <|
    (each body.base.toList fun base => change (inherit tree classes id base)).andThen <|
    members tree body

/-! ### The order of classes -/

/-- What the base of a class is written as means outside of the class. -/
def baseCandidate? (tree : Tree) (env : Env) (id : DeclId) : Option DeclId :=
  match (((tree.classBody? id).bind ClassBody.base).bind tree.types.get?).map TypeExpr.form with
  | some (.named name _) => env.find? (.ofName (tree.text name))
  | _ => none

/-- Classes in the order in which they will be walked, those that were come by, and those that
were met again before they had a place. -/
structure Order where
  met : List DeclId := []
  placed : List DeclId := []
  cyclic : List DeclId := []

/-- Places the base of a class, if it belongs to the same unit, and then the class. -/
def placeWithin (tree : Tree) (env : Env) (classes : List DeclId) : Nat → Order → DeclId → Order
  | 0, order, _ => order
  | fuel + 1, order, id =>
    if id ∈ order.placed then order
    else if id ∈ order.met then { order with cyclic := order.cyclic.insert id }
    else
      let order := { order with met := id :: order.met }
      let order := match (baseCandidate? tree env id).filter (· ∈ classes) with
        | some base => placeWithin tree env classes fuel order base
        | none => order
      { order with placed := order.placed ++ [id] }

/-- The classes of a unit, bases first. -/
def classOrder (tree : Tree) (env : Env) (classes cyclic : List DeclId) : Order :=
  classes.foldl (placeWithin tree env classes (classes.length + 1)) { cyclic }

/-! ### Units -/

/-- What is declared in the frame of a unit before classes are walked. -/
def declarations (tree : Tree) (unit : ProgramUnit) : Walk :=
  (each unit.enums fun enum =>
    (change (Env.declareName tree enum)).andThen <|
      each (((tree.decls.get? enum).bind Decl.consts?).getD []) (declared tree)).andThen <|
  (each unit.classes fun id => change (Env.declareName tree id)).andThen <|
  (each (unit.functions ++ unit.main.toList) fun id =>
    change (Env.declareSignature tree id)).andThen <|
  each unit.globals (declared tree)

/-- What is walked after the classes. -/
def bodies (tree : Tree) (unit : ProgramUnit) : Walk :=
  (each (unit.functions ++ unit.main.toList) (callableBody tree)).andThen <|
  each unit.stmts (stmt tree)

/-- What a walk through a program has found: the finished units with their frames, the units
that wait for an import, the imports in the order in which they were done, the next unit on
the import chain of each unit, the classes, and what became of names. -/
structure World where
  finished : List (UnitId × Frame) := []
  waiting : List UnitId := []
  imports : List (UnitId × UnitId) := []
  links : UnitId → Option UnitId := fun _ => none
  classes : Classes := {}
  entries : List Entry := []

namespace World

/-- The frame of a finished unit; that of any other unit is empty. -/
def frameOf (world : World) (id : UnitId) : Frame := (world.finished.lookup id).getD []

/-- The environment at the top level of a unit: its frame, and the frames on its import chain. -/
def globalEnv (tree : Tree) (world : World) (id : UnitId) : Env :=
  [] :: (chain world.links tree.units.size id).map world.frameOf

/-- Puts a unit at the end of the import chain of another one. -/
def attach (tree : Tree) (world : World) (id target : UnitId) : World :=
  { world with
    imports := world.imports ++ [(id, target)]
    links := attachLink tree.units.size world.links (id, target) }

/-- Walks a class in a frame of its own, which is kept. -/
def walkClass (tree : Tree) (env : Env) (world : World) (id : DeclId) : World :=
  let walked := classBody tree world.classes id ([] :: env)
  { world with
    classes := world.classes.add id (walked.1.headD []), entries := world.entries ++ walked.2 }

/-- Walks the classes of a unit, bases first. -/
def walkClasses (tree : Tree) (env : Env) (unit : ProgramUnit) (world : World) : World :=
  let order := classOrder tree env unit.classes world.classes.cyclic
  let world := { world with classes := { world.classes with cyclic := order.cyclic } }
  order.placed.foldl (walkClass tree env) world

/-- Runs a walk at the top level of a unit. -/
def walk (world : World) (walk : Walk) (env : Env) : Env × World :=
  ((walk env).1, { world with entries := world.entries ++ (walk env).2 })

/-- Walks through a unit whose imports are done. -/
def contents (tree : Tree) (id : UnitId) (unit : ProgramUnit) (world : World) : World :=
  let (env, world) := world.walk (declarations tree unit) (world.globalEnv tree id)
  let world := world.walkClasses tree env unit
  let (env, world) := world.walk (bodies tree unit) env
  { world with
    finished := world.finished ++ [(id, env.headD [])], waiting := world.waiting.erase id }

end World

/-- The unit that an import names. -/
def importTarget? (tree : Tree) (id : DeclId) : Option UnitId :=
  match (tree.decls.get? id).map Decl.form with
  | some (.importDecl _ target) => target.filter fun target => (tree.units.get? target).isSome
  | _ => none

/-- An imported unit is walked first; one that waits for its own imports is not imported. -/
def importUnit (tree : Tree) (walkUnit : World → UnitId → World) (unit : UnitId) (world : World)
    (id : DeclId) : World :=
  match (importTarget? tree id).filter (· ∉ world.waiting) with
  | none => world
  | some target => (walkUnit world target).attach tree unit target

/-- Walks through a unit, once, after the units it imports. -/
def unitWithin (tree : Tree) : Nat → World → UnitId → World
  | 0, world, _ => world
  | fuel + 1, world, id =>
    match tree.units.get? id with
    | none => world
    | some unit =>
      if id ∈ world.finished.map Prod.fst then world
      else
        World.contents tree id unit <|
          unit.imports.foldl (importUnit tree (unitWithin tree fuel) id)
            { world with waiting := id :: world.waiting }

/-- Walks through a program from its root unit. -/
def program (tree : Tree) (root : UnitId) : World := unitWithin tree (tree.units.size + 1) {} root

end TreeCheck.Lexical
