/-
The passes of an analysis and the order they may run in. A list of passes is usable when
every pass is known, none is named twice, and every pass stands behind the one it needs;
a cutoff cuts it short.
-/

import TreeCheck.Diagnostic.Basic

namespace TreeCheck

inductive Pass where
  | resolve | typecheck | modifiers
  deriving DecidableEq, Repr, Inhabited

namespace Pass

/-- All passes in the order in which they can run. -/
def all : List Pass := [.resolve, .typecheck, .modifiers]

def name : Pass → String
  | .resolve => "resolve"
  | .typecheck => "typecheck"
  | .modifiers => "modifiers"

/-- The pass whose annotations are needed. -/
def requires? : Pass → Option Pass
  | .resolve => none
  | .typecheck => some .resolve
  | .modifiers => some .typecheck

def ofName? (name : String) : Option Pass := all.find? (·.name = name)

def allNames : List String := all.map name

end Pass

/-! ### Refused configurations -/

/-- A configuration that cannot be used, as the diagnostic that says why. -/
structure ConfigError where
  diagnostic : Diagnostic
  deriving DecidableEq, Repr

namespace ConfigError

def of (code : Code) (args : List String) : ConfigError := ⟨.error code {} args⟩

def message (failure : ConfigError) : String := failure.diagnostic.raisedText

end ConfigError

/-! ### Pipelines -/

/-- Passes in the order in which they run. -/
structure Pipeline where
  passes : List Pass
  deriving Inhabited

namespace Pipeline

/-- The passes of some names; `before` are the passes named so far. -/
def passesFrom (before : List Pass) : List String → Except ConfigError (List Pass)
  | [] => .ok []
  | name :: rest =>
    match Pass.ofName? name with
    | none => .error (.of .unknownPass [name])
    | some pass =>
      if pass ∈ before then .error (.of .unknownPass [name])
      else
        match pass.requires?.filter (· ∉ before) with
        | some required => .error (.of .passOrder [name, required.name])
        | none => (passesFrom (pass :: before) rest).map (pass :: ·)

def passesOf (names : List String) : Except ConfigError (List Pass) :=
  if names.isEmpty then .error (.of .noPasses []) else passesFrom [] names

/-- A cutoff of zero is none; any other has to lie within the passes. -/
def checkCutoff (cutoff : Int) (count : Int) : Except ConfigError Unit :=
  if cutoff = 0 then .ok ()
  else if cutoff < 1 ∨ count < cutoff then
    .error (.of .cutoffRange [toString cutoff, toString count])
  else .ok ()

def cutoffKeyword : List Char := "stop-after=".toList

/-- Reads a cutoff for so many passes, with or without its keyword; nothing written is no
cutoff. -/
def parseCutoff (directive : String) (count : Int) : Except ConfigError Int :=
  let trimmed := Text.trimList directive.toList
  if trimmed.isEmpty then .ok 0
  else
    let number :=
      if cutoffKeyword.isPrefixOf trimmed then trimmed.drop cutoffKeyword.length else trimmed
    match number.head?, Text.integer? (String.ofList number) with
    | some '+', _ | _, none => .error (.of .badCutoff [directive])
    | _, some cutoff =>
      if cutoff < 1 ∨ count < cutoff then
        .error (.of .cutoffRange [toString cutoff, toString count])
      else .ok cutoff

/-- The pipeline of some passes, cut short behind the first `cutoff` of them. -/
def make (names : List String) (cutoff : Int) : Except ConfigError Pipeline := do
  let passes ← passesOf names
  checkCutoff cutoff passes.length
  return ⟨if 0 < cutoff then passes.take cutoff.toNat else passes⟩

/-- All passes. -/
def full : Pipeline := ⟨Pass.all⟩

def has (pipeline : Pipeline) (name : String) : Bool := pipeline.passes.any (·.name = name)

end Pipeline

end TreeCheck
