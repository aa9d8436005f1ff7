/-
Where reported diagnostics go. A bag keeps what is added up to a limit and counts what it had
to refuse. Its contents are ordered by position, then errors before warnings, then by code,
and repeats can be dropped. A sink is a chain of stages that ends in a bag: stages drop
repeats, promote warnings, count what passes, or raise, which ends the report that caused it
after the stages behind have seen it.
-/

import TreeCheck.Diagnostic.Basic

namespace TreeCheck

/-! ### Order and repeats -/

namespace Diagnostic

/-- Whether a diagnostic may stand before another one: nearer to the front of the files, at
the same place more severe, of the same severity with the smaller code. -/
def le (first second : Diagnostic) : Bool :=
  if first.span.before second.span then true
  else if second.span.before first.span then false
  else if first.severity ≠ second.severity then second.severity.rank < first.severity.rank
  else first.code.number ≤ second.code.number

/-- Sorts, keeping the order of diagnostics that stand at the same place. -/
def sort (diagnostics : List Diagnostic) : List Diagnostic := diagnostics.mergeSort le

/-- Keeps the first of every group of repeats; `seen` came before. -/
def dedupFrom (seen : List Diagnostic) : List Diagnostic → List Diagnostic
  | [] => []
  | diagnostic :: rest =>
    if seen.any (sameReport diagnostic) then dedupFrom seen rest
    else diagnostic :: dedupFrom (diagnostic :: seen) rest

def dedup (diagnostics : List Diagnostic) : List Diagnostic := dedupFrom [] diagnostics

def errorCount (diagnostics : List Diagnostic) : Nat := diagnostics.countP isError

def warningCount (diagnostics : List Diagnostic) : Nat := diagnostics.countP isWarning

end Diagnostic

/-! ### Bags -/

/-- A limit of zero or less is none. -/
structure Bag where
  limit : Int := 0
  items : List Diagnostic := []
  dropped : Nat := 0

namespace Bag

def hasRoom (bag : Bag) : Bool := bag.limit ≤ 0 || (bag.items.length : Int) < bag.limit

def add (bag : Bag) (diagnostic : Diagnostic) : Bag :=
  if bag.hasRoom then { bag with items := bag.items ++ [diagnostic] }
  else { bag with dropped := bag.dropped + 1 }

def addAll (bag : Bag) (diagnostics : List Diagnostic) : Bag := diagnostics.foldl add bag

def sort (bag : Bag) : Bag := { bag with items := Diagnostic.sort bag.items }

def dedup (bag : Bag) : Bag := { bag with items := Diagnostic.dedup bag.items }

def errors (bag : Bag) : Nat := Diagnostic.errorCount bag.items

def warnings (bag : Bag) : Nat := Diagnostic.warningCount bag.items

def hasErrors (bag : Bag) : Bool := bag.items.any Diagnostic.isFatal

end Bag

/-! ### Sinks -/

inductive Stage where
  /-- Passes on what it has not seen before. -/
  | dedup (seen : List Diagnostic)
  /-- Turns warnings into errors. -/
  | promote
  /-- Ends the report of an error once the stages behind have seen it. -/
  | raise
  | count (errors warnings : Nat)
  /-- Reports everything twice. -/
  | twice
  /-- Drops everything. -/
  | discard

structure Sink where
  stages : List Stage := []
  bag : Bag := {}

namespace Sink

/-- The sink behind one more stage. -/
def behind (stage : Stage) (sink : Sink) : Sink := { sink with stages := stage :: sink.stages }

/-- Reports through the first `length` stages of a chain; the diagnostic that was raised, if
one was. -/
def reportThrough : Nat → List Stage → Bag → Diagnostic → Sink × Option Diagnostic
  | length + 1, stage :: rest, bag, diagnostic =>
    match stage with
    | .dedup seen =>
      if seen.any (Diagnostic.sameReport diagnostic) then (⟨stage :: rest, bag⟩, none)
      else
        let (sink, raised) := reportThrough length rest bag diagnostic
        (sink.behind (.dedup (diagnostic :: seen)), raised)
    | .promote =>
      let (sink, raised) := reportThrough length rest bag diagnostic.promote
      (sink.behind .promote, raised)
    | .raise =>
      let (sink, raised) := reportThrough length rest bag diagnostic
      (sink.behind .raise, raised.or (if diagnostic.isFatal then some diagnostic else none))
    | .count errors warnings =>
      let (sink, raised) := reportThrough length rest bag diagnostic
      (sink.behind
        (.count (errors + if diagnostic.isError then 1 else 0)
          (warnings + if diagnostic.isWarning then 1 else 0)), raised)
    | .twice =>
      let (sink, raised) := reportThrough length rest bag diagnostic
      match raised with
      | some inner => (sink.behind .twice, some inner)
      | none =>
        let (sink, raised) := reportThrough length sink.stages sink.bag diagnostic
        (sink.behind .twice, raised)
    | .discard => (⟨stage :: rest, bag⟩, none)
  | _, stages, bag, diagnostic => (⟨stages, bag.add diagnostic⟩, none)

/-- Reports a diagnostic; the diagnostic that was raised, if one was. -/
def report (sink : Sink) (diagnostic : Diagnostic) : Sink × Option Diagnostic :=
  reportThrough sink.stages.length sink.stages sink.bag diagnostic

/-- Errors and warnings seen by every counting stage, outermost first. -/
def counts (sink : Sink) : List (Nat × Nat) :=
  sink.stages.filterMap fun
    | .count errors warnings => some (errors, warnings)
    | _ => none

end Sink

end TreeCheck
