/-
Spans that are open one inside the other. A span that is begun lies in the innermost one
that is recorded; a span that is not recorded leaves that as it is.
-/

import TreeCheck.Trace.Recorder

namespace TreeCheck.Trace

/-- An open span, and the number of the span that work inside it belongs to. -/
structure NestedSpan where
  span : OpenSpan
  inside : Nat

/-- A recorder with its open spans, innermost first. -/
structure Nesting where
  recorder : Recorder := {}
  spans : List NestedSpan := []

namespace Nesting

/-- The span that work belongs to now; zero for none. -/
def current (nesting : Nesting) : Nat :=
  match nesting.spans with
  | [] => 0
  | top :: _ => top.inside

/-- Begins a span under a parent; whether it is recorded. -/
def beginUnder (nesting : Nesting) (parent : Nat) (grain : Grain) (name : String) :
    Bool × Nesting :=
  let (span, recorder) := nesting.recorder.start grain name parent
  let inside := if span.live then span.id else nesting.current
  (span.live, { recorder, spans := ⟨span, inside⟩ :: nesting.spans })

/-- Begins a span inside the current one. -/
def enter (nesting : Nesting) (grain : Grain) (name : String) : Bool × Nesting :=
  nesting.beginUnder nesting.current grain name

/-- Begins a span below the innermost open one, recorded or not; nothing if none is open. -/
def child? (nesting : Nesting) (grain : Grain) (name : String) : Option (Bool × Nesting) :=
  nesting.spans.head?.map fun top => nesting.beginUnder top.span.id grain name

/-- Attaches a value to the innermost open span. -/
def annotate? (nesting : Nesting) (key value : String) : Option Nesting :=
  match nesting.spans with
  | [] => none
  | top :: rest =>
    some { nesting with spans := { top with span := top.span.withExtra key value } :: rest }

/-- Marks a moment within the current span. -/
def mark (nesting : Nesting) (grain : Grain) (name detail : String) : Nesting :=
  { nesting with recorder := nesting.recorder.point grain name nesting.current detail }

/-- Ends the innermost open span. -/
def leave? (nesting : Nesting) (detail : String) : Option Nesting :=
  match nesting.spans with
  | [] => none
  | top :: rest => some { recorder := nesting.recorder.finish top.span detail, spans := rest }

end Nesting

end TreeCheck.Trace
