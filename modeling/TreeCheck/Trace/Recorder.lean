/-
Recording a trace. A recorder numbers spans and events from one. A span below its level
is not recorded: it has number zero, and nothing done with it leaves a trace.
-/

import TreeCheck.Trace.Event

namespace TreeCheck.Trace

/-- A span that has begun and not ended. -/
structure OpenSpan where
  id : Nat := 0
  parent : Nat := 0
  grain : Grain := ⟨0⟩
  name : String := ""
  extra : Extra := []
  deriving Inhabited

namespace OpenSpan

/-- Whether the span is recorded. -/
def live (span : OpenSpan) : Bool := span.id ≠ 0

/-- Attaches a value to the end of the span. -/
def withExtra (span : OpenSpan) (key value : String) : OpenSpan :=
  if span.live then { span with extra := span.extra.set key value } else span

end OpenSpan

/-- Events in order of emission, and how many spans were begun. -/
structure Recorder where
  level : Level := .off
  events : Array Event := #[]
  spans : Nat := 0
  deriving Inhabited

namespace Recorder

/-- The number of the next event. -/
def nextSeq (recorder : Recorder) : Nat := recorder.events.size + 1

def emit (recorder : Recorder) (event : Event) : Recorder :=
  { recorder with events := recorder.events.push event }

/-- Begins a span under a parent, unless the level does not admit it. -/
def start (recorder : Recorder) (grain : Grain) (name : String) (parent : Nat) :
    OpenSpan × Recorder :=
  if recorder.level.admits grain then
    let id := recorder.spans + 1
    ({ id, parent, grain, name },
      { recorder with spans := id }.emit
        { seq := recorder.nextSeq, kind := .spanBegin, grain, span := id, parent, name })
  else ({}, recorder)

/-- Ends a span. -/
def finish (recorder : Recorder) (span : OpenSpan) (detail : String) : Recorder :=
  if span.live then
    recorder.emit
      { seq := recorder.nextSeq, kind := .spanEnd, grain := span.grain, span := span.id,
        parent := span.parent, name := span.name, detail, extra := span.extra }
  else recorder

/-- Marks a moment within a span. -/
def point (recorder : Recorder) (grain : Grain) (name : String) (parent : Nat)
    (detail : String) : Recorder :=
  if recorder.level.admits grain then
    recorder.emit { seq := recorder.nextSeq, kind := .point, grain, parent, name, detail }
  else recorder

end Recorder

end TreeCheck.Trace
