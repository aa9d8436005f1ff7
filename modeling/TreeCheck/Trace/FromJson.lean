/-
Reading an event from JSON, with numbers for what it marks and how fine-grained it is.
Fields that are missing are zero or empty.
-/

import TreeCheck.Json.Value
import TreeCheck.Trace.Event

namespace TreeCheck.Trace

def Extra.ofJson? (value : Json) : Option Extra := do
  let pairs ← (← value.asFields?).mapM fun (key, value) => do return (key, ← value.asText?)
  return pairs.foldl (fun extra (key, value) => extra.set key value) []

def Event.ofJson? (value : Json) : Option Event := do
  let word (bits : Nat) (name : String) : Option Nat := (value.field name).asWord? bits
  let _ ← value.asFields?
  return { time := ← (value.field "time").asInt?, seq := ← word 64 "seq"
           kind := ⟨← word 8 "kind"⟩, grain := ⟨← word 8 "scope"⟩, span := ← word 64 "span"
           parent := ← word 64 "parent", worker := ← word 64 "gid"
           name := ← (value.field "name").asText?, detail := ← (value.field "detail").asText?
           extra := ← Extra.ofJson? (value.field "extra") }

end TreeCheck.Trace
