/-
Reading diagnostics from JSON, with numbers for severities and codes. A span is a list of
file, line, column, last line and last column; what is missing is zero or empty.
-/

import TreeCheck.Diagnostic.Basic
import TreeCheck.Json.Value

namespace TreeCheck

def Span.ofJson? (value : Json) : Option Span := do
  let numbers ← value.asWords? 32
  let word (index : Nat) : UInt32 := UInt32.ofNat (numbers[index]?.getD 0)
  return ⟨numbers[0]?.getD 0, ⟨word 1, word 2⟩, ⟨word 3, word 4⟩⟩

def Note.ofJson? (value : Json) : Option Note := do
  return ⟨← Span.ofJson? (value.field "at"), ← (value.field "msg").asText?⟩

/-- The hint of a diagnostic; code zero is none. -/
def Hint.ofJson? (code args : Json) : Option (Option Hint) := do
  let code ← code.asWord? 8
  let args ← args.asTexts?
  return if code = 0 then none else some ⟨⟨code⟩, args⟩

def Diagnostic.ofJson? (value : Json) : Option Diagnostic := do
  return { severity := ⟨← (value.field "sev").asWord? 8⟩
           code := ⟨← (value.field "code").asWord? 16⟩
           span := ← Span.ofJson? (value.field "at"), args := ← (value.field "args").asTexts?
           notes := ← (← (value.field "notes").asItems?).mapM Note.ofJson?
           hint := ← Hint.ofJson? (value.field "fix") (value.field "fix_args") }

end TreeCheck
