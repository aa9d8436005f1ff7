/-
Diagnostics. A diagnostic is data: how severe it is, its code with the arguments of the
message, the span it points at, and notes and a hint if there are any. The message is a
function of the code and the arguments.
-/

import TreeCheck.Diagnostic.Code
import TreeCheck.Source.Files

namespace TreeCheck

/-- How severe a diagnostic is; a greater rank is worse. -/
structure Severity where
  rank : Nat
  deriving DecidableEq, Repr, Inhabited

namespace Severity

def info : Severity := ⟨0⟩
def warning : Severity := ⟨1⟩
def error : Severity := ⟨2⟩

/-- The lower-case name. -/
def label (severity : Severity) : String :=
  match severity.rank with
  | 1 => "warning"
  | 2 => "error"
  | _ => "info"

/-- The upper-case name. -/
def heading (severity : Severity) : String :=
  match severity.rank with
  | 0 => "INFO"
  | 1 => "WARNING"
  | 2 => "ERROR"
  | _ => "UNKNOWN"

end Severity

structure Note where
  span : Span
  message : String
  deriving DecidableEq, Repr, Inhabited

structure Hint where
  code : HintCode
  args : List String
  deriving DecidableEq, Repr, Inhabited

def Hint.message (hint : Hint) : String := hint.code.message hint.args

structure Diagnostic where
  severity : Severity
  code : Code
  span : Span
  args : List String := []
  notes : List Note := []
  hint : Option Hint := none
  deriving DecidableEq, Repr, Inhabited

namespace Diagnostic

def message (diagnostic : Diagnostic) : String := diagnostic.code.message diagnostic.args

def error (code : Code) (span : Span) (args : List String) : Diagnostic :=
  { severity := .error, code, span, args }

def warning (code : Code) (span : Span) (args : List String) : Diagnostic :=
  { severity := .warning, code, span, args }

def withNote (diagnostic : Diagnostic) (span : Span) (message : String) : Diagnostic :=
  { diagnostic with notes := diagnostic.notes ++ [⟨span, message⟩] }

def withHint (diagnostic : Diagnostic) (code : HintCode) (args : List String) : Diagnostic :=
  { diagnostic with hint := some ⟨code, args⟩ }

def isError (diagnostic : Diagnostic) : Bool := diagnostic.severity = .error

def isWarning (diagnostic : Diagnostic) : Bool := diagnostic.severity = .warning

/-- At least as severe as an error. -/
def isFatal (diagnostic : Diagnostic) : Bool := Severity.error.rank ≤ diagnostic.severity.rank

/-- A warning becomes an error. -/
def promote (diagnostic : Diagnostic) : Diagnostic :=
  if diagnostic.isWarning then { diagnostic with severity := .error } else diagnostic

/-- What two diagnostics have in common when one repeats the other. Notes and hints do not
count. -/
def sameReport (first second : Diagnostic) : Bool :=
  first.code = second.code && first.severity = second.severity && first.span = second.span &&
    first.message = second.message

/-- The text of a diagnostic that ended a submission. -/
def raisedText (diagnostic : Diagnostic) : String :=
  diagnostic.code.id ++ ": " ++ diagnostic.message

end Diagnostic

end TreeCheck
