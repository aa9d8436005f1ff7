/-
Trace events. A run can be watched at five levels; each level admits one more scope of
work than the one below it, from whole programs down to single classes and submissions.
A span of work has an event where it begins and one where it ends, with the same number.
-/

import TreeCheck.Text.LetterCase
import TreeCheck.Text.Quoted
import TreeCheck.Text.Split

namespace TreeCheck

/-! ### Names by rank -/

namespace Trace

/-- The name at a rank; ranks without a name are unknown. -/
def nameAt (names : List String) (rank : Nat) : String :=
  match names[rank]? with
  | some name => if name = "" then "unknown" else name
  | none => "unknown"

/-- What an event marks. -/
structure Kind where
  rank : Nat
  deriving DecidableEq, Repr, Inhabited

namespace Kind

def spanBegin : Kind := ⟨1⟩
def spanEnd : Kind := ⟨2⟩
def point : Kind := ⟨3⟩

def name (kind : Kind) : String := nameAt ["", "begin", "end", "point"] kind.rank

end Kind

/-- How fine-grained an event is; a smaller rank is coarser. -/
structure Grain where
  rank : Nat
  deriving DecidableEq, Repr, Inhabited

namespace Grain

/-- A command, or one program of several. -/
def driver : Grain := ⟨1⟩
def pass : Grain := ⟨2⟩
/-- One unit within a pass. -/
def module : Grain := ⟨3⟩
/-- A class, or a submission of an interactive session. -/
def node : Grain := ⟨4⟩

def name (grain : Grain) : String := nameAt ["", "driver", "pass", "module", "node"] grain.rank

end Grain

/-- How much is traced. -/
structure Level where
  rank : Nat
  deriving DecidableEq, Repr, Inhabited

/-- Why a setting of the trace was refused. -/
inductive SettingError where
  | level (text : String)
  | mode (text : String)
  deriving DecidableEq, Repr

namespace Level

def off : Level := ⟨0⟩

def names : List String := ["off", "error", "phase", "detail", "debug"]

def name (level : Level) : String := nameAt names level.rank

/-- The level of a name, in any case; no name is the level at which nothing is traced. -/
def ofText (text : String) : Except SettingError Level :=
  let text := Text.lowerCase text
  if text = "" then .ok off
  else
    match names.idxOf? text with
    | some rank => .ok ⟨rank⟩
    | none => .error (.level text)

def enabled (level : Level) : Bool := off.rank < level.rank

/-- Whether events of a grain are traced at a level. -/
def admits (level : Level) (grain : Grain) : Bool :=
  0 < grain.rank && grain.rank ≤ level.rank

end Level

/-- Where events go: written as they happen, kept in memory, or both. -/
structure StorageMode where
  rank : Nat
  deriving DecidableEq, Repr, Inhabited

namespace StorageMode

def stream : StorageMode := ⟨1⟩
def ring : StorageMode := ⟨2⟩
def both : StorageMode := ⟨3⟩

def names : List String := ["", "stream", "ring", "both"]

def name (mode : StorageMode) : String := nameAt names mode.rank

def ofText (text : String) : Except SettingError StorageMode :=
  let text := Text.lowerCase text
  match names.idxOf? text with
  | some (rank + 1) => .ok ⟨rank + 1⟩
  | _ => .error (.mode text)

end StorageMode

def SettingError.message : SettingError → String
  | .level text =>
    "invalid trace level: " ++ Text.quoted text ++ " (expected: " ++ Text.join "|" Level.names ++ ")"
  | .mode text => s!"invalid storage mode: {Text.quoted text} (expected: stream|ring|both)"

/-! ### Events -/

/-- Pairs of keys and values in the order of the keys. -/
abbrev Extra := List (String × String)

/-- Sets a key, replacing the value it had. -/
def Extra.set (key value : String) : Extra → Extra
  | [] => [(key, value)]
  | (first, old) :: rest =>
    if key = first then (key, value) :: rest
    else if key < first then (key, value) :: (first, old) :: rest
    else (first, old) :: Extra.set key value rest

/-- One record of a trace. -/
structure Event where
  /-- Microseconds since the start of 1970. -/
  time : Int := 0
  /-- The place of the event among all events, counted from one. -/
  seq : Nat
  kind : Kind
  grain : Grain
  /-- The number of the span, zero for a point. -/
  span : Nat := 0
  /-- The number of the span around it, zero for none. -/
  parent : Nat := 0
  /-- The number of the worker. -/
  worker : Nat := 0
  name : String
  detail : String := ""
  /-- Stands only on the end of a span. -/
  extra : Extra := []
  deriving Repr, Inhabited

end Trace

end TreeCheck
