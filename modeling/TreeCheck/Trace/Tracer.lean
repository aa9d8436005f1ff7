/-
Where the events of a trace are kept. A stream formats every event at once, as a line of text
indented by grain or as a line of JSON, and hands the text over when it is flushed; a ring
keeps the newest events; a fan-out passes each event to both. All of them leave out what their
level does not admit.
-/

import TreeCheck.Json.Writer
import TreeCheck.Text.Utf8
import TreeCheck.Trace.Event

namespace TreeCheck.Trace

inductive Format where
  | text | json
  deriving DecidableEq, Repr, Inhabited

/-! ### Dates -/

/-- A number with at least so many digits. -/
def digits (width number : Nat) : String :=
  let text := toString number
  Text.repeated "0" (width - text.length) ++ text

/-- Year, month and day of a number of days since the start of 1970. Years are taken to begin
in March, so that the leap day is the last of its year; 400 years have 146097 days. -/
def civilDate (days : Int) : Int × Nat × Nat :=
  let shifted := days + 719468
  let era := shifted.fdiv 146097
  let dayOfEra := (shifted.fmod 146097).toNat
  let yearOfEra := (dayOfEra - dayOfEra / 1460 + dayOfEra / 36524 - dayOfEra / 146096) / 365
  let dayOfYear := dayOfEra - (365 * yearOfEra + yearOfEra / 4 - yearOfEra / 100)
  let marchMonth := (5 * dayOfYear + 2) / 153
  let day := dayOfYear - (153 * marchMonth + 2) / 5 + 1
  let month := if marchMonth < 10 then marchMonth + 3 else marchMonth - 9
  let year := (yearOfEra : Int) + era * 400 + (if month ≤ 2 then 1 else 0)
  (year, month, day)

/-- A time in microseconds since the start of 1970, to the microsecond. -/
def timestamp (time : Int) : String :=
  let seconds := time.fdiv 1000000
  let micros := (time.fmod 1000000).toNat
  let (year, month, day) := civilDate (seconds.fdiv 86400)
  let second := (seconds.fmod 86400).toNat
  let yearText :=
    if year < 0 then "-" ++ digits 4 year.natAbs else digits 4 year.toNat
  yearText ++ "-" ++ digits 2 month ++ "-" ++ digits 2 day ++ "T" ++
    digits 2 (second / 3600) ++ ":" ++ digits 2 (second / 60 % 60) ++ ":" ++
    digits 2 (second % 60) ++ "." ++ digits 6 micros ++ "Z"

/-! ### Lines -/

/-- A text filled up with blanks on the right; a wider text stays as it is. -/
def padded (text : String) (width : Nat) : String :=
  text ++ Text.repeated " " (width - text.utf8ByteSize)

def mark (kind : Kind) : String :=
  match kind.rank with
  | 1 => "→ "
  | 2 => "← "
  | 3 => "• "
  | _ => ""

def Event.extraText (event : Event) : String :=
  if event.extra.isEmpty then ""
  else
    " \x7b" ++ Text.join ", " (event.extra.map fun (key, value) => key ++ "=" ++ value) ++ "\x7d"

def Event.text (event : Event) : String :=
  "#" ++ padded (toString event.seq) 5 ++ " " ++ padded event.grain.name 6 ++ " " ++
    Text.repeated "  " (event.grain.rank - 1) ++ mark event.kind ++ event.name ++
    (if event.detail = "" then "" else " (" ++ event.detail ++ ")") ++ event.extraText

/-- The fields of an event; numbers that are zero and texts that are empty are left out where
they tell nothing. -/
def Event.json (event : Event) : Json :=
  .object <|
    [("time", .text (timestamp event.time)), ("seq", .ofNat event.seq),
      ("kind", .text event.kind.name), ("scope", .text event.grain.name),
      ("span_id", .ofNat event.span)] ++
    (if event.parent = 0 then [] else [("parent_id", .ofNat event.parent)]) ++
    (if event.worker = 0 then [] else [("gid", .ofNat event.worker)]) ++
    [("name", .text event.name)] ++
    (if event.detail = "" then [] else [("detail", .text event.detail)]) ++
    (if event.extra.isEmpty then []
      else [("extra", .object (event.extra.map fun (key, value) => (key, .text value)))])

/-- An event as one line, with the line end. -/
def Event.line (event : Event) : Format → String
  | .text => event.text ++ "\n"
  | .json => event.json.compact ++ "\n"

/-! ### Rings -/

/-- A circle of slots. They are written one after the other, and the first again behind the
last one, so that the newest events are kept. -/
structure Ring where
  level : Level
  capacity : Nat
  slots : Vector Event capacity := .replicate capacity default
  /-- The slot that is written next. -/
  next : Fin capacity
  /-- How many slots have been written. -/
  count : Nat := 0

namespace Ring

def defaultCapacity : Nat := 4096

/-- A ring of a capacity; one that is not positive stands for the usual one. -/
def ofCapacity (capacity : Int) (level : Level) : Ring :=
  if positive : 0 < capacity then
    { level, capacity := capacity.toNat, next := ⟨0, Int.lt_toNat.mpr positive⟩ }
  else { level, capacity := defaultCapacity, next := ⟨0, by decide⟩ }

/-- Writes an event to the next slot. -/
def emit (ring : Ring) (event : Event) : Ring :=
  if ring.level.admits event.grain then
    { ring with
      slots := ring.slots.set ring.next event
      next := ⟨(ring.next + 1) % ring.capacity, Nat.mod_lt _ ring.next.pos⟩
      count := if ring.count < ring.capacity then ring.count + 1 else ring.count }
  else ring

/-- The event in a slot, if the number is that of one. -/
def slot? (ring : Ring) (index : Int) : Option Event :=
  if index < 0 then none else ring.slots[index.toNat]?

/-- The newest events, so many of them, oldest first; a number that is not positive or too large
stands for all. There is nothing if a slot was asked for that does not exist. -/
def last? (ring : Ring) (wanted : Int) : Option (List Event) :=
  let wanted := if wanted ≤ 0 ∨ ring.count < wanted then (ring.count : Int) else wanted
  let start := (ring.next - wanted + ring.capacity).tmod ring.capacity
  (List.range wanted.toNat).mapM fun index : Nat => ring.slot? ((start + index).tmod ring.capacity)

def last (ring : Ring) (wanted : Int) : List Event := (ring.last? wanted).getD []

/-- All events that are kept, oldest first. -/
def events (ring : Ring) : List Event := ring.last 0

end Ring

/-! ### Streams -/

/-- Bytes that wait, and bytes that were handed over. -/
structure Stream where
  level : Level
  format : Format
  pending : List UInt8 := []
  written : List UInt8 := []

namespace Stream

/-- How many bytes may wait. -/
def bufferSize : Nat := 4096

/-- Takes bytes into an empty buffer; more than fit are handed over at once. -/
def refill (stream : Stream) (bytes : List UInt8) : Stream :=
  if bytes.length ≤ bufferSize then { stream with pending := bytes }
  else { stream with pending := [], written := stream.written ++ bytes }

/-- Takes bytes into the buffer. When they do not fit, the buffer is filled up and handed
over first. -/
def write (stream : Stream) (bytes : List UInt8) : Stream :=
  let room := bufferSize - stream.pending.length
  if bytes.length ≤ room then { stream with pending := stream.pending ++ bytes }
  else if stream.pending.isEmpty then stream.refill bytes
  else
    { stream with
      pending := []
      written := stream.written ++ stream.pending ++ bytes.take room }.refill (bytes.drop room)

def emit (stream : Stream) (event : Event) : Stream :=
  if stream.level.admits event.grain then
    stream.write (Text.Utf8.encode (event.line stream.format))
  else stream

def flush (stream : Stream) : Stream :=
  { stream with pending := [], written := stream.written ++ stream.pending }

/-- What was handed over, as text. -/
def text (stream : Stream) : String := Text.Utf8.ofBytes stream.written

end Stream

/-! ### Tracers -/

inductive Tracer where
  | silent
  | streaming (out : Stream)
  | keeping (kept : Ring)
  | both (level : Level) (out : Stream) (kept : Ring)

namespace Tracer

def level : Tracer → Level
  | .silent => .off
  | .streaming out => out.level
  | .keeping kept => kept.level
  | .both level _ _ => level

def enabled (tracer : Tracer) : Bool := tracer.level.enabled

def emit (event : Event) : Tracer → Tracer
  | .silent => .silent
  | .streaming out => .streaming (out.emit event)
  | .keeping kept => .keeping (kept.emit event)
  | .both level out kept => .both level (out.emit event) (kept.emit event)

def flush : Tracer → Tracer
  | .streaming out => .streaming out.flush
  | .both level out kept => .both level out.flush kept
  | tracer => tracer

/-- The ring behind a tracer. -/
def ring? : Tracer → Option Ring
  | .keeping kept | .both _ _ kept => some kept
  | _ => none

/-- Takes out what a tracer has handed over since the last time. -/
def drain : Tracer → List UInt8 × Tracer
  | .streaming out => (out.written, .streaming { out with written := [] })
  | .both level out kept => (out.written, .both level { out with written := [] } kept)
  | tracer => ([], tracer)

/-- What a tracer has handed over. -/
def written : Tracer → String
  | .streaming out | .both _ out _ => out.text
  | _ => ""

/-- The newest events of the ring as text; nothing without a ring. -/
def dump (tracer : Tracer) (format : Format) (count : Int) : String :=
  match tracer.ring? with
  | some kept => Text.join "" ((kept.last count).map (·.line format))
  | none => ""

/-- A path whose events are written as JSON. -/
def formatOf (path : String) : Format :=
  if path.endsWith ".ndjson" || path.endsWith ".json" then .json else .text

/-- The tracer of a level and a storage mode; nothing when there is no such mode. -/
def make? (level : Level) (mode : StorageMode) (format : Format) (ringSize : Int) :
    Option Tracer :=
  if level = .off then some .silent
  else if mode = .ring then some (.keeping (.ofCapacity ringSize level))
  else if mode = .stream then some (.streaming { level, format })
  else if mode = .both then
    some (.both level { level, format } (.ofCapacity ringSize level))
  else none

end Tracer

end TreeCheck.Trace
