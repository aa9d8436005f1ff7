/-
The view of a check in progress: a heading with a spinner, one line for every program,
and a bar that is full once all events are in.
-/

import TreeCheck.Check.Event
import TreeCheck.Text.Terminal

namespace TreeCheck

structure ProgressItem where
  path : String
  status : CheckStatus := .queued
  pass : String := ""
  deriving Inhabited

structure ProgressView where
  title : String
  items : List ProgressItem
  /-- Columns of the screen. -/
  width : Int := 80
  barWidth : Int := 76
  /-- How often the spinner has turned. -/
  turns : Nat := 0
  closed : Bool := false

namespace ProgressItem

/-- The pass that is running, or else the status. -/
def label (item : ProgressItem) : String :=
  if item.status = .working ∧ item.pass ≠ "" then item.pass else item.status.name

end ProgressItem

namespace ProgressView

def start (title : String) (paths : List String) : ProgressView :=
  { title, items := paths.map fun path => { path } }

/-! ### Changes -/

/-- Changes the last item of a path. -/
def changeLast (path : String) (change : ProgressItem → ProgressItem) :
    List ProgressItem → List ProgressItem
  | [] => []
  | item :: rest =>
    if item.path = path ∧ rest.all (·.path ≠ path) then change item :: rest
    else item :: changeLast path change rest

/-- Takes note of an event; one about a program that is not shown changes nothing. -/
def apply (view : ProgressView) (event : CheckEvent) : ProgressView :=
  { view with
    items := changeLast event.file
      (fun item =>
        { item with
          status := event.status
          pass := if event.status = .working then event.pass else item.pass })
      view.items }

def tick (view : ProgressView) : ProgressView :=
  if view.closed then view else { view with turns := view.turns + 1 }

/-- Takes note of the width of the screen. -/
def resize (view : ProgressView) (width : Int) : ProgressView :=
  if 0 < width then { view with width, barWidth := width - 4 } else view

def close (view : ProgressView) : ProgressView := { view with closed := true }

/-! ### Text -/

def frames : List String := ["⣾ ", "⣽ ", "⣻ ", "⢿ ", "⡿ ", "⣟ ", "⣯ ", "⣷ "]

def spinner (view : ProgressView) : String := frames.getD (view.turns % frames.length) ""

/-- As many clusters from the front as fit. -/
def fitting (columns : Nat) : List (List Char) → List (List Char)
  | [] => []
  | cluster :: rest =>
    let width := Text.clusterWidth cluster
    if columns < width then [] else cluster :: fitting (columns - width) rest

/-- The text, or as much of it as fits with three dots behind it. -/
def shortened (columns : Nat) (text : String) : String :=
  if Text.width text ≤ columns then text
  else String.ofList (fitting (columns - 3) (Text.Grapheme.clusters text.toList)).flatten ++ "..."

/-- A block of text: tabs are four blanks, and all lines are as wide as the widest. -/
def block (text : String) : String :=
  let spread (character : Char) : List Char :=
    if character = '\t' then List.replicate 4 ' ' else [character]
  match Text.splitOn '\n' (String.ofList (text.toList.flatMap spread)) with
  | [line] => line
  | lines =>
    let widest := (lines.map Text.width).foldl max 0
    Text.join "\n" (lines.map (Text.fillRight · widest))

def row (view : ProgressView) (item : ProgressItem) : String :=
  "  " ++ block (Text.Decimal.padLeft 12 item.label) ++ " " ++
    shortened (max (view.width - 16) 20).toNat item.path ++ "\n"

/-- The bar moves by frames of an animation; without them it is empty, and full at the end. -/
def bar (view : ProgressView) : String :=
  let percent := if view.closed then " 100%" else "   0%"
  Text.repeated (if view.closed then "█" else "░") (view.barWidth - percent.length).toNat ++ percent

def text (view : ProgressView) : String :=
  if view.items.isEmpty then ""
  else
    let heading :=
      if view.closed then "done: " ++ view.title else view.spinner ++ " " ++ view.title
    block heading ++ "\n\n" ++ String.join (view.items.map view.row) ++ "\n" ++ view.bar ++ "\n"

end ProgressView

end TreeCheck
