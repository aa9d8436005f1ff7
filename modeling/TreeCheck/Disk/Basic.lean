/-
The files a command sees: a tree of directories with files in it, and the directory the
command works in. A path is followed part by part, and everything on the way has to be a
directory.
-/

import TreeCheck.Text.Path

namespace TreeCheck

/-- Where something is: the names from the top directory down. -/
abbrev Disk.Place := List String

inductive DiskEntry where
  | file (content : List UInt8)
  | directory
  deriving DecidableEq, Repr, Inhabited

/-- Why a path cannot be used. -/
inductive DiskCause where
  | missing | notDirectory | isDirectory
  deriving DecidableEq, Repr

def DiskCause.text : DiskCause → String
  | .missing => "no such file or directory"
  | .notDirectory => "not a directory"
  | .isDirectory => "is a directory"

/-- What was tried, with which path, and why it failed. -/
structure DiskError where
  action : String
  path : String
  cause : DiskCause
  deriving DecidableEq, Repr

def DiskError.message (failure : DiskError) : String :=
  failure.action ++ " " ++ failure.path ++ ": " ++ failure.cause.text

structure Disk where
  /-- The directory that relative paths start from. -/
  here : Disk.Place := []
  /-- Everything but the top directory. -/
  entries : List (Disk.Place × DiskEntry) := []

namespace Disk

def at? (disk : Disk) (place : Place) : Option DiskEntry :=
  if place = [] then some .directory else disk.entries.lookup place

/-- Puts an entry at a place, whatever was there. -/
def put (disk : Disk) (place : Place) (entry : DiskEntry) : Disk :=
  { disk with entries := (place, entry) :: disk.entries.filter (·.1 ≠ place) }

/-- Takes away a place and everything below it. -/
def remove (disk : Disk) (place : Place) : Disk :=
  { disk with entries := disk.entries.filter fun (other, _) => !place.isPrefixOf other }

/-- The way to a place as a path. -/
def pathOf (place : Place) : String := "/" ++ Text.join "/" place

def herePath (disk : Disk) : String := pathOf disk.here

/-! ### Following paths -/

/-- One part further from a place, which has to be a directory. -/
def step (disk : Disk) (place : Place) (part : String) : Except DiskCause Place :=
  match disk.at? place with
  | none => .error .missing
  | some (.file _) => .error .notDirectory
  | some .directory =>
    if part = "" ∨ part = "." then .ok place
    else if part = ".." then .ok place.dropLast
    else .ok (place ++ [part])

/-- Where a path leads; there need not be anything. -/
def locate (disk : Disk) (path : String) : Except DiskCause Place :=
  if path = "" then .error .missing
  else
    let start := if Text.Path.isAbsolute path then [] else disk.here
    (Text.splitOn '/' path).foldlM disk.step start

/-- What a path leads to. -/
def find (disk : Disk) (path : String) : Except DiskCause (Place × DiskEntry) := do
  let place ← disk.locate path
  match disk.at? place with
  | some entry => return (place, entry)
  | none => throw .missing

def stat (disk : Disk) (path : String) : Except DiskError DiskEntry :=
  match disk.find path with
  | .ok (_, entry) => .ok entry
  | .error cause => .error ⟨"stat", path, cause⟩

/-! ### Files -/

def read (disk : Disk) (path : String) : Except DiskError (List UInt8) :=
  match disk.find path with
  | .ok (_, .file content) => .ok content
  | .ok (_, .directory) => .error ⟨"read", path, .isDirectory⟩
  | .error cause => .error ⟨"open", path, cause⟩

/-- Writes a file, over the one that was there. -/
def write (disk : Disk) (path : String) (content : List UInt8) : Except DiskError Disk :=
  match disk.locate path with
  | .error cause => .error ⟨"open", path, cause⟩
  | .ok place =>
    match disk.at? place with
    | some .directory => .error ⟨"open", path, .isDirectory⟩
    | _ => .ok (disk.put place (.file content))

/-! ### Directories -/

/-- The names in a directory in order, each with what it stands for. -/
def list (disk : Disk) (place : Place) : List (String × DiskEntry) :=
  let inside (entry : Place × DiskEntry) : Option (String × DiskEntry) :=
    match entry.1.getLast? with
    | some name => if entry.1.dropLast = place then some (name, entry.2) else none
    | none => none
  (disk.entries.filterMap inside).mergeSort fun first second => !(second.1 < first.1)

/-- Paths that grow by one part at a time. -/
def growing (front : String) : List String → List String
  | [] => []
  | part :: rest =>
    let path := front ++ part
    (if part = "" then [] else [path]) ++ growing (path ++ "/") rest

/-- Makes a directory and those above it that are missing. -/
def makeDirectories (disk : Disk) (path : String) : Except DiskError Disk :=
  (growing "" (Text.splitOn '/' path)).foldlM
    (fun disk path =>
      match disk.locate path with
      | .error cause => .error ⟨"mkdir", path, cause⟩
      | .ok place =>
        match disk.at? place with
        | some .directory => .ok disk
        | some (.file _) => .error ⟨"mkdir", path, .notDirectory⟩
        | none => .ok (disk.put place .directory))
    disk

/-- A disk that has a working directory and nothing else. -/
def empty (here : Place) : Disk :=
  { here, entries := (List.range here.length).map fun count => (here.take (count + 1), .directory) }

/-- How many bytes all files have together. -/
def size (disk : Disk) : Nat :=
  let sizes := disk.entries.map fun
    | (_, .file content) => content.length
    | (_, .directory) => 0
  sizes.foldr (· + ·) 0

/-! ### Laws -/

theorem at?_put_self (disk : Disk) (place : Place) (entry : DiskEntry) (below : place ≠ []) :
    (disk.put place entry).at? place = some entry := by
  simp [at?, put, below]

theorem at?_put_other (disk : Disk) (place other : Place) (entry : DiskEntry)
    (different : other ≠ place) : (disk.put place entry).at? other = disk.at? other := by
  unfold at? put
  by_cases top : other = []
  · simp [top]
  · simp only [top, if_false]
    rw [List.lookup_cons]
    have apart : (other == place) = false := by simpa using different
    rw [apart]
    simp only
    induction disk.entries with
    | nil => rfl
    | cons first rest inductionHypothesis =>
      obtain ⟨found, value⟩ := first
      by_cases same : found = place
      · simpa [same, List.lookup_cons, apart] using inductionHypothesis
      · simp only [List.filter_cons, ne_eq, same, not_false_eq_true, decide_true, if_true,
          List.lookup_cons, inductionHypothesis]

end Disk

end TreeCheck
