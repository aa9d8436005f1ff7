/-
Slash-separated paths, handled as text alone. Units and files are identified by their
cleaned path: no empty or `.` segment, and `..` only at the front of a relative path.
-/

import TreeCheck.Text.Split

namespace TreeCheck.Text.Path

def isAbsolute (path : String) : Bool := path.toList.head? = some '/'

/-- Drops a segment behind the segments kept so far, which stand in reverse. -/
def stepSegment (rooted : Bool) (kept : List String) (segment : String) : List String :=
  if segment = "" ∨ segment = "." then kept
  else if segment = ".." then
    match kept with
    | [] => if rooted then [] else [".."]
    | last :: earlier => if last = ".." then ".." :: kept else earlier
  else segment :: kept

/-- The segments of the cleaned path. -/
def cleanSegments (path : String) : List String :=
  ((splitOn '/' path).foldl (stepSegment (isAbsolute path)) []).reverse

/-- The shortest path that means the same: `a//b/./../c` becomes `a/c`, nothing becomes
`.`. -/
def clean (path : String) : String :=
  let body := join "/" (cleanSegments path)
  if isAbsolute path then "/" ++ body else if body = "" then "." else body

/-- Cuts what the two lists have in common at the front. -/
def dropCommon : List String → List String → List String × List String
  | [], target => ([], target)
  | base, [] => (base, [])
  | first :: base, second :: target =>
    if first = second then dropCommon base target else (first :: base, second :: target)

/-- How to reach `target` from the directory `base`; there is no way between an absolute and
a relative path, nor out of a base that begins with `..` below the common part. -/
def relativeTo? (base target : String) : Option String :=
  if clean base = clean target then some "."
  else if isAbsolute base ≠ isAbsolute target then none
  else
    let (up, down) := dropCommon (cleanSegments base) (cleanSegments target)
    if up.head? = some ".." then none
    else some (join "/" (up.map (fun _ => "..") ++ down))

/-- The last segment, without trailing slashes. -/
def baseName (path : String) : String :=
  if path = "" then "."
  else
    match ((splitOn '/' path).filter (· ≠ "")).getLast? with
    | some segment => segment
    | none => "/"

/-- Everything in front of the last segment, cleaned. -/
def directory (path : String) : String :=
  match (splitOn '/' path).reverse with
  | [] => "."
  | [_] => "."
  | _ :: front => clean (join "/" front.reverse ++ "/")

/-- From the last dot of the last segment on; empty when it has none. -/
def extension (path : String) : String :=
  match (splitOn '/' path).getLast? with
  | none => ""
  | some segment =>
    match (splitOn '.' segment).reverse with
    | [] => ""
    | [_] => ""
    | last :: _ => "." ++ last

/-- The path without its extension. -/
def withoutExtension (path : String) : String :=
  String.ofList (path.toList.take (path.length - (extension path).length))

/-- Joins the parts that are not empty, and cleans. -/
def joinAll (parts : List String) : String :=
  match parts.filter (· ≠ "") with
  | [] => ""
  | given => clean (join "/" given)

end TreeCheck.Text.Path
