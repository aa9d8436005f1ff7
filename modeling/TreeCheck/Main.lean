/-
The program. What a command may read is copied onto a disk in memory, the command runs
there, and what it has changed is written back.
-/

import TreeCheck.CommandLine.Run

namespace TreeCheck.Main

/-- The names from the top directory down. -/
def placeOf (path : String) : Disk.Place := Text.Path.cleanSegments path

/-! ### Reading -/

/-- How many levels below a directory are copied. -/
def levels : Nat := 4

/-- Only files that a command can make sense of are read; others are just there. -/
def isRead (name : String) : Bool :=
  Text.Path.extension name ∈ [".json", ".sbt", ".toml"] ||
    name = CommandLine.History.fileName

def contentOf (place : Disk.Place) : IO (List UInt8) := do
  if isRead (place.getLast?.getD "") then
    return (← IO.FS.readBinFile (Disk.pathOf place)).toList
  else return []

def isDirectory (place : Disk.Place) : IO Bool := do
  try return ← (← IO.FS.realPath (Disk.pathOf place)).isDir
  catch _ => return false

/-- Copies a file if there is one that can be read. -/
def copyFile (place : Disk.Place) (disk : Disk) : IO Disk := do
  try return disk.put place (.file (← contentOf place))
  catch _ => return disk

/-- Copies a directory with what is in it, down to some levels. -/
partial def copyDirectory (levels : Nat) (place : Disk.Place) (disk : Disk) : IO Disk := do
  if !(← isDirectory place) then copyFile place disk
  else
    let mut disk := disk.put place .directory
    if levels ≠ 0 then
      for entry in ← (← IO.FS.realPath (Disk.pathOf place)).readDir do
        disk ← copyDirectory (levels - 1) (place ++ [entry.fileName]) disk
    return disk

/-- Copies the directories above a place, with the settings files in them. -/
def copyAbove (place : Disk.Place) (disk : Disk) : IO Disk := do
  let mut disk := disk
  for count in List.range place.length do
    let above := place.take count
    if above ≠ [] then disk := disk.put above .directory
    disk ← copyFile (above ++ [Settings.fileName]) disk
  return disk

/-- The places that the words of a command line may name. -/
def placesOf (here : Disk.Place) (words : List String) : List Disk.Place :=
  let ofWord (word : String) : Disk.Place :=
    let path := String.ofList (word.toList.reverse.takeWhile (· ≠ '=')).reverse
    placeOf (if Text.Path.isAbsolute path then path else Disk.pathOf here ++ "/" ++ path)
  (words.map ofWord).eraseDups

/-- Everything a command may read: what is in the working directory, what its words name with
what lies beside it, and what is kept for the user. -/
def copyAll (here home : Disk.Place) (words : List String) : IO Disk := do
  let mut disk ← copyDirectory levels here (← copyAbove here { here })
  for place in placesOf here words do
    if !here.isPrefixOf place ∧ (← isDirectory place.dropLast) then
      disk ← copyDirectory 2 place.dropLast (← copyAbove place.dropLast disk)
  disk ← copyFile (home ++ [CommandLine.History.fileName]) (← copyAbove home disk)
  if !here.isPrefixOf home then
    disk ← copyDirectory levels (home ++ [".cache", CommandLine.Command.program]) disk
  return disk

/-! ### Writing -/

/-- Writes back what was changed. -/
def writeBack (before after : Disk) : IO Unit := do
  for (place, entry) in after.entries.reverse do
    if before.at? place ≠ some entry then
      match entry with
      | .directory => IO.FS.createDirAll (Disk.pathOf place)
      | .file content => IO.FS.writeBinFile (Disk.pathOf place) ⟨content.toArray⟩
  for (place, entry) in before.entries do
    if entry ≠ .directory ∧ (after.at? place).isNone then IO.FS.removeFile (Disk.pathOf place)

/-! ### Input -/

partial def readAll (input : IO.FS.Stream) (read : ByteArray) : IO ByteArray := do
  let more ← input.read 4096
  if more.isEmpty then return read else readAll input (read ++ more)

/-- The input of a command that reads any. -/
def inputFor (words : List String) : IO (List UInt8) := do
  match CommandLine.findCommand words with
  | .ok (.repl, _) => return (← readAll (← IO.getStdin) .empty).toList
  | _ => return []

end TreeCheck.Main

open TreeCheck in
def main (words : List String) : IO UInt32 := do
  let here := Main.placeOf (← IO.currentDir).toString
  let home := Main.placeOf ((← IO.getEnv "HOME").getD "/")
  let disk ← Main.copyAll here home words
  let (status, console) := CommandLine.run words
    { disk, home := Disk.pathOf home, input := ← Main.inputFor words }
  (← IO.getStdout).putStr console.output
  (← IO.getStderr).putStr console.errors
  Main.writeBack disk console.disk
  return UInt32.ofNat status
