/-
  Main: the command.

  A run is a function of a disk, and the real disk is too large to be read as a whole.
  So the command is first run on a disk that holds nothing but the way to the working
  directory.  What it looks at is then read, and it is run again, until it looks at
  nothing new.  Only then are the changes of the last run made and its output printed.
-/
import StructCopy.CommandLine.Run

set_option autoImplicit false

namespace StructCopy.CommandLine

open StructCopy.Files

/-! ## The real disk -/

/-- The text that leads to a place. -/
def absolute (place : Place) : String :=
  "/" ++ String.intercalate "/" place

/-- The text of a file, empty if it cannot be read. -/
def contents (place : Place) : IO String := do
  match ← EIO.toBaseIO (IO.FS.readFile (absolute place)) with
  | .ok text => return text
  | .error _ => return ""

/-- What is at a place. -/
def probe (place : Place) : IO (Option Item) := do
  let path := (← IO.currentDir) / absolute place
  if ← path.isDir then return some .directory
  else if ← path.pathExists then return some (.file (← contents place))
  else return none

/-- The names of what is in a directory. -/
def namesIn (place : Place) : IO (List String) := do
  let path := (← IO.currentDir) / absolute place
  return (← path.readDir).toList.map (·.fileName)

/-- The disk with what is at a place. -/
def learn (disk : Disk) (place : Place) : IO Disk := do
  match ← probe place with
  | some item => return disk.insert place item
  | none => return disk

/-- The disk with what is on the way to a path, and with what is in the directory that it may
lead to. -/
def learnPath (disk : Disk) (p : Files.Path) : IO Disk := do
  let places := disk.placesOn p
  let disk ← (places.filter (!List.isEmpty ·)).foldlM learn disk
  match disk.place p with
  | .ok place =>
    if disk.item? place = some .directory then
      (← namesIn place).foldlM (fun disk name => learn disk (place ++ [name])) disk
    else return disk
  | .error _ => return disk

/-! ## Running -/

/-- Runs the command until it looks at nothing that is not known. -/
partial def settle (disk : Disk) (known : List Files.Path) (vars : Variables) (args : List String) :
    IO (Disk × Outcome) := do
  let outcome := run disk (buildEnv vars) args
  match outcome.looked.filter (!known.contains ·) with
  | [] => return (disk, outcome)
  | new => settle (← new.foldlM learnPath disk) (known ++ new) vars args

/-- Makes a change on the real disk. -/
def realize (change : Place × Item) : IO Unit :=
  match change.2 with
  | .directory => IO.FS.createDirAll (absolute change.1)
  | .file text => IO.FS.writeFile (absolute change.1) text

/-- The names on the way to the working directory. -/
def workingDirectory : IO Place := do
  let text := (← IO.currentDir).toString
  return ((Text.splitAt '/' text.toList).map String.ofList).filter (!String.isEmpty ·)

/-- The variables that matter, as they are set. -/
def environment : IO Variables := do
  let values ← variableNames.mapM fun name => return (name, ← IO.getEnv name)
  return fun name => (values.lookup name).join

/-- Carries out the arguments on the real disk; the result is the exit status. -/
def perform (args : List String) : IO UInt32 := do
  let (before, outcome) ← settle (.empty (← workingDirectory)) [] (← environment) args
  (outcome.disk.changesSince before).forM realize
  IO.print outcome.stdout
  IO.eprint outcome.stderr
  return outcome.code.toUInt32

end StructCopy.CommandLine

/-- The command. -/
def main (args : List String) : IO UInt32 :=
  StructCopy.CommandLine.perform args
