/-
  Files/Source: reading files without saying where they are kept.

  Everything that loads packages works over a `FileSource`.  A source answers the
  same question always the same way, and holds finitely many files: `finite` names
  the pairs of file name and text that listing and reading can bring up.
-/
import StructCopy.Files.Location

set_option autoImplicit false

namespace StructCopy.Files

/-- Why a file or directory cannot be used. -/
inductive FileError where
  /-- no such file among stored files -/
  | noStoredFile (location : Location)
  /-- no such directory among stored files -/
  | noStoredDirectory (location : Location)
  | notFound
  | alreadyExists
  | notADirectory
  | isADirectory
  /-- the path holds a null character -/
  | nullCharacter
  deriving DecidableEq, Repr

/-- The message for an error. -/
def FileError.message : FileError → String
  | .noStoredFile l => "file not found in memory: " ++ l.path.text
  | .noStoredDirectory l => "directory not found in memory: " ++ l.path.text
  | .notFound => "No such file or directory (os error 2)"
  | .alreadyExists => "File exists (os error 17)"
  | .notADirectory => "Not a directory (os error 20)"
  | .isADirectory => "Is a directory (os error 21)"
  | .nullCharacter => "file name contained an unexpected NUL byte"

/-- A file in a directory. -/
structure Entry where
  name : String
  path : Path
  deriving DecidableEq, Repr

/-- A place to read files from. -/
structure FileSource where
  /-- the text of a file -/
  read : Path → Except FileError String
  /-- the files directly inside a directory, in the order of their names -/
  list : Path → Except FileError (List Entry)
  isDirectory : Path → Bool
  /-- there are finitely many files -/
  finite : ∃ known : List (String × String), ∀ dir entries entry text,
    list dir = .ok entries → entry ∈ entries → read entry.path = .ok text →
      (entry.name, text) ∈ known

end StructCopy.Files
