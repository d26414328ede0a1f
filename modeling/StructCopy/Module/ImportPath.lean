/-
  Module/ImportPath: import paths as texts.

  How a path relates to the path of a module, how it is spelled in the module
  cache, and which package name it suggests.
-/
import StructCopy.Text.Split

set_option autoImplicit false

namespace StructCopy.Module

/-- What a path adds to the path of a module: nothing for the module itself and for the empty
path, the part behind the slash for a path below the module. -/
def within? (path module : String) : Option String :=
  if path.isEmpty || path == module then some ""
  else
    match Text.after? module.toList path.toList with
    | some ('/' :: rest) => some (String.ofList rest)
    | _ => none

/-- A path of the standard library has no dot in its first segment. -/
def isStandard (path : String) : Bool :=
  !path.isEmpty && !(path.toList.takeWhile (· != '/')).contains '.'

/-! ## Module cache -/

/-- How a letter is spelled in the module cache: an upper-case one becomes `!` and its lower-case
form. -/
def escapeChar (c : Char) : List Char :=
  if c.isUpper then ['!', c.toLower] else [c]

/-- How a text is spelled in the module cache. -/
def escape (text : String) : String :=
  String.ofList (text.toList.flatMap escapeChar)

/-- The directory of a module version in the module cache. -/
def cacheName (path version : String) : String :=
  escape path ++ "@" ++ escape version

/-! ## Package names -/

/-- A major version: `v` and digits. -/
def isMajorVersion : List Char → Bool
  | 'v' :: digits => !digits.isEmpty && digits.all Char.isDigit
  | _ => false

/-- The segments of a path, a major version at the end of a longer path left out. -/
def nameSegments (path : List Char) : List (List Char) :=
  let segments := Text.splitAt '/' (Text.dropEndWhile (· == '/') path)
  match segments.reverse with
  | last :: before :: rest => if isMajorVersion last then (before :: rest).reverse else segments
  | _ => segments

/-- A name without the major version behind its last dot. -/
def withoutVersion (name : List Char) : List Char :=
  match (Text.splitAt '.' name).reverse with
  | version :: before :: rest =>
    if isMajorVersion version then List.intercalate ['.'] (before :: rest).reverse else name
  | _ => name

/-- The package name that a path suggests: its last segment that is no version, without a
version behind a dot, and only what follows the last hyphen. -/
def guessName (path : String) : String :=
  let name := withoutVersion ((nameSegments path.toList).getLast?.getD path.toList)
  let name := (Text.after? "go-".toList name).getD name
  String.ofList ((Text.splitAt '-' name).getLast?.getD name)

end StructCopy.Module
