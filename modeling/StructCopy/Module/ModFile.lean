/-
  Module/ModFile: what a `go.mod` file declares.

  Only the module path and the `require` and `replace` directives are read; other
  directives, comments and lines that are incomplete are passed over.
-/
import StructCopy.Text.Split

set_option autoImplicit false

namespace StructCopy.Module

/-- `require path version` -/
structure Requirement where
  path : String
  version : String
  deriving DecidableEq, Repr

/-- `replace path => target version`; a target without a version is a directory. -/
structure Replacement where
  path : String
  target : String
  version : Option String
  deriving DecidableEq, Repr

/-- A directive that says where a dependency comes from. -/
inductive Directive where
  | require (r : Requirement)
  | replace (r : Replacement)
  deriving DecidableEq, Repr

/-! ## Lines -/

/-- A line without its comment and the white space around it. -/
def content (line : List Char) : List Char :=
  Text.trim (Text.upTo "//".toList line)

/-- The words of a text, without the quotation marks around them. -/
def bareWords (s : List Char) : List String :=
  (Text.words s).map fun word => String.ofList (Text.trimQuotes word)

/-- The first word of a line and the text behind the white space that ends it. -/
def verbAndRest? (s : List Char) : Option (List Char × List Char) :=
  match s.dropWhile fun c => !Text.isBlank c with
  | [] => none
  | _ :: rest => some (s.takeWhile fun c => !Text.isBlank c, Text.trim rest)

/-! ## Module path -/

/-- The path in a line that is a `module` directive. -/
def modulePathIn? (line : List Char) : Option String :=
  match Text.after? "module".toList (content line) with
  | some (c :: rest) =>
    if Text.isBlank c then
      let path := Text.trimQuotes (Text.trim (c :: rest))
      if path.isEmpty then none else some (String.ofList path)
    else none
  | _ => none

/-- The path of the first `module` directive. -/
def modulePath? (text : String) : Option String :=
  (Text.lines text.toList).findSome? modulePathIn?

/-! ## Dependencies -/

/-- The directive with the given verb and body, if it is one that counts and is complete. -/
def directive? (verb body : List Char) : Option Directive :=
  if verb = "require".toList then
    match bareWords body with
    | path :: version :: _ => some (.require ⟨path, version⟩)
    | _ => none
  else if verb = "replace".toList then
    match Text.cut? "=>".toList body with
    | some (old, new) =>
      match bareWords old, bareWords new with
      | path :: _, target :: more => some (.replace ⟨path, target, more.head?⟩)
      | _, _ => none
    | none => none
  else none

/-- The directives in some lines. `block` is the verb of the parenthesised block that is open. -/
def directives (block : Option (List Char)) : List (List Char) → List Directive
  | [] => []
  | raw :: rest =>
    let line := content raw
    if line.isEmpty then directives block rest
    else
      match block with
      | some verb =>
        if line = [')'] then directives none rest
        else (directive? verb line).toList ++ directives block rest
      | none =>
        match verbAndRest? line with
        | none => directives none rest
        | some (verb, body) =>
          if body = ['('] then directives (some verb) rest
          else (directive? verb body).toList ++ directives none rest

/-- The directives of a `go.mod` text. -/
def dependencies (text : String) : List Directive :=
  directives none (Text.lines text.toList)

/-- The requirements among some directives. -/
def requirements (ds : List Directive) : List Requirement :=
  ds.filterMap fun
    | .require r => some r
    | .replace _ => none

/-- The replacements among some directives. -/
def replacements (ds : List Directive) : List Replacement :=
  ds.filterMap fun
    | .replace r => some r
    | .require _ => none

/-- What a `go.mod` file declares. -/
structure ModFile where
  path : String
  requires : List Requirement
  replaces : List Replacement
  deriving DecidableEq, Repr

/-- Reads a `go.mod` text; without a module path it is of no use. -/
def ModFile.ofText? (text : String) : Option ModFile :=
  (modulePath? text).map fun path =>
    ⟨path, requirements (dependencies text), replacements (dependencies text)⟩

end StructCopy.Module
