/-
  Aliases: the names under which generated code imports packages.

  A path with a slash gets the name `ref1`, `ref2`, and so on, in the order of first
  registration.  A path without a slash keeps its own name.  Space and quotation
  marks around a path do not count, and an empty path is never registered.
-/
import StructCopy.Text.Letter
import StructCopy.Text.Split

set_option autoImplicit false

namespace StructCopy

/-- Import paths in the order of their first registration. -/
structure Aliases where
  /-- the paths with a slash; the first one is `ref1` -/
  numbered : List String
  /-- the paths without a slash -/
  plain : List String
  deriving DecidableEq, Repr, Inhabited

namespace Aliases

/-- No paths. -/
def empty : Aliases := ⟨[], []⟩

/-- A path without the space and the quotation marks around it. -/
def normal (path : String) : String :=
  String.ofList (Text.trimQuotes (Text.trim path.toList))

/-- The path contains a slash. -/
def isNumbered (path : String) : Bool :=
  path.toList.contains '/'

/-- The name at a position of the numbered paths. -/
def aliasAt (position : Nat) : String :=
  "ref" ++ toString (position + 1)

/-! ## Registration -/

/-- A list with one more element at its end, unless it has it already. -/
def addOnce (paths : List String) (path : String) : List String :=
  if paths.contains path then paths else paths ++ [path]

/-- Registers a path. -/
def register (a : Aliases) (path : String) : Aliases :=
  let path := normal path
  if path.isEmpty then a
  else if isNumbered path then { a with numbered := addOnce a.numbered path }
  else { a with plain := addOnce a.plain path }

/-- Registers paths one after another. -/
def registerAll (a : Aliases) (paths : List String) : Aliases :=
  paths.foldl register a

/-! ## Names -/

/-- The name of a numbered path; empty for one that is not registered. -/
def aliasOf (a : Aliases) (path : String) : String :=
  match a.numbered.idxOf? (normal path) with
  | some position => aliasAt position
  | none => ""

/-- The name that code puts before what it takes from a path. -/
def qualifierFor (a : Aliases) (path : String) : String :=
  let path := normal path
  if !path.isEmpty && !isNumbered path then path else a.aliasOf path

/-- The numbered paths with their names. -/
def bindings (a : Aliases) : List (String × String) :=
  a.numbered.zipIdx.map fun entry => (aliasAt entry.2, entry.1)

/-! ## The import block -/

/-- A character after which a name is part of a longer name or a selector. -/
def joinsBefore (c : Char) : Bool :=
  Text.isWordPart c || c == '.'

/-- Whether `mark` stands somewhere in the text without a joining character before it. Places
where `mark` stands do not overlap. `before` is the character before the text, and `skip` more
characters belong to a place already seen. -/
def standsFree (mark : List Char) (before : Option Char) (skip : Nat) : List Char → Bool
  | [] => false
  | c :: s =>
    match skip with
    | skip + 1 => standsFree mark (some c) skip s
    | 0 =>
      if mark.isPrefixOf (c :: s) then
        !(before.map joinsBefore).getD false || standsFree mark (some c) (mark.length - 1) s
      else standsFree mark (some c) 0 s

/-- Whether code takes something from the package with the given qualifier. -/
def references (code qualifier : String) : Bool :=
  standsFree (qualifier.toList ++ ['.']) none 0 code.toList

/-- The lines of the import block for some code: the packages that the code refers to, those
without a slash first. -/
def importLines (a : Aliases) (code : String) : List String :=
  ((a.plain.filter (references code)).map fun path => "\t\"" ++ path ++ "\"") ++
    ((a.bindings.filter fun b => references code b.1).map fun b =>
      "\t" ++ b.1 ++ " \"" ++ b.2 ++ "\"")

/-- The import block for some code, empty if the code refers to no package. -/
def render (a : Aliases) (code : String) : String :=
  let lines := a.importLines code
  if lines.isEmpty then ""
  else "import (\n" ++ String.intercalate "\n" lines ++ "\n)\n"

end Aliases

end StructCopy
