/-
  Yaml/Directive: the lines before a document that say how it is to be read.

  One directive gives the version of the language, another gives a handle for tags.
  There are no others.
-/
import StructCopy.Yaml.Tag

set_option autoImplicit false

namespace StructCopy.Yaml

/-- A directive. -/
inductive Directive where
  /-- the version that the document is written for -/
  | version (major minor : Nat)
  /-- the beginning of tags that a handle stands for -/
  | handle (name stem : String)
  deriving DecidableEq, Repr

/-- A number of a version, of nine digits at most, and the text behind it. -/
def versionNumber (cs : List Char) : Option (Nat × List Char) :=
  let digits := cs.takeWhile Char.isDigit
  if digits.isEmpty ∨ 9 < digits.length then none
  else some (digits.foldl (fun n c => 10 * n + (c.toNat - '0'.toNat)) 0, cs.dropWhile Char.isDigit)

/-- The name of a handle, and the text behind it. -/
def handleName : List Char → Option (String × List Char)
  | '!' :: cs =>
    match cs.takeWhile isNameChar, cs.dropWhile isNameChar with
    | name, '!' :: rest => some ("!" ++ String.ofList name ++ "!", rest)
    | [], rest => some ("!", rest)
    | _, _ => none
  | _ => none

/-- The text behind white space, of which there is some. -/
def pastWhite? (cs : List Char) : Option (List Char) :=
  if (cs.head?.map isWhite).getD false then some (cs.dropWhile isWhite) else none

/-- A directive from behind its percent sign, and the text behind it on its line. -/
def directiveBody (cs : List Char) : Option (Directive × List Char) := do
  let rest ← pastWhite? (cs.dropWhile isNameChar)
  match String.ofList (cs.takeWhile isNameChar) with
  | "YAML" =>
    match ← versionNumber rest with
    | (major, '.' :: rest) => do
      let (minor, rest) ← versionNumber rest
      return (.version major minor, rest)
    | _ => none
  | "TAG" => do
    let (name, rest) ← handleName rest
    let (stem, rest) ← someTagText true (← pastWhite? rest)
    if atSpacing rest then return (.handle name stem, rest) else none
  | _ => none

/-- Reads a directive from its percent sign on, with its line. -/
def directive (cs : List Char) : Found Directive cs := do
  let (directive, rest) ← directiveBody cs.tail
  let rest ← pastLine? rest
  if h : rest.length < cs.length then return (directive, ⟨rest, h⟩) else none

end StructCopy.Yaml
