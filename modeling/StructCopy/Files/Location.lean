/-
  Files/Location: normal forms of paths.

  The location of a path has its `.` steps left out and every `..` carried out
  against the step before it.  A `..` with nothing before it is left out too, and
  one directly behind the root takes the root away.
-/
import StructCopy.Files.Path

set_option autoImplicit false

namespace StructCopy.Files

/-- A step of a location. -/
inductive Part where
  | root
  | name (name : String)
  deriving DecidableEq, Repr

/-- A path in normal form. -/
structure Location where
  parts : List Part
  deriving DecidableEq, Repr

namespace Location

/-- The location reached from another one by a step of a path. -/
def step (l : Location) : Path.Component → Location
  | .root => ⟨l.parts ++ [.root]⟩
  | .here => l
  | .up => ⟨l.parts.dropLast⟩
  | .name n => ⟨l.parts ++ [.name n]⟩

/-- The location that a path leads to. -/
def ofPath (p : Path) : Location :=
  p.components.foldl step ⟨[]⟩

/-- The names on the way to a location. -/
def names (l : Location) : List String :=
  l.parts.filterMap fun
    | .name n => some n
    | .root => none

/-- The location as a path. -/
def path (l : Location) : Path :=
  ⟨(if l.parts.head? = some .root then "/" else "") ++ String.intercalate "/" l.names⟩

/-- The location `l` is strictly below `d`. -/
def isBelow (l d : Location) : Bool :=
  d.parts.isPrefixOf l.parts && l != d

/-- The name of the entry `l` of the directory `d`, if it is one. -/
def entryName? (d l : Location) : Option String :=
  match l.parts.getLast? with
  | some (.name n) => if l.parts.dropLast = d.parts then some n else none
  | _ => none

end Location

end StructCopy.Files
