/-
  Go/SourceFile: what is kept of a source file.

  A file is its package clause, its imports and its type declarations; functions,
  variables and constants are passed over when it is read.
-/
import StructCopy.Go.TypeExpr

set_option autoImplicit false

namespace StructCopy.Go

/-- An import. The name is absent in a plain import, and may be `_` or `.`. -/
structure Import where
  line : Nat
  name : Option String
  path : String
  deriving DecidableEq, Repr

/-- A type declaration; `isAlias` marks one written with `=`. -/
structure TypeDecl where
  line : Nat
  name : String
  /-- names of the type parameters -/
  params : List String
  isAlias : Bool
  type : TypeExpr

/-- A source file. -/
structure SourceFile where
  name : String
  package : String
  imports : List Import
  types : List TypeDecl

end StructCopy.Go
