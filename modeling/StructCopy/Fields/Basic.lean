/-
  Fields/Basic: struct types by name, their fields, and what can go wrong on the way
  from one to the other.
-/
import StructCopy.Module.Package
import StructCopy.Template.TypeTemplate

set_option autoImplicit false

namespace StructCopy

open StructCopy.Module (LoadError)

/-! ## Types by name -/

/-- A type by its module and its name; the empty module is the root of the main module. -/
structure TypeKey where
  module : String
  name : String
  deriving DecidableEq, Repr

/-- The key in messages. -/
def TypeKey.print (k : TypeKey) : String :=
  if k.module.isEmpty then k.name else k.module ++ "." ++ k.name

/-! ## Fields -/

/-- A field of a struct whose embedded members have been expanded. -/
structure StructField where
  name : String
  /-- the raw tag, empty if there is none -/
  tag : String
  type : TypeTemplate

/-! ## Errors -/

/-- Why a type has no field list. -/
inductive ResolveError where
  | load (path : String) (cause : LoadError)
  | typeNotFound (path name : String)
  /-- the last key of the chain stands in it before -/
  | circular (chain : List TypeKey)
  | notAStruct (key : TypeKey) (found : Go.TypeExpr)
  | unsupportedAlias (key : TypeKey) (target : Go.TypeExpr)
  | unsupportedEmbedded (key : TypeKey) (member : Go.TypeExpr)
  /-- no import of a file in a package binds the qualifier -/
  | importNotFound (qualifier path file : String)
  | template (e : TemplateError)

/-- The message for an error. -/
def ResolveError.message : ResolveError → String
  | .load path cause => "failed to load package '" ++ path ++ "': " ++ cause.message
  | .typeNotFound path name => "type " ++ name ++ " not found in package '" ++ path ++ "'"
  | .circular chain =>
    "circular type reference detected: " ++ String.intercalate " → " (chain.map TypeKey.print)
  | .notAStruct key found => "type " ++ key.print ++ " is not a struct type: " ++ found.print
  | .unsupportedAlias key target =>
    "unsupported alias target for " ++ key.print ++ ": " ++ target.print
  | .unsupportedEmbedded key member =>
    "unsupported embedded field '" ++ member.print ++ "' in " ++ key.print
  | .importNotFound qualifier path file =>
    "import not found for package '" ++ qualifier ++ "' in " ++ file ++ " of '" ++ path ++ "'"
  | .template e => e.message

end StructCopy
