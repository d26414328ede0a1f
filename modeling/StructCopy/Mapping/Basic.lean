/-
  Mapping/Basic: what is to be mapped, and how.
-/
import StructCopy.Fields.Basic
import StructCopy.Go.Tag

set_option autoImplicit false

namespace StructCopy

/-! ## Conversions -/

/-- A template for an assignment; `fallible` says that the assignment may fail. -/
structure ConversionTemplate where
  template : Template
  fallible : Bool

/-- How to convert between two types. The reverse template converts back. -/
structure ConversionRule where
  sourceType : TypeTemplate
  destType : TypeTemplate
  forward : ConversionTemplate
  reverse : Option ConversionTemplate
  imports : List String

/-! ## Mappings -/

/-- An explicit choice of the source for some destination fields. The tags are looked up under
`tagKey`, or under the key of the mapping if that is absent. -/
structure FieldOverride where
  sourceField : Option String
  destField : Option String
  sourceTag : Option String
  destTag : Option String
  tagKey : Option String
  deriving DecidableEq, Repr

/-- A further argument of a function, assigned to one destination field. -/
structure AdditionalArg where
  name : String
  destField : String
  type : TypeTemplate

/-- A function to be generated: from one struct type to another. -/
structure MappingSpec where
  source : TypeTemplate
  dest : TypeTemplate
  sourceKey : TypeKey
  destKey : TypeKey
  funcName : Option String
  args : List AdditionalArg
  overrides : List FieldOverride
  conversions : List ConversionRule
  tagKey : Option String

namespace MappingSpec

/-- The name of the function. -/
def functionName (m : MappingSpec) : String :=
  m.funcName.getD ("Map" ++ m.sourceKey.name ++ "To" ++ m.destKey.name)

/-- The tag key of the mapping. -/
def tagKeyOr (m : MappingSpec) (default : String) : String :=
  m.tagKey.getD default

/-- The argument assigned to a destination field. -/
def argFor? (m : MappingSpec) (destField : String) : Option AdditionalArg :=
  m.args.find? fun arg => arg.destField == destField

/-- The mapping in messages. -/
def label (m : MappingSpec) : String :=
  m.source.unaliased ++ " -> " ++ m.dest.unaliased

end MappingSpec

/-- Everything that a mapping document says. -/
structure MappingConfig where
  packageName : String
  fileName : String
  filePath : String
  defaultTag : String
  debug : Bool
  mappings : List MappingSpec

end StructCopy
