/-
  Config/Document: the two documents that a user writes.

  The mapping document names the functions to be generated, the conversions document
  lists rules that all of them may use.  Here a document is only known to have the
  right shape: its templates are texts, and nothing is said about them yet.
-/
import StructCopy.Mapping.Basic
import StructCopy.Yaml.Document
import StructCopy.Yaml.Shape

set_option autoImplicit false

namespace StructCopy

open StructCopy.Yaml (Node Extract)

/-! ## Entries -/

/-- A struct type: a type template and its imports. -/
structure TypeEntry where
  type : String
  imports : List String
  deriving DecidableEq, Repr

/-- A further argument of a function. -/
structure ArgEntry where
  name : String
  destField : String
  type : String
  imports : List String
  deriving DecidableEq, Repr

/-- The template of a conversion, empty if none is given. -/
structure TemplateEntry where
  text : String
  fallible : Bool
  deriving DecidableEq, Repr

/-- A conversion rule. -/
structure ConversionEntry where
  sourceType : String
  destType : String
  forward : TemplateEntry
  reverse : Option TemplateEntry
  imports : List String
  deriving DecidableEq, Repr

/-- A function to be generated. -/
structure MappingEntry where
  source : TypeEntry
  dest : TypeEntry
  funcName : Option String
  args : List ArgEntry
  overrides : List FieldOverride
  conversions : List ConversionEntry
  tagKey : Option String
  deriving DecidableEq, Repr

/-- The mapping document. -/
structure MappingDocument where
  packageName : String
  fileName : Option String
  filePath : Option String
  defaultTag : Option String
  debug : Bool
  mappings : List MappingEntry
  deriving DecidableEq, Repr

/-! ## Reading -/

/-- Reads a struct type. -/
def TypeEntry.ofNode (node : Node) : Extract TypeEntry := do
  let record ← node.record
  return ⟨← record.required "type" Node.text, ← record.list "imports" Node.text⟩

/-- Reads a further argument. -/
def ArgEntry.ofNode (node : Node) : Extract ArgEntry := do
  let record ← node.record
  return ⟨← record.required "name" Node.text, ← record.required "dest_field" Node.text,
    ← record.required "type" Node.text, ← record.list "imports" Node.text⟩

/-- Reads a choice of a source. -/
def FieldOverride.ofNode (node : Node) : Extract FieldOverride := do
  let record ← node.record
  return ⟨← record.optionalText "source_field", ← record.optionalText "dest_field",
    ← record.optionalText "source_tag", ← record.optionalText "dest_tag",
    ← record.optionalText "tag"⟩

/-- Reads the template of a conversion. -/
def TemplateEntry.ofNode (node : Node) : Extract TemplateEntry := do
  let record ← node.record
  return ⟨← record.valueOr "tmpl" "" Node.text, ← record.valueOr "error" false Node.truth⟩

/-- Reads a conversion rule. -/
def ConversionEntry.ofNode (node : Node) : Extract ConversionEntry := do
  let record ← node.record
  return ⟨← record.required "source_type" Node.text, ← record.required "dest_type" Node.text,
    ← record.required "conversion" TemplateEntry.ofNode,
    ← record.valueOr "reverse_conversion" none (Node.optional TemplateEntry.ofNode),
    ← record.list "imports" Node.text⟩

/-- Reads a function to be generated. -/
def MappingEntry.ofNode (node : Node) : Extract MappingEntry := do
  let record ← node.record
  return ⟨← record.required "from" TypeEntry.ofNode, ← record.required "to" TypeEntry.ofNode,
    ← record.optionalText "func_name", ← record.list "func_additional_args" ArgEntry.ofNode,
    ← record.list "custom_field_mappings" FieldOverride.ofNode,
    ← record.list "custom_conversions" ConversionEntry.ofNode, ← record.optionalText "tag"⟩

/-- Reads the mapping document. -/
def MappingDocument.ofNode (node : Node) : Extract MappingDocument := do
  let record ← node.record
  return ⟨← record.required "out_package_name" Node.text, ← record.optionalText "out_file_name",
    ← record.optionalText "out_file_path", ← record.optionalText "default_tag",
    ← record.valueOr "debug" false Node.truth, ← record.list "mappings" MappingEntry.ofNode⟩

/-- The mapping document that a text holds. -/
def MappingDocument.ofText? (text : String) : Option MappingDocument := do
  Extract.ofRoot? MappingDocument.ofNode (← Node.ofText? text)

/-- Reads the conversions document. -/
def conversionsOfNode (node : Node) : Extract (List ConversionEntry) := do
  (← node.record).list "conversions" ConversionEntry.ofNode

/-- The conversions document that a text holds. A blank one has no rules. -/
def conversionsDocument? (text : String) : Option (List ConversionEntry) := do
  if Text.isBlankString text then return []
  else Extract.ofRoot? conversionsOfNode (← Node.ofText? text)

end StructCopy
