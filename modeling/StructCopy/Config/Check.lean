/-
  Config/Check: documents whose templates are sound.

  Every template is read when a document is, and its variables are checked: a number
  behind `Import` must be below the length of the import list, however it is written,
  and only the template of a conversion has the operands as well.  An error says where in
  the document it is; the first one in the order of checking is reported.
-/
import StructCopy.Config.Document

set_option autoImplicit false

namespace StructCopy

/-! ## Errors -/

/-- What an entry lacks. -/
inductive ConfigFault where
  | emptyName
  | incompleteArgument
  | overrideWithoutDest
  | emptyTemplate
  | notNamed (type : String)
  deriving DecidableEq, Repr

/-- The message for a fault. -/
def ConfigFault.message : ConfigFault → String
  | .emptyName => "must not be empty"
  | .incompleteArgument => "name and dest_field are required"
  | .overrideWithoutDest => "dest_field or dest_tag is required"
  | .emptyTemplate => "tmpl must not be empty"
  | .notNamed type => "'" ++ type ++ "' is not a named type"

/-- Why a document cannot be used. -/
inductive ConfigError where
  /-- it cannot be read, or its shape is wrong -/
  | malformed
  | template (context : String) (cause : TemplateError)
  | invalid (context : String) (fault : ConfigFault)

/-- The message for an error. -/
def ConfigError.message : ConfigError → String
  | .malformed => "invalid YAML"
  | .template context cause => context ++ ": " ++ cause.message
  | .invalid context fault => context ++ ": " ++ fault.message

/-- A template error that arises in a place of a document. -/
def inContext {α : Type} (context : String) : Except TemplateError α → Except ConfigError α
  | .ok a => .ok a
  | .error e => .error (.template context e)

/-! ## Entries -/

/-- Checks entries one after another, the first one at `position`, up to the first error. -/
def checkFrom {α β : Type} (position : Nat) (context : String)
    (check : String → α → Except ConfigError β) : List α → Except ConfigError (List β)
  | [] => .ok []
  | x :: xs => do
    let y ← check (context ++ "[" ++ toString position ++ "]") x
    let ys ← checkFrom (position + 1) context check xs
    return y :: ys

/-- Checks the entries of a list. -/
def checkEach {α β : Type} (context : String) (check : String → α → Except ConfigError β)
    (xs : List α) : Except ConfigError (List β) :=
  checkFrom 0 context check xs

/-- The module of a named type: the entry of the imports that it names, or else the first entry,
or else the root of the module. -/
def namedModule (imports : List String) (index : Option Nat) : String :=
  ((index.bind (imports[·]?)).or imports.head?).getD ""

/-- A struct type, which must be named, and its key. -/
def TypeEntry.check (context : String) (entry : TypeEntry) :
    Except ConfigError (TypeTemplate × TypeKey) := do
  let template ← inContext context (TypeTemplate.ofText? entry.type entry.imports)
  match template.namedType? with
  | some (index, name) => return (template, ⟨namedModule template.imports index, name⟩)
  | none => throw (.invalid context (.notNamed template.text))

/-- A further argument, which must have a name and a field. -/
def ArgEntry.check (context : String) (entry : ArgEntry) : Except ConfigError AdditionalArg := do
  if Text.isBlankString entry.name || Text.isBlankString entry.destField then
    throw (.invalid context .incompleteArgument)
  let type ← inContext (context ++ ".type") (TypeTemplate.ofText? entry.type entry.imports)
  return ⟨entry.name, entry.destField, type⟩

/-- A choice of a source, which must say for which fields it is. -/
def FieldOverride.check (context : String) (o : FieldOverride) :
    Except ConfigError FieldOverride :=
  if o.destField.isNone && o.destTag.isNone then .error (.invalid context .overrideWithoutDest)
  else .ok o

/-- The variables of a conversion template: the operands and the imports of its rule. -/
def isConversionVariable (imports : List String) (v : String) : Bool :=
  v == "Source" || v == "Dest" || v == "Error" || isImportBelow imports.length v

/-- A conversion template with known variables only; its name in messages is its place. -/
def TemplateEntry.check (context : String) (imports : List String) (entry : TemplateEntry) :
    Except ConfigError ConversionTemplate := do
  let template ← inContext context (Template.ofText? context entry.text)
  let () ← inContext context (template.check (isConversionVariable imports))
  return ⟨template, entry.fallible⟩

/-- A template that is not blank. -/
def TemplateEntry.nonBlank? (entry : TemplateEntry) : Option TemplateEntry :=
  if Text.isBlankString entry.text then none else some entry

/-- A conversion rule. A blank reverse template is none. -/
def ConversionEntry.check (context : String) (entry : ConversionEntry) :
    Except ConfigError ConversionRule := do
  let sourceType ← inContext (context ++ ".source_type")
    (TypeTemplate.ofText? entry.sourceType entry.imports)
  let destType ← inContext (context ++ ".dest_type")
    (TypeTemplate.ofText? entry.destType entry.imports)
  match entry.forward.nonBlank? with
  | none => throw (.invalid (context ++ ".conversion") .emptyTemplate)
  | some forward =>
    let forward ← forward.check (context ++ ".conversion") entry.imports
    match entry.reverse.bind TemplateEntry.nonBlank? with
    | none => return ⟨sourceType, destType, forward, none, entry.imports⟩
    | some reverse =>
      let reverse ← reverse.check (context ++ ".reverse_conversion") entry.imports
      return ⟨sourceType, destType, forward, some reverse, entry.imports⟩

/-- A text that is not blank. -/
def nonBlank? (text : Option String) : Option String :=
  text.filter (!Text.isBlankString ·)

/-- A function to be generated. -/
def MappingEntry.check (context : String) (entry : MappingEntry) :
    Except ConfigError MappingSpec := do
  let (source, sourceKey) ← entry.source.check (context ++ ".from")
  let (dest, destKey) ← entry.dest.check (context ++ ".to")
  let args ← checkEach (context ++ ".func_additional_args") ArgEntry.check entry.args
  let overrides ← checkEach (context ++ ".custom_field_mappings") FieldOverride.check
    entry.overrides
  let conversions ← checkEach (context ++ ".custom_conversions") ConversionEntry.check
    entry.conversions
  return ⟨source, dest, sourceKey, destKey, nonBlank? entry.funcName, args, overrides,
    conversions, nonBlank? entry.tagKey⟩

/-! ## Documents -/

/-- The name of the generated file, if the document gives none. -/
def defaultFileName : String := "structmap.gen.go"

/-- The mapping document, with defaults for what it leaves out. -/
def MappingDocument.check (document : MappingDocument) : Except ConfigError MappingConfig := do
  if Text.isBlankString document.packageName then
    throw (.invalid "out_package_name" .emptyName)
  let mappings ← checkEach "mappings" MappingEntry.check document.mappings
  return ⟨Text.trimmed document.packageName, (nonBlank? document.fileName).getD defaultFileName,
    (nonBlank? document.filePath).getD ".", (nonBlank? document.defaultTag).getD "json",
    document.debug, mappings⟩

/-- Reads and checks a mapping document. -/
def MappingConfig.ofText (text : String) : Except ConfigError MappingConfig :=
  match MappingDocument.ofText? text with
  | some document => document.check
  | none => .error .malformed

/-- Reads and checks a conversions document. -/
def conversionRules (text : String) : Except ConfigError (List ConversionRule) :=
  match conversionsDocument? text with
  | some entries => checkEach "conversions" ConversionEntry.check entries
  | none => .error .malformed

end StructCopy
