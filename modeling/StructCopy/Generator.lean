/-
  Generator: the generated file.

  A session keeps what has been loaded, resolved and registered so far; generating a
  file carries it on, and a failed run leaves what it reached.
-/
import StructCopy.Fields.Expansion
import StructCopy.Fields.Store
import StructCopy.Mapping.Function

set_option autoImplicit false

namespace StructCopy

open StructCopy.Module (Loader PackageCache)

/-! ## Sessions -/

/-- What has been loaded, resolved and registered so far. -/
structure Session (L : Loader) where
  cache : PackageCache L
  fields : FieldStore
  aliases : Aliases

namespace Session

variable {L : Loader}

/-- The beginning of a session. -/
def fresh (L : Loader) : Session L :=
  ⟨.empty L, .empty, .empty⟩

/-- Carries out an exploration and registers the modules it discovers. -/
def explore {α : Type} (s : Session L) (x : Explore L α) : Except ResolveError α × Session L :=
  let v := x s.cache
  (v.result, { s with cache := v.cache, aliases := s.aliases.registerAll v.discovered })

/-- Sees to it that the fields of a type are stored. -/
def ensure (s : Session L) (key : TypeKey) : Except ResolveError Unit × Session L :=
  if s.fields.contains key then (.ok (), s)
  else
    match s.explore (expand key) with
    | (.ok fields, s) => (.ok (), { s with fields := s.fields.insert key fields })
    | (.error e, s) => (.error e, s)

/-- The stored fields of a type. -/
def fieldsOf (s : Session L) (key : TypeKey) : List StructField :=
  (s.fields.get? key).getD []

/-- Registers import paths. -/
def register (s : Session L) (paths : List String) : Session L :=
  { s with aliases := s.aliases.registerAll paths }

end Session

/-! ## Errors -/

/-- Why a run ends without a file. -/
inductive GenerateError where
  | resolve (context : String) (cause : ResolveError)
  | template (context : String) (cause : TemplateError)

/-- The message for an error. -/
def GenerateError.message : GenerateError → String
  | .resolve context cause => context ++ ": " ++ cause.message
  | .template context cause => context ++ ": " ++ cause.message

/-! ## Mappings -/

/-- The import paths that a mapping declares: those of its rules, of its arguments and of its two
types. -/
def MappingSpec.declaredImports (m : MappingSpec) : List String :=
  m.conversions.flatMap (·.imports) ++ m.args.flatMap (·.type.imports) ++ m.source.imports ++
    m.dest.imports

namespace Session

variable {L : Loader}

/-- Registers what a mapping declares and resolves its two types. -/
def prepare (s : Session L) (m : MappingSpec) : Except ResolveError Unit × Session L :=
  match (s.register m.declaredImports).ensure m.sourceKey with
  | (.ok (), s) => s.ensure m.destKey
  | (.error e, s) => (.error e, s)

/-- The function for the mapping at a position of the document. -/
def functionFor (s : Session L) (config : MappingConfig) (global : List ConversionRule)
    (position : Nat) (m : MappingSpec) : Except GenerateError CopyFunction × Session L :=
  let context := "mapping " ++ toString position ++ " (" ++ m.label ++ ")"
  match s.prepare m with
  | (.error e, s) => (.error (.resolve context e), s)
  | (.ok (), s) =>
    match assemble m (s.fieldsOf m.sourceKey) (s.fieldsOf m.destKey) global config.defaultTag
        s.aliases with
    | .error (field, e) => (.error (.template (context ++ ": field " ++ field.name) e), s)
    | .ok f => (.ok f, s)

/-- The functions for some mappings, the first one at `position`. -/
def functionsFor (s : Session L) (config : MappingConfig) (global : List ConversionRule)
    (position : Nat) : List MappingSpec → Except GenerateError (List CopyFunction) × Session L
  | [] => (.ok [], s)
  | m :: rest =>
    match s.functionFor config global position m with
    | (.error e, s) => (.error e, s)
    | (.ok f, s) =>
      match s.functionsFor config global (position + 1) rest with
      | (.error e, s) => (.error e, s)
      | (.ok fs, s) => (.ok (f :: fs), s)

end Session

/-! ## Files -/

/-- The first line of every generated file. -/
def generatedHeader : String := "// Code generated by structmap; DO NOT EDIT."

/-- The text of a file with some functions. -/
def fileText (packageName : String) (aliases : Aliases) (functions : List CopyFunction) : String :=
  let code := String.intercalate "\n\n" (functions.map CopyFunction.text)
  let block := aliases.render code
  generatedHeader ++ "\npackage " ++ packageName ++ "\n\n" ++
    (if block.isEmpty then "" else block ++ "\n") ++
    (if code.isEmpty then "" else code ++ "\n")

/-- Generates the file that a document asks for. -/
def Session.generate {L : Loader} (s : Session L) (config : MappingConfig)
    (global : List ConversionRule) : Except GenerateError String × Session L :=
  match (s.register (global.flatMap (·.imports))).functionsFor config global 0 config.mappings with
  | (.error e, s) => (.error e, s)
  | (.ok functions, s) => (.ok (fileText config.packageName s.aliases functions), s)

/-- The fields of a single type. -/
def Session.inspect {L : Loader} (s : Session L) (key : TypeKey) :
    Except GenerateError (List StructField) × Session L :=
  match s.ensure key with
  | (.ok (), s) => (.ok (s.fieldsOf key), s)
  | (.error e, s) => (.error (.resolve ("inspecting " ++ key.print) e), s)

/-- The fields of a single type, in a session of its own. -/
def inspect (L : Loader) (key : TypeKey) : Except GenerateError (List StructField) :=
  ((Session.fresh L).inspect key).1

end StructCopy
