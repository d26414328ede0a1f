/-
  Mapping/Function: the function that carries out a mapping.
-/
import StructCopy.Mapping.Conversion
import StructCopy.Mapping.Match

set_option autoImplicit false

namespace StructCopy

/-! ## Function texts -/

/-- A generated function. -/
structure CopyFunction where
  name : String
  /-- the comment above the function -/
  doc : String
  /-- the head of the function, without the opening brace -/
  signature : String
  /-- the assignments, not indented and without the final return -/
  body : String
  returnsError : Bool
  deriving DecidableEq, Repr

/-- A line of a body, indented unless it is empty. -/
def indented (line : List Char) : List Char :=
  if line.isEmpty then ['\n'] else '\t' :: line ++ ['\n']

/-- The body of a function, indented. -/
def indentedBody (body : String) : String :=
  String.ofList ((Text.lines body.toList).flatMap indented)

/-- The text of a function. -/
def CopyFunction.text (f : CopyFunction) : String :=
  f.doc ++ "\n" ++ f.signature ++ " \x7b\n" ++ indentedBody f.body ++ "\treturn\n\x7d"

/-! ## Assembly -/

/-- The expression that a destination field is set to, with its type: an additional argument, or
else a source field. -/
def sourceOf? (m : MappingSpec) (index : SourceIndex) (dest : StructField) :
    Option (String × TypeTemplate) :=
  match m.argFor? dest.name with
  | some arg => some (arg.name, arg.type)
  | none =>
    (index.match? dest m.overrides).map fun c => ("src." ++ c.field.name, c.field.type)

/-- The comment that stands for a destination field without a source. -/
def unmappedComment (dest : StructField) : String :=
  "// no matching source found for field: " ++ dest.name ++
    ", consider adding an additional arg or aligning the fields"

/-- The code that sets a destination field. -/
def assignmentTo (rules : List ConversionRule) (aliases : Aliases) (dest : StructField) :
    Option (String × TypeTemplate) → Except TemplateError Assignment
  | none => .ok ⟨unmappedComment dest, false⟩
  | some (source, type) =>
    let destination := "dst." ++ dest.name
    match ConversionRule.find? rules aliases type dest.type with
    | some (_, rule, direction) => rule.apply direction ⟨source, destination, "err"⟩ aliases
    | none => .ok (.direct destination source)

/-- The code that sets some destination fields, or the first field that cannot be set. -/
def assignments (assign : StructField → Except TemplateError Assignment) :
    List StructField → Except (StructField × TemplateError) (List Assignment)
  | [] => .ok []
  | dest :: rest =>
    match assign dest with
    | .error e => .error (dest, e)
    | .ok assignment => (assignments assign rest).map (assignment :: ·)

/-- The head of the function for a mapping. -/
def signatureOf (m : MappingSpec) (aliases : Aliases) (returnsError : Bool) : String :=
  let params := ("src " ++ m.source.render aliases) ::
    m.args.map fun arg => arg.name ++ " " ++ arg.type.render aliases
  let results := "dst " ++ m.dest.render aliases ++ if returnsError then ", err error" else ""
  "func " ++ m.functionName ++ "(" ++ String.intercalate ", " params ++ ") (" ++ results ++ ")"

/-- The function for a mapping between two field lists. Rules of the mapping come before the
global ones. -/
def assemble (m : MappingSpec) (sources dests : List StructField) (global : List ConversionRule)
    (defaultTag : String) (aliases : Aliases) :
    Except (StructField × TemplateError) CopyFunction :=
  let index := SourceIndex.ofFields sources (m.tagKeyOr defaultTag)
  let assign := fun dest =>
    assignmentTo (m.conversions ++ global) aliases dest (sourceOf? m index dest)
  (assignments assign dests).map fun parts =>
    let returnsError := parts.any (·.fallible)
    { name := m.functionName
      doc := "// " ++ m.functionName ++ " copies " ++ m.source.unaliased ++ " → " ++
        m.dest.unaliased
      signature := signatureOf m aliases returnsError
      body := String.intercalate "\n" (parts.map (·.code))
      returnsError }

end StructCopy
