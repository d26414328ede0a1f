/-
  Template/TypeTemplate: types whose packages are placeholders.

  A type template is a template all of whose variables stand for entries of its
  own list of imports; `bound` carries that fact.
-/
import StructCopy.Aliases
import StructCopy.Go.TypeExpr.Printer
import StructCopy.Go.TypeExpr.Qualifiers
import StructCopy.Template.Placeholder

set_option autoImplicit false

namespace StructCopy

/-- A type as text, with placeholders for the packages it refers to. -/
structure TypeTemplate where
  template : Template
  /-- the import path behind each placeholder -/
  imports : List String
  bound : ∀ v ∈ template.variableNames, isImportBelow imports.length v = true

namespace TypeTemplate

/-- Reads a type template; its name in messages is its own text. -/
def ofText? (text : String) (imports : List String) : Except TemplateError TypeTemplate :=
  match Template.ofText? text text with
  | .error e => .error e
  | .ok template =>
    match h : template.check (isImportBelow imports.length) with
    | .error e => .error e
    | .ok () => .ok ⟨template, imports, fun _ hv => Template.known_of_check h hv⟩

/-- The template of a declared type. Entry `i` of the imports belongs to qualifier `i` of the
type. -/
def ofType? (type : Go.TypeExpr) (imports : List String) : Except TemplateError TypeTemplate :=
  let qualifiers := type.qualifiers
  ofText? (type.render fun q => placeholder ((qualifiers.idxOf? q).getD 0)) imports

/-- The text with its placeholders. -/
def text (t : TypeTemplate) : String :=
  t.template.source

/-- The type as generated code writes it. -/
def render (t : TypeTemplate) (aliases : Aliases) : String :=
  t.template.substitute fun v =>
    (((importIndex? v).bind fun i => t.imports[i]?).map aliases.qualifierFor).getD ""

/-- The text of segments without variables, and without the dot behind a variable. -/
def textOnly : List Segment → List Char
  | [] => []
  | .var _ :: .text s :: rest => (Text.after? ['.'] s.toList).getD s.toList ++ textOnly rest
  | .var _ :: rest => textOnly rest
  | .text s :: rest => s.toList ++ textOnly rest

/-- The type without packages. -/
def unaliased (t : TypeTemplate) : String :=
  String.ofList (textOnly t.template.segments)

/-- The name of a plain named type, with the entry of the import list it comes from if it is
qualified. -/
def namedType? (t : TypeTemplate) : Option (Option Nat × String) :=
  match t.template.segments with
  | [.text s] =>
    let name := Text.trim s.toList
    if Text.isIdentifier name then some (none, String.ofList name) else none
  | [.var v, .text s] =>
    match importIndex? v, Text.trimEnd s.toList with
    | some i, '.' :: name =>
      if Text.isIdentifier name then some (some i, String.ofList name) else none
    | _, _ => none
  | _ => none

end TypeTemplate

end StructCopy
