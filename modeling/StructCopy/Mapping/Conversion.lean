/-
  Mapping/Conversion: finding a conversion rule and applying it.
-/
import StructCopy.Mapping.Basic

set_option autoImplicit false

namespace StructCopy

/-- The way a rule is applied. -/
inductive Direction where
  | forward
  | reverse
  deriving DecidableEq, Repr

/-- The code of an assignment, which may have several lines; `fallible` says that it may fail. -/
structure Assignment where
  code : String
  fallible : Bool
  deriving DecidableEq, Repr

/-- The plain assignment. -/
def Assignment.direct (dest source : String) : Assignment :=
  ⟨dest ++ " = " ++ source, false⟩

namespace ConversionRule

/-! ## Finding -/

/-- The direction in which a rule converts one type, as generated code writes it, into another.
Backwards it needs a reverse template. -/
def directionFor? (r : ConversionRule) (aliases : Aliases) (source dest : String) :
    Option Direction :=
  let ruleSource := r.sourceType.render aliases
  let ruleDest := r.destType.render aliases
  if ruleSource = source ∧ ruleDest = dest then some .forward
  else if r.reverse.isSome ∧ ruleDest = source ∧ ruleSource = dest then some .reverse
  else none

/-- The first of some rules that converts one type into another, with its position and its
direction. -/
def find? (rules : List ConversionRule) (aliases : Aliases) (source dest : TypeTemplate) :
    Option (Nat × ConversionRule × Direction) :=
  rules.zipIdx.findSome? fun entry =>
    (entry.1.directionFor? aliases (source.render aliases) (dest.render aliases)).map fun d =>
      (entry.2, entry.1, d)

/-! ## Applying -/

/-- The expressions that an assignment is made of. -/
structure Operands where
  source : String
  dest : String
  error : String
  deriving DecidableEq, Repr

/-- The names that the templates of a rule may use for the operands. -/
def operandNames : List String := ["Source", "Dest", "Error"]

/-- The value of a variable in the templates of a rule: an operand, or the qualifier of an entry
of the import list, whose number has no leading zeros. -/
def valueOf? (r : ConversionRule) (aliases : Aliases) (x : Operands) (v : String) :
    Option String :=
  if v = "Source" then some x.source
  else if v = "Dest" then some x.dest
  else if v = "Error" then some x.error
  else
    (r.imports.zipIdx.find? fun entry => v == "Import" ++ toString entry.2).map fun entry =>
      aliases.qualifierFor entry.1

/-- The assignment that a template of a rule makes. -/
def applyTemplate (r : ConversionRule) (t : ConversionTemplate) (x : Operands)
    (aliases : Aliases) : Except TemplateError Assignment :=
  (t.template.render (r.valueOf? aliases x)).map fun code => ⟨code, t.fallible⟩

/-- The assignment that a rule makes in a direction. Backwards without a reverse template it is
the plain one. -/
def apply (r : ConversionRule) (d : Direction) (x : Operands) (aliases : Aliases) :
    Except TemplateError Assignment :=
  match d, r.reverse with
  | .forward, _ => r.applyTemplate r.forward x aliases
  | .reverse, some t => r.applyTemplate t x aliases
  | .reverse, none => .ok (.direct x.dest x.source)

end ConversionRule

end StructCopy
