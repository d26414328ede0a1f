/-
  Yaml/Shape: nodes as values of a certain shape.

  A text may be any scalar, whatever it looks like; a truth value and nothing at all
  are certain plain scalars.  A place that is left empty is an empty list or a record
  without keys.  A record must have the keys that are required, may not repeat a key
  that is asked for, and may have any others.

  A reference stands for the node of its slot.  Few lines of references to references
  would make very large values, so their number is bounded by the size of the document.
-/
import StructCopy.Yaml.Node
import StructCopy.Yaml.Tag

set_option autoImplicit false

namespace StructCopy.Yaml

/-- Reads an `α` out of a document, given the nodes of slots. The state is the number of
references that may still be followed. -/
abbrev Extract (α : Type) : Type :=
  ReaderT (List (Nat × Node)) (StateT Nat Option) α

/-- A value read out of the document with a root. For each beginning and each end in it, a hundred
references may be followed. -/
def Extract.ofRoot? {α : Type} (shape : Node → Extract α) (root : Node) : Option α :=
  (((shape root).run root.slots).run (100 * root.size)).map Prod.fst

namespace Node

/-- The node that a node stands for. -/
def follow : Node → Extract Node
  | .reference slot => do
    match ← get, (← read).lookup slot with
    | left + 1, some node => do
      set left
      return node
    | _, _ => failure
  | node => return node

/-- The text of a scalar. -/
def text (node : Node) : Extract String := do
  match ← node.follow with
  | .scalar _ _ text => return text
  | _ => failure

/-- A word for a truth value. -/
def truthOf? (text : String) : Option Bool :=
  if text ∈ ["true", "True", "TRUE"] then some true
  else if text ∈ ["false", "False", "FALSE"] then some false
  else none

/-- A truth value: a plain scalar, or lines that are kept and have the tag for it. -/
def truth (node : Node) : Extract Bool := do
  match ← node.follow with
  | .scalar properties style text =>
    if style = .plain ∨ style = .literal ∧ properties.tag = some Tag.ofTruth then
      (truthOf? text).getM
    else failure
  | _ => failure

/-- A word for nothing. -/
def isNothingWord (text : String) : Bool :=
  text ∈ ["~", "null", "Null", "NULL"]

/-- Whether a node stands for nothing. Only a plain scalar does. One with the tag for it has to,
and one with another tag does not. -/
def isNothing? : Node → Option Bool
  | .scalar properties .plain text =>
    match properties.tag with
    | none => some (text.isEmpty || isNothingWord text)
    | some tag =>
      if tag ≠ Tag.ofNothing then some false
      else if isNothingWord text then some true
      else none
  | _ => some false

/-- A sequence of nodes of one shape. -/
def list {α : Type} (shape : Node → Extract α) (node : Node) : Extract (List α) := do
  match ← node.follow with
  | .sequence _ items => items.mapM shape
  | .scalar _ .plain "" => return []
  | _ => failure

/-- A node of a shape, or one that stands for nothing. -/
def optional {α : Type} (shape : Node → Extract α) (node : Node) : Extract (Option α) := do
  let node ← node.follow
  if ← node.isNothing?.getM then return none else return some (← shape node)

end Node

/-! ## Records -/

/-- A mapping whose keys are texts. -/
abbrev Record : Type :=
  List (String × Node)

/-- A mapping whose keys are scalars. -/
def Node.record (node : Node) : Extract Record := do
  match ← node.follow with
  | .mapping _ entries => entries.mapM fun (key, value) => return (← key.text, value)
  | .scalar _ .plain "" => return []
  | _ => failure

namespace Record

/-- The value of a key, which may be there once. -/
def value (record : Record) (key : String) : Extract (Option Node) :=
  match record.filter fun entry => entry.1 == key with
  | [] => return none
  | [entry] => return some entry.2
  | _ => failure

/-- The value of a key that must be there. -/
def required {α : Type} (record : Record) (key : String) (shape : Node → Extract α) :
    Extract α := do
  match ← record.value key with
  | some node => shape node
  | none => failure

/-- The value of a key, or `default` if the key is not there. -/
def valueOr {α : Type} (record : Record) (key : String) (default : α)
    (shape : Node → Extract α) : Extract α := do
  match ← record.value key with
  | some node => shape node
  | none => return default

/-- The text of a key, which may lack it. -/
def optionalText (record : Record) (key : String) : Extract (Option String) :=
  record.valueOr key none (Node.optional Node.text)

/-- The list under a key, empty if the key is not there. -/
def list {α : Type} (record : Record) (key : String) (shape : Node → Extract α) :
    Extract (List α) :=
  record.valueOr key [] (Node.list shape)

end Record

end StructCopy.Yaml
