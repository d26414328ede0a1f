/-
  Yaml/Node: what a YAML document says.

  A scalar keeps its text, how it is written and the tag that it may have: whether it
  can stand for a truth value or for nothing hangs on them.  Comments are gone.  A
  node that has an anchor has a slot, a number by which references to it are known.
-/

set_option autoImplicit false

namespace StructCopy.Yaml

/-- How a scalar is written: without quotation marks, between marks of two kinds, or as indented
lines that are kept or folded. -/
inductive Style where
  | plain
  | singleQuoted
  | doubleQuoted
  | literal
  | folded
  deriving DecidableEq, Repr

/-- What may stand before the content of a node: an anchor, by its slot, and a tag. -/
structure Properties where
  slot : Option Nat
  tag : Option String
  deriving DecidableEq, Repr

/-- A node of a document; the entries of a mapping are in their order. -/
inductive Node where
  /-- the node of a slot -/
  | reference (slot : Nat)
  | scalar (properties : Properties) (style : Style) (text : String)
  | sequence (properties : Properties) (items : List Node)
  | mapping (properties : Properties) (entries : List (Node × Node))
  deriving Repr

namespace Node

/-- The node that stands where nothing is written. -/
def empty : Node :=
  .scalar ⟨none, none⟩ .plain ""

/-- What stands before the content of a node. -/
def properties : Node → Properties
  | .reference _ => ⟨none, none⟩
  | .scalar properties _ _ => properties
  | .sequence properties _ => properties
  | .mapping properties _ => properties

/-! ## Parts -/

mutual

/-- A node and all that are in it, in the order in which they begin. -/
def parts (node : Node) : List Node :=
  match node with
  | .reference _ | .scalar _ _ _ => [node]
  | .sequence _ items => node :: itemParts items
  | .mapping _ entries => node :: entryParts entries

/-- The parts of the items of a sequence. -/
def itemParts : List Node → List Node
  | [] => []
  | item :: items => item.parts ++ itemParts items

/-- The parts of the entries of a mapping. -/
def entryParts : List (Node × Node) → List Node
  | [] => []
  | (key, value) :: entries => key.parts ++ value.parts ++ entryParts entries

end

/-- A sequence or a mapping. -/
def isCollection : Node → Bool
  | .reference _ | .scalar _ _ _ => false
  | .sequence _ _ | .mapping _ _ => true

/-- The number of beginnings and ends in a node: a collection has both, any other node is one. -/
def size (node : Node) : Nat :=
  node.parts.length + node.parts.countP isCollection

/-- The slots in a node with their nodes, the one that begins last in front. -/
def slots (node : Node) : List (Nat × Node) :=
  (node.parts.filterMap fun part => part.properties.slot.map fun slot => (slot, part)).reverse

end Node

end StructCopy.Yaml
