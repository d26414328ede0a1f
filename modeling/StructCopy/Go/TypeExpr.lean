/-
  Go/TypeExpr: Go types as they are written in declarations.

  The tree keeps parentheses, the length of an array as text, and the way results
  are written, so that printing gives a text that reads back as the same tree.
-/

set_option autoImplicit false

namespace StructCopy.Go

/-- The directions of a channel. -/
inductive ChanDir where
  | both
  | send
  | receive
  deriving DecidableEq, Repr

mutual

/-- A type as written. -/
inductive TypeExpr where
  /-- `Name`, without a package -/
  | named (name : String)
  /-- `qualifier.Name` -/
  | qualified (qualifier name : String)
  /-- `*T` -/
  | pointer (elem : TypeExpr)
  /-- `[]T` -/
  | slice (elem : TypeExpr)
  /-- `[length]T` -/
  | array (length : String) (elem : TypeExpr)
  /-- `map[K]V` -/
  | map (key value : TypeExpr)
  /-- `chan T`, `chan<- T` or `<-chan T` -/
  | chan (dir : ChanDir) (elem : TypeExpr)
  /-- `func(...) ...` -/
  | func (signature : Signature)
  /-- a struct type with its members -/
  | struct (fields : List Field)
  /-- an interface type with its elements -/
  | interface (elems : List InterfaceElem)
  /-- `Base[Arg, ...]` -/
  | generic (base : TypeExpr) (args : List TypeExpr)
  /-- `...T` in a parameter list -/
  | variadic (elem : TypeExpr)
  /-- `(T)` -/
  | paren (inner : TypeExpr)

/-- Parameters and results of a function; `parenResults` says that the results are written in
parentheses. -/
inductive Signature where
  | mk (params results : List Param) (parenResults : Bool)

/-- An entry of a parameter or result list. -/
inductive Param where
  | mk (name : Option String) (type : TypeExpr)

/-- A member of a struct, with the line it starts on; an embedded member has no names. -/
inductive Field where
  | mk (line : Nat) (names : List String) (type : TypeExpr) (tag : Option String)

/-- An element of an interface. -/
inductive InterfaceElem where
  /-- `Name(...) ...` -/
  | method (name : String) (signature : Signature)
  /-- an embedded interface, or types separated by `|` -/
  | union (terms : List UnionTerm)

/-- A term of a union; `approximate` marks a term written with `~`. -/
inductive UnionTerm where
  | mk (approximate : Bool) (type : TypeExpr)

end

instance : Inhabited TypeExpr := ⟨.named ""⟩

/-! ## Parts of a member -/

namespace Field

/-- The line on which the member starts. -/
def line : Field → Nat
  | .mk line _ _ _ => line

/-- The names declared by the member. -/
def names : Field → List String
  | .mk _ names _ _ => names

/-- The type of the member. -/
def type : Field → TypeExpr
  | .mk _ _ type _ => type

/-- The tag of the member. -/
def tag : Field → Option String
  | .mk _ _ _ tag => tag

/-- The member is embedded: it has no names of its own. -/
def isEmbedded (f : Field) : Bool :=
  f.names.isEmpty

end Field

/-! ## Parentheses -/

/-- The type without the parentheses around it. -/
def TypeExpr.bare : TypeExpr → TypeExpr
  | .paren inner => inner.bare
  | t => t

end StructCopy.Go
