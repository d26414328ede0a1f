/-
  Go/TypeExpr/Qualifiers: the packages that a type refers to.

  Qualifiers inside the length of an array are part of its text and do not count.
-/
import StructCopy.Go.TypeExpr

set_option autoImplicit false

namespace StructCopy.Go

mutual

/-- Every use of a package qualifier, in the order of the text. -/
def TypeExpr.uses : TypeExpr → List String
  | .named _ => []
  | .qualified qualifier _ => [qualifier]
  | .pointer elem | .slice elem | .array _ elem | .chan _ elem | .variadic elem => elem.uses
  | .paren inner => inner.uses
  | .map key value => key.uses ++ value.uses
  | .func signature => signature.uses
  | .struct fields => usesInFields fields
  | .interface elems => usesInElems elems
  | .generic base args => base.uses ++ usesInTypes args
termination_by structural t => t

/-- The uses in a signature, parameters before results. -/
def Signature.uses : Signature → List String
  | .mk params results _ => usesInParams params ++ usesInParams results
termination_by structural s => s

/-- The uses in an entry of a parameter list. -/
def Param.uses : Param → List String
  | .mk _ type => type.uses
termination_by structural p => p

/-- The uses in a struct member. -/
def Field.uses : Field → List String
  | .mk _ _ type _ => type.uses
termination_by structural f => f

/-- The uses in an interface element. -/
def InterfaceElem.uses : InterfaceElem → List String
  | .method _ signature => signature.uses
  | .union terms => usesInTerms terms
termination_by structural e => e

/-- The uses in a union term. -/
def UnionTerm.uses : UnionTerm → List String
  | .mk _ type => type.uses
termination_by structural t => t

/-- The uses in some types. -/
def usesInTypes : List TypeExpr → List String
  | [] => []
  | t :: ts => t.uses ++ usesInTypes ts
termination_by structural ts => ts

/-- The uses in some parameters. -/
def usesInParams : List Param → List String
  | [] => []
  | p :: ps => p.uses ++ usesInParams ps
termination_by structural ps => ps

/-- The uses in some struct members. -/
def usesInFields : List Field → List String
  | [] => []
  | f :: fs => f.uses ++ usesInFields fs
termination_by structural fs => fs

/-- The uses in some interface elements. -/
def usesInElems : List InterfaceElem → List String
  | [] => []
  | e :: es => e.uses ++ usesInElems es
termination_by structural es => es

/-- The uses in some union terms. -/
def usesInTerms : List UnionTerm → List String
  | [] => []
  | t :: ts => t.uses ++ usesInTerms ts
termination_by structural ts => ts

end

/-- The package qualifiers of a type, each once, in the order of their first use. -/
def TypeExpr.qualifiers (t : TypeExpr) : List String :=
  t.uses.eraseDups

end StructCopy.Go
