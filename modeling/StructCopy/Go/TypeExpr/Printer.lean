/-
  Go/TypeExpr/Printer: the text of a type.

  `render` passes every package qualifier through a function, so that one printer
  serves for the type as declared, for templates and for generated code.
-/
import StructCopy.Go.TypeExpr

set_option autoImplicit false

namespace StructCopy.Go

/-- Texts with `; ` between them, in braces behind a keyword. -/
def inBraces (keyword : String) (parts : List String) : String :=
  if parts.isEmpty then keyword ++ "\x7b\x7d"
  else keyword ++ "\x7b " ++ String.intercalate "; " parts ++ " \x7d"

/-- The tag of a member, as written behind its type. -/
def tagSuffix : Option String → String
  | some tag => " \x60" ++ tag ++ "\x60"
  | none => ""

/-- The names of a member, as written before its type. -/
def namesBefore : List String → String
  | [] => ""
  | names => String.intercalate ", " names ++ " "

mutual

/-- The text of a type, each package qualifier replaced by `qual`. -/
def TypeExpr.render (qual : String → String) : TypeExpr → String
  | .named name => name
  | .qualified qualifier name => qual qualifier ++ "." ++ name
  | .pointer elem => "*" ++ elem.render qual
  | .slice elem => "[]" ++ elem.render qual
  | .array length elem => "[" ++ length ++ "]" ++ elem.render qual
  | .map key value => "map[" ++ key.render qual ++ "]" ++ value.render qual
  | .chan .both elem => "chan " ++ elem.render qual
  | .chan .send elem => "chan<- " ++ elem.render qual
  | .chan .receive elem => "<-chan " ++ elem.render qual
  | .func signature => "func" ++ signature.render qual
  | .struct fields => inBraces "struct" (renderFields qual fields)
  | .interface elems => inBraces "interface" (renderElems qual elems)
  | .generic base args =>
    base.render qual ++ "[" ++ String.intercalate ", " (renderTypes qual args) ++ "]"
  | .variadic elem => "..." ++ elem.render qual
  | .paren inner => "(" ++ inner.render qual ++ ")"
termination_by structural t => t

/-- The text of a signature: a single result without a name stands without parentheses unless
the signature says otherwise. -/
def Signature.render (qual : String → String) : Signature → String
  | .mk params results parenResults =>
    let head := "(" ++ String.intercalate ", " (renderParams qual params) ++ ")"
    match results with
    | [] => head
    | [.mk none type] =>
      if parenResults then head ++ " (" ++ type.render qual ++ ")"
      else head ++ " " ++ type.render qual
    | results => head ++ " (" ++ String.intercalate ", " (renderParams qual results) ++ ")"
termination_by structural s => s

/-- The text of an entry of a parameter list. -/
def Param.render (qual : String → String) : Param → String
  | .mk (some name) type => name ++ " " ++ type.render qual
  | .mk none type => type.render qual
termination_by structural p => p

/-- The text of a struct member. -/
def Field.render (qual : String → String) : Field → String
  | .mk _ names type tag => namesBefore names ++ type.render qual ++ tagSuffix tag
termination_by structural f => f

/-- The text of an interface element. -/
def InterfaceElem.render (qual : String → String) : InterfaceElem → String
  | .method name signature => name ++ signature.render qual
  | .union terms => String.intercalate " | " (renderTerms qual terms)
termination_by structural e => e

/-- The text of a union term. -/
def UnionTerm.render (qual : String → String) : UnionTerm → String
  | .mk true type => "~" ++ type.render qual
  | .mk false type => type.render qual
termination_by structural t => t

/-- The texts of some types. -/
def renderTypes (qual : String → String) : List TypeExpr → List String
  | [] => []
  | t :: ts => t.render qual :: renderTypes qual ts
termination_by structural ts => ts

/-- The texts of some parameters. -/
def renderParams (qual : String → String) : List Param → List String
  | [] => []
  | p :: ps => p.render qual :: renderParams qual ps
termination_by structural ps => ps

/-- The texts of some struct members. -/
def renderFields (qual : String → String) : List Field → List String
  | [] => []
  | f :: fs => f.render qual :: renderFields qual fs
termination_by structural fs => fs

/-- The texts of some interface elements. -/
def renderElems (qual : String → String) : List InterfaceElem → List String
  | [] => []
  | e :: es => e.render qual :: renderElems qual es
termination_by structural es => es

/-- The texts of some union terms. -/
def renderTerms (qual : String → String) : List UnionTerm → List String
  | [] => []
  | t :: ts => t.render qual :: renderTerms qual ts
termination_by structural ts => ts

end

/-- The text of a type as declared. -/
def TypeExpr.print (t : TypeExpr) : String :=
  t.render id

end StructCopy.Go
