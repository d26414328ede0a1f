/-
  Proofs/Go/WellFormed: the types whose printed text reads back as the same type.

  A tree can hold more than source text can say: a name that is a keyword, a result
  list without parentheses, an embedded slice.  `WellFormed` excludes these, and with
  them the few trees whose text is read in another way, such as `chan <-chan T`.
  What is read agrees with what was printed up to the lines of struct members, which
  `eraseLines` forgets.
-/
import StructCopy.Proofs.Go.Lookahead

set_option autoImplicit false

namespace StructCopy.Go

/-! ## Types without lines -/

mutual

/-- The type with every member on line zero. -/
def TypeExpr.eraseLines : TypeExpr → TypeExpr
  | .named name => .named name
  | .qualified qualifier name => .qualified qualifier name
  | .pointer elem => .pointer elem.eraseLines
  | .slice elem => .slice elem.eraseLines
  | .array length elem => .array length elem.eraseLines
  | .map key value => .map key.eraseLines value.eraseLines
  | .chan dir elem => .chan dir elem.eraseLines
  | .func signature => .func signature.eraseLines
  | .struct fields => .struct (eraseFields fields)
  | .interface elems => .interface (eraseElems elems)
  | .generic base args => .generic base.eraseLines (eraseTypes args)
  | .variadic elem => .variadic elem.eraseLines
  | .paren inner => .paren inner.eraseLines
termination_by structural t => t

/-- The signature with every member on line zero. -/
def Signature.eraseLines : Signature → Signature
  | .mk params results parenResults => .mk (eraseParams params) (eraseParams results) parenResults
termination_by structural s => s

/-- The parameter with every member on line zero. -/
def Param.eraseLines : Param → Param
  | .mk name type => .mk name type.eraseLines
termination_by structural p => p

/-- The member, and every member inside it, on line zero. -/
def Field.eraseLines : Field → Field
  | .mk _ names type tag => .mk 0 names type.eraseLines tag
termination_by structural f => f

/-- The interface element with every member on line zero. -/
def InterfaceElem.eraseLines : InterfaceElem → InterfaceElem
  | .method name signature => .method name signature.eraseLines
  | .union terms => .union (eraseTerms terms)
termination_by structural e => e

/-- The union term with every member on line zero. -/
def UnionTerm.eraseLines : UnionTerm → UnionTerm
  | .mk approximate type => .mk approximate type.eraseLines
termination_by structural t => t

/-- `eraseLines` of some types. -/
def eraseTypes : List TypeExpr → List TypeExpr
  | [] => []
  | t :: ts => t.eraseLines :: eraseTypes ts
termination_by structural ts => ts

/-- `eraseLines` of some parameters. -/
def eraseParams : List Param → List Param
  | [] => []
  | p :: ps => p.eraseLines :: eraseParams ps
termination_by structural ps => ps

/-- `eraseLines` of some struct members. -/
def eraseFields : List Field → List Field
  | [] => []
  | f :: fs => f.eraseLines :: eraseFields fs
termination_by structural fs => fs

/-- `eraseLines` of some interface elements. -/
def eraseElems : List InterfaceElem → List InterfaceElem
  | [] => []
  | e :: es => e.eraseLines :: eraseElems es
termination_by structural es => es

/-- `eraseLines` of some union terms. -/
def eraseTerms : List UnionTerm → List UnionTerm
  | [] => []
  | t :: ts => t.eraseLines :: eraseTerms ts
termination_by structural ts => ts

end

namespace TypeExpr

theorem isReceive_eraseLines (t : TypeExpr) : t.eraseLines.isReceive = t.isReceive := by
  cases t with
  | chan dir elem => cases dir <;> rfl
  | _ => rfl

theorem isParen_eraseLines (t : TypeExpr) : t.eraseLines.isParen = t.isParen := by
  cases t <;> rfl

theorem isBracketed_eraseLines (t : TypeExpr) : t.eraseLines.isBracketed = t.isBracketed := by
  cases t <;> rfl

theorem isMethodLike_eraseLines (t : TypeExpr) : t.eraseLines.isMethodLike = t.isMethodLike := by
  cases t with
  | chan dir elem => cases dir <;> cases elem <;> rfl
  | _ => rfl

end TypeExpr

/-! ## Well-formed types -/

/-- A word that is not reserved. -/
def Identifier (w : String) : Prop :=
  Text.isIdentifier w.toList = true ∧ isKeyword w = false

/-- The text of an array length. -/
inductive ArrayLength : String → Prop where
  | ellipsis : ArrayLength "..."
  | number {digits : String} (hne : digits ≠ "") (hdigits : digits.toList.all Char.isDigit = true) :
      ArrayLength digits
  | named {w : String} (hw : Identifier w) : ArrayLength w
  | qualified {qualifier w : String} (hqualifier : Identifier qualifier) (hw : Identifier w) :
      ArrayLength (qualifier ++ "." ++ w)

/-- The name of a type, alone or behind a package. -/
inductive TypeName : TypeExpr → Prop where
  | named {w : String} (hw : Identifier w) : TypeName (.named w)
  | qualified {qualifier w : String} (hqualifier : Identifier qualifier) (hw : Identifier w) :
      TypeName (.qualified qualifier w)

/-- A tag that backquotes can hold. -/
def RawTag (tag : String) : Prop :=
  '\x60' ∉ tag.toList ∧ '\r' ∉ tag.toList

/-- A phrase that can be written down so that it reads back as itself. -/
inductive WellFormed : Phrase → Prop where
  -- types
  | name {type : TypeExpr} (h : TypeName type) : WellFormed (.type type)
  | pointer {elem : TypeExpr} (h : WellFormed (.type elem)) : WellFormed (.type (.pointer elem))
  | slice {elem : TypeExpr} (h : WellFormed (.type elem)) : WellFormed (.type (.slice elem))
  | array {length : String} {elem : TypeExpr} (hlength : ArrayLength length)
      (h : WellFormed (.type elem)) : WellFormed (.type (.array length elem))
  | map {key value : TypeExpr} (hkey : WellFormed (.type key)) (hvalue : WellFormed (.type value)) :
      WellFormed (.type (.map key value))
  | chan {dir : ChanDir} {elem : TypeExpr} (hdir : dir = .both → elem.isReceive = false)
      (h : WellFormed (.type elem)) : WellFormed (.type (.chan dir elem))
  | func {signature : Signature} (h : WellFormed (.signature signature)) :
      WellFormed (.type (.func signature))
  | struct {fields : List Field} (h : WellFormed (.fields fields)) :
      WellFormed (.type (.struct fields))
  | interface {elems : List InterfaceElem} (h : WellFormed (.elems elems)) :
      WellFormed (.type (.interface elems))
  | generic {base : TypeExpr} {args : List TypeExpr} (hbase : TypeName base)
      (hargs : WellFormed (.args args)) : WellFormed (.type (.generic base args))
  | paren {inner : TypeExpr} (h : WellFormed (.type inner)) : WellFormed (.type (.paren inner))
  -- type arguments, at least one
  | lastArg {arg : TypeExpr} (h : WellFormed (.type arg)) : WellFormed (.args [arg])
  | nextArg {arg : TypeExpr} {args : List TypeExpr} (h : WellFormed (.type arg))
      (hargs : WellFormed (.args args)) : WellFormed (.args (arg :: args))
  -- signatures
  | noResult {params : List Param} (hparams : WellFormed (.params params)) :
      WellFormed (.signature (.mk params [] false))
  | result {params : List Param} {type : TypeExpr} (hparams : WellFormed (.params params))
      (hparen : type.isParen = false) (h : WellFormed (.type type)) :
      WellFormed (.signature (.mk params [.mk none type] false))
  | results {params results : List Param} (hparams : WellFormed (.params params))
      (hne : results ≠ []) (hresults : WellFormed (.params results)) :
      WellFormed (.signature (.mk params results true))
  -- entries of parameter and result lists
  | noParam : WellFormed (.params [])
  | param {type : TypeExpr} {params : List Param} (h : WellFormed (.type type))
      (hparams : WellFormed (.params params)) : WellFormed (.params (.mk none type :: params))
  | namedParam {name : String} {type : TypeExpr} {params : List Param} (hname : Identifier name)
      (hbracket : type.isBracketed = false) (h : WellFormed (.type type))
      (hparams : WellFormed (.params params)) : WellFormed (.params (.mk (some name) type :: params))
  | variadic {elem : TypeExpr} {params : List Param} (h : WellFormed (.type elem))
      (hparams : WellFormed (.params params)) :
      WellFormed (.params (.mk none (.variadic elem) :: params))
  | namedVariadic {name : String} {elem : TypeExpr} {params : List Param} (hname : Identifier name)
      (h : WellFormed (.type elem)) (hparams : WellFormed (.params params)) :
      WellFormed (.params (.mk (some name) (.variadic elem) :: params))
  -- struct members
  | noField : WellFormed (.fields [])
  | field {line : Nat} {names : List String} {type : TypeExpr} {tag : Option String}
      {fields : List Field} (h : WellFormed (.member names type)) (htag : ∀ s ∈ tag, RawTag s)
      (hfields : WellFormed (.fields fields)) :
      WellFormed (.fields (.mk line names type tag :: fields))
  | namedMember {names : List String} {type : TypeExpr} (hne : names ≠ [])
      (hnames : ∀ name ∈ names, Identifier name) (h : WellFormed (.type type)) :
      WellFormed (.member names type)
  | embeddedName {type : TypeExpr} (h : TypeName type) : WellFormed (.member [] type)
  | embeddedPointer {elem : TypeExpr} (h : WellFormed (.type elem)) :
      WellFormed (.member [] (.pointer elem))
  | embeddedGeneric {base : TypeExpr} {args : List TypeExpr} (hbase : TypeName base)
      (hargs : WellFormed (.args args)) : WellFormed (.member [] (.generic base args))
  -- interface elements
  | noElem : WellFormed (.elems [])
  | method {name : String} {signature : Signature} {elems : List InterfaceElem}
      (hname : Identifier name) (h : WellFormed (.signature signature))
      (helems : WellFormed (.elems elems)) : WellFormed (.elems (.method name signature :: elems))
  | union {terms : List UnionTerm} {elems : List InterfaceElem}
      (hfirst : ∀ type, terms.head? = some (.mk false type) → type.isMethodLike = false)
      (h : WellFormed (.terms terms)) (helems : WellFormed (.elems elems)) :
      WellFormed (.elems (.union terms :: elems))
  -- terms of a union, at least one
  | lastTerm {term : UnionTerm} (h : WellFormed (.term term)) : WellFormed (.terms [term])
  | nextTerm {term : UnionTerm} {terms : List UnionTerm} (h : WellFormed (.term term))
      (hterms : WellFormed (.terms terms)) : WellFormed (.terms (term :: terms))
  | term {approximate : Bool} {type : TypeExpr} (h : WellFormed (.type type)) :
      WellFormed (.term (.mk approximate type))

/-- A type that can be written down so that it reads back as itself. -/
def TypeExpr.WellFormed (t : TypeExpr) : Prop :=
  Go.WellFormed (.type t)

end StructCopy.Go
