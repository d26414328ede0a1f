/-
  Proofs/Go/TypeParts: the text of a type as a row of parts.

  Printing a type and collecting its package qualifiers are two recursions over the tree.
  Both read the same row of parts: the text is what the parts write, one after another, and
  the uses of qualifiers are those among the parts.  What the source wrote as it liked, the
  lengths of arrays and the tags of struct members, are parts of their own.
-/
import StructCopy.Go.TypeExpr.Printer
import StructCopy.Go.TypeExpr.Qualifiers

set_option autoImplicit false

namespace StructCopy.Go

/-! ## Parts -/

/-- What stands between the names of a type. -/
inductive Punctuation where
  | star
  | slice
  | map
  | chan (dir : ChanDir)
  | func
  | noField
  | openFields
  | noElem
  | openElems
  | closeBody
  | semicolon
  | openArgs
  | closeBracket
  | comma
  | ellipsis
  | openParen
  | closeParen
  | openResults
  | space
  | bar
  | tilde
  deriving DecidableEq, Repr

/-- The text of the mark. -/
def Punctuation.text : Punctuation → String
  | .star => "*"
  | .slice => "[]"
  | .map => "map["
  | .chan .both => "chan "
  | .chan .send => "chan<- "
  | .chan .receive => "<-chan "
  | .func => "func"
  | .noField => "struct\x7b\x7d"
  | .openFields => "struct\x7b "
  | .noElem => "interface\x7b\x7d"
  | .openElems => "interface\x7b "
  | .closeBody => " \x7d"
  | .semicolon => "; "
  | .openArgs => "["
  | .closeBracket => "]"
  | .comma => ", "
  | .ellipsis => "..."
  | .openParen => "("
  | .closeParen => ")"
  | .openResults => " ("
  | .space => " "
  | .bar => " | "
  | .tilde => "~"

/-- A part of the text of a type. -/
inductive TypePart where
  | mark (mark : Punctuation)
  | name (name : String)
  /-- a package qualifier and the point behind it -/
  | qualifier (qualifier : String)
  /-- the length of an array, in its brackets -/
  | length (length : String)
  /-- the tag of a struct member, in its backquotes -/
  | tag (tag : String)
  deriving DecidableEq, Repr

namespace TypePart

/-- The text of a part, a package qualifier replaced by `qual`. -/
def text (qual : String → String) : TypePart → List Char
  | .mark m => m.text.toList
  | .name s => s.toList
  | .qualifier q => (qual q).toList ++ ['.']
  | .length s => '[' :: (s.toList ++ [']'])
  | .tag s => ' ' :: '\x60' :: (s.toList ++ ['\x60'])

/-- The package qualifier that a part uses. -/
def uses : TypePart → List String
  | .qualifier q => [q]
  | _ => []

/-- The name that a part is. -/
def names : TypePart → List String
  | .name s => [s]
  | _ => []

/-- The length of an array that a part is. -/
def lengths : TypePart → List String
  | .length s => [s]
  | _ => []

/-- The text that a part takes over from the source as it stands. -/
def opaques : TypePart → List String
  | .length s => [s]
  | .tag s => [s]
  | _ => []

end TypePart

/-! ## The parts of a type -/

/-- Some rows of parts with a mark between them. -/
def separatedParts (mark : Punctuation) (rows : List (List TypePart)) : List TypePart :=
  List.intercalate [.mark mark] rows

/-- The body of a struct or interface. -/
def bodyParts (empty opened : Punctuation) (rows : List (List TypePart)) : List TypePart :=
  if rows.isEmpty then [.mark empty]
  else .mark opened :: (separatedParts .semicolon rows ++ [.mark .closeBody])

/-- The names of a member, before its type. -/
def nameParts : List String → List TypePart
  | [] => []
  | names => separatedParts .comma (names.map fun name => [.name name]) ++ [.mark .space]

/-- The tag of a member, behind its type. -/
def tagParts : Option String → List TypePart
  | some tag => [.tag tag]
  | none => []

mutual

/-- The parts of the text of a type. -/
def TypeExpr.parts : TypeExpr → List TypePart
  | .named name => [.name name]
  | .qualified qualifier name => [.qualifier qualifier, .name name]
  | .pointer elem => .mark .star :: elem.parts
  | .slice elem => .mark .slice :: elem.parts
  | .array length elem => .length length :: elem.parts
  | .map key value => .mark .map :: (key.parts ++ .mark .closeBracket :: value.parts)
  | .chan dir elem => .mark (.chan dir) :: elem.parts
  | .func signature => .mark .func :: signature.parts
  | .struct fields => bodyParts .noField .openFields (partsOfFields fields)
  | .interface elems => bodyParts .noElem .openElems (partsOfElems elems)
  | .generic base args =>
    base.parts ++ .mark .openArgs ::
      (separatedParts .comma (partsOfTypes args) ++ [.mark .closeBracket])
  | .variadic elem => .mark .ellipsis :: elem.parts
  | .paren inner => .mark .openParen :: (inner.parts ++ [.mark .closeParen])
termination_by structural t => t

/-- The parts of a signature. -/
def Signature.parts : Signature → List TypePart
  | .mk params results parenResults =>
    let head := .mark .openParen ::
      (separatedParts .comma (partsOfParams params) ++ [.mark .closeParen])
    match results with
    | [] => head
    | [.mk none type] =>
      if parenResults then head ++ .mark .openResults :: (type.parts ++ [.mark .closeParen])
      else head ++ .mark .space :: type.parts
    | results =>
      head ++ .mark .openResults ::
        (separatedParts .comma (partsOfParams results) ++ [.mark .closeParen])
termination_by structural s => s

/-- The parts of an entry of a parameter list. -/
def Param.parts : Param → List TypePart
  | .mk (some name) type => .name name :: .mark .space :: type.parts
  | .mk none type => type.parts
termination_by structural p => p

/-- The parts of a struct member. -/
def Field.parts : Field → List TypePart
  | .mk _ names type tag => nameParts names ++ (type.parts ++ tagParts tag)
termination_by structural f => f

/-- The parts of an interface element. -/
def InterfaceElem.parts : InterfaceElem → List TypePart
  | .method name signature => .name name :: signature.parts
  | .union terms => separatedParts .bar (partsOfTerms terms)
termination_by structural e => e

/-- The parts of a union term. -/
def UnionTerm.parts : UnionTerm → List TypePart
  | .mk true type => .mark .tilde :: type.parts
  | .mk false type => type.parts
termination_by structural t => t

/-- The parts of some types. -/
def partsOfTypes : List TypeExpr → List (List TypePart)
  | [] => []
  | t :: ts => t.parts :: partsOfTypes ts
termination_by structural ts => ts

/-- The parts of some parameters. -/
def partsOfParams : List Param → List (List TypePart)
  | [] => []
  | p :: ps => p.parts :: partsOfParams ps
termination_by structural ps => ps

/-- The parts of some struct members. -/
def partsOfFields : List Field → List (List TypePart)
  | [] => []
  | f :: fs => f.parts :: partsOfFields fs
termination_by structural fs => fs

/-- The parts of some interface elements. -/
def partsOfElems : List InterfaceElem → List (List TypePart)
  | [] => []
  | e :: es => e.parts :: partsOfElems es
termination_by structural es => es

/-- The parts of some union terms. -/
def partsOfTerms : List UnionTerm → List (List TypePart)
  | [] => []
  | t :: ts => t.parts :: partsOfTerms ts
termination_by structural ts => ts

end

namespace TypeExpr

/-- The names in a type, without qualifiers. -/
def names (t : TypeExpr) : List String :=
  t.parts.flatMap TypePart.names

/-- The lengths of the arrays in a type. -/
def lengths (t : TypeExpr) : List String :=
  t.parts.flatMap TypePart.lengths

/-- The texts in a type that are taken over from the source as they stand. -/
def opaques (t : TypeExpr) : List String :=
  t.parts.flatMap TypePart.opaques

end TypeExpr

/-! ## Reading a row of parts -/

theorem flatMap_intercalate {α β : Type} (f : α → List β) (sep : List α) (rows : List (List α)) :
    (List.intercalate sep rows).flatMap f =
      List.intercalate (sep.flatMap f) (rows.map (List.flatMap f)) := by
  induction rows with
  | nil => rfl
  | cons row rows ih =>
    cases rows with
    | nil => simp
    | cons row' rows =>
      simp only [List.intercalate_cons_cons, List.flatMap_append, ih, List.map_cons]

variable (qual : String → String)

@[simp] theorem flatMap_separatedParts (mark : Punctuation) (rows : List (List TypePart)) :
    (separatedParts mark rows).flatMap (TypePart.text qual) =
      List.intercalate mark.text.toList (rows.map (List.flatMap (TypePart.text qual))) := by
  simp [separatedParts, flatMap_intercalate, TypePart.text]

theorem toList_inBraces_eq {keyword : String} {empty opened : Punctuation}
    (hempty : empty.text = keyword ++ "\x7b\x7d") (hopened : opened.text = keyword ++ "\x7b ")
    {texts : List String} {rows : List (List TypePart)}
    (h : texts.map String.toList = rows.map (List.flatMap (TypePart.text qual))) :
    (inBraces keyword texts).toList =
      (bodyParts empty opened rows).flatMap (TypePart.text qual) := by
  have hnone : texts.isEmpty = rows.isEmpty := by
    have hlength := congrArg List.length h
    cases texts <;> cases rows <;> simp_all
  have hsemicolon : Punctuation.semicolon.text = "; " := rfl
  have hclose : Punctuation.closeBody.text = " \x7d" := rfl
  unfold inBraces bodyParts
  rw [hnone]
  split
  · simp [TypePart.text, hempty]
  · simp [TypePart.text, hopened, hsemicolon, hclose, h]

theorem toList_namesBefore (names : List String) :
    (namesBefore names).toList = (nameParts names).flatMap (TypePart.text qual) := by
  cases names with
  | nil => rfl
  | cons name names =>
    have hnames : List.map (List.flatMap (TypePart.text qual) ∘ fun name => [.name name]) names =
        List.map String.toList names := by
      simp [Function.comp_def, TypePart.text]
    simp [namesBefore, nameParts, TypePart.text, Punctuation.text, hnames]

theorem toList_tagSuffix (tag : Option String) :
    (tagSuffix tag).toList = (tagParts tag).flatMap (TypePart.text qual) := by
  cases tag with
  | none => rfl
  | some tag => simp [tagSuffix, tagParts, TypePart.text]

mutual

/-- The text of a type is what its parts write, one after another. -/
theorem TypeExpr.toList_render (t : TypeExpr) :
    (t.render qual).toList = t.parts.flatMap (TypePart.text qual) := by
  cases t with
  | named name => simp [TypeExpr.render, TypeExpr.parts, TypePart.text]
  | qualified qualifier name => simp [TypeExpr.render, TypeExpr.parts, TypePart.text]
  | pointer elem =>
    simp [TypeExpr.render, TypeExpr.parts, TypePart.text, Punctuation.text, elem.toList_render]
  | slice elem =>
    simp [TypeExpr.render, TypeExpr.parts, TypePart.text, Punctuation.text, elem.toList_render]
  | array length elem =>
    simp [TypeExpr.render, TypeExpr.parts, TypePart.text, elem.toList_render]
  | map key value =>
    simp [TypeExpr.render, TypeExpr.parts, TypePart.text, Punctuation.text, key.toList_render,
      value.toList_render]
  | chan dir elem =>
    cases dir <;>
      simp [TypeExpr.render, TypeExpr.parts, TypePart.text, Punctuation.text, elem.toList_render]
  | func signature =>
    simp [TypeExpr.render, TypeExpr.parts, TypePart.text, Punctuation.text,
      signature.toList_render]
  | struct fields => exact toList_inBraces_eq qual rfl rfl (toList_renderFields fields)
  | interface elems => exact toList_inBraces_eq qual rfl rfl (toList_renderElems elems)
  | generic base args =>
    simp [TypeExpr.render, TypeExpr.parts, TypePart.text, Punctuation.text, base.toList_render,
      toList_renderTypes args]
  | variadic elem =>
    simp [TypeExpr.render, TypeExpr.parts, TypePart.text, Punctuation.text, elem.toList_render]
  | paren inner =>
    simp [TypeExpr.render, TypeExpr.parts, TypePart.text, Punctuation.text, inner.toList_render]
termination_by structural t

theorem Signature.toList_render (s : Signature) :
    (s.render qual).toList = s.parts.flatMap (TypePart.text qual) := by
  cases s with
  | mk params results parenResults =>
    have hparams := toList_renderParams params
    have hresults := toList_renderParams results
    unfold Signature.render Signature.parts
    dsimp only
    split
    · simp [TypePart.text, Punctuation.text, hparams]
    · next type =>
      -- a single result without a name is its type
      have htype : (type.render qual).toList = type.parts.flatMap (TypePart.text qual) := by
        simpa [renderParams, partsOfParams, Param.render, Param.parts] using hresults
      split <;> simp [TypePart.text, Punctuation.text, hparams, htype]
    · simp [TypePart.text, Punctuation.text, hparams, hresults]
termination_by structural s

theorem Param.toList_render (p : Param) :
    (p.render qual).toList = p.parts.flatMap (TypePart.text qual) := by
  cases p with
  | mk name type =>
    cases name <;>
      simp [Param.render, Param.parts, TypePart.text, Punctuation.text, type.toList_render]
termination_by structural p

theorem Field.toList_render (f : Field) :
    (f.render qual).toList = f.parts.flatMap (TypePart.text qual) := by
  cases f with
  | mk line names type tag =>
    simp [Field.render, Field.parts, toList_namesBefore qual, toList_tagSuffix qual,
      type.toList_render]
termination_by structural f

theorem InterfaceElem.toList_render (e : InterfaceElem) :
    (e.render qual).toList = e.parts.flatMap (TypePart.text qual) := by
  cases e with
  | method name signature =>
    simp [InterfaceElem.render, InterfaceElem.parts, TypePart.text, signature.toList_render]
  | union terms =>
    simp [InterfaceElem.render, InterfaceElem.parts, Punctuation.text, toList_renderTerms terms]
termination_by structural e

theorem UnionTerm.toList_render (t : UnionTerm) :
    (t.render qual).toList = t.parts.flatMap (TypePart.text qual) := by
  cases t with
  | mk approximate type =>
    cases approximate <;>
      simp [UnionTerm.render, UnionTerm.parts, TypePart.text, Punctuation.text,
        type.toList_render]
termination_by structural t

theorem toList_renderTypes (ts : List TypeExpr) : (renderTypes qual ts).map String.toList =
    (partsOfTypes ts).map (List.flatMap (TypePart.text qual)) := by
  cases ts with
  | nil => rfl
  | cons t ts => simp [renderTypes, partsOfTypes, t.toList_render, toList_renderTypes ts]
termination_by structural ts

theorem toList_renderParams (ps : List Param) : (renderParams qual ps).map String.toList =
    (partsOfParams ps).map (List.flatMap (TypePart.text qual)) := by
  cases ps with
  | nil => rfl
  | cons p ps => simp [renderParams, partsOfParams, p.toList_render, toList_renderParams ps]
termination_by structural ps

theorem toList_renderFields (fs : List Field) : (renderFields qual fs).map String.toList =
    (partsOfFields fs).map (List.flatMap (TypePart.text qual)) := by
  cases fs with
  | nil => rfl
  | cons f fs => simp [renderFields, partsOfFields, f.toList_render, toList_renderFields fs]
termination_by structural fs

theorem toList_renderElems (es : List InterfaceElem) : (renderElems qual es).map String.toList =
    (partsOfElems es).map (List.flatMap (TypePart.text qual)) := by
  cases es with
  | nil => rfl
  | cons e es => simp [renderElems, partsOfElems, e.toList_render, toList_renderElems es]
termination_by structural es

theorem toList_renderTerms (ts : List UnionTerm) : (renderTerms qual ts).map String.toList =
    (partsOfTerms ts).map (List.flatMap (TypePart.text qual)) := by
  cases ts with
  | nil => rfl
  | cons t ts => simp [renderTerms, partsOfTerms, t.toList_render, toList_renderTerms ts]
termination_by structural ts

end

/-! ## What marks do not have -/

section Marks

variable {β : Type} {f : TypePart → List β}

theorem flatMap_separatedParts_of_marks (hmarks : ∀ m, f (.mark m) = []) (mark : Punctuation)
    (rows : List (List TypePart)) :
    (separatedParts mark rows).flatMap f = rows.flatten.flatMap f := by
  unfold separatedParts
  induction rows with
  | nil => rfl
  | cons row rows ih =>
    cases rows with
    | nil => simp
    | cons row' rows =>
      rw [List.intercalate_cons_cons, List.flatMap_append, List.flatMap_append, ih]
      simp [hmarks]

theorem flatMap_bodyParts_of_marks (hmarks : ∀ m, f (.mark m) = []) (empty opened : Punctuation)
    (rows : List (List TypePart)) :
    (bodyParts empty opened rows).flatMap f = rows.flatten.flatMap f := by
  unfold bodyParts
  split
  · next hnone => simp [hmarks, List.isEmpty_iff.1 hnone]
  · simp [hmarks, flatMap_separatedParts_of_marks hmarks]

theorem flatMap_nameParts_of_marks (hmarks : ∀ m, f (.mark m) = []) (names : List String) :
    (nameParts names).flatMap f = names.flatMap fun name => f (.name name) := by
  have hrow : ∀ names : List String,
      ((names.map fun name => [TypePart.name name]).flatten).flatMap f =
        names.flatMap fun name => f (.name name) := by
    intro names
    induction names with
    | nil => rfl
    | cons name names ih => simp only [List.map_cons, List.flatten_cons, List.flatMap_append, ih,
        List.flatMap_cons, List.flatMap_nil, List.append_nil]
  cases names with
  | nil => rfl
  | cons name names =>
    rw [nameParts, List.flatMap_append, flatMap_separatedParts_of_marks hmarks, hrow]
    · simp [hmarks]
    · exact nofun

theorem flatMap_signatureParts_of_marks (hmarks : ∀ m, f (.mark m) = [])
    (params results : List Param) (parenResults : Bool) :
    (Signature.mk params results parenResults).parts.flatMap f =
      (partsOfParams params).flatten.flatMap f ++ (partsOfParams results).flatten.flatMap f := by
  unfold Signature.parts
  dsimp only
  split
  · simp [hmarks, flatMap_separatedParts_of_marks hmarks, partsOfParams]
  · split <;>
      simp [hmarks, flatMap_separatedParts_of_marks hmarks, partsOfParams, Param.parts]
  · simp [hmarks, flatMap_separatedParts_of_marks hmarks]

end Marks

/-! ## Uses of qualifiers -/

@[simp] theorem uses_separatedParts (mark : Punctuation) (rows : List (List TypePart)) :
    (separatedParts mark rows).flatMap TypePart.uses =
      rows.flatten.flatMap TypePart.uses :=
  flatMap_separatedParts_of_marks (fun _ => rfl) mark rows

@[simp] theorem uses_bodyParts (empty opened : Punctuation) (rows : List (List TypePart)) :
    (bodyParts empty opened rows).flatMap TypePart.uses =
      rows.flatten.flatMap TypePart.uses :=
  flatMap_bodyParts_of_marks (fun _ => rfl) empty opened rows

theorem uses_nameParts (names : List String) : (nameParts names).flatMap TypePart.uses = [] := by
  rw [flatMap_nameParts_of_marks fun _ => rfl]
  exact List.flatMap_eq_nil_iff.2 fun _ _ => rfl

theorem uses_tagParts (tag : Option String) : (tagParts tag).flatMap TypePart.uses = [] := by
  cases tag <;> rfl

mutual

/-- The uses of qualifiers in a type are those among its parts, in their order. -/
theorem TypeExpr.uses_eq (t : TypeExpr) : t.uses = t.parts.flatMap TypePart.uses := by
  cases t with
  | named name => rfl
  | qualified qualifier name => rfl
  | pointer elem => simp [TypeExpr.uses, TypeExpr.parts, TypePart.uses, elem.uses_eq]
  | slice elem => simp [TypeExpr.uses, TypeExpr.parts, TypePart.uses, elem.uses_eq]
  | array length elem => simp [TypeExpr.uses, TypeExpr.parts, TypePart.uses, elem.uses_eq]
  | map key value =>
    simp [TypeExpr.uses, TypeExpr.parts, TypePart.uses, key.uses_eq, value.uses_eq]
  | chan dir elem => simp [TypeExpr.uses, TypeExpr.parts, TypePart.uses, elem.uses_eq]
  | func signature => simp [TypeExpr.uses, TypeExpr.parts, TypePart.uses, signature.uses_eq]
  | struct fields => simp [TypeExpr.uses, TypeExpr.parts, usesInFields_eq fields]
  | interface elems => simp [TypeExpr.uses, TypeExpr.parts, usesInElems_eq elems]
  | generic base args =>
    simp [TypeExpr.uses, TypeExpr.parts, TypePart.uses, base.uses_eq, usesInTypes_eq args]
  | variadic elem => simp [TypeExpr.uses, TypeExpr.parts, TypePart.uses, elem.uses_eq]
  | paren inner => simp [TypeExpr.uses, TypeExpr.parts, TypePart.uses, inner.uses_eq]
termination_by structural t

theorem Signature.uses_eq (s : Signature) : s.uses = s.parts.flatMap TypePart.uses := by
  cases s with
  | mk params results parenResults =>
    rw [flatMap_signatureParts_of_marks fun _ => rfl, ← usesInParams_eq params,
      ← usesInParams_eq results]
    rfl
termination_by structural s

theorem Param.uses_eq (p : Param) : p.uses = p.parts.flatMap TypePart.uses := by
  cases p with
  | mk name type => cases name <;> simp [Param.uses, Param.parts, TypePart.uses, type.uses_eq]
termination_by structural p

theorem Field.uses_eq (f : Field) : f.uses = f.parts.flatMap TypePart.uses := by
  cases f with
  | mk line names type tag =>
    simp [Field.uses, Field.parts, uses_nameParts, uses_tagParts, type.uses_eq]
termination_by structural f

theorem InterfaceElem.uses_eq (e : InterfaceElem) : e.uses = e.parts.flatMap TypePart.uses := by
  cases e with
  | method name signature =>
    simp [InterfaceElem.uses, InterfaceElem.parts, TypePart.uses, signature.uses_eq]
  | union terms => simp [InterfaceElem.uses, InterfaceElem.parts, usesInTerms_eq terms]
termination_by structural e

theorem UnionTerm.uses_eq (t : UnionTerm) : t.uses = t.parts.flatMap TypePart.uses := by
  cases t with
  | mk approximate type =>
    cases approximate <;> simp [UnionTerm.uses, UnionTerm.parts, TypePart.uses, type.uses_eq]
termination_by structural t

theorem usesInTypes_eq (ts : List TypeExpr) :
    usesInTypes ts = (partsOfTypes ts).flatten.flatMap TypePart.uses := by
  cases ts with
  | nil => rfl
  | cons t ts => simp [usesInTypes, partsOfTypes, t.uses_eq, usesInTypes_eq ts]
termination_by structural ts

theorem usesInParams_eq (ps : List Param) :
    usesInParams ps = (partsOfParams ps).flatten.flatMap TypePart.uses := by
  cases ps with
  | nil => rfl
  | cons p ps => simp [usesInParams, partsOfParams, p.uses_eq, usesInParams_eq ps]
termination_by structural ps

theorem usesInFields_eq (fs : List Field) :
    usesInFields fs = (partsOfFields fs).flatten.flatMap TypePart.uses := by
  cases fs with
  | nil => rfl
  | cons f fs => simp [usesInFields, partsOfFields, f.uses_eq, usesInFields_eq fs]
termination_by structural fs

theorem usesInElems_eq (es : List InterfaceElem) :
    usesInElems es = (partsOfElems es).flatten.flatMap TypePart.uses := by
  cases es with
  | nil => rfl
  | cons e es => simp [usesInElems, partsOfElems, e.uses_eq, usesInElems_eq es]
termination_by structural es

theorem usesInTerms_eq (ts : List UnionTerm) :
    usesInTerms ts = (partsOfTerms ts).flatten.flatMap TypePart.uses := by
  cases ts with
  | nil => rfl
  | cons t ts => simp [usesInTerms, partsOfTerms, t.uses_eq, usesInTerms_eq ts]
termination_by structural ts

end

/-! ## Names -/

@[simp] theorem names_separatedParts (mark : Punctuation) (rows : List (List TypePart)) :
    (separatedParts mark rows).flatMap TypePart.names =
      rows.flatten.flatMap TypePart.names :=
  flatMap_separatedParts_of_marks (fun _ => rfl) mark rows

@[simp] theorem names_bodyParts (empty opened : Punctuation) (rows : List (List TypePart)) :
    (bodyParts empty opened rows).flatMap TypePart.names =
      rows.flatten.flatMap TypePart.names :=
  flatMap_bodyParts_of_marks (fun _ => rfl) empty opened rows

theorem names_nameParts (names : List String) :
    (nameParts names).flatMap TypePart.names = names := by
  rw [flatMap_nameParts_of_marks fun _ => rfl]
  exact List.flatMap_singleton' names

@[simp] theorem names_map_name (names : List String) :
    (names.map TypePart.name).flatMap TypePart.names = names := by
  rw [List.flatMap_map]
  exact List.flatMap_singleton' names

theorem names_tagParts (tag : Option String) : (tagParts tag).flatMap TypePart.names = [] := by
  cases tag <;> rfl

/-! ## Parentheses -/

/-- A type is another one in parentheses, any number of them, and the other one is in none. -/
inductive TypeExpr.Encloses : TypeExpr → TypeExpr → Prop where
  | plain {t : TypeExpr} (h : ∀ inner, t ≠ .paren inner) : Encloses t t
  | paren {inner t : TypeExpr} (h : Encloses inner t) : Encloses (.paren inner) t

theorem TypeExpr.encloses_named (name : String) :
    (TypeExpr.named name).Encloses (.named name) :=
  .plain nofun

theorem TypeExpr.encloses_qualified (qualifier name : String) :
    (TypeExpr.qualified qualifier name).Encloses (.qualified qualifier name) :=
  .plain nofun

theorem TypeExpr.encloses_struct (members : List Field) :
    (TypeExpr.struct members).Encloses (.struct members) :=
  .plain nofun

namespace TypeExpr.Encloses

variable {t u u' : TypeExpr}

theorem unique (h : t.Encloses u) (h' : t.Encloses u') : u = u' := by
  induction h with
  | plain hplain =>
    cases h' with
    | plain => rfl
    | paren => exact absurd rfl (hplain _)
  | paren _ ih =>
    cases h' with
    | plain hplain => exact absurd rfl (hplain _)
    | paren h' => exact ih h'

theorem parts_subset (h : t.Encloses u) : u.parts ⊆ t.parts := by
  induction h with
  | plain => exact List.Subset.refl _
  | paren _ ih =>
    exact fun part hpart => List.mem_cons_of_mem _ (List.mem_append_left _ (ih hpart))

end TypeExpr.Encloses

theorem TypeExpr.encloses_bare (t : TypeExpr) : t.Encloses t.bare := by
  fun_induction TypeExpr.bare t with
  | case1 inner ih => exact .paren ih
  | case2 t h => exact .plain h

/-- Without its parentheses a type is what stands in them. -/
theorem TypeExpr.bare_eq_iff {t u : TypeExpr} : t.bare = u ↔ t.Encloses u := by
  constructor
  · rintro rfl
    exact t.encloses_bare
  · exact fun h => t.encloses_bare.unique h

/-! ## Members -/

theorem subset_separatedParts {mark : Punctuation} {rows : List (List TypePart)}
    {row : List TypePart} (h : row ∈ rows) : row ⊆ separatedParts mark rows := by
  unfold separatedParts
  induction rows with
  | nil => cases h
  | cons first rows ih =>
    cases rows with
    | nil =>
      rw [List.mem_singleton.1 h, List.intercalate_singleton]
      exact List.Subset.refl _
    | cons second rows =>
      rw [List.intercalate_cons_cons]
      rcases List.mem_cons.1 h with rfl | h
      · exact fun part hpart => List.mem_append_left _ (List.mem_append_left _ hpart)
      · exact fun part hpart => List.mem_append_right _ (ih h hpart)

theorem subset_bodyParts {empty opened : Punctuation} {rows : List (List TypePart)}
    {row : List TypePart} (h : row ∈ rows) : row ⊆ bodyParts empty opened rows := by
  intro part hpart
  unfold bodyParts
  rw [if_neg (by simpa using List.ne_nil_of_mem h)]
  exact List.mem_cons_of_mem _ (List.mem_append_left _ (subset_separatedParts h hpart))

theorem parts_mem_partsOfFields {member : Field} {members : List Field} (h : member ∈ members) :
    member.parts ∈ partsOfFields members := by
  induction members with
  | nil => cases h
  | cons first members ih =>
    rcases List.mem_cons.1 h with rfl | h
    · exact List.mem_cons_self
    · exact List.mem_cons_of_mem _ (ih h)

/-- The parts of a member of a struct type are parts of the struct type. -/
theorem Field.parts_subset {t : TypeExpr} {members : List Field} (ht : t.Encloses (.struct members))
    {member : Field} (h : member ∈ members) : member.parts ⊆ t.parts :=
  List.Subset.trans (subset_bodyParts (parts_mem_partsOfFields h)) ht.parts_subset

theorem Field.type_parts_subset (f : Field) : f.type.parts ⊆ f.parts := by
  cases f with
  | mk line names type tag =>
    exact fun part hpart => List.mem_append_right _ (List.mem_append_left _ hpart)

theorem Field.names_subset (f : Field) : f.names ⊆ f.parts.flatMap TypePart.names := by
  cases f with
  | mk line names type tag =>
    intro name hname
    rw [Field.parts, List.flatMap_append, names_nameParts]
    exact List.mem_append_left _ hname

end StructCopy.Go
