/-
  Proofs/Go/Requalifying: another name for an import.

  When an import of a file gets another name, the uses of the name as a qualifier change
  with it.  They stand in the types of the file, as parts of their own, and in the lengths
  of arrays, which are kept as text.
-/
import StructCopy.Go.SourceFile
import StructCopy.Go.Token
import StructCopy.Proofs.Go.TypeParts
import Mathlib.Data.List.Basic

set_option autoImplicit false

namespace StructCopy.Go

/-! ## Tokens -/

/-- The token behind which `next` comes, with `new` for `old` if this is a qualifier: a word before
a dot, and not behind one. `selected` says that a dot stands before it. -/
def requalifyToken (old new : String) (selected : Bool) (t : Token) (next : Option Token) : Token :=
  if t = .word old ∧ selected = false ∧ next = some .dot then .word new else t

/-- The tokens with `new` for `old` wherever this is a qualifier. -/
def requalifyTokens (old new : String) (selected : Bool) : List Token → List Token
  | [] => []
  | t :: ts =>
    requalifyToken old new selected t ts.head? :: requalifyTokens old new (t == .dot) ts

/-- The text that tokens have inside an array length. -/
def lengthText (ts : List Token) : String :=
  String.join (ts.map Token.spelling)

theorem lengthText_cons (t : Token) (ts : List Token) :
    lengthText (t :: ts) = t.spelling ++ lengthText ts := by
  simp [lengthText, String.join_cons]

/-- Every qualifier that gets the other name makes the text longer or shorter by the same amount. -/
theorem length_requalifyTokens (old new : String) (selected : Bool) (ts : List Token) :
    ∃ count, (lengthText (requalifyTokens old new selected ts)).length + count * old.length =
      (lengthText ts).length + count * new.length := by
  induction ts generalizing selected with
  | nil => exact ⟨0, by rw [Nat.zero_mul, Nat.zero_mul]; rfl⟩
  | cons t ts ih =>
    obtain ⟨count, hcount⟩ := ih (t == .dot)
    unfold requalifyTokens
    rw [lengthText_cons, lengthText_cons, String.length_append, String.length_append,
      requalifyToken]
    split
    · next h =>
      obtain ⟨rfl, -, -⟩ := h
      refine ⟨count + 1, ?_⟩
      rw [Nat.succ_mul, Nat.succ_mul]
      dsimp only [Token.spelling]
      omega
    · exact ⟨count, by omega⟩

/-! ## Another name -/

/-- Another name for an import, and what it makes of the lengths of arrays. -/
structure Requalification where
  old : String
  new : String
  /-- the length of an array, with the other name -/
  length : String → String
  /-- a length is the text of tokens, and it is these that get the other name -/
  spelled : ∀ s, ∃ ts, s = lengthText ts ∧ length s = lengthText (requalifyTokens old new false ts)

namespace Requalification

variable (r : Requalification)

/-- A qualifier, or the name of an import, with the other name. -/
def qualifier (q : String) : String :=
  if q = r.old then r.new else q

theorem length_eq (s : String) :
    ∃ count, (r.length s).length + count * r.old.length = s.length + count * r.new.length := by
  obtain ⟨ts, hs, hlength⟩ := r.spelled s
  rw [hlength, hs]
  exact length_requalifyTokens r.old r.new false ts

theorem length_le_length_of_le (h : r.old.length ≤ r.new.length) (s : String) :
    s.length ≤ (r.length s).length := by
  obtain ⟨count, hcount⟩ := r.length_eq s
  have := Nat.mul_le_mul_left count h
  omega

theorem length_length_le_of_le (h : r.new.length ≤ r.old.length) (s : String) :
    (r.length s).length ≤ s.length := by
  obtain ⟨count, hcount⟩ := r.length_eq s
  have := Nat.mul_le_mul_left count h
  omega

/-- Two qualifiers stay different, unless one of them is the other name already. -/
theorem qualifier_inj {q q' : String} (hq : q ≠ r.new) (hq' : q' ≠ r.new) :
    r.qualifier q = r.qualifier q' ↔ q = q' := by
  unfold qualifier
  split <;> split <;> simp_all [eq_comm]

end Requalification

/-! ## Types -/

mutual

/-- The type with the other name for an import. -/
def TypeExpr.requalify (r : Requalification) : TypeExpr → TypeExpr
  | .named name => .named name
  | .qualified qualifier name => .qualified (r.qualifier qualifier) name
  | .pointer elem => .pointer (elem.requalify r)
  | .slice elem => .slice (elem.requalify r)
  | .array length elem => .array (r.length length) (elem.requalify r)
  | .map key value => .map (key.requalify r) (value.requalify r)
  | .chan dir elem => .chan dir (elem.requalify r)
  | .func signature => .func (signature.requalify r)
  | .struct fields => .struct (requalifyFields r fields)
  | .interface elems => .interface (requalifyElems r elems)
  | .generic base args => .generic (base.requalify r) (requalifyTypes r args)
  | .variadic elem => .variadic (elem.requalify r)
  | .paren inner => .paren (inner.requalify r)
termination_by structural t => t

/-- The signature with the other name. -/
def Signature.requalify (r : Requalification) : Signature → Signature
  | .mk params results parenResults =>
    .mk (requalifyParams r params) (requalifyParams r results) parenResults
termination_by structural s => s

/-- The parameter with the other name. -/
def Param.requalify (r : Requalification) : Param → Param
  | .mk name type => .mk name (type.requalify r)
termination_by structural p => p

/-- The member with the other name; its tag stays. -/
def Field.requalify (r : Requalification) : Field → Field
  | .mk line names type tag => .mk line names (type.requalify r) tag
termination_by structural f => f

/-- The interface element with the other name. -/
def InterfaceElem.requalify (r : Requalification) : InterfaceElem → InterfaceElem
  | .method name signature => .method name (signature.requalify r)
  | .union terms => .union (requalifyTerms r terms)
termination_by structural e => e

/-- The union term with the other name. -/
def UnionTerm.requalify (r : Requalification) : UnionTerm → UnionTerm
  | .mk approximate type => .mk approximate (type.requalify r)
termination_by structural t => t

/-- Some types with the other name. -/
def requalifyTypes (r : Requalification) : List TypeExpr → List TypeExpr
  | [] => []
  | t :: ts => t.requalify r :: requalifyTypes r ts
termination_by structural ts => ts

/-- Some parameters with the other name. -/
def requalifyParams (r : Requalification) : List Param → List Param
  | [] => []
  | p :: ps => p.requalify r :: requalifyParams r ps
termination_by structural ps => ps

/-- Some struct members with the other name. -/
def requalifyFields (r : Requalification) : List Field → List Field
  | [] => []
  | f :: fs => f.requalify r :: requalifyFields r fs
termination_by structural fs => fs

/-- Some interface elements with the other name. -/
def requalifyElems (r : Requalification) : List InterfaceElem → List InterfaceElem
  | [] => []
  | e :: es => e.requalify r :: requalifyElems r es
termination_by structural es => es

/-- Some union terms with the other name. -/
def requalifyTerms (r : Requalification) : List UnionTerm → List UnionTerm
  | [] => []
  | t :: ts => t.requalify r :: requalifyTerms r ts
termination_by structural ts => ts

end

variable (r : Requalification)

theorem requalifyFields_eq (fs : List Field) :
    requalifyFields r fs = fs.map (Field.requalify r) := by
  induction fs with
  | nil => rfl
  | cons f fs ih => rw [requalifyFields, ih, List.map_cons]

variable {r} in
theorem TypeExpr.Encloses.requalify {t u : TypeExpr} (h : t.Encloses u) :
    (t.requalify r).Encloses (u.requalify r) := by
  induction h with
  | @plain t h =>
    cases t with
    | paren inner => exact absurd rfl (h inner)
    | _ => exact .plain nofun
  | paren _ ih => exact .paren ih

namespace Field

variable {r}

@[simp] theorem names_requalify (f : Field) : (f.requalify r).names = f.names := by
  cases f
  rfl

@[simp] theorem isEmbedded_requalify (f : Field) : (f.requalify r).isEmbedded = f.isEmbedded := by
  cases f
  rfl

@[simp] theorem tag_requalify (f : Field) : (f.requalify r).tag = f.tag := by
  cases f
  rfl

@[simp] theorem type_requalify (f : Field) : (f.requalify r).type = f.type.requalify r := by
  cases f
  rfl

end Field

/-! ## Files -/

/-- The import with the other name, if it has the old one. -/
def Import.requalify (i : Import) : Import :=
  { i with name := i.name.map r.qualifier }

/-- The declaration with the other name. -/
def TypeDecl.requalify (d : TypeDecl) : TypeDecl :=
  { d with type := d.type.requalify r }

/-- The file with the other name for its import, in its types as well. -/
def SourceFile.requalify (f : SourceFile) : SourceFile :=
  { f with
    imports := f.imports.map (Import.requalify r)
    types := f.types.map (TypeDecl.requalify r) }

/-! ## The parts of a type -/

/-- The part with the other name. -/
def TypePart.requalify : TypePart → TypePart
  | .qualifier q => .qualifier (r.qualifier q)
  | .length s => .length (r.length s)
  | part => part

@[simp] theorem map_separatedParts (mark : Punctuation) (rows : List (List TypePart)) :
    (separatedParts mark rows).map (TypePart.requalify r) =
      separatedParts mark (rows.map (List.map (TypePart.requalify r))) := by
  unfold separatedParts
  rw [List.map_eq_flatMap, flatMap_intercalate]
  simp [TypePart.requalify, List.map_eq_flatMap]

@[simp] theorem map_bodyParts (empty opened : Punctuation) (rows : List (List TypePart)) :
    (bodyParts empty opened rows).map (TypePart.requalify r) =
      bodyParts empty opened (rows.map (List.map (TypePart.requalify r))) := by
  unfold bodyParts
  rw [List.isEmpty_map]
  split
  · rfl
  · simp [TypePart.requalify]

theorem map_nameParts (names : List String) :
    (nameParts names).map (TypePart.requalify r) = nameParts names := by
  cases names with
  | nil => rfl
  | cons name names =>
    rw [nameParts, List.map_append, map_separatedParts, List.map_map]
    · rfl
    · exact List.cons_ne_nil _ _

theorem map_tagParts (tag : Option String) :
    (tagParts tag).map (TypePart.requalify r) = tagParts tag := by
  cases tag <;> rfl

mutual

/-- A type with the other name has the same parts, with the other name. -/
theorem TypeExpr.parts_requalify (t : TypeExpr) :
    (t.requalify r).parts = t.parts.map (TypePart.requalify r) := by
  cases t with
  | named name => rfl
  | qualified qualifier name => rfl
  | pointer elem =>
    simp [TypeExpr.requalify, TypeExpr.parts, TypePart.requalify, elem.parts_requalify]
  | slice elem =>
    simp [TypeExpr.requalify, TypeExpr.parts, TypePart.requalify, elem.parts_requalify]
  | array length elem =>
    simp [TypeExpr.requalify, TypeExpr.parts, TypePart.requalify, elem.parts_requalify]
  | map key value =>
    simp [TypeExpr.requalify, TypeExpr.parts, TypePart.requalify, key.parts_requalify,
      value.parts_requalify]
  | chan dir elem =>
    simp [TypeExpr.requalify, TypeExpr.parts, TypePart.requalify, elem.parts_requalify]
  | func signature =>
    simp [TypeExpr.requalify, TypeExpr.parts, TypePart.requalify, signature.parts_requalify]
  | struct fields =>
    simp [TypeExpr.requalify, TypeExpr.parts, partsOfFields_requalify fields]
  | interface elems =>
    simp [TypeExpr.requalify, TypeExpr.parts, partsOfElems_requalify elems]
  | generic base args =>
    simp [TypeExpr.requalify, TypeExpr.parts, TypePart.requalify, base.parts_requalify,
      partsOfTypes_requalify args]
  | variadic elem =>
    simp [TypeExpr.requalify, TypeExpr.parts, TypePart.requalify, elem.parts_requalify]
  | paren inner =>
    simp [TypeExpr.requalify, TypeExpr.parts, TypePart.requalify, inner.parts_requalify]
termination_by structural t

theorem Signature.parts_requalify (s : Signature) :
    (s.requalify r).parts = s.parts.map (TypePart.requalify r) := by
  cases s with
  | mk params results parenResults =>
    have hparams := partsOfParams_requalify params
    have hresults := partsOfParams_requalify results
    unfold Signature.requalify Signature.parts
    dsimp only
    cases results with
    | nil => simp [requalifyParams, TypePart.requalify, hparams]
    | cons result results =>
      obtain ⟨name, type⟩ := result
      cases name with
      | some name =>
        simp [requalifyParams, Param.requalify, TypePart.requalify, hparams, ← hresults]
      | none =>
        cases results with
        | cons result' results =>
          simp [requalifyParams, Param.requalify, TypePart.requalify, hparams, ← hresults]
        | nil =>
          -- a single result without a name is its type
          have htype : (type.requalify r).parts = type.parts.map (TypePart.requalify r) := by
            simpa [requalifyParams, Param.requalify, partsOfParams, Param.parts] using hresults
          cases parenResults <;>
            simp [requalifyParams, Param.requalify, TypePart.requalify, hparams, htype]
termination_by structural s

theorem Param.parts_requalify (p : Param) :
    (p.requalify r).parts = p.parts.map (TypePart.requalify r) := by
  cases p with
  | mk name type =>
    cases name <;>
      simp [Param.requalify, Param.parts, TypePart.requalify, type.parts_requalify]
termination_by structural p

theorem Field.parts_requalify (f : Field) :
    (f.requalify r).parts = f.parts.map (TypePart.requalify r) := by
  cases f with
  | mk line names type tag =>
    simp [Field.requalify, Field.parts, map_nameParts r, map_tagParts r, type.parts_requalify]
termination_by structural f

theorem InterfaceElem.parts_requalify (e : InterfaceElem) :
    (e.requalify r).parts = e.parts.map (TypePart.requalify r) := by
  cases e with
  | method name signature =>
    simp [InterfaceElem.requalify, InterfaceElem.parts, TypePart.requalify,
      signature.parts_requalify]
  | union terms =>
    simp [InterfaceElem.requalify, InterfaceElem.parts, partsOfTerms_requalify terms]
termination_by structural e

theorem UnionTerm.parts_requalify (t : UnionTerm) :
    (t.requalify r).parts = t.parts.map (TypePart.requalify r) := by
  cases t with
  | mk approximate type =>
    cases approximate <;>
      simp [UnionTerm.requalify, UnionTerm.parts, TypePart.requalify, type.parts_requalify]
termination_by structural t

theorem partsOfTypes_requalify (ts : List TypeExpr) : partsOfTypes (requalifyTypes r ts) =
    (partsOfTypes ts).map (List.map (TypePart.requalify r)) := by
  cases ts with
  | nil => rfl
  | cons t ts => simp [requalifyTypes, partsOfTypes, t.parts_requalify, partsOfTypes_requalify ts]
termination_by structural ts

theorem partsOfParams_requalify (ps : List Param) : partsOfParams (requalifyParams r ps) =
    (partsOfParams ps).map (List.map (TypePart.requalify r)) := by
  cases ps with
  | nil => rfl
  | cons p ps =>
    simp [requalifyParams, partsOfParams, p.parts_requalify, partsOfParams_requalify ps]
termination_by structural ps

theorem partsOfFields_requalify (fs : List Field) : partsOfFields (requalifyFields r fs) =
    (partsOfFields fs).map (List.map (TypePart.requalify r)) := by
  cases fs with
  | nil => rfl
  | cons f fs =>
    simp [requalifyFields, partsOfFields, f.parts_requalify, partsOfFields_requalify fs]
termination_by structural fs

theorem partsOfElems_requalify (es : List InterfaceElem) : partsOfElems (requalifyElems r es) =
    (partsOfElems es).map (List.map (TypePart.requalify r)) := by
  cases es with
  | nil => rfl
  | cons e es => simp [requalifyElems, partsOfElems, e.parts_requalify, partsOfElems_requalify es]
termination_by structural es

theorem partsOfTerms_requalify (ts : List UnionTerm) : partsOfTerms (requalifyTerms r ts) =
    (partsOfTerms ts).map (List.map (TypePart.requalify r)) := by
  cases ts with
  | nil => rfl
  | cons t ts => simp [requalifyTerms, partsOfTerms, t.parts_requalify, partsOfTerms_requalify ts]
termination_by structural ts

end

/-! ## Qualifiers -/

variable {r}

theorem TypeExpr.uses_requalify (t : TypeExpr) : (t.requalify r).uses = t.uses.map r.qualifier := by
  rw [(t.requalify r).uses_eq, t.uses_eq, t.parts_requalify, List.flatMap_map, List.map_flatMap]
  refine List.flatMap_congr fun part _ => ?_
  cases part <;> rfl

theorem eraseDups_map {α β : Type} [BEq α] [LawfulBEq α] [BEq β] [LawfulBEq β] {f : α → β}
    (xs : List α) (h : ∀ x ∈ xs, ∀ y ∈ xs, f x = f y → x = y) :
    (xs.map f).eraseDups = xs.eraseDups.map f := by
  match xs with
  | [] => rfl
  | x :: xs =>
    have hfilter : xs.filter ((fun b => !b == f x) ∘ f) = xs.filter fun b => !b == x := by
      refine List.filter_congr fun y hy => ?_
      by_cases hyx : y = x
      · simp [hyx]
      · have hne : f y ≠ f x := fun heq =>
          hyx (h y (List.mem_cons_of_mem _ hy) x List.mem_cons_self heq)
        simp only [Function.comp_apply, beq_eq_false_iff_ne.2 hne, beq_eq_false_iff_ne.2 hyx]
    rw [List.map_cons, List.eraseDups_cons, List.eraseDups_cons, List.map_cons, List.filter_map,
      hfilter, eraseDups_map (xs.filter fun b => !b == x)]
    intro y hy z hz
    exact h y (List.mem_cons_of_mem _ (List.mem_filter.1 hy).1) z
      (List.mem_cons_of_mem _ (List.mem_filter.1 hz).1)
termination_by xs.length
decreasing_by exact Nat.lt_succ_of_le (List.length_filter_le _ _)

theorem idxOf?_map {α β : Type} [BEq α] [LawfulBEq α] [BEq β] [LawfulBEq β] {f : α → β}
    {xs : List α} {x : α} (h : ∀ y ∈ xs, f y = f x → y = x) :
    (xs.map f).idxOf? (f x) = xs.idxOf? x := by
  induction xs with
  | nil => rfl
  | cons y xs ih =>
    rw [List.map_cons, List.idxOf?_cons, List.idxOf?_cons,
      ih fun z hz => h z (List.mem_cons_of_mem _ hz)]
    by_cases hyx : y = x
    · simp [hyx]
    · have hne : f y ≠ f x := fun heq => hyx (h y List.mem_cons_self heq)
      simp [hyx, hne]

theorem qualifier_inj_of_mem {qs : List String} (hnew : r.new ∉ qs) {q q' : String} (hq : q ∈ qs)
    (hq' : q' ∈ qs) (heq : r.qualifier q = r.qualifier q') : q = q' :=
  (r.qualifier_inj (ne_of_mem_of_not_mem hq hnew) (ne_of_mem_of_not_mem hq' hnew)).1 heq

theorem TypeExpr.qualifiers_requalify {t : TypeExpr} (hnew : r.new ∉ t.uses) :
    (t.requalify r).qualifiers = t.qualifiers.map r.qualifier := by
  unfold TypeExpr.qualifiers
  rw [t.uses_requalify]
  exact eraseDups_map _ fun q hq q' hq' => qualifier_inj_of_mem hnew hq hq'

/-- The qualifiers keep their places. -/
theorem TypeExpr.idxOf?_qualifiers_requalify {t : TypeExpr} (hnew : r.new ∉ t.uses) {q : String}
    (hq : q ∈ t.uses) :
    (t.requalify r).qualifiers.idxOf? (r.qualifier q) = t.qualifiers.idxOf? q := by
  rw [qualifiers_requalify hnew]
  refine idxOf?_map fun q' hq' => ?_
  exact qualifier_inj_of_mem hnew (List.mem_eraseDups.1 hq') hq

/-! ## Texts -/

theorem eq_of_flatMap_eq {α β : Type} {f g : α → List β} {xs : List α}
    (hle : ∀ x ∈ xs, (f x).length ≤ (g x).length) (h : xs.flatMap f = xs.flatMap g) :
    ∀ x ∈ xs, f x = g x := by
  have hlength : ∀ ys : List α, (∀ x ∈ ys, (f x).length ≤ (g x).length) →
      (ys.flatMap f).length ≤ (ys.flatMap g).length := by
    intro ys hys
    induction ys with
    | nil => exact Nat.le_refl _
    | cons y ys ih =>
      obtain ⟨hy, hys⟩ := List.forall_mem_cons.1 hys
      simp only [List.flatMap_cons, List.length_append]
      exact Nat.add_le_add hy (ih hys)
  induction xs with
  | nil => exact nofun
  | cons x xs ih =>
    obtain ⟨hx, hxs⟩ := List.forall_mem_cons.1 hle
    rw [List.flatMap_cons, List.flatMap_cons] at h
    have hwhole := congrArg List.length h
    rw [List.length_append, List.length_append] at hwhole
    have hrest := hlength xs hxs
    obtain ⟨hfirst, h⟩ := List.append_inj h (by omega)
    exact List.forall_mem_cons.2 ⟨hfirst, ih hxs h⟩

section Text

variable {qual qual' : String → String}

theorem TypePart.text_requalify_eq_iff {part : TypePart}
    (h : ∀ q ∈ part.uses, qual' (r.qualifier q) = qual q) :
    (part.requalify r).text qual' = part.text qual ↔ ∀ s ∈ part.lengths, r.length s = s := by
  cases part with
  | qualifier q =>
    simp [TypePart.requalify, TypePart.text, TypePart.lengths, h q List.mem_cons_self]
  | length s => simp [TypePart.requalify, TypePart.text, TypePart.lengths, String.toList_inj]
  | _ => simp [TypePart.requalify, TypePart.text, TypePart.lengths]

/-- A part other than a length keeps its text. -/
theorem TypePart.text_requalify_or {part : TypePart}
    (h : ∀ q ∈ part.uses, qual' (r.qualifier q) = qual q) :
    (part.requalify r).text qual' = part.text qual ∨ ∃ s, part = .length s := by
  rw [text_requalify_eq_iff h]
  cases part with
  | length s => exact .inr ⟨s, rfl⟩
  | _ => exact .inl nofun

/-- If each qualifier is replaced by what replaces its other name, then a type and the type with the
other name have the same text exactly if the lengths of the arrays stay the same. -/
theorem TypeExpr.render_requalify_eq_iff {t : TypeExpr}
    (h : ∀ q ∈ t.uses, qual' (r.qualifier q) = qual q) :
    (t.requalify r).render qual' = t.render qual ↔ ∀ s ∈ t.lengths, r.length s = s := by
  have hparts : ∀ part ∈ t.parts, ∀ q ∈ part.uses, qual' (r.qualifier q) = qual q := by
    intro part hpart q hq
    refine h q ?_
    rw [t.uses_eq]
    exact List.mem_flatMap.2 ⟨part, hpart, hq⟩
  have hlengths : (∀ s ∈ t.lengths, r.length s = s) ↔
      ∀ part ∈ t.parts, (part.requalify r).text qual' = part.text qual := by
    simp only [TypeExpr.lengths, List.mem_flatMap, forall_exists_index, and_imp]
    constructor
    · exact fun h part hpart =>
        (TypePart.text_requalify_eq_iff (hparts part hpart)).2 fun s hs => h s part hpart hs
    · exact fun h s part hpart =>
        (TypePart.text_requalify_eq_iff (hparts part hpart)).1 (h part hpart) s
  rw [hlengths, ← String.toList_inj, toList_render, toList_render, t.parts_requalify,
    List.flatMap_map]
  refine ⟨fun heq => ?_, List.flatMap_congr⟩
  -- all texts grow or all shrink, so that none of them can make up for another one
  rcases Nat.le_total r.old.length r.new.length with hle | hle
  · refine fun part hpart => (eq_of_flatMap_eq (fun part hpart => ?_) heq.symm part hpart).symm
    rcases TypePart.text_requalify_or (hparts part hpart) with hsame | ⟨s, rfl⟩
    · exact Nat.le_of_eq (congrArg List.length hsame.symm)
    · simpa [TypePart.requalify, TypePart.text, String.length_toList] using
        r.length_le_length_of_le hle s
  · refine eq_of_flatMap_eq (fun part hpart => ?_) heq
    rcases TypePart.text_requalify_or (hparts part hpart) with hsame | ⟨s, rfl⟩
    · exact Nat.le_of_eq (congrArg List.length hsame)
    · simpa [TypePart.requalify, TypePart.text, String.length_toList] using
        r.length_length_le_of_le hle s

end Text

end StructCopy.Go
