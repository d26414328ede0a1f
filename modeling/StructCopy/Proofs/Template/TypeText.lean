/-
  Proofs/Template/TypeText: the template of a declared type.

  Such a template is the text of the type with a placeholder for each qualifier, and it is
  read from this text.  What stands between the qualifiers begins no placeholder, so the
  template is cut exactly at the qualifiers.
-/
import StructCopy.Proofs.Go.TypeParts
import StructCopy.Proofs.Template.Placeholder

set_option autoImplicit false

namespace StructCopy

open Go (TypeExpr TypePart)

/-! ## Texts cut at their qualifiers -/

/-- A text cut at the qualifiers in it. -/
structure QualifiedText where
  /-- what stands before the first qualifier -/
  head : List Char
  /-- the qualifiers, each with what stands behind its point, up to the next qualifier -/
  uses : List (String × List Char)

namespace QualifiedText

/-- The text, each qualifier replaced by `qual`. -/
def text (t : QualifiedText) (qual : String → String) : List Char :=
  t.head ++ t.uses.flatMap fun u => (qual u.1).toList ++ '.' :: u.2

/-- A row of parts, cut at its qualifiers. -/
def ofParts : List TypePart → QualifiedText
  | [] => ⟨[], []⟩
  | .qualifier q :: rest => ⟨[], (q, (ofParts rest).head) :: (ofParts rest).uses⟩
  | part :: rest => ⟨part.text id ++ (ofParts rest).head, (ofParts rest).uses⟩

variable (qual : String → String)

theorem text_ofParts (parts : List TypePart) :
    (ofParts parts).text qual = parts.flatMap (TypePart.text qual) := by
  induction parts with
  | nil => rfl
  | cons part rest ih =>
    unfold text at ih ⊢
    cases part <;> simp [ofParts, TypePart.text, ← ih]

theorem uses_ofParts (parts : List TypePart) :
    (ofParts parts).uses.map Prod.fst = parts.flatMap TypePart.uses := by
  induction parts with
  | nil => rfl
  | cons part rest ih => cases part <;> simp [ofParts, TypePart.uses, ih]

/-- No text between the qualifiers begins a placeholder. -/
def Unopened (t : QualifiedText) : Prop :=
  StructCopy.Unopened t.head ∧ ∀ u ∈ t.uses, StructCopy.Unopened ('.' :: u.2)

end QualifiedText

/-! ## Parts without placeholders -/

/-- A brace behind a keyword is followed by something else. -/
theorem unopened_braced {keyword : List Char} (h : '\x7b' ∉ keyword) {c : Char}
    (hc : c ≠ '\x7b') : Unopened (keyword ++ ['\x7b', c]) := by
  rw [List.append_cons]
  exact .concat (not_infix_pair h) hc

theorem unopened_mark (mark : Go.Punctuation) : Unopened mark.text.toList := by
  have hstruct : '\x7b' ∉ ['s', 't', 'r', 'u', 'c', 't'] := by decide
  have hinterface : '\x7b' ∉ ['i', 'n', 't', 'e', 'r', 'f', 'a', 'c', 'e'] := by decide
  cases mark with
  | noField => simpa [Go.Punctuation.text] using unopened_braced hstruct (c := '\x7d') (by decide)
  | openFields => simpa [Go.Punctuation.text] using unopened_braced hstruct (c := ' ') (by decide)
  | noElem =>
    simpa [Go.Punctuation.text] using unopened_braced hinterface (c := '\x7d') (by decide)
  | openElems =>
    simpa [Go.Punctuation.text] using unopened_braced hinterface (c := ' ') (by decide)
  | chan dir => cases dir <;> exact .of_not_mem (by simp [Go.Punctuation.text])
  | _ => exact .of_not_mem (by simp [Go.Punctuation.text])

theorem unopened_name {name : List Char} (h : Text.isIdentifier name = true) : Unopened name := by
  have hbrace : Text.isWordPart '\x7b' = false := by decide
  refine .of_not_mem fun hmem => ?_
  rw [Go.isWordPart_of_mem h hmem] at hbrace
  cases hbrace

/-- A part that is no qualifier begins no placeholder, if it is an identifier where it is a name,
and has no opening braces where it is taken over from the source. -/
theorem unopened_part {part : TypePart} (hqualifier : part.uses = [])
    (hnames : ∀ name ∈ part.names, Text.isIdentifier name.toList = true)
    (hopaques : ∀ s ∈ part.opaques, ¬ openBraces <:+: s.toList) :
    Unopened (part.text id) := by
  cases part with
  | mark mark => exact unopened_mark mark
  | name name => exact unopened_name (hnames name List.mem_cons_self)
  | qualifier q => cases hqualifier
  | length s =>
    exact (Unopened.of_not_mem (s := ['[']) (by decide)).append
      (.concat (hopaques s List.mem_cons_self) (by decide))
  | tag s =>
    exact (Unopened.of_not_mem (s := [' ', '\x60']) (by decide)).append
      (.concat (hopaques s List.mem_cons_self) (by decide))

theorem QualifiedText.unopened_ofParts {parts : List TypePart}
    (hnames : ∀ name ∈ parts.flatMap TypePart.names, Text.isIdentifier name.toList = true)
    (hopaques : ∀ s ∈ parts.flatMap TypePart.opaques, ¬ openBraces <:+: s.toList) :
    (ofParts parts).Unopened := by
  induction parts with
  | nil => exact ⟨.of_not_mem List.not_mem_nil, fun u hu => by cases hu⟩
  | cons part rest ih =>
    simp only [List.flatMap_cons, List.mem_append] at hnames hopaques
    obtain ⟨hhead, huses⟩ := ih (fun name h => hnames name (.inr h)) fun s h => hopaques s (.inr h)
    have hpart := fun hqualifier : part.uses = [] => unopened_part hqualifier
      (fun name h => hnames name (.inl h)) fun s h => hopaques s (.inl h)
    cases part with
    | qualifier q =>
      refine ⟨.of_not_mem List.not_mem_nil, List.forall_mem_cons.2 ⟨?_, huses⟩⟩
      exact (Unopened.of_not_mem (s := ['.']) (by decide)).append hhead
    | _ => exact ⟨(hpart rfl).append hhead, huses⟩

/-! ## Segments -/

/-- The segments of a text, a variable for each qualifier. -/
def QualifiedText.segments (t : QualifiedText) (index : String → Nat) : List Segment :=
  textSegment t.head ++ t.uses.flatMap fun u =>
    [.var (importVariable (index u.1)), .text (String.ofList ('.' :: u.2))]

theorem isIdentifier_importVariable (k : Nat) :
    Text.isIdentifier (importVariable k).toList = true := by
  have hword : ['m', 'p', 'o', 'r', 't'].all Text.isWordPart = true := by decide
  have hletters : "Import".toList = ['I', 'm', 'p', 'o', 'r', 't'] := by simp
  rw [toList_importVariable, hletters, List.cons_append, Text.isIdentifier, Bool.and_eq_true,
    List.all_eq_true]
  refine ⟨by decide, fun c hc => ?_⟩
  rcases List.mem_append.1 hc with hc | hc
  · exact List.all_eq_true.1 hword c hc
  · exact Go.isWordPart_of_isNumeric (Go.isNumeric_of_isDigit
      (Nat.isDigit_of_mem_toDigits (by omega) (by omega) hc))

theorem toList_placeholder (k : Nat) : (placeholder k).toList =
    openBraces ++ (' ' :: '.' :: ((importVariable k).toList ++ [' ']) ++ closeBraces) := by
  simp [placeholder, openBraces, closeBraces, importVariable]

/-- A text with placeholders for its qualifiers is cut at the placeholders. -/
theorem segmentsFrom_text {t : QualifiedText} (h : t.Unopened) (index : String → Nat)
    (offset : Nat) :
    segmentsFrom offset (t.text fun q => placeholder (index q)) = .ok (t.segments index) := by
  obtain ⟨head, uses⟩ := t
  obtain ⟨hhead, huses⟩ := h
  unfold QualifiedText.text QualifiedText.segments
  dsimp only at hhead huses ⊢
  induction uses generalizing head offset with
  | nil => simpa using segmentsFrom_of_unopened hhead offset
  | cons u uses ih =>
    obtain ⟨q, s⟩ := u
    obtain ⟨hs, huses⟩ := List.forall_mem_cons.1 huses
    obtain ⟨offset', hstep⟩ := segmentsFrom_variable hhead
      (isIdentifier_importVariable (index q)) offset ('.' :: s ++
        uses.flatMap fun u => (placeholder (index u.1)).toList ++ '.' :: u.2)
    have hrest := ih offset' ('.' :: s) hs huses
    rw [hrest] at hstep
    rw [List.flatMap_cons, toList_placeholder]
    simpa [textSegment, Except.map] using hstep

/-! ## Variables and their values -/

variable {t : QualifiedText} {index : String → Nat}

theorem QualifiedText.var_mem_segments {v : String} (h : .var v ∈ t.segments index) :
    ∃ q ∈ t.uses.map Prod.fst, v = importVariable (index q) := by
  unfold segments textSegment at h
  rcases List.mem_append.1 h with h | h
  · split at h
    · cases h
    · cases List.mem_singleton.1 h
  · obtain ⟨u, hu, h⟩ := List.mem_flatMap.1 h
    rcases List.mem_cons.1 h with h | h
    · cases h
      exact ⟨u.1, List.mem_map_of_mem hu, rfl⟩
    · cases List.mem_singleton.1 h

/-- The text of a segment, a variable replaced by its value. -/
def Segment.written (value : String → String) : Segment → List Char
  | .text s => s.toList
  | .var v => (value v).toList

theorem Template.toList_substitute (t : Template) (value : String → String) :
    (t.substitute value).toList = t.segments.flatMap (Segment.written value) := by
  unfold substitute
  induction t.segments with
  | nil => simp
  | cons segment rest ih =>
    cases segment <;> simp_all [Segment.written]

theorem written_textSegment (value : String → String) (s : List Char) :
    (textSegment s).flatMap (Segment.written value) = s := by
  unfold textSegment
  split
  · next h => simp [List.isEmpty_iff.1 h]
  · simp [Segment.written]

/-- Writing values for the variables writes them for the qualifiers. -/
theorem QualifiedText.written_segments {value qual : String → String}
    (h : ∀ q ∈ t.uses.map Prod.fst, value (importVariable (index q)) = qual q) :
    (t.segments index).flatMap (Segment.written value) = t.text qual := by
  have huses : ∀ uses : List (String × List Char),
      (∀ u ∈ uses, value (importVariable (index u.1)) = qual u.1) →
        (uses.flatMap fun u => [Segment.var (importVariable (index u.1)),
          .text (String.ofList ('.' :: u.2))]).flatMap (Segment.written value) =
        uses.flatMap fun u => (qual u.1).toList ++ '.' :: u.2 := by
    intro uses huses
    induction uses with
    | nil => rfl
    | cons u uses ih =>
      obtain ⟨hu, huses⟩ := List.forall_mem_cons.1 huses
      rw [List.flatMap_cons, List.flatMap_cons, List.flatMap_append, ih huses]
      simp [Segment.written, hu]
  unfold segments text
  rw [List.flatMap_append, written_textSegment,
    huses t.uses fun u hu => h u.1 (List.mem_map_of_mem hu)]

/-- The text without packages is that of the type without its qualifiers and their points. -/
theorem QualifiedText.textOnly_segments : TypeTemplate.textOnly (t.segments index) =
    t.head ++ t.uses.flatMap Prod.snd := by
  have huses : ∀ uses : List (String × List Char),
      TypeTemplate.textOnly (uses.flatMap fun u =>
        [.var (importVariable (index u.1)), .text (String.ofList ('.' :: u.2))]) =
        uses.flatMap Prod.snd := by
    intro uses
    induction uses with
    | nil => rfl
    | cons u uses ih =>
      rw [List.flatMap_cons, List.flatMap_cons, ← ih]
      simp [TypeTemplate.textOnly, Text.after?]
  unfold segments textSegment
  split
  · next h => rw [List.nil_append, huses, List.isEmpty_iff.1 h, List.nil_append]
  · rw [List.singleton_append, TypeTemplate.textOnly, huses, String.toList_ofList]

/-! ## The template of a type -/

namespace TypeTemplate

variable {type : TypeExpr} {imports : List String}

/-- The number of a qualifier among those of the type. -/
def qualifierIndex (type : TypeExpr) (q : String) : Nat :=
  (type.qualifiers.idxOf? q).getD 0

theorem qualifierIndex_eq {q : String} (hq : q ∈ type.qualifiers) :
    qualifierIndex type q = type.qualifiers.idxOf q := by
  obtain ⟨i, hi⟩ := Option.isSome_iff_exists.1 (List.isSome_idxOf?.2 hq)
  rw [qualifierIndex, hi]
  exact (List.findIdx?_eq_some_iff_findIdx_eq.1 hi).2.symm

/-- A declared type, cut at its qualifiers. -/
def cutType (type : TypeExpr) : QualifiedText :=
  .ofParts type.parts

theorem toList_render_eq (qual : String → String) :
    (type.render qual).toList = (cutType type).text qual := by
  rw [type.toList_render, cutType, QualifiedText.text_ofParts]

theorem qualifiers_eq : type.qualifiers = ((cutType type).uses.map Prod.fst).eraseDups := by
  rw [cutType, QualifiedText.uses_ofParts, ← type.uses_eq]
  rfl

theorem mem_qualifiers {q : String} (h : q ∈ (cutType type).uses.map Prod.fst) :
    q ∈ type.qualifiers := by
  rw [qualifiers_eq, List.mem_eraseDups]
  exact h

/-- The template that is read from the text of a type with placeholders. -/
def templateOf (type : TypeExpr) : Template :=
  let source := type.render fun q => placeholder (qualifierIndex type q)
  ⟨source, source, (cutType type).segments (qualifierIndex type)⟩

theorem ofText?_templateOf (h : (cutType type).Unopened) :
    Template.ofText? (templateOf type).source (templateOf type).source = .ok (templateOf type) := by
  have hread := segmentsFrom_text h (qualifierIndex type) 0
  rw [← toList_render_eq] at hread
  unfold Template.ofText? templateOf
  dsimp only
  rw [hread]

theorem importIndex?_of_variable (himports : imports.length = type.qualifiers.length)
    (hcount : type.qualifiers.length ≤ UInt64.size) {q : String}
    (hq : q ∈ (cutType type).uses.map Prod.fst) :
    importIndex? (importVariable (qualifierIndex type q)) = some (type.qualifiers.idxOf q) ∧
      type.qualifiers.idxOf q < imports.length := by
  have hlt := List.idxOf_lt_length_of_mem (mem_qualifiers hq)
  rw [qualifierIndex_eq (mem_qualifiers hq), himports]
  exact ⟨importIndex?_importVariable (by omega), hlt⟩

theorem bound_templateOf (himports : imports.length = type.qualifiers.length)
    (hcount : type.qualifiers.length ≤ UInt64.size) :
    ∀ v ∈ (templateOf type).variableNames, isImportBelow imports.length v = true := by
  intro v hv
  obtain ⟨q, hq, rfl⟩ := QualifiedText.var_mem_segments (Template.mem_variableNames.1 hv)
  obtain ⟨hindex, hlt⟩ := importIndex?_of_variable himports hcount hq
  unfold isImportBelow
  rw [hindex]
  exact decide_eq_true hlt

/-- The template of a type is made if it can be cut at its placeholders. -/
theorem ofType?_eq_ok
    (hnames : ∀ name ∈ type.names, Text.isIdentifier name.toList = true)
    (hopaques : ∀ s ∈ type.opaques, ¬ openBraces <:+: s.toList)
    (himports : imports.length = type.qualifiers.length)
    (hcount : type.qualifiers.length ≤ UInt64.size) :
    ofType? type imports = .ok ⟨templateOf type, imports, bound_templateOf himports hcount⟩ :=
  ofText?_eq_ok imports (ofText?_templateOf (QualifiedText.unopened_ofParts hnames hopaques)) _

/-- The template of a declared type is the type. If the names in the type are identifiers, no tag
and no length of an array holds the opening braces of a placeholder, and there is one import for
each qualifier, then the template is made. Rendered, it is the type with the qualifier of its import
for each qualifier; without packages, it is the type with neither the qualifiers nor their points;
and the qualifiers are those that the text uses, each once and in the order of their first use.
Numbers of imports have 64 bits, so that a type with more qualifiers would have none for the
last ones. -/
theorem ofType?_renders
    (hnames : ∀ name ∈ type.names, Text.isIdentifier name.toList = true)
    (hopaques : ∀ s ∈ type.opaques, ¬ openBraces <:+: s.toList)
    (himports : imports.length = type.qualifiers.length)
    (hcount : type.qualifiers.length ≤ UInt64.size) :
    ∃ t, ofType? type imports = .ok t ∧
      (∀ aliases : Aliases, t.render aliases = type.render fun q =>
        aliases.qualifierFor (imports.getD (type.qualifiers.idxOf q) "")) ∧
      ∃ (head : String) (uses : List (String × String)),
        (∀ qual, type.render qual =
          head ++ String.join (uses.map fun u => qual u.1 ++ "." ++ u.2)) ∧
        t.unaliased = head ++ String.join (uses.map Prod.snd) ∧
        type.qualifiers = (uses.map Prod.fst).eraseDups := by
  refine ⟨_, ofType?_eq_ok hnames hopaques himports hcount, fun aliases => ?_,
    String.ofList (cutType type).head,
    (cutType type).uses.map fun u => (u.1, String.ofList u.2), fun qual => ?_, ?_, ?_⟩
  · rw [← String.toList_inj, toList_render_eq, render, Template.toList_substitute]
    refine QualifiedText.written_segments fun q hq => ?_
    obtain ⟨hindex, hlt⟩ := importIndex?_of_variable himports hcount hq
    simp [hindex, hlt]
  · rw [← String.toList_inj, toList_render_eq, QualifiedText.text]
    simp [List.flatMap_map, Function.comp_def]
  · change String.ofList (textOnly ((cutType type).segments (qualifierIndex type))) = _
    rw [QualifiedText.textOnly_segments, ← String.toList_inj]
    simp [List.flatMap_map, Function.comp_def]
  · rw [qualifiers_eq, List.map_map]
    rfl

/-- A type with structs, a tag with braces and a qualifier that is used twice. -/
def nestedType : TypeExpr :=
  .map (.qualified "a" "K") (.struct [.mk 1 ["X"] (.slice (.qualified "b" "V")) none,
    .mk 2 ["Y", "Z"] (.qualified "a" "K") (some "\x7bx\x7d")])

theorem ofType?_renders_nested :
    (∀ name ∈ nestedType.names, Text.isIdentifier name.toList = true) ∧
    (∀ s ∈ nestedType.opaques, ¬ openBraces <:+: s.toList) ∧
    ["x/a", "y"].length = nestedType.qualifiers.length ∧
    nestedType.qualifiers.length ≤ UInt64.size ∧
    ∃ t, ofType? nestedType ["x/a", "y"] = .ok t ∧
      t.render ⟨["x/a"], ["y"]⟩ =
        "map[ref1.K]struct\x7b X []y.V; Y, Z ref1.K \x60\x7bx\x7d\x60 \x7d" := by
  have hnames : ∀ name ∈ nestedType.names, Text.isIdentifier name.toList = true := by decide
  have hopaques : ∀ s ∈ nestedType.opaques, ¬ openBraces <:+: s.toList := by
    have htags : nestedType.opaques = ["\x7bx\x7d"] := rfl
    rw [htags]
    decide
  have hqualifiers : nestedType.qualifiers = ["a", "b"] := by decide
  have hlength : ["x/a", "y"].length = nestedType.qualifiers.length := by
    rw [hqualifiers]
    rfl
  have hcount : nestedType.qualifiers.length ≤ UInt64.size := by
    simp [hqualifiers, UInt64.size]
  have hnumbered : Aliases.qualifierFor ⟨["x/a"], ["y"]⟩ "x/a" = "ref1" := by decide
  have hplain : Aliases.qualifierFor ⟨["x/a"], ["y"]⟩ "y" = "y" := by decide
  obtain ⟨t, ht, hrender, -⟩ := ofType?_renders hnames hopaques hlength hcount
  refine ⟨hnames, hopaques, hlength, hcount, t, ht, (hrender _).trans ?_⟩
  rw [hqualifiers]
  simp [nestedType, TypeExpr.render, Go.renderFields, Go.Field.render, Go.inBraces,
    Go.namesBefore, Go.tagSuffix, hnumbered, hplain, List.idxOf_cons]

end TypeTemplate

end StructCopy
