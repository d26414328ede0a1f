/-
  Proofs/Config/NamedType: how the types of an accepted mapping are written.

  Such a type is a name, alone or behind a placeholder and a point.  Code writes the
  qualifier of an import path for the placeholder, which makes a plain text.  It can be
  taken apart into tokens, unless the qualifier is a path that joins the name to a number.
-/
import StructCopy.Proofs.Aliases.Paths
import StructCopy.Proofs.Config.Acceptance

set_option autoImplicit false

namespace StructCopy

open Go (bind_eq_ok pieces isPlain Boundary)

/-! ## Texts of templates -/

/-- All texts among the segments are taken from a text. -/
def TakenFrom (s : List Char) (segments : List Segment) : Prop :=
  ∀ text, .text text ∈ segments → ∀ c ∈ text.toList, c ∈ s

theorem takenFrom_textSegment (s : List Char) : TakenFrom s (textSegment s) := by
  intro text htext c hc
  unfold textSegment at htext
  split at htext
  · cases htext
  · cases List.mem_singleton.1 htext
    rwa [String.toList_ofList] at hc

theorem TakenFrom.mono {s t : List Char} {segments : List Segment} (h : TakenFrom s segments)
    (hst : ∀ c ∈ s, c ∈ t) : TakenFrom t segments :=
  fun text htext c hc => hst c (h text htext c hc)

theorem TakenFrom.append {s : List Char} {segments more : List Segment} (h : TakenFrom s segments)
    (hmore : TakenFrom s more) : TakenFrom s (segments ++ more) := by
  intro text htext
  rcases List.mem_append.1 htext with htext | htext
  · exact h text htext
  · exact hmore text htext

theorem takenFrom_segmentsFrom {offset : Nat} {s : List Char} {segments : List Segment}
    (h : segmentsFrom offset s = .ok segments) : TakenFrom s segments := by
  fun_induction segmentsFrom offset s generalizing segments
  case case1 =>
    cases h
    exact takenFrom_textSegment _
  case case2 => cases h
  case case3 => cases h
  case case4 s literal afterOpen hopen inner rest hclose action v hv literalKept restKept offset'
      ih =>
    obtain ⟨more, hmore, rfl⟩ := Go.ok_of_map_eq_ok h
    have hs := Text.eq_append_of_cut? hopen
    rw [Text.eq_append_of_cut? hclose] at hs
    have hliteral : ∀ c ∈ literalKept, c ∈ s := by
      intro c hc
      have hc : c ∈ literal := by
        unfold literalKept at hc
        split at hc
        · exact Text.mem_of_mem_dropEndWhile hc
        · exact hc
      rw [hs]
      simp [hc]
    have hrest : ∀ c ∈ restKept, c ∈ s := by
      intro c hc
      have hc : c ∈ rest := by
        unfold restKept at hc
        split at hc
        · exact (List.dropWhile_sublist _).subset hc
        · exact hc
      rw [hs]
      simp [hc]
    refine ((takenFrom_textSegment literalKept).mono hliteral).append ?_
    intro text htext
    rcases List.mem_cons.1 htext with heq | htext
    · cases heq
    · exact (ih hmore).mono hrest text htext

/-! ## Named types -/

namespace TypeTemplate

/-- The import paths that the placeholders of a type refer to. -/
def placeholderPaths (t : TypeTemplate) : List String :=
  t.template.variableNames.filterMap fun v => (importIndex? v).bind fun i => t.imports[i]?

theorem mem_imports_of_placeholderPaths {t : TypeTemplate} {path : String}
    (h : path ∈ t.placeholderPaths) : path ∈ t.imports := by
  obtain ⟨v, -, hv⟩ := List.mem_filterMap.1 h
  obtain ⟨i, -, hi⟩ := Option.bind_eq_some_iff.1 hv
  exact List.mem_of_getElem? hi

/-- A part of the text of a type. -/
def HasPart (t : TypeTemplate) (part : List Char) : Prop :=
  ∀ c ∈ part, c ∈ t.text.toList

/-- A type that is written as a name, alone or behind what stands for an import path. -/
inductive Named (t : TypeTemplate) : Prop where
  | alone {name : String} {front back : List Char} (hfront : ∀ c ∈ front, Text.isBlank c = true)
      (hname : Text.isIdentifier name.toList = true) (hback : ∀ c ∈ back, Text.isBlank c = true)
      (hpart : t.HasPart (front ++ (name.toList ++ back))) (hpaths : t.placeholderPaths = [])
      (hrender : ∀ aliases, (t.render aliases).toList = front ++ (name.toList ++ back))
  | qualified {path name : String} {back : List Char}
      (hname : Text.isIdentifier name.toList = true) (hback : ∀ c ∈ back, Text.isBlank c = true)
      (hpart : t.HasPart (name.toList ++ back)) (hpaths : t.placeholderPaths = [path])
      (hrender : ∀ aliases, (t.render aliases).toList =
        (aliases.qualifierFor path).toList ++ '.' :: (name.toList ++ back))

theorem takenFrom_of_ofText? {text : String} {imports : List String} {t : TypeTemplate}
    (h : TypeTemplate.ofText? text imports = .ok t) :
    TakenFrom t.text.toList t.template.segments :=
  takenFrom_segmentsFrom (segmentsFrom_of_ofText? h)

theorem named_of_namedType? {t : TypeTemplate}
    (htaken : TakenFrom t.text.toList t.template.segments) {found : Option Nat × String}
    (h : t.namedType? = some found) : t.Named := by
  unfold namedType? at h
  split at h
  · next s hsegments =>
    dsimp only at h
    split at h
    · next hname =>
      obtain ⟨front, back, hs, hfront, hback⟩ := Text.exists_append_trim s.toList
      rw [hsegments] at htaken
      rw [← String.toList_ofList (l := Text.trim s.toList)] at hname hs
      refine .alone hfront hname hback ?_ ?_ fun aliases => ?_
      · rw [HasPart, ← hs]
        exact htaken s List.mem_cons_self
      · unfold placeholderPaths Template.variableNames
        rw [hsegments]
        rfl
      · unfold render Template.substitute
        rw [hsegments, ← hs]
        simp
    · cases h
  · next v s hsegments =>
    split at h
    · next i name hindex hend =>
      split at h
      · next hname =>
        obtain ⟨back, hs, hback⟩ := Text.exists_append_trimEnd s.toList
        rw [hend, ← String.toList_ofList (l := name)] at hs
        rw [← String.toList_ofList (l := name)] at hname
        have hvariables : t.template.variableNames = [v] := by
          unfold Template.variableNames
          rw [hsegments]
          rfl
        have hbound := t.bound v (by rw [hvariables]; exact List.mem_cons_self)
        unfold isImportBelow at hbound
        rw [hindex, decide_eq_true_iff] at hbound
        have hpath : (importIndex? v).bind (fun i => t.imports[i]?) = some t.imports[i] := by
          rw [hindex, Option.bind_some, List.getElem?_eq_getElem hbound]
        have hpaths : t.placeholderPaths = [t.imports[i]] := by
          unfold placeholderPaths
          rw [hvariables]
          simp only [List.filterMap_cons, hpath, List.filterMap_nil]
        refine .qualified hname hback (fun c hc => ?_) hpaths fun aliases => ?_
        · refine htaken s ?_ c ?_
          · rw [hsegments]
            exact List.mem_cons_of_mem _ List.mem_cons_self
          · rw [hs]
            exact List.mem_cons_of_mem _ hc
        · unfold render Template.substitute
          rw [hsegments]
          simp [hindex, hbound, hs]
      · cases h
    · cases h
  · cases h

/-- What is known of the type of an accepted entry. -/
structure Accepted (t : TypeTemplate) : Prop where
  named : t.Named
  taken : TakenFrom t.text.toList t.template.segments

theorem accepted_of_check {context : String} {entry : TypeEntry} {t : TypeTemplate} {key : TypeKey}
    (h : entry.check context = .ok (t, key)) : t.Accepted := by
  obtain ⟨template, htemplate, h⟩ := bind_eq_ok h
  have htaken := takenFrom_of_ofText? (ok_of_inContext htemplate)
  split at h
  · next hnamed =>
    cases h
    exact ⟨named_of_namedType? htaken hnamed, htaken⟩
  · cases h

theorem mem_of_mem_textOnly {segments : List Segment} {c : Char} (h : c ∈ textOnly segments) :
    ∃ text, .text text ∈ segments ∧ c ∈ text.toList := by
  fun_induction textOnly segments with
  | case1 => cases h
  | case2 v s rest ih =>
    rcases List.mem_append.1 h with h | h
    · refine ⟨s, List.mem_cons_of_mem _ List.mem_cons_self, ?_⟩
      cases hafter : Text.after? ['.'] s.toList with
      | none => rwa [hafter] at h
      | some more =>
        rw [hafter] at h
        rw [Text.after?_eq_some.1 hafter]
        exact List.mem_append_right _ h
    · obtain ⟨text, htext, hc⟩ := ih h
      exact ⟨text, List.mem_cons_of_mem _ (List.mem_cons_of_mem _ htext), hc⟩
  | case3 v rest _ ih =>
    obtain ⟨text, htext, hc⟩ := ih h
    exact ⟨text, List.mem_cons_of_mem _ htext, hc⟩
  | case4 s rest ih =>
    rcases List.mem_append.1 h with h | h
    · exact ⟨s, List.mem_cons_self, h⟩
    · obtain ⟨text, htext, hc⟩ := ih h
      exact ⟨text, List.mem_cons_of_mem _ htext, hc⟩

/-- The type without packages holds no characters but those of its text. -/
theorem Accepted.mem_of_mem_unaliased {t : TypeTemplate} (h : t.Accepted) {c : Char}
    (hc : c ∈ t.unaliased.toList) : c ∈ t.text.toList := by
  unfold unaliased at hc
  rw [String.toList_ofList] at hc
  obtain ⟨text, htext, hc⟩ := mem_of_mem_textOnly hc
  exact h.taken text htext c hc

end TypeTemplate

/-! ## Types of mappings -/

/-- The two types of a mapping. -/
def MappingSpec.types (m : MappingSpec) : List TypeTemplate :=
  [m.source, m.dest]

theorem MappingEntry.accepted_types_of_check {context : String} {entry : MappingEntry}
    {m : MappingSpec} (h : entry.check context = .ok m) : ∀ t ∈ m.types, t.Accepted := by
  obtain ⟨⟨source, sourceKey⟩, hsource, h⟩ := bind_eq_ok h
  obtain ⟨⟨dest, destKey⟩, hdest, h⟩ := bind_eq_ok h
  obtain ⟨args, -, h⟩ := bind_eq_ok h
  obtain ⟨overrides, -, h⟩ := bind_eq_ok h
  obtain ⟨conversions, -, h⟩ := bind_eq_ok h
  cases h
  refine List.forall_mem_cons.2 ⟨TypeTemplate.accepted_of_check hsource, ?_⟩
  exact List.forall_mem_singleton.2 (TypeTemplate.accepted_of_check hdest)

theorem MappingDocument.accepted_types_of_check {document : MappingDocument}
    {config : MappingConfig} (h : document.check = .ok config) :
    ∀ m ∈ config.mappings, ∀ t ∈ m.types, t.Accepted := by
  intro m hm
  obtain ⟨context, entry, hentry⟩ := exists_entry_of_check h m hm
  exact MappingEntry.accepted_types_of_check hentry

namespace TypeTemplate

/-! ## As a plain text -/

theorem isNumeric_of_isBlank {c : Char} (h : Text.isBlank c = true) : Text.isNumeric c = false := by
  rw [Bool.eq_false_iff]
  intro hnumeric
  have hpart := Go.isWordPart_of_isBlank h
  rw [Go.isWordPart_of_isNumeric hnumeric] at hpart
  cases hpart

theorem isPlain_of_blanks {s : List Char} (hs : ∀ c ∈ s, Text.isBlank c = true) (hbreak : '\n' ∉ s) :
    s.all isPlain = true := by
  rw [List.all_eq_true]
  intro c hc
  refine Go.isPlain_of_isBlank (hs c hc) ?_
  rintro rfl
  exact hbreak hc

theorem boundary_of_blanks {s : List Char} (hs : ∀ c ∈ s, Text.isBlank c = true) : Boundary s := by
  cases s with
  | nil => exact Go.boundary_nil
  | cons c s => exact Go.boundary_cons (Go.isWordPart_of_isBlank (hs c List.mem_cons_self))

variable {t : TypeTemplate} {a : Aliases}

/-- Under the aliases, every path that the type refers to has its own qualifier. -/
def Qualified (t : TypeTemplate) (a : Aliases) : Prop :=
  ∀ path ∈ t.placeholderPaths, Aliases.Ordinary path ∧ a.QualifierOf path (a.qualifierFor path)

theorem HasPart.not_mem {part : List Char} (h : t.HasPart part) {c : Char}
    (hc : c ∉ t.text.toList) : c ∉ part :=
  fun hmem => hc (h c hmem)

/-- A named type without a line break is written as a plain text. -/
theorem Named.all_isPlain (h : t.Named) (hbreak : '\n' ∉ t.text.toList) (ht : t.Qualified a) :
    (t.render a).toList.all isPlain = true := by
  cases h with
  | @alone name front back hfront hname hback hpart hpaths hrender =>
    have hno := hpart.not_mem hbreak
    rw [List.mem_append, List.mem_append, not_or, not_or] at hno
    rw [hrender, List.all_append, List.all_append, isPlain_of_blanks hfront hno.1,
      Go.isPlain_of_isIdentifier hname, isPlain_of_blanks hback hno.2.2]
    rfl
  | @qualified path name back hname hback hpart hpaths hrender =>
    have hno := hpart.not_mem hbreak
    rw [List.mem_append, not_or] at hno
    obtain ⟨hordinary, hqualifier⟩ := ht path (by rw [hpaths]; exact List.mem_cons_self)
    have hplain : (a.qualifierFor path).toList.all isPlain = true := by
      generalize a.qualifierFor path = q at hqualifier
      cases hqualifier with
      | itself hslash => exact hordinary.isPlain hslash
      | name => exact Go.isPlain_of_isIdentifier (Aliases.isIdentifier_aliasAt _)
    rw [hrender, List.all_append, hplain, List.all_cons, List.all_append,
      Go.isPlain_of_isIdentifier hname, isPlain_of_blanks hback hno.2]
    decide

/-! ## Taken apart -/

/-- The type, as it is written under the aliases, can be taken apart into tokens. -/
def Separable (t : TypeTemplate) (a : Aliases) : Prop :=
  (pieces (t.render a).toList).2 = none

/-- No part of the path joins the name behind it to a number: all words of the path start with
letters, or all numerals of the path and the type are decimal digits. -/
def Apart (t : TypeTemplate) (path : String) : Prop :=
  Go.lettersFirst false path.toList = true ∨
    ∀ c ∈ path.toList ++ t.text.toList, Text.isNumeric c = true → c.isDigit = true

theorem fault_of_blanks {s : List Char} (hs : ∀ c ∈ s, Text.isBlank c = true) (hbreak : '\n' ∉ s) :
    (pieces s).2 = none := by
  refine Go.fault_eq_none_of_digits (isPlain_of_blanks hs hbreak) fun c hc hnumeric => ?_
  rw [isNumeric_of_isBlank (hs c hc)] at hnumeric
  cases hnumeric

/-- A name between blanks, behind a text whose words start with letters, can be taken apart. -/
theorem fault_before_name {q back : List Char} {name : String} (hplain : q.all isPlain = true)
    (hq : Go.lettersFirst false q = true) (hname : Text.isIdentifier name.toList = true)
    (hback : ∀ c ∈ back, Text.isBlank c = true) (hbreak : '\n' ∉ back) :
    (pieces (q ++ (name.toList ++ back))).2 = none := by
  refine Go.fault_eq_none_before_word hplain hq hname (isPlain_of_blanks hback hbreak)
    (boundary_of_blanks hback) fun c hc hnumeric => ?_
  rw [isNumeric_of_isBlank (hback c hc)] at hnumeric
  cases hnumeric

/-- A name behind that of a numbered path can be taken apart. -/
theorem fault_behind_alias {back : List Char} {name : String} (position : Nat)
    (hname : Text.isIdentifier name.toList = true) (hback : ∀ c ∈ back, Text.isBlank c = true)
    (hbreak : '\n' ∉ back) :
    (pieces ((Aliases.aliasAt position).toList ++ '.' :: (name.toList ++ back))).2 = none := by
  have halias := Go.scans_word (Aliases.isIdentifier_aliasAt position)
    (Go.boundary_cons (c := '.') (s := name.toList ++ back) (by decide))
  have hpoint := Go.scans_dot hname back
  have hword := Go.scans_word hname (boundary_of_blanks hback)
  rw [(((halias.trans hpoint).trans hword).layout_eq 1 false).1]
  exact fault_of_blanks hback hbreak

/-- A named type can be taken apart if no path without a slash joins its name to a number. -/
theorem Named.separable (h : t.Named) (hbreak : '\n' ∉ t.text.toList) (ht : t.Qualified a)
    (hapart : ∀ path ∈ t.placeholderPaths, Aliases.isNumbered path = false → t.Apart path) :
    t.Separable a := by
  unfold Separable
  cases h with
  | @alone name front back hfront hname hback hpart hpaths hrender =>
    have hno := hpart.not_mem hbreak
    rw [List.mem_append, List.mem_append, not_or, not_or] at hno
    rw [hrender]
    exact fault_before_name (isPlain_of_blanks hfront hno.1)
      (Go.lettersFirst_of_forall fun c hc => Go.isWordPart_of_isBlank (hfront c hc)) hname hback
      hno.2.2
  | @qualified path name back hname hback hpart hpaths hrender =>
    have hplain := Named.all_isPlain (.qualified hname hback hpart hpaths hrender) hbreak ht
    have hno := hpart.not_mem hbreak
    rw [List.mem_append, not_or] at hno
    have hmem : path ∈ t.placeholderPaths := by
      rw [hpaths]
      exact List.mem_cons_self
    obtain ⟨hordinary, hqualifier⟩ := ht path hmem
    rw [hrender] at hplain ⊢
    generalize a.qualifierFor path = q at hqualifier hplain
    cases hqualifier with
    | name => exact fault_behind_alias _ hname hback hno.2
    | itself hslash =>
      rcases hapart path hmem hslash with hletters | hdigits
      · have hfront : (path.toList ++ ['.']).all isPlain = true := by
          rw [List.all_append, hordinary.isPlain hslash]
          decide
        have hwords := Go.lettersFirst_concat hletters (c := '.') (by decide)
        have hfault := fault_before_name hfront hwords hname hback hno.2
        rwa [List.append_assoc] at hfault
      · refine Go.fault_eq_none_of_digits hplain fun c hc hnumeric => ?_
        rcases List.mem_append.1 hc with hc | hc
        · exact hdigits c (List.mem_append_left _ hc) hnumeric
        · rcases List.mem_cons.1 hc with rfl | hc
          · cases hnumeric
          · exact hdigits c (List.mem_append_right _ (hpart c hc)) hnumeric

end TypeTemplate

end StructCopy
