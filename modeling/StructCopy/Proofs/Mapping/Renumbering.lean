/-
  Proofs/Mapping/Renumbering: the rule that converts a type under different numberings.

  Rules are compared by the text of their types.  If the variables of the types stand
  apart from the text around them and nothing else looks like the name of a path, types
  that are written alike under one numbering are written alike under every other one that
  knows their paths, so the same rule is found, in the same direction.  That holds for
  all types over some paths exactly if none of these paths has to be stripped twice.
-/
import Mathlib
import StructCopy.Proofs.Aliases.Renaming
import StructCopy.Proofs.Generator.Registration
import StructCopy.Proofs.Mapping.Rendering

set_option autoImplicit false

namespace StructCopy

/-! ## Types in parts -/

namespace TypeTemplate

/-- The characters and the variables of a type, in the order of the text. -/
def parts (t : TypeTemplate) : List (Char ⊕ String) :=
  t.template.segments.flatMap fun
    | .text s => s.toList.map .inl
    | .var v => [.inr v]

/-- The text of some parts, variables replaced by their values. -/
def spell (value : String → List Char) (ps : List (Char ⊕ String)) : List Char :=
  ps.flatMap (Sum.elim (fun c => [c]) value)

/-- The text around the variables of some parts, with a blank for each variable. -/
def literalText (ps : List (Char ⊕ String)) : List Char :=
  spell (fun _ => [' ']) ps

/-- A dot follows each variable, and neither a word character nor another variable stands directly
before it. -/
structure Placed (ps : List (Char ⊕ String)) : Prop where
  dotted : ∀ before v after, ps = before ++ .inr v :: after → after.head? = some (.inl '.')
  detached : ∀ before p v after, ps = before ++ p :: .inr v :: after →
    ∃ c, p = .inl c ∧ Text.isWordPart c = false

/-- The variables of a type are placed so that their values stand apart, and no word of the text
around them looks like the name of a path. -/
structure SetApart (t : TypeTemplate) : Prop where
  placed : Placed t.parts
  literal : ∀ run ∈ Text.wordRuns (literalText t.parts), ¬ Aliases.IsNumberedName run

theorem Placed.tail {p : Char ⊕ String} {ps : List (Char ⊕ String)} (h : Placed (p :: ps)) :
    Placed ps where
  dotted := by
    rintro before v after rfl
    exact h.dotted (p :: before) v after rfl
  detached := by
    rintro before q v after rfl
    exact h.detached (p :: before) q v after rfl

/-- No variable follows a word character. -/
theorem Placed.isWordPart_eq_false {c : Char} {v : String} {ps : List (Char ⊕ String)}
    (h : Placed (.inl c :: .inr v :: ps)) : Text.isWordPart c = false := by
  obtain ⟨d, hd, hword⟩ := h.detached [] (.inl c) v ps rfl
  rw [Sum.inl.inj hd]
  exact hword

/-- Carrying the text of some parts from one numbering to another carries the values of the
variables; `word` is the run of word characters that has begun before them. -/
theorem mapWords_spell {f : List Char → List Char} (hnil : f [] = [])
    {value value' : String → List Char} {ps : List (Char ⊕ String)} {word : List Char}
    (hplaced : Placed ps) (hword : ∀ c ∈ word, Text.isWordPart c = true)
    (hstart : ∀ v after, ps = .inr v :: after → word = [])
    (hliteral : ∀ run ∈ Text.wordRuns (word ++ literalText ps), f run = run)
    (hvalue : ∀ v, .inr v ∈ ps → Text.mapWords f [] (value v) = value' v) :
    Text.mapWords f word (spell value ps) = word ++ spell value' ps := by
  induction ps generalizing word with
  | nil => exact Text.mapWords_eq_append hword hliteral
  | cons p ps ih =>
    have hvalueRest := fun v hv => hvalue v (List.mem_cons_of_mem _ hv)
    cases p with
    | inl c =>
      change Text.mapWords f word (c :: spell value ps) = word ++ c :: spell value' ps
      change ∀ run ∈ Text.wordRuns (word ++ c :: literalText ps), f run = run at hliteral
      rw [Text.mapWords]
      cases hc : Text.isWordPart c with
      | true =>
        have happend : ∀ s, word ++ c :: s = word ++ [c] ++ s := by simp
        rw [happend (literalText ps)] at hliteral
        rw [if_pos rfl, happend (spell value' ps)]
        refine ih hplaced.tail ?_ ?_ hliteral hvalueRest
        · intro d hd
          rcases List.mem_append.1 hd with hd | hd
          · exact hword d hd
          · rw [List.mem_singleton.1 hd]
            exact hc
        · rintro v after rfl
          cases hc.symm.trans hplaced.isWordPart_eq_false
      | false =>
        rw [Text.wordRuns_append_cons hword hc] at hliteral
        have hrest := @ih [] hplaced.tail (fun d hd => by cases hd) (fun _ _ _ => rfl)
          (fun run hrun => hliteral run (List.mem_cons_of_mem _ hrun)) hvalueRest
        rw [if_neg Bool.false_ne_true, hliteral word List.mem_cons_self, hrest, List.nil_append]
    | inr v =>
      have hempty : word = [] := hstart v ps rfl
      subst hempty
      -- the dot behind the variable ends the run that its value ends in
      obtain ⟨rest, hrest⟩ := List.head?_eq_some_iff.1 (hplaced.dotted [] v ps rfl)
      have hdot : Text.isWordPart '.' = false := by decide
      have hblank : Text.isWordPart ' ' = false := by decide
      have hliteralRest : ∀ run ∈ Text.wordRuns ([] ++ literalText ps), f run = run := by
        intro run hrun
        refine hliteral run ?_
        change run ∈ Text.wordRuns ([] ++ ' ' :: literalText ps)
        rw [Text.wordRuns_append_cons (fun d hd => by cases hd) hblank]
        exact List.mem_cons_of_mem _ hrun
      have hgo := @ih [] hplaced.tail (fun d hd => by cases hd) (fun _ _ _ => rfl)
        hliteralRest hvalueRest
      have hspell : spell value ps = '.' :: spell value rest := by rw [hrest]; rfl
      change Text.mapWords f [] (value v ++ spell value ps) = [] ++ (value' v ++ spell value' ps)
      rw [List.nil_append] at hgo ⊢
      rw [← hgo, hspell, Text.mapWords_append_cons hdot, hvalue v List.mem_cons_self,
        Text.mapWords, if_neg (Bool.eq_false_iff.1 hdot), hnil, List.nil_append]

/-! ## Types under two numberings -/

/-- What a variable of a type is replaced by. -/
def qualifier (t : TypeTemplate) (aliases : Aliases) (v : String) : String :=
  (((importIndex? v).bind fun i => t.imports[i]?).map aliases.qualifierFor).getD ""

theorem toList_render (t : TypeTemplate) (aliases : Aliases) :
    (t.render aliases).toList = spell (fun v => (t.qualifier aliases v).toList) t.parts := by
  unfold render Template.substitute parts
  rw [String.toList_join]
  induction t.template.segments with
  | nil => rfl
  | cons segment rest ih =>
    unfold spell at ih ⊢
    rw [List.map_cons, List.flatMap_cons, List.flatMap_cons, List.flatMap_append, ih]
    cases segment with
    | text s => simp [List.flatMap_map]
    | var v => simp [qualifier]

variable {a b : Aliases}

/-- A type whose paths are known is carried from one numbering to another word by word. -/
theorem mapWords_render {t : TypeTemplate} (ht : t.SetApart)
    (ha : ∀ p ∈ a.numbered, Aliases.isNumbered p = true)
    (hb : ∀ p ∈ b.numbered, Aliases.isNumbered p = true)
    (hpaths : ∀ path ∈ t.imports, a.Knows path ∧ Aliases.Steadfast path) :
    Text.mapWords (a.rename b) [] (t.render a).toList = (t.render b).toList := by
  have hnil : a.rename b [] = [] :=
    Aliases.rename_of_not_isNumberedName Aliases.not_isNumberedName_nil
  have hnone : Text.mapWords (a.rename b) [] "".toList = "".toList := by
    rw [String.toList_empty, Text.mapWords, hnil]
  rw [toList_render, toList_render]
  refine mapWords_spell hnil ht.placed (fun c hc => by cases hc) (fun _ _ _ => rfl) ?_ ?_
  · intro run hrun
    exact Aliases.rename_of_not_isNumberedName (ht.literal run hrun)
  · intro v hv
    unfold qualifier
    cases hpath : (importIndex? v).bind fun i => t.imports[i]? with
    | none =>
      rw [Option.map_none, Option.map_none, Option.getD_none, hnone]
    | some path =>
      obtain ⟨i, -, hi⟩ := Option.bind_eq_some_iff.1 hpath
      obtain ⟨hknown, hsteadfast⟩ := hpaths path (List.mem_of_getElem? hi)
      rw [Option.map_some, Option.map_some, Option.getD_some, Option.getD_some]
      exact Aliases.mapWords_qualifierFor hknown hsteadfast ha hb

/-- A type can be carried between two numberings in both directions. -/
structure Portable (a b : Aliases) (t : TypeTemplate) : Prop where
  setApart : t.SetApart
  paths : ∀ path ∈ t.imports, a.Knows path ∧ b.Knows path ∧ Aliases.Steadfast path

theorem render_eq_of_render_eq (ha : ∀ p ∈ a.numbered, Aliases.isNumbered p = true)
    (hb : ∀ p ∈ b.numbered, Aliases.isNumbered p = true) {t u : TypeTemplate}
    (ht : Portable a b t) (hu : Portable a b u) (h : t.render a = u.render a) :
    t.render b = u.render b := by
  have hforward : ∀ {t : TypeTemplate}, Portable a b t →
      Text.mapWords (a.rename b) [] (t.render a).toList = (t.render b).toList := fun ht =>
    mapWords_render ht.setApart ha hb fun path hpath =>
      ⟨(ht.paths path hpath).1, (ht.paths path hpath).2.2⟩
  rw [← String.toList_inj, ← hforward ht, ← hforward hu, h]

theorem Portable.symm {t : TypeTemplate} (h : Portable a b t) : Portable b a t :=
  ⟨h.setApart, fun path hpath =>
    ⟨(h.paths path hpath).2.1, (h.paths path hpath).1, (h.paths path hpath).2.2⟩⟩

/-- Types are written alike under one numbering exactly if they are under the other one. -/
theorem render_eq_iff (ha : ∀ p ∈ a.numbered, Aliases.isNumbered p = true)
    (hb : ∀ p ∈ b.numbered, Aliases.isNumbered p = true) {t u : TypeTemplate}
    (ht : Portable a b t) (hu : Portable a b u) :
    t.render a = u.render a ↔ t.render b = u.render b :=
  ⟨render_eq_of_render_eq ha hb ht hu, render_eq_of_render_eq hb ha ht.symm hu.symm⟩

end TypeTemplate

/-! ## Rules under two numberings -/

namespace ConversionRule

open TypeTemplate (Portable render_eq_iff)

variable {a b : Aliases}

theorem directionFor?_eq_of_portable (ha : ∀ p ∈ a.numbered, Aliases.isNumbered p = true)
    (hb : ∀ p ∈ b.numbered, Aliases.isNumbered p = true) {r : ConversionRule}
    {source dest : TypeTemplate} (hsource : Portable a b source) (hdest : Portable a b dest)
    (hruleSource : Portable a b r.sourceType) (hruleDest : Portable a b r.destType) :
    r.directionFor? a (source.render a) (dest.render a) =
      r.directionFor? b (source.render b) (dest.render b) := by
  unfold directionFor?
  simp only [render_eq_iff ha hb hruleSource hsource, render_eq_iff ha hb hruleDest hdest,
    render_eq_iff ha hb hruleDest hsource, render_eq_iff ha hb hruleSource hdest]

/-- The types that are compared when a rule is looked for. -/
def comparedTypes (rules : List ConversionRule) (source dest : TypeTemplate) : List TypeTemplate :=
  source :: dest :: rules.flatMap fun r => [r.sourceType, r.destType]

theorem find?_eq_of_portable (ha : ∀ p ∈ a.numbered, Aliases.isNumbered p = true)
    (hb : ∀ p ∈ b.numbered, Aliases.isNumbered p = true) {rules : List ConversionRule}
    {source dest : TypeTemplate}
    (h : ∀ t ∈ comparedTypes rules source dest, Portable a b t) :
    find? rules a source dest = find? rules b source dest := by
  have hsource := h source List.mem_cons_self
  have hdest := h dest (List.mem_cons_of_mem _ List.mem_cons_self)
  unfold find?
  refine findSome?_congr fun entry hentry => ?_
  have hrule := List.fst_mem_of_mem_zipIdx hentry
  have htypes : ∀ t ∈ [entry.1.sourceType, entry.1.destType], Portable a b t := fun t ht =>
    h t (List.mem_cons_of_mem _ (List.mem_cons_of_mem _ (List.mem_flatMap.2 ⟨_, hrule, ht⟩)))
  rw [directionFor?_eq_of_portable ha hb hsource hdest (htypes _ List.mem_cons_self)
    (htypes _ (List.mem_cons_of_mem _ List.mem_cons_self))]

end ConversionRule

/-! ## Paths that have to be stripped twice -/

/-- The type `.A`, without a package. -/
def dottedA : TypeTemplate where
  template := ⟨".A", ".A", [.text ".A"]⟩
  imports := []
  bound := by simp [Template.variableNames]

/-- A rule that converts `.A` into `A`. -/
def dottedRule (path : String) : ConversionRule where
  sourceType := dottedA
  destType := plainA path
  forward := ⟨⟨"conversion", "\x7b\x7b .Source \x7d\x7d", [.var "Source"]⟩, false⟩
  reverse := none
  imports := []

/-- A text in which no word begins with `r` has no word that looks like a name. -/
theorem not_isNumberedName_of_head {s : List Char}
    (h : ∀ run ∈ Text.wordRuns s, run.head? ≠ some 'r') :
    ∀ run ∈ Text.wordRuns s, ¬ Aliases.IsNumberedName run := by
  rintro run hrun ⟨digits, -, -, rfl⟩
  exact h _ hrun rfl

theorem setApart_of_text {t : TypeTemplate} {text : String}
    (hsegments : t.template.segments = [.text text])
    (htext : ∀ run ∈ Text.wordRuns text.toList, run.head? ≠ some 'r') : t.SetApart := by
  have hparts : t.parts = text.toList.map .inl := by
    unfold TypeTemplate.parts
    rw [hsegments, List.flatMap_singleton]
  have hvar : ∀ v, .inr v ∉ t.parts := by
    intro v hmem
    rw [hparts] at hmem
    obtain ⟨c, -, hc⟩ := List.mem_map.1 hmem
    cases hc
  refine ⟨⟨?_, ?_⟩, ?_⟩
  · intro before v after h
    exact absurd (by simp [h]) (hvar v)
  · intro before p v after h
    exact absurd (by simp [h]) (hvar v)
  · have hliteral : TypeTemplate.literalText t.parts = text.toList := by
      rw [hparts]
      unfold TypeTemplate.literalText TypeTemplate.spell
      rw [List.flatMap_map]
      exact List.flatMap_singleton' _
    rw [hliteral]
    exact not_isNumberedName_of_head htext

theorem setApart_qualifiedA (path : String) : (qualifiedA path).SetApart := by
  have hparts : (qualifiedA path).parts = [.inr "Import0", .inl '.', .inl 'A'] := rfl
  refine ⟨⟨?_, ?_⟩, ?_⟩
  · intro before v after h
    rw [hparts] at h
    rcases before with _ | ⟨p, _ | ⟨q, _ | ⟨r, before⟩⟩⟩
    · cases h
      rfl
    all_goals simp at h
  · intro before p v after h
    rw [hparts] at h
    rcases before with _ | ⟨q, _ | ⟨r, _ | ⟨x, before⟩⟩⟩
    all_goals simp at h
  · rw [hparts]
    exact not_isNumberedName_of_head (by decide)

theorem isNumbered_of_mem_registerAll (paths : List String) :
    ∀ p ∈ (Aliases.empty.registerAll paths).numbered, Aliases.isNumbered p = true := by
  intro p hp
  have hfrom := (Aliases.from_empty fun _ => True).registerAll fun p (_ : p ∈ paths) => trivial
  exact (hfrom p hp).1

/-- A numbered path that has to be stripped twice has no qualifier if it is registered alone, and
has one if what is left of it is registered as well. -/
theorem qualifierFor_registerAll {path : String}
    (hnumbered : Aliases.isNumbered (Aliases.normal path) = true)
    (hstrip : Aliases.normal (Aliases.normal path) ≠ Aliases.normal path) :
    (Aliases.empty.registerAll [path]).qualifierFor path = "" ∧
      (Aliases.empty.registerAll [path, Aliases.normal path]).qualifierFor path ≠ "" := by
  have hne : ∀ {p : String}, Aliases.isNumbered p = true → p ≠ "" := by
    rintro p hp rfl
    cases Aliases.not_isNumbered_empty.symm.trans hp
  have hnumbered' := Aliases.isNumbered_normal hnumbered
  constructor
  · refine (Aliases.qualifierFor_eq_empty (hne hnumbered)).2 ⟨hnumbered, fun hmem => ?_⟩
    have hfrom := (Aliases.from_empty (· = path)).registerAll fun p hp => List.mem_singleton.1 hp
    obtain ⟨-, p, rfl, hp⟩ := hfrom _ hmem
    exact hstrip hp.symm
  · intro hempty
    obtain ⟨-, hmissing⟩ := (Aliases.qualifierFor_eq_empty (hne hnumbered)).1 hempty
    have hknown : (Aliases.empty.registerAll [path, Aliases.normal path]).Knows
        (Aliases.normal path) :=
      Aliases.knows_registerAll _ (List.mem_cons_of_mem _ List.mem_cons_self)
    cases hknown with
    | empty h => exact hne hnumbered' (String.isEmpty_iff.1 h)
    | numbered _ hmem => exact hmissing hmem
    | plain h => cases hnumbered'.symm.trans h

theorem directionFor?_dottedRule {path : String} {a : Aliases} :
    (dottedRule path).directionFor? a ((qualifiedA path).render a) ((plainA path).render a) =
      if a.qualifierFor path = "" then some .forward else none := by
  have hdotted : (dottedRule path).sourceType.render a = ".A" := by
    unfold TypeTemplate.render dottedRule dottedA
    rfl
  have hempty : ".A" = a.qualifierFor path ++ ".A" ↔ a.qualifierFor path = "" := by
    rw [← String.toList_inj, String.toList_append, List.self_eq_append_left,
      String.toList_eq_nil_iff]
  have hplain : (dottedRule path).destType.render a = (plainA path).render a := rfl
  have hreverse : (dottedRule path).reverse.isSome = false := rfl
  unfold ConversionRule.directionFor?
  dsimp only
  rw [hdotted, hplain, hreverse, render_qualifiedA]
  simp only [hempty, and_true, Bool.false_eq_true, false_and, if_false]

/-- The rule for `.A` is found for the type `A` of a path exactly if that path has no qualifier. -/
theorem isSome_find?_dottedRule {path : String} {a : Aliases} :
    (ConversionRule.find? [dottedRule path] a (qualifiedA path) (plainA path)).isSome = true ↔
      a.qualifierFor path = "" := by
  unfold ConversionRule.find?
  rw [List.zipIdx_singleton, List.findSome?_singleton, directionFor?_dottedRule]
  by_cases hempty : a.qualifierFor path = ""
  · rw [if_pos hempty]
    exact ⟨fun _ => hempty, fun _ => rfl⟩
  · rw [if_neg hempty]
    exact ⟨nofun, fun h => absurd h hempty⟩

/-- The rule that is found does not depend on the numbering, for all types and rules over some
paths whose variables are set apart, exactly if none of these paths is numbered and has to be
stripped twice. -/
theorem rule_independent_of_numbering (kind : String → Prop) :
    (∀ path, kind path → Aliases.isNumbered (Aliases.normal path) = true →
        Aliases.normal (Aliases.normal path) = Aliases.normal path) ↔
      ∀ (own global : List ConversionRule) (source dest : TypeTemplate)
        (first second : List String),
        (∀ t ∈ ConversionRule.comparedTypes (own ++ global) source dest, t.SetApart ∧
          ∀ path ∈ t.imports, kind path ∧ path ∈ first ∧ path ∈ second ∧
            (Aliases.isNumbered (Aliases.normal path) = false →
              ∀ run ∈ Text.wordRuns (Aliases.normal path).toList, ¬ Aliases.IsNumberedName run)) →
        ConversionRule.find? (own ++ global) (Aliases.empty.registerAll first) source dest =
          ConversionRule.find? (own ++ global) (Aliases.empty.registerAll second) source dest := by
  constructor
  · intro hstrip own global source dest first second htypes
    refine ConversionRule.find?_eq_of_portable (isNumbered_of_mem_registerAll first)
      (isNumbered_of_mem_registerAll second) fun t ht => ?_
    obtain ⟨hapart, hpaths⟩ := htypes t ht
    refine ⟨hapart, fun path hpath => ?_⟩
    obtain ⟨hkind, hfirst, hsecond, hplain⟩ := hpaths path hpath
    exact ⟨Aliases.knows_registerAll _ hfirst, Aliases.knows_registerAll _ hsecond,
      hstrip path hkind, hplain⟩
  · intro hfind path hkind hnumbered
    by_contra hstrip
    obtain ⟨hfirst, hsecond⟩ := qualifierFor_registerAll hnumbered hstrip
    have hsame := hfind [] [dottedRule path] (qualifiedA path) (plainA path) [path]
      [path, Aliases.normal path] ?_
    · rw [List.nil_append] at hsame
      have hfound := isSome_find?_dottedRule.2 hfirst
      rw [hsame] at hfound
      exact hsecond (isSome_find?_dottedRule.1 hfound)
    · intro t ht
      have hplain : (plainA path).SetApart := setApart_of_text rfl (by decide)
      have hdotted : dottedA.SetApart := setApart_of_text rfl (by decide)
      have hpath : kind path ∧ path ∈ [path] ∧ path ∈ [path, Aliases.normal path] ∧
          (Aliases.isNumbered (Aliases.normal path) = false →
            ∀ run ∈ Text.wordRuns (Aliases.normal path).toList, ¬ Aliases.IsNumberedName run) := by
        refine ⟨hkind, List.mem_cons_self, List.mem_cons_self, fun hnot => ?_⟩
        cases hnot.symm.trans hnumbered
      have hone : ∀ p ∈ [path], p = path := fun p hp => List.mem_singleton.1 hp
      simp only [ConversionRule.comparedTypes, List.nil_append, List.flatMap_singleton,
        List.mem_cons, List.not_mem_nil, or_false] at ht
      rcases ht with rfl | rfl | rfl | rfl
      · exact ⟨setApart_qualifiedA path, fun p hp => by rwa [hone p hp]⟩
      · exact ⟨hplain, fun p hp => by rwa [hone p hp]⟩
      · exact ⟨hdotted, fun p hp => by cases hp⟩
      · exact ⟨hplain, fun p hp => by rwa [hone p hp]⟩

end StructCopy
