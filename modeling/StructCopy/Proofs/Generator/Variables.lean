/-
  Proofs/Generator/Variables: which variables of a conversion template have a value.

  A document is checked by the number that a variable `ImportN` writes, and a template
  is rendered by the spelling of that number.  The two agree on every variable but
  those that write their number with leading zeros: such a template is accepted, and
  it cannot be rendered.
-/
import Mathlib
import StructCopy.Proofs.Generator.Confusion

set_option autoImplicit false

namespace StructCopy

open StructCopy.Module (Loader)
open Go (bind_eq_ok)

/-! ## Templates -/

namespace Template

theorem renderSegments_ok_or (value? : String → Option String) (segments : List Segment) :
    (∃ text, renderSegments value? segments = .ok text) ∨
      ∃ v, .var v ∈ segments ∧ value? v = none ∧
        renderSegments value? segments = .error (.missingValue v) := by
  induction segments with
  | nil => exact .inl ⟨"", rfl⟩
  | cons segment rest ih =>
    -- what the rest of the segments gives is passed on
    have hrest : ∀ more : String,
        (∃ text, (renderSegments value? rest).map (more ++ ·) = .ok text) ∨
          ∃ v, .var v ∈ segment :: rest ∧ value? v = none ∧
            (renderSegments value? rest).map (more ++ ·) = .error (.missingValue v) := by
      intro more
      rcases ih with ⟨text, htext⟩ | ⟨v, hv, hnone, herror⟩
      · exact .inl ⟨more ++ text, by rw [htext]; rfl⟩
      · exact .inr ⟨v, List.mem_cons_of_mem _ hv, hnone, by rw [herror]; rfl⟩
    cases segment with
    | text text => exact hrest text
    | var v =>
      unfold renderSegments
      cases hvalue : value? v with
      | some value => exact hrest value
      | none => exact .inr ⟨v, List.mem_cons_self, hvalue, rfl⟩

theorem isSome_of_renderSegments {value? : String → Option String} {segments : List Segment}
    {text : String} (h : renderSegments value? segments = .ok text) {v : String}
    (hv : .var v ∈ segments) : (value? v).isSome = true := by
  induction segments generalizing text with
  | nil => cases hv
  | cons segment rest ih =>
    cases segment with
    | text s =>
      obtain ⟨more, hmore, -⟩ := Go.ok_of_map_eq_ok h
      rcases List.mem_cons.1 hv with hv | hv
      · cases hv
      · exact ih hmore hv
    | var w =>
      unfold renderSegments at h
      cases hvalue : value? w with
      | none =>
        rw [hvalue] at h
        cases h
      | some value =>
        rw [hvalue] at h
        obtain ⟨more, hmore, -⟩ := Go.ok_of_map_eq_ok h
        rcases List.mem_cons.1 hv with hv | hv
        · cases hv
          rw [hvalue]
          rfl
        · exact ih hmore hv

/-- Rendering gives a text, or it misses the value of a variable. -/
theorem render_ok_or (t : Template) (value? : String → Option String) :
    (∃ text, t.render value? = .ok text) ∨
      ∃ v ∈ t.variableNames, value? v = none ∧
        t.render value? = .error ⟨t.name, .missingValue v⟩ := by
  unfold render
  rcases renderSegments_ok_or value? t.segments with
    ⟨text, htext⟩ | ⟨v, hv, hnone, herror⟩
  · exact .inl ⟨text, by rw [htext]⟩
  · exact .inr ⟨v, mem_variableNames.2 hv, hnone, by rw [herror]⟩

/-- A template can be rendered exactly if all its variables have values. -/
theorem render_ok_iff {t : Template} {value? : String → Option String} :
    (∃ text, t.render value? = .ok text) ↔
      ∀ v ∈ t.variableNames, (value? v).isSome = true := by
  constructor
  · rintro ⟨text, h⟩ v hv
    unfold render at h
    split at h
    · next htext => exact isSome_of_renderSegments htext (mem_variableNames.1 hv)
    · cases h
  · intro h
    rcases t.render_ok_or value? with hok | ⟨v, hv, hnone, -⟩
    · exact hok
    · exact absurd hnone (Option.isSome_iff_ne_none.1 (h v hv))

end Template

namespace ConversionRule

/-! ## Values -/

theorem valueOf?_of_not_mem {r : ConversionRule} {a : Aliases} {x : Operands} {v : String}
    (hv : v ∉ operandNames) : r.valueOf? a x v =
      (r.imports.zipIdx.find? fun entry => v == importVariable entry.2).map fun entry =>
        a.qualifierFor entry.1 := by
  simp only [operandNames, List.mem_cons, List.not_mem_nil, or_false, not_or] at hv
  obtain ⟨hsource, hdest, herror⟩ := hv
  unfold valueOf?
  rw [if_neg hsource, if_neg hdest, if_neg herror]
  rfl

/-- The variables with a value are the operands and the imports, spelled without leading zeros. -/
theorem isSome_valueOf? {r : ConversionRule} {a : Aliases} {x : Operands} {v : String} :
    (r.valueOf? a x v).isSome = true ↔
      v ∈ operandNames ∨ ∃ i < r.imports.length, v = importVariable i := by
  by_cases hv : v ∈ operandNames
  · refine ⟨fun _ => .inl hv, fun _ => ?_⟩
    simp only [operandNames, List.mem_cons, List.not_mem_nil, or_false] at hv
    rcases hv with rfl | rfl | rfl <;> rfl
  · rw [valueOf?_of_not_mem hv, Option.isSome_map, List.find?_isSome]
    constructor
    · rintro ⟨⟨path, i⟩, hmem, heq⟩
      exact .inr ⟨i, List.snd_lt_of_mem_zipIdx hmem, eq_of_beq heq⟩
    · rintro (hoperand | ⟨i, hi, rfl⟩)
      · exact absurd hoperand hv
      · have hentry := List.mk_mem_zipIdx_iff_getElem?.2 (List.getElem?_eq_getElem hi)
        exact ⟨_, hentry, beq_self_eq_true _⟩

/-! ## Accepted rules -/

/-- The template that a rule applies in a direction. -/
def templateFor? (r : ConversionRule) : Direction → Option ConversionTemplate
  | .forward => some r.forward
  | .reverse => r.reverse

/-- In the templates of this direction, no variable writes the number of an import with leading
zeros. -/
def WellSpelled (r : ConversionRule) (d : Direction) : Prop :=
  ∀ t ∈ r.templateFor? d, ∀ v ∈ t.template.variableNames, ∀ i, importIndex? v = some i →
    v = importVariable i

theorem known_of_templateCheck {context : String} {imports : List String} {entry : TemplateEntry}
    {t : ConversionTemplate} (h : entry.check context imports = .ok t) :
    ∀ v ∈ t.template.variableNames, isConversionVariable imports v = true := by
  obtain ⟨template, -, h⟩ := bind_eq_ok h
  obtain ⟨⟨⟩, hcheck, h⟩ := bind_eq_ok h
  cases h
  exact fun v hv => Template.known_of_check (ok_of_inContext hcheck) hv

theorem Accepted.known {r : ConversionRule} (h : r.Accepted) {d : Direction}
    {t : ConversionTemplate} (ht : r.templateFor? d = some t) :
    ∀ v ∈ t.template.variableNames, isConversionVariable r.imports v = true := by
  obtain ⟨context, entry, h⟩ := h
  obtain ⟨sourceType, -, h⟩ := bind_eq_ok h
  obtain ⟨destType, -, h⟩ := bind_eq_ok h
  split at h
  · cases h
  · obtain ⟨forward, hforward, h⟩ := bind_eq_ok h
    split at h
    · cases h
      cases d with
      | forward =>
        cases ht
        exact known_of_templateCheck hforward
      | reverse => cases ht
    · obtain ⟨reverse, hreverse, h⟩ := bind_eq_ok h
      cases h
      cases d with
      | forward =>
        cases ht
        exact known_of_templateCheck hforward
      | reverse =>
        cases ht
        exact known_of_templateCheck hreverse

/-- A variable that an accepted template may use is an operand or stands for an import. -/
theorem isConversionVariable_cases {imports : List String} {v : String}
    (h : isConversionVariable imports v = true) :
    v ∈ operandNames ∨ ∃ i < imports.length, importIndex? v = some i := by
  simp only [isConversionVariable, Bool.or_eq_true, beq_iff_eq] at h
  rcases h with hoperand | himport
  · exact .inl (by simpa [operandNames, or_assoc] using hoperand)
  · unfold isImportBelow at himport
    split at himport
    · next i hi => exact .inr ⟨i, of_decide_eq_true himport, hi⟩
    · cases himport

theorem importIndex?_of_mem_operandNames {v : String} (h : v ∈ operandNames) :
    importIndex? v = none := by
  simp only [operandNames, List.mem_cons, List.not_mem_nil, or_false] at h
  rcases h with rfl | rfl | rfl <;> rfl

/-- A variable of an accepted template has a value exactly if it is not misspelled. -/
theorem isSome_valueOf?_iff {r : ConversionRule} {a : Aliases} {x : Operands} {v : String}
    (hknown : isConversionVariable r.imports v = true) :
    (r.valueOf? a x v).isSome = true ↔ ∀ i, importIndex? v = some i → v = importVariable i := by
  rw [isSome_valueOf?]
  constructor
  · rintro (hoperand | ⟨k, -, rfl⟩) i hi
    · rw [importIndex?_of_mem_operandNames hoperand] at hi
      cases hi
    · rw [eq_of_importIndex?_importVariable hi]
  · intro hspelled
    rcases isConversionVariable_cases hknown with hoperand | ⟨i, hi, hindex⟩
    · exact .inl hoperand
    · exact .inr ⟨i, hi, hspelled i hindex⟩

theorem apply_eq_applyTemplate {r : ConversionRule} {d : Direction} {t : ConversionTemplate}
    (ht : r.templateFor? d = some t) (x : Operands) (a : Aliases) :
    r.apply d x a = r.applyTemplate t x a := by
  cases d with
  | forward =>
    cases ht
    rfl
  | reverse =>
    have hreverse : r.reverse = some t := ht
    unfold apply
    rw [hreverse]

theorem apply_eq_direct {r : ConversionRule} {d : Direction} (h : r.templateFor? d = none)
    (x : Operands) (a : Aliases) : r.apply d x a = .ok (.direct x.dest x.source) := by
  cases d with
  | forward => cases h
  | reverse =>
    have hreverse : r.reverse = none := h
    unfold apply
    rw [hreverse]

/-- An accepted rule can be applied exactly if no variable of its template is misspelled. -/
theorem Accepted.apply_ok_iff {r : ConversionRule} (h : r.Accepted) (d : Direction) (x : Operands)
    (a : Aliases) : (∃ out, r.apply d x a = .ok out) ↔ r.WellSpelled d := by
  cases ht : r.templateFor? d with
  | none =>
    rw [apply_eq_direct ht]
    refine ⟨fun _ t ht' => ?_, fun _ => ⟨_, rfl⟩⟩
    rw [ht] at ht'
    cases ht'
  | some t =>
    have hvalues : (∃ text, t.template.render (r.valueOf? a x) = .ok text) ↔ r.WellSpelled d := by
      unfold WellSpelled
      rw [Template.render_ok_iff, ht]
      constructor
      · intro hvalue t' ht' v hv
        cases ht'
        exact (isSome_valueOf?_iff (h.known ht v hv)).1 (hvalue v hv)
      · intro hspelled v hv
        exact (isSome_valueOf?_iff (h.known ht v hv)).2 (hspelled t rfl v hv)
    rw [← hvalues, apply_eq_applyTemplate ht]
    unfold applyTemplate
    constructor
    · rintro ⟨out, hout⟩
      obtain ⟨text, htext, -⟩ := Go.ok_of_map_eq_ok hout
      exact ⟨text, htext⟩
    · rintro ⟨text, htext⟩
      exact ⟨⟨text, t.fallible⟩, by rw [htext]; rfl⟩

/-- The rule fails with this error because a variable writes the number of an import with leading
zeros. -/
def Misspells (r : ConversionRule) (d : Direction) (e : TemplateError) : Prop :=
  ∃ t ∈ r.templateFor? d, ∃ v ∈ t.template.variableNames, ∃ i, importIndex? v = some i ∧
    v ≠ importVariable i ∧ e = ⟨t.template.name, .missingValue v⟩

theorem Misspells.not_wellSpelled {r : ConversionRule} {d : Direction} {e : TemplateError}
    (h : r.Misspells d e) : ¬ r.WellSpelled d := by
  obtain ⟨t, ht, v, hv, i, hi, hne, -⟩ := h
  exact fun hspelled => hne (hspelled t ht v hv i hi)

theorem Accepted.misspells {r : ConversionRule} (h : r.Accepted) {d : Direction} {x : Operands}
    {a : Aliases} {e : TemplateError} (herror : r.apply d x a = .error e) : r.Misspells d e := by
  cases ht : r.templateFor? d with
  | none =>
    rw [apply_eq_direct ht] at herror
    cases herror
  | some t =>
    rw [apply_eq_applyTemplate ht] at herror
    unfold applyTemplate at herror
    rcases t.template.render_ok_or (r.valueOf? a x) with ⟨text, htext⟩ | ⟨v, hv, hnone, hfault⟩
    · rw [htext] at herror
      cases herror
    · rw [hfault] at herror
      cases herror
      have hvalue :=
        (isSome_valueOf?_iff (x := x) (a := a) (h.known ht v hv)).not.1 (by simp [hnone])
      obtain ⟨i, hi⟩ := not_forall.1 hvalue
      obtain ⟨hindex, hne⟩ := Classical.not_imp.1 hi
      exact ⟨t, ht, v, hv, i, hindex, hne, rfl⟩

end ConversionRule

/-! ## Runs -/

/-- The rules that generating a file may apply. -/
def MappingConfig.allRules (config : MappingConfig) (global : List ConversionRule) :
    List ConversionRule :=
  global ++ config.mappings.flatMap (·.conversions)

theorem assign_eq_of_assignments_error {assign : StructField → Except TemplateError Assignment}
    {dests : List StructField} {field : StructField} {e : TemplateError}
    (h : assignments assign dests = .error (field, e)) : assign field = .error e := by
  induction dests with
  | nil => cases h
  | cons dest rest ih =>
    unfold assignments at h
    split at h
    · next herror =>
      cases h
      exact herror
    · cases hrest : assignments assign rest with
      | error fault =>
        rw [hrest] at h
        cases h
        exact ih hrest
      | ok more =>
        rw [hrest] at h
        cases h

theorem exists_of_assignmentTo_error {rules : List ConversionRule} {a : Aliases}
    {dest : StructField} {source : Option (String × TypeTemplate)} {e : TemplateError}
    (h : assignmentTo rules a dest source = .error e) :
    ∃ r ∈ rules, ∃ d x, r.apply d x a = .error e := by
  cases source with
  | none => cases h
  | some s =>
    unfold assignmentTo at h
    dsimp only at h
    split at h
    · next r d hfind => exact ⟨r, ConversionRule.mem_of_find? hfind, d, _, h⟩
    · cases h

theorem exists_of_assemble_error {m : MappingSpec} {sources dests : List StructField}
    {global : List ConversionRule} {defaultTag : String} {a : Aliases} {field : StructField}
    {e : TemplateError} (h : assemble m sources dests global defaultTag a = .error (field, e)) :
    ∃ r ∈ m.conversions ++ global, ∃ d x, r.apply d x a = .error e := by
  unfold assemble at h
  dsimp only at h
  cases hparts : assignments (fun dest => assignmentTo (m.conversions ++ global) a dest
      (sourceOf? m (.ofFields sources (m.tagKeyOr defaultTag)) dest)) dests with
  | ok parts =>
    rw [hparts] at h
    cases h
  | error fault =>
    rw [hparts] at h
    cases h
    exact exists_of_assignmentTo_error (assign_eq_of_assignments_error hparts)

namespace Session

variable {L : Loader} {config : MappingConfig} {global : List ConversionRule}

theorem exists_of_functionFor_error {s : Session L} {position : Nat} {m : MappingSpec}
    {context : String} {e : TemplateError}
    (h : (s.functionFor config global position m).1 = .error (.template context e)) :
    ∃ r ∈ m.conversions ++ global, ∃ d x a, r.apply d x a = .error e := by
  unfold functionFor at h
  dsimp only at h
  split at h
  · cases h
  · split at h
    · next hassemble =>
      cases h
      obtain ⟨r, hr, d, x, herror⟩ := exists_of_assemble_error hassemble
      exact ⟨r, hr, d, x, _, herror⟩
    · cases h

theorem exists_of_functionsFor_error {s : Session L} {position : Nat} {ms : List MappingSpec}
    {context : String} {e : TemplateError}
    (h : (s.functionsFor config global position ms).1 = .error (.template context e)) :
    ∃ m ∈ ms, ∃ r ∈ m.conversions ++ global, ∃ d x a, r.apply d x a = .error e := by
  induction ms generalizing s position with
  | nil => cases h
  | cons m rest ih =>
    cases hf : (s.functionFor config global position m).1 with
    | error fault =>
      rw [functionsFor_cons_error hf] at h
      cases h
      exact ⟨m, List.mem_cons_self, exists_of_functionFor_error hf⟩
    | ok f =>
      rw [functionsFor_cons_ok hf] at h
      dsimp only at h
      cases hrest : ((s.functionFor config global position m).2.functionsFor config global
          (position + 1) rest).1 with
      | ok fs =>
        rw [hrest] at h
        cases h
      | error fault =>
        rw [hrest] at h
        cases h
        obtain ⟨m', hm', hrule⟩ := ih hrest
        exact ⟨m', List.mem_cons_of_mem _ hm', hrule⟩

/-- A run that ends with an error of a template has tried to apply one of the rules. -/
theorem exists_of_generate_error {s : Session L} {context : String} {e : TemplateError}
    (h : (s.generate config global).1 = .error (.template context e)) :
    ∃ r ∈ config.allRules global, ∃ d x a, r.apply d x a = .error e := by
  rw [generate_eq] at h
  dsimp only at h
  cases hrun : ((s.register (importsOf global)).functionsFor config global 0
      config.mappings).1 with
  | ok fs =>
    rw [hrun] at h
    cases h
  | error fault =>
    rw [hrun] at h
    cases h
    obtain ⟨m, hm, r, hr, hrule⟩ := exists_of_functionsFor_error hrun
    refine ⟨r, ?_, hrule⟩
    rcases List.mem_append.1 hr with hr | hr
    · exact List.mem_append_right _ (List.mem_flatMap.2 ⟨m, hm, hr⟩)
    · exact List.mem_append_left _ hr

end Session

theorem accepted_of_mem_allRules {config : MappingConfig} {global : List ConversionRule}
    (hms : ∀ m ∈ config.mappings, m.Accepted) (hglobal : ∀ r ∈ global, r.Accepted) :
    ∀ r ∈ config.allRules global, r.Accepted := by
  intro r hr
  rcases List.mem_append.1 hr with hr | hr
  · exact hglobal r hr
  · obtain ⟨m, hm, hr⟩ := List.mem_flatMap.1 hr
    exact hms m hm r hr

/-- An accepted rule can be applied in a direction exactly if no variable of the template for that
direction writes the number of an import with leading zeros.  A run fails for a template only if a
rule has such a variable, and the error names it. -/
theorem accepted_templates_apply_iff {document : MappingDocument} {config : MappingConfig}
    {entries : List ConversionEntry} {global : List ConversionRule}
    (hconfig : document.check = .ok config)
    (hglobal : checkEach "conversions" ConversionEntry.check entries = .ok global) :
    (∀ r ∈ config.allRules global, ∀ (d : Direction) (x : ConversionRule.Operands) (a : Aliases),
        (∃ out, r.apply d x a = .ok out) ↔ r.WellSpelled d) ∧
      ∀ (L : Loader) (s : Session L) (context : String) (e : TemplateError),
        (s.generate config global).1 = .error (.template context e) →
          ∃ r ∈ config.allRules global, ∃ d, r.Misspells d e ∧ ¬ r.WellSpelled d := by
  have haccepted := accepted_of_mem_allRules (MappingDocument.accepted_of_check hconfig)
    (accepted_of_checkEach hglobal)
  constructor
  · intro r hr d x a
    exact (haccepted r hr).apply_ok_iff d x a
  · intro L s context e herror
    obtain ⟨r, hr, d, x, a, hfail⟩ := Session.exists_of_generate_error herror
    have hmisspells := (haccepted r hr).misspells hfail
    exact ⟨r, hr, d, hmisspells, hmisspells.not_wellSpelled⟩

/-- A rule whose template writes the number of its import as `00`. -/
def misspelledEntry : ConversionEntry :=
  ⟨"A", "A", ⟨"\x7b\x7b .Import00 \x7d\x7d.F()", false⟩, none, ["a/b"]⟩

/-- What the rule is once it is accepted. -/
def misspelledRule : ConversionRule where
  sourceType := plainA "a/b"
  destType := plainA "a/b"
  forward := ⟨⟨"conversions[0].conversion", misspelledEntry.forward.text,
    [.var "Import00", .text ".F()"]⟩, false⟩
  reverse := none
  imports := ["a/b"]

theorem check_misspelledEntry :
    checkEach "conversions" ConversionEntry.check [misspelledEntry] = .ok [misspelledRule] := by
  have htype : TypeTemplate.ofText? "A" ["a/b"] = .ok (plainA "a/b") :=
    ofText?_eq_ok ["a/b"] (by cbv) (plainA "a/b").bound
  have hread : Template.ofText? "conversions[0].conversion" misspelledEntry.forward.text =
      .ok misspelledRule.forward.template := by
    cbv
  have hvariables : misspelledRule.forward.template.check (isConversionVariable ["a/b"]) =
      .ok () := by
    cbv
  have hforward : misspelledEntry.forward.check "conversions[0].conversion" ["a/b"] =
      .ok misspelledRule.forward := by
    unfold TemplateEntry.check
    rw [hread]
    simp only [inContext, bind, Except.bind]
    rw [hvariables]
    rfl
  have hnonBlank : misspelledEntry.forward.nonBlank? = some misspelledEntry.forward := by
    have hblank : Text.isBlankString misspelledEntry.forward.text = false := by decide
    unfold TemplateEntry.nonBlank?
    rw [hblank]
    rfl
  have hcontext : "conversions" ++ "[" ++ toString 0 ++ "]" ++ ".conversion" =
      "conversions[0].conversion" := by
    decide
  have hentry : ConversionEntry.check ("conversions" ++ "[" ++ toString 0 ++ "]")
      misspelledEntry = .ok misspelledRule := by
    unfold ConversionEntry.check
    rw [hnonBlank, hcontext]
    have hsource : misspelledEntry.sourceType = "A" := rfl
    have hdest : misspelledEntry.destType = "A" := rfl
    have himports : misspelledEntry.imports = ["a/b"] := rfl
    rw [hsource, hdest, himports, htype]
    simp only [inContext, bind, Except.bind]
    rw [hforward]
    rfl
  unfold checkEach checkFrom checkFrom
  rw [hentry]
  rfl

/-- A document with two mappings and a conversions document with one rule are accepted, and this
rule can never be applied. -/
theorem accepted_templates_apply_iff_misspelled :
    (twoMappings "a/b" "c/d").check = .ok (twoSpecs "a/b" "c/d") ∧
      checkEach "conversions" ConversionEntry.check [misspelledEntry] = .ok [misspelledRule] ∧
      ∀ x a, ¬ ∃ out, misspelledRule.apply .forward x a = .ok out := by
  have hconfig := check_twoMappings "a/b" "c/d"
  refine ⟨hconfig, check_misspelledEntry, fun x a happly => ?_⟩
  obtain ⟨hrules, -⟩ := accepted_templates_apply_iff hconfig check_misspelledEntry
  have hspelled := (hrules misspelledRule List.mem_cons_self .forward x a).1 happly
  have hindex : importIndex? "Import00" = some 0 := by cbv
  have hzero := hspelled _ rfl "Import00" List.mem_cons_self 0 hindex
  exact absurd hzero (by decide)

end StructCopy
