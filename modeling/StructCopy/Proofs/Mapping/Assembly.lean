/-
  Proofs/Mapping/Assembly: what a function for a mapping consists of.

  The code for a destination field is said without the functions that compute it: where
  its source comes from, which rule converts the source, in which direction, and which
  template that applies.  The function for a mapping has exactly one entry for each
  destination field, in their order, and there is none exactly if one of the templates
  that are applied cannot be rendered.
-/
import StructCopy.Proofs.Generator.Variables

set_option autoImplicit false

namespace StructCopy

open StructCopy.Module (Loader)

/-! ## Rules -/

namespace ConversionRule

/-- The direction in which a rule converts one type into another: forward if its types are written
like these two, in this order; otherwise backwards if they are written like these two in the other
order and there is a template for it. -/
inductive Converts (r : ConversionRule) (aliases : Aliases) (source dest : TypeTemplate) :
    Direction → Prop where
  | forward (hsource : r.sourceType.render aliases = source.render aliases)
      (hdest : r.destType.render aliases = dest.render aliases) :
      Converts r aliases source dest .forward
  | reverse {t : ConversionTemplate} (ht : r.reverse = some t)
      (hsource : r.destType.render aliases = source.render aliases)
      (hdest : r.sourceType.render aliases = dest.render aliases)
      (hforward : ¬ (r.sourceType.render aliases = source.render aliases ∧
        r.destType.render aliases = dest.render aliases)) :
      Converts r aliases source dest .reverse

theorem directionFor?_eq_some_iff {r : ConversionRule} {aliases : Aliases}
    {source dest : TypeTemplate} {d : Direction} :
    r.directionFor? aliases (source.render aliases) (dest.render aliases) = some d ↔
      r.Converts aliases source dest d := by
  unfold directionFor?
  dsimp only
  constructor
  · intro h
    split at h
    · next hforward =>
      cases h
      exact .forward hforward.1 hforward.2
    · next hforward =>
      split at h
      · next hreverse =>
        cases h
        obtain ⟨hsome, hsource, hdest⟩ := hreverse
        obtain ⟨t, ht⟩ := Option.isSome_iff_exists.1 hsome
        exact .reverse ht hsource hdest hforward
      · cases h
  · intro h
    cases h with
    | forward hsource hdest => rw [if_pos ⟨hsource, hdest⟩]
    | reverse ht hsource hdest hforward =>
      have hsome : r.reverse.isSome = true := by rw [ht]; rfl
      rw [if_neg hforward, if_pos ⟨hsome, hsource, hdest⟩]

theorem directionFor?_eq_none_iff {r : ConversionRule} {aliases : Aliases}
    {source dest : TypeTemplate} :
    r.directionFor? aliases (source.render aliases) (dest.render aliases) = none ↔
      ∀ d, ¬ r.Converts aliases source dest d := by
  rw [Option.eq_none_iff_forall_ne_some]
  exact forall_congr' fun d => not_congr directionFor?_eq_some_iff

/-- This rule is the first of some rules that converts one type into another. -/
inductive FirstOf (aliases : Aliases) (source dest : TypeTemplate) :
    List ConversionRule → ConversionRule → Direction → Prop where
  | here {r : ConversionRule} {rest : List ConversionRule} {d : Direction}
      (h : r.Converts aliases source dest d) : FirstOf aliases source dest (r :: rest) r d
  | later {first r : ConversionRule} {rest : List ConversionRule} {d : Direction}
      (hfirst : ∀ d', ¬ first.Converts aliases source dest d')
      (h : FirstOf aliases source dest rest r d) : FirstOf aliases source dest (first :: rest) r d

variable {aliases : Aliases} {source dest : TypeTemplate}

theorem FirstOf.converts {rules : List ConversionRule} {r : ConversionRule} {d : Direction}
    (h : FirstOf aliases source dest rules r d) : r ∈ rules ∧ r.Converts aliases source dest d := by
  induction h with
  | here h => exact ⟨List.mem_cons_self, h⟩
  | later _ _ ih => exact ⟨List.mem_cons_of_mem _ ih.1, ih.2⟩

/-- What is looked for among rules that stand at the end of a longer list. -/
def findFrom? (aliases : Aliases) (source dest : TypeTemplate) (position : Nat)
    (rules : List ConversionRule) : Option (Nat × ConversionRule × Direction) :=
  (rules.zipIdx position).findSome? fun entry =>
    (entry.1.directionFor? aliases (source.render aliases) (dest.render aliases)).map fun d =>
      (entry.2, entry.1, d)

theorem findFrom?_cons_none {r : ConversionRule} {position : Nat}
    (h : ∀ d, ¬ r.Converts aliases source dest d) (rest : List ConversionRule) :
    findFrom? aliases source dest position (r :: rest) =
      findFrom? aliases source dest (position + 1) rest := by
  unfold findFrom?
  rw [List.zipIdx_cons, List.findSome?_cons, directionFor?_eq_none_iff.2 h]
  rfl

theorem findFrom?_cons_some {r : ConversionRule} {position : Nat} {d : Direction}
    (h : r.Converts aliases source dest d) (rest : List ConversionRule) :
    findFrom? aliases source dest position (r :: rest) = some (position, r, d) := by
  unfold findFrom?
  rw [List.zipIdx_cons, List.findSome?_cons, directionFor?_eq_some_iff.2 h]
  rfl

theorem findFrom?_eq_some_iff {rules : List ConversionRule} {position : Nat} {r : ConversionRule}
    {d : Direction} :
    (∃ i, findFrom? aliases source dest position rules = some (i, r, d)) ↔
      FirstOf aliases source dest rules r d := by
  induction rules generalizing position with
  | nil =>
    constructor
    · rintro ⟨i, h⟩
      cases h
    · intro h
      cases h
  | cons first rest ih =>
    by_cases hfirst : ∃ d', first.Converts aliases source dest d'
    · obtain ⟨d', hd'⟩ := hfirst
      rw [findFrom?_cons_some hd']
      constructor
      · rintro ⟨i, h⟩
        cases h
        exact .here hd'
      · intro h
        cases h with
        | here h =>
          have hsame := (directionFor?_eq_some_iff.2 hd').symm.trans (directionFor?_eq_some_iff.2 h)
          exact ⟨position, by rw [Option.some.inj hsame]⟩
        | later hfirst _ => exact absurd hd' (hfirst d')
    · have hnone := not_exists.1 hfirst
      rw [findFrom?_cons_none hnone, ih]
      constructor
      · exact .later hnone
      · intro h
        cases h with
        | here h => exact absurd h (hnone d)
        | later _ h => exact h

theorem find?_eq_some_iff {rules : List ConversionRule} {r : ConversionRule} {d : Direction} :
    (∃ i, find? rules aliases source dest = some (i, r, d)) ↔
      FirstOf aliases source dest rules r d :=
  findFrom?_eq_some_iff

theorem find?_eq_none_iff {rules : List ConversionRule} :
    find? rules aliases source dest = none ↔
      ∀ r ∈ rules, ∀ d, ¬ r.Converts aliases source dest d := by
  unfold find?
  rw [List.findSome?_eq_none_iff]
  constructor
  · intro h r hr
    obtain ⟨i, hi⟩ := List.getElem?_of_mem hr
    have hentry := h (r, i) (List.mk_mem_zipIdx_iff_getElem?.2 hi)
    exact directionFor?_eq_none_iff.1 (Option.map_eq_none_iff.1 hentry)
  · intro h entry hentry
    have hnone := h entry.1 (List.fst_mem_of_mem_zipIdx hentry)
    rw [directionFor?_eq_none_iff.2 hnone]
    rfl

/-- The template of a rule that converts in a direction. -/
theorem Converts.exists_template {r : ConversionRule} {d : Direction}
    (h : r.Converts aliases source dest d) : ∃ t, r.templateFor? d = some t := by
  cases h with
  | forward => exact ⟨r.forward, rfl⟩
  | reverse ht => exact ⟨_, ht⟩

end ConversionRule

/-! ## Entries -/

/-- What the code for the destination fields of a mapping is drawn from. -/
structure Stock where
  mapping : MappingSpec
  index : SourceIndex
  rules : List ConversionRule
  aliases : Aliases

namespace Stock

/-- The source expression of a destination field, with its type: the first argument bound to the
field; else the source field that matches it; else nothing. -/
inductive Sourced (k : Stock) (dest : StructField) : Option (String × TypeTemplate) → Prop where
  | argument {before after : List AdditionalArg} {arg : AdditionalArg}
      (hargs : k.mapping.args = before ++ arg :: after)
      (hbefore : ∀ other ∈ before, other.destField ≠ dest.name) (harg : arg.destField = dest.name) :
      Sourced k dest (some (arg.name, arg.type))
  | field {c : Candidate} (hargs : ∀ arg ∈ k.mapping.args, arg.destField ≠ dest.name)
      (hmatch : k.index.match? dest k.mapping.overrides = some c) :
      Sourced k dest (some ("src." ++ c.field.name, c.field.type))
  | nothing (hargs : ∀ arg ∈ k.mapping.args, arg.destField ≠ dest.name)
      (hmatch : k.index.match? dest k.mapping.overrides = none) : Sourced k dest none

/-- For a destination field with this source expression, this template of a rule is applied. -/
def Applies (k : Stock) (dest : StructField) (source : String) (r : ConversionRule)
    (t : ConversionTemplate) : Prop :=
  ∃ type d, k.Sourced dest (some (source, type)) ∧
    ConversionRule.FirstOf k.aliases type dest.type k.rules r d ∧ r.templateFor? d = some t

/-- What an applied template gives for a destination field. -/
def rendered (k : Stock) (dest : StructField) (source : String) (r : ConversionRule)
    (t : ConversionTemplate) : Except TemplateError String :=
  t.template.render (r.valueOf? k.aliases ⟨source, "dst." ++ dest.name, "err"⟩)

/-- The code for a destination field: what the applied template gives, a plain assignment if no
rule converts its source, or a comment if it has none. -/
inductive Entry (k : Stock) (dest : StructField) : Assignment → Prop where
  | converted {source code : String} {r : ConversionRule} {t : ConversionTemplate}
      (h : k.Applies dest source r t) (hcode : k.rendered dest source r t = .ok code) :
      Entry k dest ⟨code, t.fallible⟩
  | direct {source : String} {type : TypeTemplate} (h : k.Sourced dest (some (source, type)))
      (hrules : ∀ r ∈ k.rules, ∀ d, ¬ r.Converts k.aliases type dest.type d) :
      Entry k dest ⟨"dst." ++ dest.name ++ " = " ++ source, false⟩
  | unmapped (h : k.Sourced dest none) :
      Entry k dest ⟨"// no matching source found for field: " ++ dest.name ++
        ", consider adding an additional arg or aligning the fields", false⟩

variable {k : Stock} {dest : StructField}

theorem argFor?_eq_none_iff :
    k.mapping.argFor? dest.name = none ↔ ∀ arg ∈ k.mapping.args, arg.destField ≠ dest.name := by
  unfold MappingSpec.argFor?
  rw [List.find?_eq_none]
  exact forall₂_congr fun arg _ => not_congr beq_iff_eq

theorem sourced_iff {source : Option (String × TypeTemplate)} :
    k.Sourced dest source ↔ sourceOf? k.mapping k.index dest = source := by
  unfold sourceOf?
  constructor
  · intro h
    cases h with
    | @argument before after arg hargs hbefore harg =>
      have hfirst : k.mapping.argFor? dest.name = some arg := by
        refine List.find?_eq_some_iff_append.2 ⟨beq_iff_eq.2 harg, before, after, hargs, ?_⟩
        intro other hother
        simpa using hbefore other hother
      rw [hfirst]
    | field hargs hmatch =>
      rw [argFor?_eq_none_iff.2 hargs, hmatch]
      rfl
    | nothing hargs hmatch =>
      rw [argFor?_eq_none_iff.2 hargs, hmatch]
      rfl
  · intro h
    cases harg : k.mapping.argFor? dest.name with
    | some arg =>
      rw [harg] at h
      subst h
      obtain ⟨hfield, before, after, hargs, hbefore⟩ := List.find?_eq_some_iff_append.1 harg
      refine .argument hargs (fun other hother => ?_) (beq_iff_eq.1 hfield)
      simpa using hbefore other hother
    | none =>
      rw [harg] at h
      have hargs := argFor?_eq_none_iff.1 harg
      cases hmatch : k.index.match? dest k.mapping.overrides with
      | some c =>
        rw [hmatch] at h
        subst h
        exact .field hargs hmatch
      | none =>
        rw [hmatch] at h
        subst h
        exact .nothing hargs hmatch

/-- The code that is computed for a destination field. -/
def assignmentFor (k : Stock) (dest : StructField) : Except TemplateError Assignment :=
  assignmentTo k.rules k.aliases dest (sourceOf? k.mapping k.index dest)

theorem Applies.assignmentFor_eq {source : String} {r : ConversionRule} {t : ConversionTemplate}
    (h : k.Applies dest source r t) :
    k.assignmentFor dest = (k.rendered dest source r t).map fun code => ⟨code, t.fallible⟩ := by
  obtain ⟨type, d, hsource, hfirst, ht⟩ := h
  obtain ⟨i, hfind⟩ := ConversionRule.find?_eq_some_iff.2 hfirst
  unfold assignmentFor assignmentTo
  rw [sourced_iff.1 hsource]
  dsimp only
  rw [hfind]
  exact ConversionRule.apply_eq_applyTemplate ht _ _

/-- Either a template is applied to a field, or its entry cannot fail. -/
theorem applies_or (k : Stock) (dest : StructField) :
    (∃ source r t, k.Applies dest source r t) ∨
      ∃ entry, k.assignmentFor dest = .ok entry ∧ entry.fallible = false ∧ k.Entry dest entry := by
  cases hsource : sourceOf? k.mapping k.index dest with
  | none =>
    refine .inr ⟨⟨unmappedComment dest, false⟩, ?_, rfl, .unmapped (sourced_iff.2 hsource)⟩
    unfold assignmentFor
    rw [hsource]
    rfl
  | some found =>
    obtain ⟨source, type⟩ := found
    have hsourced := sourced_iff.2 hsource
    cases hfind : ConversionRule.find? k.rules k.aliases type dest.type with
    | none =>
      refine .inr ⟨.direct ("dst." ++ dest.name) source, ?_, rfl,
        .direct hsourced (ConversionRule.find?_eq_none_iff.1 hfind)⟩
      unfold assignmentFor assignmentTo
      rw [hsource]
      dsimp only
      rw [hfind]
    | some found =>
      obtain ⟨i, r, d⟩ := found
      have hfirst := ConversionRule.find?_eq_some_iff.1 ⟨i, hfind⟩
      obtain ⟨t, ht⟩ := hfirst.converts.2.exists_template
      exact .inl ⟨source, r, t, type, d, hsourced, hfirst, ht⟩

theorem assignmentFor_eq_ok_iff {entry : Assignment} :
    k.assignmentFor dest = .ok entry ↔ k.Entry dest entry := by
  constructor
  · intro h
    rcases k.applies_or dest with ⟨source, r, t, happlies⟩ | ⟨entry', hentry', -, hentry⟩
    · rw [happlies.assignmentFor_eq] at h
      obtain ⟨code, hcode, rfl⟩ := Go.ok_of_map_eq_ok h
      exact .converted happlies hcode
    · cases hentry'.symm.trans h
      exact hentry
  · intro h
    cases h with
    | converted happlies hcode =>
      rw [happlies.assignmentFor_eq, hcode]
      rfl
    | direct hsource hrules =>
      unfold assignmentFor assignmentTo
      rw [sourced_iff.1 hsource]
      dsimp only
      rw [ConversionRule.find?_eq_none_iff.2 hrules]
      rfl
    | unmapped hsource =>
      unfold assignmentFor
      rw [sourced_iff.1 hsource]
      rfl

end Stock

/-! ## One entry for each field -/

theorem assignments_eq_ok_iff {assign : StructField → Except TemplateError Assignment}
    {dests : List StructField} {entries : List Assignment} :
    assignments assign dests = .ok entries ↔
      List.Forall₂ (fun dest entry => assign dest = .ok entry) dests entries := by
  induction dests generalizing entries with
  | nil =>
    rw [List.forall₂_nil_left_iff]
    constructor
    · intro h
      cases h
      rfl
    · rintro rfl
      rfl
  | cons dest rest ih =>
    rw [List.forall₂_cons_left_iff]
    unfold assignments
    cases hdest : assign dest with
    | error e =>
      constructor
      · intro h
        cases h
      · rintro ⟨entry, more, h, -, -⟩
        cases h
    | ok entry =>
      constructor
      · intro h
        obtain ⟨more, hmore, rfl⟩ := Go.ok_of_map_eq_ok h
        exact ⟨entry, more, rfl, ih.1 hmore, rfl⟩
      · rintro ⟨entry', more, h, hmore, rfl⟩
        cases h
        dsimp only
        rw [ih.2 hmore]
        rfl

/-- The head of a function, spelled out. -/
theorem signatureOf_eq_append (m : MappingSpec) (aliases : Aliases) (returnsError : Bool) :
    signatureOf m aliases returnsError = "func " ++ m.functionName ++ "(" ++
      String.intercalate ", " (("src " ++ m.source.render aliases) ::
        m.args.map fun arg => arg.name ++ " " ++ arg.type.render aliases) ++
      ") (dst " ++ m.dest.render aliases ++ (if returnsError then ", err error" else "") ++ ")" := by
  have hresults : ") (" ++ "dst " = ") (dst " := rfl
  unfold signatureOf
  rw [← hresults]
  simp only [String.append_assoc]

end StructCopy
