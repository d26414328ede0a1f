/-
  Proofs/Mapping/Rendering: what a function takes from the aliases.

  A function depends on the aliases only through the qualifiers of the import paths of
  its types and rules.  Aliases that agree on these paths give the same function.
-/
import StructCopy.Mapping.Function

set_option autoImplicit false

namespace StructCopy

/-- The import path has the same qualifier in both. -/
def Aliases.AgreeOn (a b : Aliases) (path : String) : Prop :=
  b.qualifierFor path = a.qualifierFor path

variable {a b : Aliases}

/-! ## Types and rules -/

theorem TypeTemplate.render_eq {t : TypeTemplate} (h : ∀ path ∈ t.imports, a.AgreeOn b path) :
    t.render b = t.render a := by
  unfold TypeTemplate.render
  refine congrArg _ (funext fun v => ?_)
  cases hpath : (importIndex? v).bind fun i => t.imports[i]? with
  | none => rw [Option.map_none, Option.map_none]
  | some path =>
    obtain ⟨i, -, hi⟩ := Option.bind_eq_some_iff.1 hpath
    rw [Option.map_some, Option.map_some, h path (List.mem_of_getElem? hi)]

namespace ConversionRule

/-- The import paths of a rule and of its two types. -/
def paths (r : ConversionRule) : List String :=
  r.imports ++ r.sourceType.imports ++ r.destType.imports

theorem valueOf?_eq {r : ConversionRule} (h : ∀ path ∈ r.paths, a.AgreeOn b path) (x : Operands)
    (v : String) : r.valueOf? b x v = r.valueOf? a x v := by
  unfold valueOf?
  cases hfind : r.imports.zipIdx.find? fun entry => v == "Import" ++ toString entry.2 with
  | none => rw [Option.map_none, Option.map_none]
  | some entry =>
    have himport : entry.1 ∈ r.imports :=
      List.fst_mem_of_mem_zipIdx (List.mem_of_find?_eq_some hfind)
    have hpath : entry.1 ∈ r.paths := List.mem_append_left _ (List.mem_append_left _ himport)
    rw [Option.map_some, Option.map_some, h _ hpath]

theorem applyTemplate_eq {r : ConversionRule} (h : ∀ path ∈ r.paths, a.AgreeOn b path)
    (t : ConversionTemplate) (x : Operands) : r.applyTemplate t x b = r.applyTemplate t x a := by
  have hvalue : r.valueOf? b x = r.valueOf? a x := funext (valueOf?_eq h x)
  unfold applyTemplate
  rw [hvalue]

theorem apply_eq {r : ConversionRule} (h : ∀ path ∈ r.paths, a.AgreeOn b path) (d : Direction)
    (x : Operands) : r.apply d x b = r.apply d x a := by
  unfold apply
  cases d with
  | forward => exact applyTemplate_eq h _ x
  | reverse =>
    cases r.reverse with
    | some t => exact applyTemplate_eq h t x
    | none => rfl

theorem directionFor?_eq {r : ConversionRule} (h : ∀ path ∈ r.paths, a.AgreeOn b path)
    (source dest : String) : r.directionFor? b source dest = r.directionFor? a source dest := by
  have hsource : r.sourceType.render b = r.sourceType.render a :=
    TypeTemplate.render_eq fun path hpath =>
      h path (List.mem_append_left _ (List.mem_append_right _ hpath))
  have hdest : r.destType.render b = r.destType.render a :=
    TypeTemplate.render_eq fun path hpath => h path (List.mem_append_right _ hpath)
  unfold directionFor?
  rw [hsource, hdest]

theorem findSome?_congr {α β : Type} {f g : α → Option β} {xs : List α}
    (h : ∀ x ∈ xs, f x = g x) : xs.findSome? f = xs.findSome? g := by
  induction xs with
  | nil => rfl
  | cons x xs ih =>
    rw [List.findSome?_cons, List.findSome?_cons, h x List.mem_cons_self,
      ih fun y hy => h y (List.mem_cons_of_mem _ hy)]

theorem find?_eq {rules : List ConversionRule} {source dest : TypeTemplate}
    (hrules : ∀ r ∈ rules, ∀ path ∈ r.paths, a.AgreeOn b path)
    (hsource : ∀ path ∈ source.imports, a.AgreeOn b path)
    (hdest : ∀ path ∈ dest.imports, a.AgreeOn b path) :
    find? rules b source dest = find? rules a source dest := by
  unfold find?
  rw [TypeTemplate.render_eq hsource, TypeTemplate.render_eq hdest]
  refine findSome?_congr fun entry hentry => ?_
  rw [directionFor?_eq (hrules entry.1 (List.fst_mem_of_mem_zipIdx hentry))]

/-- A rule that is found is one of the rules. -/
theorem mem_of_find? {rules : List ConversionRule} {source dest : TypeTemplate} {i : Nat}
    {r : ConversionRule} {d : Direction} (h : find? rules a source dest = some (i, r, d)) :
    r ∈ rules := by
  obtain ⟨entry, hentry, hfound⟩ := List.exists_of_findSome?_eq_some h
  obtain ⟨_, -, heq⟩ := Option.map_eq_some_iff.1 hfound
  cases heq
  exact List.fst_mem_of_mem_zipIdx hentry

end ConversionRule

/-! ## Sources -/

namespace SourceIndex

/-- All candidates in an index are among some candidates. -/
def Among (index : Std.HashMap String Candidate) (cs : List Candidate) : Prop :=
  ∀ (name : String) (c : Candidate), index[name]? = some c → c ∈ cs

theorem among_insert {index : Std.HashMap String Candidate} {cs : List Candidate} {c : Candidate}
    (h : Among index cs) (hc : c ∈ cs) (name : String) : Among (index.insert name c) cs := by
  intro other c' hlookup
  rw [Std.HashMap.getElem?_insert] at hlookup
  split at hlookup
  · cases hlookup
    exact hc
  · exact h other c' hlookup

theorem among_addTag {index : Std.HashMap String Candidate} {cs : List Candidate} {c : Candidate}
    (h : Among index cs) (hc : c ∈ cs) (tagKey : String) : Among (addTag tagKey index c) cs := by
  unfold addTag
  split
  · exact among_insert h hc _
  · exact h

theorem among_foldl {add : Std.HashMap String Candidate → Candidate → Std.HashMap String Candidate}
    {all : List Candidate}
    (hadd : ∀ index c, Among index all → c ∈ all → Among (add index c) all)
    {index : Std.HashMap String Candidate} (h : Among index all) {cs : List Candidate}
    (hcs : ∀ c ∈ cs, c ∈ all) : Among (cs.foldl add index) all := by
  induction cs generalizing index with
  | nil => exact h
  | cons c cs ih =>
    refine ih (hadd index c h (hcs c List.mem_cons_self)) fun c' hc' => ?_
    exact hcs c' (List.mem_cons_of_mem _ hc')

theorem among_empty (cs : List Candidate) : Among ∅ cs := by
  intro name c h
  simp at h

/-- What the index of some fields gives is one of their candidates. -/
theorem mem_candidates_of_match? {fields : List StructField} {tagKey : String}
    {dest : StructField} {overrides : List FieldOverride} {c : Candidate}
    (h : (ofFields fields tagKey).match? dest overrides = some c) : c ∈ candidatesOf fields := by
  have hname : Among (ofFields fields tagKey).byName (candidatesOf fields) :=
    among_foldl (fun _ _ hi hc => among_insert hi hc _) (among_empty _) fun _ hc => hc
  have htag : Among (ofFields fields tagKey).byTag (candidatesOf fields) :=
    among_foldl (fun _ _ hi hc => among_addTag hi hc _) (among_empty _) fun _ hc => hc
  unfold match? at h
  rcases Option.or_eq_some_iff.1 h with h | ⟨-, h⟩
  · unfold overridden? at h
    obtain ⟨o, -, ho⟩ := List.exists_of_findSome?_eq_some h
    rcases Option.or_eq_some_iff.1 ho with ho | ⟨-, ho⟩
    · unfold byNameClause? at ho
      split at ho
      · obtain ⟨name, -, hlookup⟩ := Option.bind_eq_some_iff.1 ho
        exact hname name c hlookup
      · cases ho
    · unfold byTagClause? at ho
      split at ho
      · dsimp only at ho
        split at ho
        · exact List.mem_of_find?_eq_some ho
        · cases ho
      · cases ho
  · rcases Option.or_eq_some_iff.1 h with h | ⟨-, h⟩
    · exact hname dest.name c h
    · obtain ⟨value, -, hlookup⟩ := Option.bind_eq_some_iff.1 h
      exact htag value c hlookup

theorem field_mem_of_match? {fields : List StructField} {tagKey : String} {dest : StructField}
    {overrides : List FieldOverride} {c : Candidate}
    (h : (ofFields fields tagKey).match? dest overrides = some c) : c.field ∈ fields := by
  obtain ⟨entry, hentry, rfl⟩ := List.mem_map.1 (mem_candidates_of_match? h)
  exact List.fst_mem_of_mem_zipIdx hentry

end SourceIndex

/-! ## Functions -/

/-- The import paths that the function for a mapping between two field lists may render. -/
def renderedPaths (m : MappingSpec) (sources dests : List StructField)
    (global : List ConversionRule) : List String :=
  m.source.imports ++ m.dest.imports ++ m.args.flatMap (·.type.imports) ++
    (m.conversions ++ global).flatMap (·.paths) ++ (sources ++ dests).flatMap (·.type.imports)

/-- The type of the source of a destination field is that of an argument or of a source field. -/
theorem type_of_sourceOf? {m : MappingSpec} {sources : List StructField} {tagKey : String}
    {dest : StructField} {source : String} {type : TypeTemplate}
    (h : sourceOf? m (.ofFields sources tagKey) dest = some (source, type)) :
    (∃ arg ∈ m.args, arg.type = type) ∨ ∃ f ∈ sources, f.type = type := by
  unfold sourceOf? at h
  split at h
  · next arg harg =>
    cases h
    exact .inl ⟨arg, List.mem_of_find?_eq_some harg, rfl⟩
  · obtain ⟨c, hc, heq⟩ := Option.map_eq_some_iff.1 h
    cases heq
    exact .inr ⟨c.field, SourceIndex.field_mem_of_match? hc, rfl⟩

theorem assignmentTo_eq {rules : List ConversionRule} {dest : StructField}
    {source : Option (String × TypeTemplate)}
    (hrules : ∀ r ∈ rules, ∀ path ∈ r.paths, a.AgreeOn b path)
    (hsource : ∀ s ∈ source, ∀ path ∈ s.2.imports, a.AgreeOn b path)
    (hdest : ∀ path ∈ dest.type.imports, a.AgreeOn b path) :
    assignmentTo rules b dest source = assignmentTo rules a dest source := by
  cases source with
  | none => rfl
  | some s =>
    unfold assignmentTo
    dsimp only
    rw [ConversionRule.find?_eq hrules (hsource s rfl) hdest]
    split
    · next hfind => exact ConversionRule.apply_eq (hrules _ (ConversionRule.mem_of_find? hfind)) _ _
    · rfl

theorem assignments_congr {assign assign' : StructField → Except TemplateError Assignment}
    {dests : List StructField} (h : ∀ dest ∈ dests, assign dest = assign' dest) :
    assignments assign dests = assignments assign' dests := by
  induction dests with
  | nil => rfl
  | cons dest rest ih =>
    unfold assignments
    rw [h dest List.mem_cons_self, ih fun d hd => h d (List.mem_cons_of_mem _ hd)]

theorem signatureOf_eq {m : MappingSpec}
    (hsource : ∀ path ∈ m.source.imports, a.AgreeOn b path)
    (hdest : ∀ path ∈ m.dest.imports, a.AgreeOn b path)
    (hargs : ∀ arg ∈ m.args, ∀ path ∈ arg.type.imports, a.AgreeOn b path) (returnsError : Bool) :
    signatureOf m b returnsError = signatureOf m a returnsError := by
  have hparams : (m.args.map fun arg => arg.name ++ " " ++ arg.type.render b) =
      m.args.map fun arg => arg.name ++ " " ++ arg.type.render a := by
    refine List.map_congr_left fun arg harg => ?_
    rw [TypeTemplate.render_eq (hargs arg harg)]
  unfold signatureOf
  rw [hparams, TypeTemplate.render_eq hsource, TypeTemplate.render_eq hdest]

/-- Aliases that agree on the paths that may be rendered give the same function. -/
theorem assemble_eq {m : MappingSpec} {sources dests : List StructField}
    {global : List ConversionRule} (defaultTag : String)
    (h : ∀ path ∈ renderedPaths m sources dests global, a.AgreeOn b path) :
    assemble m sources dests global defaultTag b =
      assemble m sources dests global defaultTag a := by
  simp only [renderedPaths, List.forall_mem_append, List.forall_mem_flatMap] at h
  obtain ⟨⟨⟨⟨hsource, hdest⟩, hargs⟩, hlocal, hglobal⟩, hsources, hdests⟩ := h
  have hrules : ∀ r ∈ m.conversions ++ global, ∀ path ∈ r.paths, a.AgreeOn b path :=
    List.forall_mem_append.2 ⟨hlocal, hglobal⟩
  have hassign : ∀ dest ∈ dests,
      assignmentTo (m.conversions ++ global) b dest
        (sourceOf? m (.ofFields sources (m.tagKeyOr defaultTag)) dest) =
      assignmentTo (m.conversions ++ global) a dest
        (sourceOf? m (.ofFields sources (m.tagKeyOr defaultTag)) dest) := by
    intro dest hmem
    refine assignmentTo_eq hrules ?_ (hdests dest hmem)
    rintro ⟨source, type⟩ hs
    rcases type_of_sourceOf? hs with ⟨arg, harg, rfl⟩ | ⟨f, hf, rfl⟩
    · exact hargs arg harg
    · exact hsources f hf
  unfold assemble
  dsimp only
  rw [assignments_congr hassign]
  simp only [signatureOf_eq hsource hdest hargs]

end StructCopy
