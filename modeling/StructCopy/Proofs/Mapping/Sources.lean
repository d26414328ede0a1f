/-
  Proofs/Mapping/Sources: the source field of a destination field, said without an index.

  The source fields are taken as the list that they are.  Of several with the name or the tag
  value that is asked for, the last one is the source; only an override by tags takes the
  first one.  The first override that leads to a source field goes before everything else,
  and an equal name goes before an equal tag value.
-/
import StructCopy.Mapping.Match
import StructCopy.Proofs.Go.TagWriting

set_option autoImplicit false

namespace StructCopy

/-! ## Tag values -/

/-- A field has a value under a key of its tag: the text that is stored there begins with it, and a
comma or nothing follows.  An empty text and a dash are no values. -/
structure StructField.HasTagValue (f : StructField) (key value : String) : Prop where
  stored : ∃ text rest, Go.Tag.lookup f.tag key = some text ∧
    text.toList = value.toList ++ rest ∧ (rest = [] ∨ rest.head? = some ',')
  noComma : ',' ∉ value.toList
  ne_empty : value ≠ ""
  ne_dash : value ≠ "-"

theorem StructField.tagValue?_eq_some_iff {f : StructField} {key value : String} :
    f.tagValue? key = some value ↔ f.HasTagValue key value := by
  unfold tagValue?
  rw [Go.Tag.name?_eq_some_iff]
  constructor
  · rintro ⟨hstored, hcomma, hempty, hdash⟩
    exact ⟨hstored, hcomma, hempty, hdash⟩
  · rintro ⟨hstored, hcomma, hempty, hdash⟩
    exact ⟨hstored, hcomma, hempty, hdash⟩

namespace SourceIndex

/-! ## The rule -/

section Rule

variable (sources : List StructField) (tagKey : String) (dest : StructField)

/-- The last source field with a property. -/
def LastWith (p : StructField → Prop) (c : Candidate) : Prop :=
  ∃ before after, sources = before ++ c.field :: after ∧ c.position = before.length ∧
    p c.field ∧ ∀ f ∈ after, ¬ p f

/-- The first source field with a property. -/
def FirstWith (p : StructField → Prop) (c : Candidate) : Prop :=
  ∃ before after, sources = before ++ c.field :: after ∧ c.position = before.length ∧
    p c.field ∧ ∀ f ∈ before, ¬ p f

/-- What an override gives by name: it names the destination field, and this is the last source
field with the name that it gives. -/
def NameClause (o : FieldOverride) (c : Candidate) : Prop :=
  o.destField = some dest.name ∧ ∃ name, o.sourceField = some name ∧
    LastWith sources (fun f => f.name = name) c

/-- What an override gives by tags: under its own key, or that of the mapping, the destination
field has the one value and this is the first source field with the other. -/
def TagClause (o : FieldOverride) (c : Candidate) : Prop :=
  ∃ destTag sourceTag, o.destTag = some destTag ∧ o.sourceTag = some sourceTag ∧
    dest.HasTagValue (o.tagKey.getD tagKey) destTag ∧
    FirstWith sources (fun f => f.HasTagValue (o.tagKey.getD tagKey) sourceTag) c

/-- What an override gives: by name, or else by tags. -/
inductive Gives (o : FieldOverride) (c : Candidate) : Prop where
  | byName (h : NameClause sources dest o c)
  | byTag (hname : ∀ c', ¬ NameClause sources dest o c') (h : TagClause sources tagKey dest o c)

/-- The source of a destination field: what the first override gives that gives something; else
the last source field of the same name; else the last one with the same tag value. -/
inductive SourceFor (overrides : List FieldOverride) (c : Candidate) : Prop where
  | overridden {before after : List FieldOverride} {o : FieldOverride}
      (hsplit : overrides = before ++ o :: after)
      (hbefore : ∀ o' ∈ before, ∀ c', ¬ Gives sources tagKey dest o' c')
      (h : Gives sources tagKey dest o c)
  | sameName (hnone : ∀ o ∈ overrides, ∀ c', ¬ Gives sources tagKey dest o c')
      (h : LastWith sources (fun f => f.name = dest.name) c)
  | sameTag {value : String} (hnone : ∀ o ∈ overrides, ∀ c', ¬ Gives sources tagKey dest o c')
      (hname : ∀ f ∈ sources, f.name ≠ dest.name) (hvalue : dest.HasTagValue tagKey value)
      (h : LastWith sources (fun f => f.HasTagValue tagKey value) c)

end Rule

/-! ## Candidates -/

theorem candidatesOf_append (before after : List StructField) (f : StructField) :
    candidatesOf (before ++ f :: after) =
      candidatesOf before ++ ⟨before.length, f⟩ ::
        (after.zipIdx (before.length + 1)).map fun entry => ⟨entry.2, entry.1⟩ := by
  simp [candidatesOf, List.zipIdx_append]

theorem map_field_zipIdx (fields : List StructField) (start : Nat) :
    ((fields.zipIdx start).map fun entry => (⟨entry.2, entry.1⟩ : Candidate)).map
      Candidate.field = fields := by
  rw [List.map_map]
  exact List.zipIdx_map_fst start fields

/-- A candidate stands among the candidates where its field stands among the fields. -/
theorem candidatesOf_split_iff {sources : List StructField} {c : Candidate}
    {P : List StructField → List StructField → Prop} :
    (∃ before after, candidatesOf sources = before ++ c :: after ∧
        P (before.map Candidate.field) (after.map Candidate.field)) ↔
      ∃ before after, sources = before ++ c.field :: after ∧ c.position = before.length ∧
        P before after := by
  constructor
  · rintro ⟨before, after, hsplit, h⟩
    have hsources : sources = before.map Candidate.field ++
        c.field :: after.map Candidate.field := by
      rw [← map_field_zipIdx sources 0, ← List.map_cons, ← List.map_append, ← hsplit]
      rfl
    refine ⟨_, _, hsources, ?_, h⟩
    rw [hsources, candidatesOf_append] at hsplit
    have hlength : (candidatesOf (before.map Candidate.field)).length = before.length := by
      simp [candidatesOf]
    have hc := (List.append_inj hsplit hlength).2
    rw [List.length_map, ← (List.cons.inj hc).1, List.length_map]
  · rintro ⟨before, after, rfl, hposition, h⟩
    have hsplit := candidatesOf_append before after c.field
    rw [← hposition] at hsplit
    refine ⟨_, _, hsplit, ?_⟩
    rwa [map_field_zipIdx, candidatesOf, map_field_zipIdx]

/-! ## Look-ups -/

/-- An index that is filled under keys holds under a key the last candidate that was put there. -/
theorem getElem?_foldl_eq_find? (keyOf : StructField → Option String)
    {add : Std.HashMap String Candidate → Candidate → Std.HashMap String Candidate}
    (hadd : ∀ index c (key : String), (add index c)[key]? =
      if keyOf c.field = some key then some c else index[key]?)
    (cs : List Candidate) (key : String) :
    (cs.foldl add ∅)[key]? = cs.reverse.find? fun c => keyOf c.field == some key := by
  rw [← List.reverse_reverse cs, List.foldl_reverse, List.reverse_reverse]
  generalize cs.reverse = cs
  induction cs with
  | nil => simp
  | cons c cs ih =>
    rw [List.foldr_cons, hadd, List.find?_cons, ih]
    by_cases hkey : keyOf c.field = some key
    · rw [if_pos hkey, beq_iff_eq.2 hkey]
    · rw [if_neg hkey, beq_eq_false_iff_ne.2 hkey]

theorem getElem?_addTag (tagKey : String) (index : Std.HashMap String Candidate) (c : Candidate)
    (key : String) : (addTag tagKey index c)[key]? =
      if c.field.tagValue? tagKey = some key then some c else index[key]? := by
  unfold addTag
  cases htag : c.field.tagValue? tagKey with
  | none => simp
  | some value => simp [Std.HashMap.getElem?_insert]

/-- The last one that is found from the end is the last one with the property. -/
theorem find?_reverse_eq_some_iff (keyOf : StructField → Option String)
    {sources : List StructField} {key : String} {c : Candidate} :
    (candidatesOf sources).reverse.find? (fun c => keyOf c.field == some key) = some c ↔
      LastWith sources (fun f => keyOf f = some key) c := by
  rw [LastWith, ← candidatesOf_split_iff, List.find?_eq_some_iff_append, beq_iff_eq]
  simp only [List.forall_mem_map]
  constructor
  · rintro ⟨hc, after, before, hsplit, hafter⟩
    refine ⟨before.reverse, after.reverse, ?_, hc, fun d hd => ?_⟩
    · rw [← List.reverse_reverse (candidatesOf sources), hsplit]
      simp
    · simpa using hafter d (List.mem_reverse.1 hd)
  · rintro ⟨before, after, hsplit, hc, hafter⟩
    refine ⟨hc, after.reverse, before.reverse, ?_, fun d hd => ?_⟩
    · rw [hsplit]
      simp
    · simpa using hafter d (List.mem_reverse.1 hd)

variable {sources : List StructField} {tagKey : String} {dest : StructField} {c : Candidate}

theorem byName_eq_find? (name : String) : (ofFields sources tagKey).byName[name]? =
    (candidatesOf sources).reverse.find? fun c => some c.field.name == some name :=
  getElem?_foldl_eq_find? (fun f => some f.name)
    (fun index c key => by simp [Std.HashMap.getElem?_insert]) _ name

theorem byTag_eq_find? (value : String) : (ofFields sources tagKey).byTag[value]? =
    (candidatesOf sources).reverse.find? fun c => c.field.tagValue? tagKey == some value :=
  getElem?_foldl_eq_find? (fun f => f.tagValue? tagKey) (getElem?_addTag tagKey) _ value

theorem byName_eq_some_iff {name : String} :
    (ofFields sources tagKey).byName[name]? = some c ↔
      LastWith sources (fun f => f.name = name) c := by
  rw [byName_eq_find?, find?_reverse_eq_some_iff fun f => some f.name]
  simp only [Option.some.injEq]

theorem byTag_eq_some_iff {value : String} :
    (ofFields sources tagKey).byTag[value]? = some c ↔
      LastWith sources (fun f => f.HasTagValue tagKey value) c := by
  rw [byTag_eq_find?, find?_reverse_eq_some_iff fun f => f.tagValue? tagKey]
  simp only [StructField.tagValue?_eq_some_iff]

theorem field_mem_of_mem_candidatesOf (h : c ∈ candidatesOf sources) : c.field ∈ sources := by
  obtain ⟨entry, hentry, rfl⟩ := List.mem_map.1 h
  exact List.fst_mem_of_mem_zipIdx hentry

theorem exists_mem_candidatesOf {f : StructField} (h : f ∈ sources) :
    ∃ c ∈ candidatesOf sources, c.field = f := by
  obtain ⟨i, hi⟩ := List.getElem?_of_mem h
  exact ⟨⟨i, f⟩, List.mem_map_of_mem (List.mk_mem_zipIdx_iff_getElem?.2 hi), rfl⟩

/-- There is a last source field with a name as soon as there is one at all. -/
theorem byName_eq_none_iff {name : String} :
    (ofFields sources tagKey).byName[name]? = none ↔ ∀ f ∈ sources, f.name ≠ name := by
  rw [byName_eq_find?, List.find?_eq_none]
  constructor
  · intro h f hf
    obtain ⟨c, hc, rfl⟩ := exists_mem_candidatesOf hf
    simpa using h c (List.mem_reverse.2 hc)
  · intro h c hc
    simpa using h c.field (field_mem_of_mem_candidatesOf (List.mem_reverse.1 hc))

/-! ## Overrides -/

theorem byNameClause?_eq_some_iff {o : FieldOverride} :
    (ofFields sources tagKey).byNameClause? dest o = some c ↔ NameClause sources dest o c := by
  unfold byNameClause? NameClause
  split
  · next hdest => simp only [hdest, true_and, Option.bind_eq_some_iff, byName_eq_some_iff]
  · next hdest => simp only [hdest, false_and, reduceCtorEq]

theorem find?_eq_some_iff {key value : String} :
    (candidatesOf sources).find? (fun c => c.field.tagValue? key == some value) = some c ↔
      FirstWith sources (fun f => f.HasTagValue key value) c := by
  rw [FirstWith, ← candidatesOf_split_iff]
  simp only [List.find?_eq_some_iff_append, beq_iff_eq, List.forall_mem_map,
    ← StructField.tagValue?_eq_some_iff]
  constructor
  · rintro ⟨hc, before, after, hsplit, hbefore⟩
    exact ⟨before, after, hsplit, hc, fun d hd => by simpa using hbefore d hd⟩
  · rintro ⟨before, after, hsplit, hc, hbefore⟩
    exact ⟨hc, before, after, hsplit, fun d hd => by simpa using hbefore d hd⟩

theorem byTagClause?_eq_some_iff {o : FieldOverride} :
    (ofFields sources tagKey).byTagClause? dest o = some c ↔ TagClause sources tagKey dest o c := by
  unfold byTagClause? TagClause
  cases hdest : o.destTag with
  | none => simp
  | some destTag =>
    cases hsource : o.sourceTag with
    | none => simp
    | some sourceTag =>
      change (if dest.tagValue? (o.tagKey.getD tagKey) = some destTag then
        (candidatesOf sources).find? fun c =>
          c.field.tagValue? (o.tagKey.getD tagKey) == some sourceTag else none) = some c ↔ _
      split
      · next htag =>
        rw [StructField.tagValue?_eq_some_iff] at htag
        simp [find?_eq_some_iff, htag]
      · next htag =>
        rw [StructField.tagValue?_eq_some_iff] at htag
        simp [htag]

/-- What is computed for an override. -/
theorem clauses_eq_some_iff {o : FieldOverride} :
    ((ofFields sources tagKey).byNameClause? dest o).or
        ((ofFields sources tagKey).byTagClause? dest o) = some c ↔
      Gives sources tagKey dest o c := by
  rw [Option.or_eq_some_iff, byNameClause?_eq_some_iff, byTagClause?_eq_some_iff,
    Option.eq_none_iff_forall_ne_some]
  simp only [ne_eq, byNameClause?_eq_some_iff]
  constructor
  · rintro (hname | ⟨hname, htag⟩)
    · exact .byName hname
    · exact .byTag hname htag
  · rintro (hname | ⟨hname, htag⟩)
    · exact .inl hname
    · exact .inr ⟨hname, htag⟩

theorem clauses_eq_none_iff {o : FieldOverride} :
    ((ofFields sources tagKey).byNameClause? dest o).or
        ((ofFields sources tagKey).byTagClause? dest o) = none ↔
      ∀ c, ¬ Gives sources tagKey dest o c := by
  rw [Option.eq_none_iff_forall_ne_some]
  exact forall_congr' fun c => not_congr clauses_eq_some_iff

theorem overridden?_eq_some_iff {overrides : List FieldOverride} :
    (ofFields sources tagKey).overridden? dest overrides = some c ↔
      ∃ before o after, overrides = before ++ o :: after ∧
        (∀ o' ∈ before, ∀ c', ¬ Gives sources tagKey dest o' c') ∧
        Gives sources tagKey dest o c := by
  unfold overridden?
  rw [List.findSome?_eq_some_iff]
  simp only [clauses_eq_some_iff, clauses_eq_none_iff]
  constructor
  · rintro ⟨before, o, after, hsplit, hgives, hbefore⟩
    exact ⟨before, o, after, hsplit, hbefore, hgives⟩
  · rintro ⟨before, o, after, hsplit, hbefore, hgives⟩
    exact ⟨before, o, after, hsplit, hgives, hbefore⟩

theorem overridden?_eq_none_iff {overrides : List FieldOverride} :
    (ofFields sources tagKey).overridden? dest overrides = none ↔
      ∀ o ∈ overrides, ∀ c, ¬ Gives sources tagKey dest o c := by
  unfold overridden?
  simp only [List.findSome?_eq_none_iff, clauses_eq_none_iff]

/-! ## Sources -/

/-- The source that is found through the index of some source fields is the one that the rule
says of the list, and none is found if the rule says none. -/
theorem match?_eq_some_iff (sources : List StructField) (tagKey : String) (dest : StructField)
    (overrides : List FieldOverride) (c : Candidate) :
    (ofFields sources tagKey).match? dest overrides = some c ↔
      SourceFor sources tagKey dest overrides c := by
  have htagKey : (ofFields sources tagKey).tagKey = tagKey := rfl
  unfold match?
  rw [Option.or_eq_some_iff, Option.or_eq_some_iff, overridden?_eq_some_iff,
    overridden?_eq_none_iff, byName_eq_some_iff, byName_eq_none_iff, Option.bind_eq_some_iff,
    htagKey]
  simp only [byTag_eq_some_iff, StructField.tagValue?_eq_some_iff]
  constructor
  · rintro (⟨before, o, after, hsplit, hbefore, hgives⟩ |
      ⟨hnone, hname | ⟨hname, value, hvalue, htag⟩⟩)
    · exact .overridden hsplit hbefore hgives
    · exact .sameName hnone hname
    · exact .sameTag hnone hname hvalue htag
  · intro h
    cases h with
    | overridden hsplit hbefore hgives => exact .inl ⟨_, _, _, hsplit, hbefore, hgives⟩
    | sameName hnone hname => exact .inr ⟨hnone, .inl hname⟩
    | sameTag hnone hname hvalue htag => exact .inr ⟨hnone, .inr ⟨hname, _, hvalue, htag⟩⟩

/-- A field of the type `int` with a tag. -/
def taggedField (name tag : String) : StructField :=
  ⟨name, tag, ⟨"int", "int", [.text "int"]⟩, [], fun _ hv => absurd hv List.not_mem_nil⟩

/-- Fields with tags: `A` and `C` have the same value under `json`, `A` and `B` under `db`. -/
def taggedSources : List StructField := [
  taggedField "A" "json:\"id,omitempty\" db:\"k\"", taggedField "B" "json:\"-\" db:\"k,pk\"",
  taggedField "C" "json:\"id\"", taggedField "D" "json:\"\""
]

/-- A field with values under both keys. -/
def taggedDest : StructField :=
  taggedField "X" "json:\"id\" db:\"x\""

/-- An override by tags under the key `db`. -/
def tagOverride (destTag : String) : FieldOverride :=
  ⟨none, none, some "k", some destTag, some "db"⟩

/-- The override whose tag the field has takes the first source with the other tag. Without it the
last source with the value of the field under the key of the mapping is taken. -/
theorem match?_eq_some_iff_tagged :
    ((ofFields taggedSources "json").match? taggedDest [tagOverride "y", tagOverride "x"]).map
      Candidate.position = some 0 ∧
    ((ofFields taggedSources "json").match? taggedDest [tagOverride "y"]).map
      Candidate.position = some 2 := by
  have hvalue : ∀ {f : StructField} {key value}, f.tagValue? key = some value →
      f.HasTagValue key value := StructField.tagValue?_eq_some_iff.1
  have hother : ∀ c, ¬ Gives taggedSources "json" taggedDest (tagOverride "y") c := by
    intro c hgives
    cases hgives with
    | byName h => cases h.1
    | byTag _ h =>
      obtain ⟨destTag, sourceTag, hdest, -, htag, -⟩ := h
      cases hdest
      have hx : taggedDest.tagValue? "db" = some "x" := by decide +kernel
      have hy := StructField.tagValue?_eq_some_iff.2 htag
      exact absurd (hx.symm.trans hy) (by decide)
  have hoverride : SourceFor taggedSources "json" taggedDest [tagOverride "y", tagOverride "x"]
      ⟨0, taggedField "A" "json:\"id,omitempty\" db:\"k\""⟩ := by
    have hsplit : [tagOverride "y", tagOverride "x"] = [tagOverride "y"] ++ [tagOverride "x"] := rfl
    refine .overridden hsplit (List.forall_mem_singleton.2 hother)
      (.byTag (fun c h => ?_) ⟨"x", "k", rfl, rfl, hvalue (by decide +kernel), [], _, rfl, rfl,
        hvalue (by decide +kernel), List.forall_mem_nil _⟩)
    cases h.1
  have hdefault : SourceFor taggedSources "json" taggedDest [tagOverride "y"]
      ⟨2, taggedField "C" "json:\"id\""⟩ := by
    have hid : taggedDest.HasTagValue "json" "id" := hvalue (by decide +kernel)
    refine .sameTag (List.forall_mem_singleton.2 hother) (by decide) hid
      ⟨[_, _], [_], rfl, rfl, hvalue (by decide +kernel),
        List.forall_mem_singleton.2 fun htag => ?_⟩
    have hnone : (taggedField "D" "json:\"\"").tagValue? "json" = none := by decide +kernel
    cases hnone.symm.trans (StructField.tagValue?_eq_some_iff.2 htag)
  rw [(match?_eq_some_iff _ _ _ _ _).2 hoverride, (match?_eq_some_iff _ _ _ _ _).2 hdefault]
  exact ⟨rfl, rfl⟩

end SourceIndex

end StructCopy
