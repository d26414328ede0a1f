/-
  Proofs/Generator/MappedType: a mapped type and the key that it is resolved by.

  The key has the name of the type without the white space around it; what is written into
  the function has the name with it.  So both name the same type, and one is the text of the
  other exactly if the type has been given without such white space.  A line break in it
  ends up in the label and in the comment above the function.
-/
import StructCopy.Proofs.Generator.SingleType
import StructCopy.Proofs.Mapping.Assembly
import StructCopy.Proofs.Template.Placeholder

set_option autoImplicit false

namespace StructCopy

open Go (bind_eq_ok)
open StructCopy.Module (Loader)

/-! ## Texts that end a template -/

theorem eq_of_mem_textSegment {s : List Char} {text : String}
    (h : .text text ∈ textSegment s) : text.toList = s := by
  unfold textSegment at h
  split at h
  · cases h
  · cases List.mem_singleton.1 h
    exact String.toList_ofList

/-- A text behind the last variable of a template is an end of the text of the template, and all of
it if there is no variable. -/
theorem suffix_of_segmentsFrom {offset : Nat} {s : List Char} {front : List Segment} {text : String}
    (h : segmentsFrom offset s = .ok (front ++ [Segment.text text])) :
    text.toList <:+ s ∧ (front = [] → text.toList = s) := by
  fun_induction segmentsFrom offset s generalizing front
  case case1 s _ =>
    have hsegments : textSegment s = front ++ [Segment.text text] := Except.ok.inj h
    have hs : text.toList = s := eq_of_mem_textSegment (by rw [hsegments]; simp)
    exact ⟨hs ▸ List.suffix_rfl, fun _ => hs⟩
  case case2 => cases h
  case case3 => cases h
  case case4 s literal afterOpen hopen inner rest hclose action v hv literalKept restKept offset'
      ih =>
    obtain ⟨more, hmore, hsegments⟩ := Go.ok_of_map_eq_ok h
    have hvariable : Segment.var v ∈ front ++ [Segment.text text] := by
      rw [← hsegments]
      exact List.mem_append_right _ List.mem_cons_self
    have hrest : restKept <:+ rest := by
      unfold restKept
      split
      · exact List.dropWhile_suffix _
      · exact List.suffix_rfl
    have hs : rest <:+ s := by
      rw [Text.eq_append_of_cut? hopen, Text.eq_append_of_cut? hclose]
      exact ⟨literal ++ (openBraces ++ (inner ++ closeBraces)), by simp⟩
    have hlast : text.toList <:+ restKept := by
      have hends := congrArg List.getLast? hsegments
      rcases List.eq_nil_or_concat' more with rfl | ⟨others, last, rfl⟩
      · simp at hends
      · rw [List.getLast?_concat, ← List.cons_append, ← List.append_assoc,
          List.getLast?_concat] at hends
        cases hends
        exact (ih hmore).1
    refine ⟨(hlast.trans hrest).trans hs, ?_⟩
    rintro rfl
    cases List.mem_singleton.1 hvariable

/-! ## Types and their keys -/

namespace TypeTemplate

/-- The name of a key between white space, alone or behind the placeholder for the module of the
key. -/
inductive Writes (t : TypeTemplate) (key : TypeKey) (front back : List Char) : Prop where
  | alone (hpaths : t.placeholderPaths = []) (hmodule : key.module = t.imports.head?.getD "")
      (htext : t.text.toList = front ++ (key.name.toList ++ back))
      (hunaliased : t.unaliased.toList = front ++ (key.name.toList ++ back))
      (hrender : ∀ aliases, (t.render aliases).toList = front ++ (key.name.toList ++ back))
  | qualified (hfront : front = []) (hpaths : t.placeholderPaths = [key.module])
      (htext : '.' :: (key.name.toList ++ back) <:+ t.text.toList)
      (hunaliased : t.unaliased.toList = key.name.toList ++ back)
      (hrender : ∀ aliases, (t.render aliases).toList =
        (aliases.qualifierFor key.module).toList ++ '.' :: (key.name.toList ++ back))

/-- A type is given as the name of its key with white space around it. -/
structure Spells (t : TypeTemplate) (key : TypeKey) (front back : List Char) : Prop where
  isName : Text.isIdentifier key.name.toList = true
  blankFront : ∀ c ∈ front, Text.isBlank c = true
  blankBack : ∀ c ∈ back, Text.isBlank c = true
  writes : t.Writes key front back

/-- The type without packages is the name of the key, and the type as it is written is this name,
alone or behind the qualifier of the module of the key. -/
def Names (t : TypeTemplate) (key : TypeKey) : Prop :=
  t.unaliased = key.name ∧ ∀ aliases, t.render aliases = key.name ∨
    t.render aliases = aliases.qualifierFor key.module ++ "." ++ key.name

/-- The text of the type does not end in white space, and does not begin with it where no
placeholder comes first. -/
structure Tight (t : TypeTemplate) : Prop where
  last : ∀ c ∈ t.text.toList.getLast?, Text.isBlank c = false
  first : t.placeholderPaths = [] → ∀ c ∈ t.text.toList.head?, Text.isBlank c = false

variable {t : TypeTemplate} {key : TypeKey} {front back : List Char}

namespace Spells

theorem unaliased (h : t.Spells key front back) :
    t.unaliased.toList = front ++ (key.name.toList ++ back) := by
  cases h.writes with
  | alone _ _ _ hunaliased _ => exact hunaliased
  | qualified hfront _ _ hunaliased _ => rw [hunaliased, hfront, List.nil_append]

/-- A key is named by its type exactly if there is no white space around the name. -/
theorem names_iff (h : t.Spells key front back) : t.Names key ↔ front = [] ∧ back = [] := by
  constructor
  · rintro ⟨hname, -⟩
    have hlength := congrArg (List.length ∘ String.toList) hname
    simp only [Function.comp_apply, h.unaliased, List.length_append] at hlength
    exact ⟨List.eq_nil_of_length_eq_zero (by omega), List.eq_nil_of_length_eq_zero (by omega)⟩
  · rintro ⟨rfl, rfl⟩
    have hunaliased := h.unaliased
    rw [List.nil_append, List.append_nil] at hunaliased
    refine ⟨String.toList_inj.1 hunaliased, fun aliases => ?_⟩
    cases h.writes with
    | alone _ _ _ _ hrender =>
      refine .inl (String.toList_inj.1 ?_)
      rw [hrender, List.nil_append, List.append_nil]
    | qualified _ _ _ _ hrender =>
      refine .inr (String.toList_inj.1 ?_)
      rw [hrender, List.append_nil]
      simp

theorem isBlank_of_mem_name (h : t.Spells key front back) {c : Char} (hc : c ∈ key.name.toList) :
    Text.isBlank c = false :=
  isBlank_of_mem_identifier h.isName hc

theorem name_ne_nil (h : t.Spells key front back) : key.name.toList ≠ [] := by
  intro hnil
  have hname := h.isName
  rw [hnil] at hname
  cases hname

/-- The text of the type ends in the name and the white space behind it. -/
theorem suffix (h : t.Spells key front back) : key.name.toList ++ back <:+ t.text.toList := by
  cases h.writes with
  | alone _ _ htext _ _ =>
    rw [htext]
    exact List.suffix_append _ _
  | qualified _ _ htext _ _ => exact (List.suffix_cons _ _).trans htext

/-- The text of the type is tight exactly if there is no white space around the name. -/
theorem tight_iff (h : t.Spells key front back) : t.Tight ↔ front = [] ∧ back = [] := by
  obtain ⟨before, htext⟩ := h.suffix
  rw [← List.append_assoc] at htext
  constructor
  · rintro ⟨hlast, hfirst⟩
    constructor
    · cases h.writes with
      | qualified hfront _ _ _ _ => exact hfront
      | alone hpaths _ htext' _ _ =>
        cases front with
        | nil => rfl
        | cons c front =>
          have hblank := h.blankFront c List.mem_cons_self
          rw [hfirst hpaths c (by rw [htext']; rfl)] at hblank
          cases hblank
    · rcases List.eq_nil_or_concat' back with rfl | ⟨others, c, rfl⟩
      · rfl
      · have hblank := h.blankBack c (List.mem_append_right _ List.mem_cons_self)
        rw [hlast c (by rw [← htext, ← List.append_assoc, List.getLast?_concat]; rfl)] at hblank
        cases hblank
  · rintro ⟨rfl, rfl⟩
    refine ⟨fun c hc => h.isBlank_of_mem_name ?_, fun hnone c hc => h.isBlank_of_mem_name ?_⟩
    · rw [← htext, List.append_nil, List.getLast?_append_of_ne_nil _ h.name_ne_nil] at hc
      exact List.mem_of_getLast? hc
    · cases h.writes with
      | alone _ _ htext' _ _ =>
        rw [htext', List.nil_append, List.append_nil] at hc
        exact List.mem_of_head? hc
      | qualified _ hpaths _ _ _ => cases hpaths.symm.trans hnone

theorem names_iff_tight (h : t.Spells key front back) : t.Names key ↔ t.Tight :=
  h.names_iff.trans h.tight_iff.symm

theorem lineBreak_not_mem_name (h : t.Spells key front back) : '\n' ∉ key.name.toList := by
  intro hmem
  have hblank : Text.isBlank '\n' = true := by decide
  rw [h.isBlank_of_mem_name hmem] at hblank
  cases hblank

theorem lineBreak_mem_unaliased (h : t.Spells key front back) :
    '\n' ∈ t.unaliased.toList ↔ '\n' ∈ front ++ back := by
  rw [h.unaliased]
  simp [h.lineBreak_not_mem_name]

end Spells

/-- A text that is a name but for white space around it gives this name. -/
theorem spells_of_text {offset : Nat} {s : String}
    (hread : segmentsFrom offset t.text.toList = .ok t.template.segments)
    (hsegments : t.template.segments = [.text s])
    (hname : Text.isIdentifier (Text.trim s.toList) = true) :
    ∃ front back,
      t.Spells ⟨namedModule t.imports none, String.ofList (Text.trim s.toList)⟩ front back := by
  rw [hsegments] at hread
  obtain ⟨front, back, hs, hfront, hback⟩ := Text.exists_append_trim s.toList
  rw [← String.toList_ofList (l := Text.trim s.toList)] at hname hs
  refine ⟨front, back, hname, hfront, hback, .alone ?_ rfl ?_ ?_ fun aliases => ?_⟩
  · unfold placeholderPaths Template.variableNames
    rw [hsegments]
    rfl
  · rw [← hs]
    exact ((suffix_of_segmentsFrom hread).2 rfl).symm
  · unfold unaliased
    rw [hsegments, String.toList_ofList, ← hs]
    exact List.append_nil _
  · unfold render Template.substitute
    rw [hsegments, ← hs]
    simp

/-- A variable with a point and a name behind it gives this name, in the module of the variable. -/
theorem spells_of_variable {offset i : Nat} {v s : String} {rest : List Char}
    (hread : segmentsFrom offset t.text.toList = .ok t.template.segments)
    (hsegments : t.template.segments = [.var v, .text s]) (hindex : importIndex? v = some i)
    (hend : Text.trimEnd s.toList = '.' :: rest) (hname : Text.isIdentifier rest = true) :
    ∃ back, t.Spells ⟨namedModule t.imports (some i), String.ofList rest⟩ [] back := by
  rw [hsegments] at hread
  obtain ⟨back, hs, hback⟩ := Text.exists_append_trimEnd s.toList
  rw [hend, ← String.toList_ofList (l := rest), List.cons_append] at hs
  rw [← String.toList_ofList (l := rest)] at hname
  have hvariables : t.template.variableNames = [v] := by
    unfold Template.variableNames
    rw [hsegments]
    rfl
  have hbound := t.bound v (by rw [hvariables]; exact List.mem_cons_self)
  unfold isImportBelow at hbound
  rw [hindex, decide_eq_true_iff] at hbound
  have hmodule : namedModule t.imports (some i) = t.imports[i] := by
    simp [namedModule, hbound]
  rw [hmodule]
  refine ⟨back, hname, fun c hc => (List.not_mem_nil hc).elim, hback,
    .qualified rfl ?_ ?_ ?_ fun aliases => ?_⟩
  · unfold placeholderPaths
    rw [hvariables]
    simp [hindex, hbound]
  · rw [← hs]
    rw [← List.singleton_append] at hread
    exact (suffix_of_segmentsFrom hread).1
  · unfold unaliased
    rw [hsegments, String.toList_ofList, textOnly, Text.after?_eq_some.2 hs]
    exact List.append_nil _
  · unfold render Template.substitute
    rw [hsegments]
    simp [hindex, hbound, hs]

/-- A type that is the name of a key is given as this name. -/
theorem spells_of_namedType? {offset : Nat} {index : Option Nat} {name : String}
    (hread : segmentsFrom offset t.text.toList = .ok t.template.segments)
    (h : t.namedType? = some (index, name)) :
    ∃ front back, t.Spells ⟨namedModule t.imports index, name⟩ front back := by
  unfold namedType? at h
  split at h
  · next s hsegments =>
    dsimp only at h
    split at h
    · next hname =>
      cases h
      exact spells_of_text hread hsegments hname
    · cases h
  · next v s hsegments =>
    split at h
    · next i rest hindex hend =>
      split at h
      · next hname =>
        cases h
        exact ⟨[], spells_of_variable hread hsegments hindex hend hname⟩
      · cases h
    · cases h
  · cases h

end TypeTemplate

theorem TypeEntry.spells_of_check {context : String} {entry : TypeEntry} {t : TypeTemplate}
    {key : TypeKey} (h : entry.check context = .ok (t, key)) :
    ∃ front back, t.Spells key front back := by
  obtain ⟨template, htemplate, h⟩ := bind_eq_ok h
  have hread := TypeTemplate.segmentsFrom_of_ofText? (ok_of_inContext htemplate)
  split at h
  · next hnamed =>
    cases h
    exact TypeTemplate.spells_of_namedType? hread hnamed
  · cases h

theorem MappingEntry.spells_of_check {context : String} {entry : MappingEntry} {m : MappingSpec}
    (h : entry.check context = .ok m) :
    (∃ front back, m.source.Spells m.sourceKey front back) ∧
      ∃ front back, m.dest.Spells m.destKey front back := by
  obtain ⟨⟨source, sourceKey⟩, hsource, h⟩ := bind_eq_ok h
  obtain ⟨⟨dest, destKey⟩, hdest, h⟩ := bind_eq_ok h
  obtain ⟨args, -, h⟩ := bind_eq_ok h
  obtain ⟨overrides, -, h⟩ := bind_eq_ok h
  obtain ⟨conversions, -, h⟩ := bind_eq_ok h
  cases h
  exact ⟨TypeEntry.spells_of_check hsource, TypeEntry.spells_of_check hdest⟩

/-! ## White space is accepted -/

/-- A text without placeholders as a type. -/
def bareType (text : String) (imports : List String) : TypeTemplate where
  template := ⟨text, text, [.text text]⟩
  imports := imports
  bound := by
    intro v hv
    cases hv

/-- A name is accepted with any white space around it. -/
theorem TypeEntry.check_bareType {text name : String} {front back : List Char}
    (htext : text.toList = front ++ (name.toList ++ back))
    (hname : Text.isIdentifier name.toList = true) (hfront : ∀ c ∈ front, Text.isBlank c = true)
    (hback : ∀ c ∈ back, Text.isBlank c = true) (imports : List String) (context : String) :
    TypeEntry.check context ⟨text, imports⟩ =
      .ok (bareType text imports, ⟨imports.head?.getD "", name⟩) := by
  have hne : name.toList ≠ [] := by
    intro hnil
    rw [hnil] at hname
    cases hname
  have htrim : Text.trim text.toList = name.toList := by
    rw [htext]
    exact Text.trim_between hfront (fun c hc => isBlank_of_mem_identifier hname hc) hback
  have hbrace : '\x7b' ∉ text.toList := by
    have hblank : Text.isBlank '\x7b' = false := by decide
    have hpart : Text.isWordPart '\x7b' = false := by decide
    rw [htext, List.mem_append, List.mem_append]
    rintro (hmem | hmem | hmem)
    · cases hblank.symm.trans (hfront _ hmem)
    · cases hpart.symm.trans (Go.isWordPart_of_mem hname hmem)
    · cases hblank.symm.trans (hback _ hmem)
  have hsegment : textSegment text.toList = [.text text] := by
    have hsome : text.toList.isEmpty = false := by
      rw [htext]
      simp [hne]
    rw [textSegment, hsome, String.ofList_toList]
    rfl
  have hread : Template.ofText? text text = .ok (bareType text imports).template := by
    rw [Template.ofText?, segmentsFrom_of_unopened (.of_not_mem hbrace), hsegment]
    rfl
  have htemplate : TypeTemplate.ofText? text imports = .ok (bareType text imports) :=
    ofText?_eq_ok imports hread (bareType text imports).bound
  have hnamed : (bareType text imports).namedType? = some (none, name) := by
    unfold TypeTemplate.namedType? bareType
    dsimp only
    rw [htrim, if_pos hname, String.ofList_toList]
  unfold TypeEntry.check
  simp only [htemplate, inContext, bind, Except.bind, hnamed]
  rfl

/-! ## Types in functions -/

/-- A function with the types of a mapping in its comment and its head, made from the fields that
the keys of these types have. -/
structure CopyFunction.Shows (f : CopyFunction) (L : Loader) (m : MappingSpec) (aliases : Aliases) :
    Prop where
  doc : f.doc = "// " ++ m.functionName ++ " copies " ++ m.source.unaliased ++ " → " ++
    m.dest.unaliased
  signature : f.signature = "func " ++ m.functionName ++ "(" ++
    String.intercalate ", " (("src " ++ m.source.render aliases) ::
      m.args.map fun arg => arg.name ++ " " ++ arg.type.render aliases) ++
    ") (dst " ++ m.dest.render aliases ++ (if f.returnsError then ", err error" else "") ++ ")"
  resolved : ∃ sources dests global tag, L.answerFor m.sourceKey = .ok sources ∧
    L.answerFor m.destKey = .ok dests ∧ assemble m sources dests global tag aliases = .ok f

theorem Session.Sound.shows_of_functionFor {L : Loader} {s : Session L} (hs : s.Sound)
    {config : MappingConfig} {global : List ConversionRule} {position : Nat} {m : MappingSpec}
    {f : CopyFunction} (h : (s.functionFor config global position m).1 = .ok f) :
    f.Shows L m (s.functionFor config global position m).2.aliases := by
  obtain ⟨-, haliases, hresult⟩ := hs.functionFor config global position m
  rw [hresult] at h
  rw [haliases]
  generalize s.aliases.registerAll (L.pathsFor m) = aliases at h
  unfold Loader.functionWith at h
  dsimp only at h
  split at h
  · cases h
  next sources dests hboth =>
  split at h
  · cases h
  next f' hassemble =>
  cases h
  obtain ⟨sources', hsources, hboth⟩ := bind_eq_ok hboth
  obtain ⟨dests', hdests, hboth⟩ := bind_eq_ok hboth
  cases hboth
  obtain ⟨parts, hparts, hf⟩ := Go.ok_of_map_eq_ok hassemble
  refine ⟨?_, ?_, sources, dests, global, config.defaultTag, hsources, hdests, hassemble⟩
  · rw [← hf]
  · rw [← hf]
    exact signatureOf_eq_append _ _ _

/-- The comment above a function has a line break exactly if the name of the function or the label
of its mapping has one. -/
theorem CopyFunction.Shows.lineBreak_mem_doc {f : CopyFunction} {L : Loader} {m : MappingSpec}
    {aliases : Aliases} (h : f.Shows L m aliases) :
    '\n' ∈ f.doc.toList ↔ '\n' ∈ m.functionName.toList ∨ '\n' ∈ m.label.toList := by
  rw [h.doc, MappingSpec.label]
  simp

/-- The types of an accepted mapping: each is given as the name of its key with white space around
it.  It names its key exactly if there is none.  A line break in it makes one in the label of the
mapping and in the comment above its function, where only a name of the function that has been
given can make another. -/
theorem MappingDocument.types_spelled_of_check {document : MappingDocument} {config : MappingConfig}
    (h : document.check = .ok config) {m : MappingSpec} (hm : m ∈ config.mappings) :
    ∃ front back front' back',
      m.source.Spells m.sourceKey front back ∧ m.dest.Spells m.destKey front' back' ∧
      (m.source.Names m.sourceKey ↔ m.source.Tight) ∧ (m.dest.Names m.destKey ↔ m.dest.Tight) ∧
      ('\n' ∈ m.label.toList ↔ '\n' ∈ front ++ back ∨ '\n' ∈ front' ++ back') ∧
      (m.funcName = none → '\n' ∉ m.functionName.toList) ∧
      ∀ (L : Loader) (s : Session L), s.Sound → ∀ global position f,
        (s.functionFor config global position m).1 = .ok f →
          f.Shows L m (s.functionFor config global position m).2.aliases ∧
            ('\n' ∈ f.doc.toList ↔ '\n' ∈ m.functionName.toList ∨ '\n' ∈ m.label.toList) := by
  obtain ⟨context, entry, hentry⟩ := exists_entry_of_check h m hm
  obtain ⟨⟨front, back, hsource⟩, front', back', hdest⟩ := MappingEntry.spells_of_check hentry
  refine ⟨front, back, front', back', hsource, hdest, hsource.names_iff_tight,
    hdest.names_iff_tight, ?_, ?_, ?_⟩
  · rw [← hsource.lineBreak_mem_unaliased, ← hdest.lineBreak_mem_unaliased, MappingSpec.label]
    simp
  · intro hnone
    have hsourceName := hsource.lineBreak_not_mem_name
    have hdestName := hdest.lineBreak_not_mem_name
    simp [MappingSpec.functionName, hnone, hsourceName, hdestName]
  · intro L s hs global position f hf
    have hshows := hs.shows_of_functionFor hf
    exact ⟨hshows, hshows.lineBreak_mem_doc⟩

/-- A document with a mapping from `A`, given with a line break behind it, to `A`. -/
def brokenDocument : MappingDocument :=
  ⟨"out", none, none, none, false, [⟨⟨"A\n", []⟩, ⟨"A", []⟩, none, [], [], [], none⟩]⟩

/-- The mapping of the document. -/
def brokenSpec : MappingSpec :=
  ⟨bareType "A\n" [], bareType "A" [], ⟨"", "A"⟩, ⟨"", "A"⟩, none, [], [], [], none⟩

/-- What the document says once it is accepted. -/
def brokenConfig : MappingConfig :=
  ⟨"out", "structmap.gen.go", ".", "json", false, [brokenSpec]⟩

theorem check_brokenDocument : brokenDocument.check = .ok brokenConfig := by
  have hname : Text.isIdentifier "A".toList = true := by decide
  have hbreak : ∀ c ∈ ['\n'], Text.isBlank c = true := List.forall_mem_singleton.2 (by decide)
  have hnone : ∀ c ∈ ([] : List Char), Text.isBlank c = true := List.forall_mem_nil _
  have hsource : ∀ context, TypeEntry.check context ⟨"A\n", []⟩ =
      .ok (bareType "A\n" [], ⟨"", "A"⟩) :=
    TypeEntry.check_bareType (by decide) hname hnone hbreak []
  have hdest : ∀ context, TypeEntry.check context ⟨"A", []⟩ = .ok (bareType "A" [], ⟨"", "A"⟩) :=
    TypeEntry.check_bareType (by decide) hname hnone hnone []
  have hpackage : Text.isBlankString "out" = false := by decide
  have htrimmed : Text.trimmed "out" = "out" := by cbv
  unfold brokenDocument brokenConfig brokenSpec MappingDocument.check
  dsimp only [checkEach, checkFrom]
  rw [if_neg (Bool.eq_false_iff.1 hpackage), htrimmed]
  unfold MappingEntry.check
  dsimp only
  rw [hsource, hdest]
  rfl

/-- The line break is accepted, and it makes one in the label and above the function. -/
theorem MappingDocument.types_spelled_of_check_lineBreak :
    brokenDocument.check = .ok brokenConfig ∧ ¬ brokenSpec.source.Names brokenSpec.sourceKey ∧
      '\n' ∈ brokenSpec.label.toList ∧
      ∃ f, ((Session.fresh (structLoader "" "A")).functionFor brokenConfig [] 0 brokenSpec).1 =
        .ok f ∧ '\n' ∈ f.doc.toList := by
  have hlabel : '\n' ∈ brokenSpec.label.toList := by decide
  obtain ⟨front, back, front', back', -, -, htight, -, -, -, hfunctions⟩ :=
    types_spelled_of_check check_brokenDocument (m := brokenSpec) List.mem_cons_self
  have hloose : ¬ brokenSpec.source.Tight := fun h => by
    have hlast := h.last '\n' (by decide)
    revert hlast
    decide
  have hname : Go.Identifier "A" := ⟨by decide, by decide⟩
  have hanswer := (fields_structLoader "" hname).1
  have hboth : (structLoader "" "A").bothFields brokenSpec = .ok ([], []) := by
    unfold Loader.bothFields brokenSpec
    rw [hanswer]
    rfl
  have hfunction : ∀ a, ∃ f, (structLoader "" "A").functionWith brokenConfig [] 0 brokenSpec a =
      .ok f := by
    intro a
    unfold Loader.functionWith
    rw [hboth]
    exact ⟨_, rfl⟩
  have hsound := Session.sound_fresh (L := structLoader "" "A")
  obtain ⟨f, hf⟩ := hfunction _
  have hresult := (hsound.functionFor brokenConfig [] 0 brokenSpec).2.2.trans hf
  have hdoc := (hfunctions _ _ hsound [] 0 f hresult).2
  exact ⟨check_brokenDocument, fun h => hloose (htight.1 h), hlabel, f, hresult,
    hdoc.2 (.inr hlabel)⟩

end StructCopy
