/-
  Proofs/Generator/Confusion: what goes wrong if import paths are confused.

  Two mappings suffice.  The first one renders a path that is looked up under a name
  which only the second one registers, so the first run leaves out a qualifier that
  every later run writes.
-/
import Mathlib
import StructCopy.Proofs.Generator.Repetition
import StructCopy.Proofs.Template.Placeholder

set_option autoImplicit false

namespace StructCopy

open StructCopy.Module (Loader Package PackageCache)

/-! ## A configuration for two paths -/

/-- The file that every package of `bareLoader` consists of: it declares the struct type `A`
without members. -/
def bareFile : Go.SourceFile :=
  ⟨"x.go", "app", [], [⟨1, "A", [], false, .struct []⟩]⟩

/-- A loader that has a package for every path. -/
def bareLoader : Loader where
  load path := .ok ⟨path, "app", ⟨"/m"⟩, [bareFile]⟩
  finite := ⟨[bareFile], fun _ _ h _ hfile => by cases h; exact hfile⟩

/-- A mapping of a type to itself. -/
def selfMapping (type path : String) : MappingEntry :=
  ⟨⟨type, [path]⟩, ⟨type, [path]⟩, none, [], [], [], none⟩

/-- A document with two mappings. The first one renders its path, the second one only registers
its path. -/
def twoMappings (path other : String) : MappingDocument :=
  ⟨"app", none, none, none, false,
    [selfMapping (placeholder 0 ++ ".A") path, selfMapping "A" other]⟩

/-- The type `A` of a path. -/
def qualifiedA (path : String) : TypeTemplate where
  template := ⟨placeholder 0 ++ ".A", placeholder 0 ++ ".A", [.var "Import0", .text ".A"]⟩
  imports := [path]
  bound := by
    intro v hv
    have hv : v = "Import0" := by simpa [Template.variableNames] using hv
    rw [hv]
    cbv

/-- The type `A`, with an import that it does not use. -/
def plainA (path : String) : TypeTemplate where
  template := ⟨"A", "A", [.text "A"]⟩
  imports := [path]
  bound := by simp [Template.variableNames]

/-- The mapping of a type with the given template to itself. -/
def selfSpec (type : TypeTemplate) (path : String) : MappingSpec :=
  ⟨type, type, ⟨path, "A"⟩, ⟨path, "A"⟩, none, [], [], [], none⟩

/-- What `twoMappings` says once it is accepted. -/
def twoSpecs (path other : String) : MappingConfig :=
  ⟨"app", "structmap.gen.go", ".", "json", false,
    [selfSpec (qualifiedA path) path, selfSpec (plainA other) other]⟩

theorem check_selfMapping {type path : String} {template : TypeTemplate} {index : Option Nat}
    (h : TypeTemplate.ofText? type [path] = .ok template)
    (hnamed : template.namedType? = some (index, "A"))
    (hmodule : namedModule template.imports index = path) (context : String) :
    (selfMapping type path).check context = .ok (selfSpec template path) := by
  have hentry : ∀ context, TypeEntry.check context ⟨type, [path]⟩ =
      .ok (template, ⟨path, "A"⟩) := by
    intro context
    unfold TypeEntry.check
    rw [h]
    simp only [inContext, bind, Except.bind, hnamed, hmodule]
    rfl
  unfold MappingEntry.check selfMapping
  rw [hentry, hentry]
  rfl

theorem check_twoMappings (path other : String) :
    (twoMappings path other).check = .ok (twoSpecs path other) := by
  have hqualified : TypeTemplate.ofText? (placeholder 0 ++ ".A") [path] = .ok (qualifiedA path) :=
    ofText?_eq_ok [path] (by cbv) (qualifiedA path).bound
  have hplain : TypeTemplate.ofText? "A" [other] = .ok (plainA other) :=
    ofText?_eq_ok [other] (by cbv) (plainA other).bound
  have hqualifiedName : (qualifiedA path).namedType? = some (some 0, "A") := by cbv
  have hplainName : (plainA other).namedType? = some (none, "A") := by cbv
  have hfirst := check_selfMapping hqualified hqualifiedName (by cbv)
  have hsecond := check_selfMapping hplain hplainName (by cbv)
  have hname : Text.isBlankString "app" = false := by decide
  have htrimmed : Text.trimmed "app" = "app" := by cbv
  have hmappings : checkEach "mappings" MappingEntry.check (twoMappings path other).mappings =
      .ok [selfSpec (qualifiedA path) path, selfSpec (plainA other) other] := by
    unfold twoMappings checkEach checkFrom checkFrom checkFrom
    rw [hfirst, hsecond]
    rfl
  unfold MappingDocument.check
  rw [hmappings]
  unfold twoMappings twoSpecs
  dsimp only
  rw [if_neg (Bool.eq_false_iff.1 hname), htrimmed]
  rfl

/-! ## Its runs -/

theorem bareLoader_load (path : String) :
    bareLoader.load path = .ok ⟨path, "app", ⟨"/m"⟩, [bareFile]⟩ :=
  rfl

/-- The search for a type without members finds no fields, and discovers the module of the type. -/
theorem expandKey_bareLoader (path : String) :
    bareLoader.answerFor ⟨path, "A"⟩ = .ok [] ∧ bareLoader.foundFor ⟨path, "A"⟩ = [path] := by
  have hkey : path ∈ bareLoader.modules path := List.mem_cons_self
  have hway : (⟨path, "A"⟩ : TypeKey) ∉ ([] : List TypeKey) := List.not_mem_nil
  have hsteady := fun p : { p // bareLoader.load path = .ok p } =>
    steady_expandIn path [] ⟨path, "A"⟩ hkey hway p.val p.property
  have hin : ∀ h, expandIn path [] ⟨path, "A"⟩ hkey ⟨path, "app", ⟨"/m"⟩, [bareFile]⟩ h =
      (Pure.pure [] : Explore bareLoader (List StructField)) := by
    intro h
    unfold expandIn
    split
    · next hfind => cases hfind
    · next file decl hfind =>
      cases hfind
      exact expandMembers.eq_1 ..
  have hpackage := Explore.answer_package_ok (bareLoader_load path)
  unfold Loader.answerFor Loader.foundFor expand
  rw [expandKey_of_not_mem hkey hway]
  constructor
  · rw [Explore.answer_bind_ok (.discover _) (.bind (.package _) hsteady) rfl,
      Explore.answer_bind_ok (.package _) (hsteady _) hpackage]
    dsimp only
    rw [hin]
    rfl
  · rw [Explore.found_bind_ok (.discover _) (.bind (.package _) hsteady) rfl,
      Explore.found_bind_ok (.package _) (hsteady _) hpackage]
    dsimp only
    rw [hin, Explore.found_package_ok (bareLoader_load path)]
    rfl

theorem bothFields_selfSpec (type : TypeTemplate) (path : String) :
    bareLoader.bothFields (selfSpec type path) = .ok ([], []) := by
  unfold Loader.bothFields selfSpec
  rw [(expandKey_bareLoader path).1]
  rfl

theorem pathsFor_selfSpec {type : TypeTemplate} {path : String} (h : type.imports = [path]) :
    bareLoader.pathsFor (selfSpec type path) = [path, path, path, path] := by
  unfold Loader.pathsFor selfSpec MappingSpec.declaredImports
  dsimp only
  rw [(expandKey_bareLoader path).1, (expandKey_bareLoader path).2, h]
  rfl

/-- A function that maps a type to itself. -/
def selfFunction (type : String) : CopyFunction :=
  ⟨"MapAToA", "// MapAToA copies A → A",
    "func MapAToA(src " ++ type ++ ") (dst " ++ type ++ ")", "", false⟩

theorem functionWith_selfSpec {config : MappingConfig} {position : Nat} {type : TypeTemplate}
    (path : String) (aliases : Aliases) (h : type.unaliased = "A") :
    bareLoader.functionWith config [] position (selfSpec type path) aliases =
      .ok (selfFunction (type.render aliases)) := by
  unfold Loader.functionWith
  rw [bothFields_selfSpec]
  dsimp only
  have hsignature : signatureOf (selfSpec type path) aliases false =
      "func MapAToA(src " ++ type.render aliases ++ ") (dst " ++ type.render aliases ++ ")" := by
    unfold signatureOf selfSpec
    simp only [List.map_nil, String.intercalate_singleton, Bool.false_eq_true, if_false,
      String.append_empty]
    simp only [MappingSpec.functionName, Option.getD_none, String.append_assoc]
    rfl
  have hassemble : assemble (selfSpec type path) [] [] [] config.defaultTag aliases =
      .ok (selfFunction (type.render aliases)) := by
    unfold assemble assignments selfFunction
    dsimp only [Except.map, List.any_nil]
    rw [hsignature]
    unfold selfSpec
    dsimp only
    rw [h]
    rfl
  rw [hassemble]

/-- What a sound session generates for the two mappings. -/
theorem generate_twoSpecs {s : Session bareLoader} (hs : s.Sound) (path other : String) :
    let first := s.aliases.registerAll [path, path, path, path]
    let second := first.registerAll [other, other, other, other]
    (s.generate (twoSpecs path other) []).1 = .ok (fileText "app" second
        [selfFunction ((qualifiedA path).render first), selfFunction "A"]) ∧
      (s.generate (twoSpecs path other) []).2.aliases = second ∧
      (s.generate (twoSpecs path other) []).2.Sound := by
  intro first second
  obtain ⟨hsound, haliases, hresult⟩ := (hs.register (importsOf [])).functionFor
    (twoSpecs path other) [] 0 (selfSpec (qualifiedA path) path)
  rw [pathsFor_selfSpec rfl] at haliases hresult
  rw [functionWith_selfSpec path _ (by cbv)] at hresult
  obtain ⟨hsound', haliases', hresult'⟩ := hsound.functionFor
    (twoSpecs path other) [] 1 (selfSpec (plainA other) other)
  rw [pathsFor_selfSpec rfl, haliases] at haliases' hresult'
  rw [functionWith_selfSpec other _ (by cbv)] at hresult'
  have hrender : (plainA other).render second = "A" := by
    unfold TypeTemplate.render plainA
    rfl
  have hfirst : s.aliases.registerAll [path, path, path, path] = first := rfl
  have hregister : (s.register (importsOf [])).aliases = s.aliases := rfl
  rw [hregister, hfirst] at haliases hresult haliases' hresult'
  have hsecond : first.registerAll [other, other, other, other] = second := rfl
  rw [hsecond] at haliases' hresult'
  rw [hrender] at hresult'
  have hrun := Session.functionsFor_cons_ok hresult [selfSpec (plainA other) other]
  rw [Session.functionsFor_cons_ok hresult' []] at hrun
  rw [Session.generate_eq]
  have hmappings : (twoSpecs path other).mappings =
      [selfSpec (qualifiedA path) path, selfSpec (plainA other) other] := rfl
  rw [hmappings, hrun]
  exact ⟨by rw [← haliases']; rfl, haliases', hsound'⟩

/-! ## The first run and the second one -/

/-- Registering paths that are stripped to the same numbered path adds that path. -/
theorem registerAll_replicate {a : Aliases} {path : String}
    (hslash : Aliases.isNumbered (Aliases.normal path) = true)
    (hnew : Aliases.normal path ∉ a.numbered) :
    a.registerAll [path, path, path, path] =
      ⟨a.numbered ++ [Aliases.normal path], a.plain⟩ := by
  have hempty : (Aliases.normal path).isEmpty = false := by
    cases h : (Aliases.normal path).isEmpty with
    | false => rfl
    | true =>
      rw [String.isEmpty_iff.1 h, Aliases.not_isNumbered_empty] at hslash
      cases hslash
  rw [Aliases.registerAll_cons]
  have hput : a.put (Aliases.normal path) =
      ⟨a.numbered ++ [Aliases.normal path], a.plain⟩ := by
    unfold Aliases.put Aliases.addOnce
    rw [hempty, if_neg Bool.false_ne_true, if_pos hslash, if_neg (by simpa using hnew)]
  rw [hput]
  refine Aliases.registerAll_eq_of_knows fun p hp => ?_
  have hp : p = path := by simpa using hp
  subst hp
  exact .numbered hslash (List.mem_append_right _ (List.mem_singleton.2 rfl))

/-- The type `A` of a numbered path, as rendered. -/
theorem render_qualifiedA (path : String) (aliases : Aliases) :
    (qualifiedA path).render aliases = aliases.qualifierFor path ++ ".A" := by
  have hindex : importIndex? "Import0" = some 0 := by cbv
  unfold TypeTemplate.render Template.substitute qualifiedA
  generalize aliases.qualifierFor = qualifier
  simp [hindex]

/-- The code of two functions, the second one for the type `A`. -/
def twoTexts (type : String) : String :=
  (selfFunction type).text ++ "\n\n" ++ (selfFunction "A").text

theorem fileText_twoTexts {aliases : Aliases} {type block : String}
    (hblock : aliases.render (twoTexts type) = block) :
    fileText "app" aliases [selfFunction type, selfFunction "A"] =
      generatedHeader ++ "\npackage " ++ "app" ++ "\n\n" ++
        ((if block.isEmpty then "" else block ++ "\n") ++ (twoTexts type ++ "\n")) := by
  have hcode : String.intercalate "\n\n"
      ([selfFunction type, selfFunction "A"].map CopyFunction.text) = twoTexts type := by
    simp [twoTexts]
  have hnonempty : (twoTexts type).isEmpty = false := by
    simp [twoTexts, CopyFunction.text]
  unfold fileText
  rw [hcode]
  dsimp only
  rw [hblock, hnonempty, if_neg Bool.false_ne_true]
  exact String.append_assoc

theorem importLines_two (p q code : String) :
    Aliases.importLines ⟨[p, q], []⟩ code =
      (if Aliases.references code "ref1" then ["\tref1 \"" ++ p ++ "\""] else []) ++
        (if Aliases.references code "ref2" then ["\tref2 \"" ++ q ++ "\""] else []) := by
  have halias : Aliases.aliasAt 0 = "ref1" ∧ Aliases.aliasAt 1 = "ref2" := by decide
  simp only [Aliases.importLines, Aliases.bindings, List.zipIdx_cons, List.zipIdx_nil,
    List.map_cons, List.map_nil, List.filter_nil, List.nil_append, halias.1, halias.2,
    Nat.zero_add, List.filter_cons]
  split <;> split <;> simp

/-- The texts of the two runs differ, whatever the paths are: behind the head of the file, one goes
on with a comment and the other one with imports. -/
theorem fileText_ne (p q : String) :
    fileText "app" ⟨[p, q], []⟩ [selfFunction ".A", selfFunction "A"] ≠
      fileText "app" ⟨[p, q], []⟩ [selfFunction "ref2.A", selfFunction "A"] := by
  have hfirst : Aliases.render ⟨[p, q], []⟩ (twoTexts ".A") = "" := by
    have hone : Aliases.references (twoTexts ".A") "ref1" = false := by decide +kernel
    have htwo : Aliases.references (twoTexts ".A") "ref2" = false := by decide +kernel
    unfold Aliases.render
    rw [importLines_two, hone, htwo]
    rfl
  have hsecond : Aliases.render ⟨[p, q], []⟩ (twoTexts "ref2.A") =
      "import (\n" ++ ("\tref2 \"" ++ q ++ "\"" ++ "\n)\n") := by
    have hone : Aliases.references (twoTexts "ref2.A") "ref1" = false := by decide +kernel
    have htwo : Aliases.references (twoTexts "ref2.A") "ref2" = true := by decide +kernel
    unfold Aliases.render
    rw [importLines_two, hone, htwo]
    simp [String.append_assoc]
  have hcomment : (twoTexts ".A" ++ "\n").toList.head? = some '/' := by decide +kernel
  rw [fileText_twoTexts hfirst, fileText_twoTexts hsecond]
  intro heq
  have hrest := congrArg (List.head? ∘ String.toList) ((String.append_right_inj _).1 heq)
  simp only [Function.comp_apply] at hrest
  rw [if_pos (by decide), String.empty_append, hcomment] at hrest
  rw [if_neg (by simp), String.append_assoc, String.append_assoc] at hrest
  rw [String.toList_append] at hrest
  cases hrest

/-! ## Confused paths -/

/-- The two mappings do not repeat themselves if their paths are confused. -/
theorem not_repeats_twoSpecs {path other : String} (h : Aliases.Confused path other) :
    ¬ Session.Repeats bareLoader (twoSpecs path other) [] := by
  obtain ⟨hslash, hstrip, hother⟩ := h
  have hslash' : Aliases.isNumbered (Aliases.normal other) = true := by
    rw [← hother]
    exact Aliases.isNumbered_normal hslash
  let one : Aliases := ⟨[Aliases.normal path], []⟩
  let both : Aliases := ⟨[Aliases.normal path, Aliases.normal other], []⟩
  have hne : Aliases.normal other ∉ one.numbered := by
    rw [← hother]
    simpa [one] using hstrip
  have hone : Aliases.empty.registerAll [path, path, path, path] = one :=
    registerAll_replicate hslash List.not_mem_nil
  have htwo : one.registerAll [other, other, other, other] = both :=
    registerAll_replicate hslash' hne
  -- both paths are known after the first run
  have hknown : ∀ p, p = path ∨ p = other → both.Knows p := by
    rintro p (rfl | rfl)
    · exact .numbered hslash (by simp [both])
    · exact .numbered hslash' (by simp [both])
  have hagain : ∀ p, p = path ∨ p = other → both.registerAll [p, p, p, p] = both := by
    intro p hp
    refine Aliases.registerAll_eq_of_knows fun p' hp' => ?_
    have hp' : p' = p := by simpa using hp'
    rw [hp']
    exact hknown p hp
  -- the first path is looked up as what is registered for the second one
  have hlookUp : ∀ a : Aliases,
      (qualifiedA path).render a = a.lookUp (Aliases.normal other) ++ ".A" := by
    intro a
    rw [render_qualifiedA, Aliases.qualifierFor_eq_lookUp, if_neg (by simp [hslash]), hother]
  have hfirstRender : (qualifiedA path).render one = ".A" := by
    rw [hlookUp]
    unfold Aliases.lookUp
    rw [List.idxOf?_eq_none_iff.2 hne]
    rfl
  have hsecondRender : (qualifiedA path).render both = "ref2.A" := by
    have hposition : both.numbered.idxOf? (Aliases.normal other) = some 1 := by
      rw [hother] at hstrip
      simp [both, List.idxOf?, List.findIdx?_cons, Ne.symm hstrip]
    rw [hlookUp]
    unfold Aliases.lookUp
    rw [hposition]
    decide
  intro hrepeats
  obtain ⟨hfirst, haliases, hsound⟩ :=
    generate_twoSpecs (Session.sound_fresh (L := bareLoader)) path other
  obtain ⟨hsecond, -, -⟩ := generate_twoSpecs hsound path other
  have hfresh : (Session.fresh bareLoader).aliases = Aliases.empty := rfl
  rw [haliases, hfresh, hone, htwo, hagain path (.inl rfl), hagain other (.inr rfl),
    hsecondRender] at hsecond
  rw [hfresh, hone, htwo, hfirstRender] at hfirst
  have hsame := (hrepeats 1).1
  unfold Session.afterRuns Session.afterRuns at hsame
  rw [hfirst, hsecond] at hsame
  exact fileText_ne _ _ (Except.ok.inj hsame).symm

/-- Running again changes nothing for all configurations over some import paths, exactly if none
of these paths is confused with another one. -/
theorem generate_repeats_iff (paths : String → Prop) :
    Aliases.Distinct paths ↔
      ∀ (L : Loader) (document : MappingDocument) (config : MappingConfig)
        (entries : List ConversionEntry) (global : List ConversionRule),
        document.check = .ok config →
        checkEach "conversions" ConversionEntry.check entries = .ok global →
        (∀ path ∈ config.usedPaths L global, paths path) →
        Session.Repeats L config global := by
  constructor
  · intro hdistinct L document config entries global hconfig hglobal hpaths
    exact Session.repeats_of_distinct hdistinct (MappingDocument.accepted_of_check hconfig)
      (accepted_of_checkEach hglobal) hpaths
  · intro hrepeats path other hpath hother hconfused
    refine not_repeats_twoSpecs hconfused ?_
    refine hrepeats bareLoader _ _ [] [] (check_twoMappings path other) rfl ?_
    unfold MappingConfig.usedPaths twoSpecs
    rw [List.flatMap_cons, List.flatMap_cons, pathsFor_selfSpec rfl, pathsFor_selfSpec rfl]
    intro p hp
    have hp : p = path ∨ p = other := by simpa [importsOf, or_assoc] using hp
    rcases hp with rfl | rfl
    · exact hpath
    · exact hother

end StructCopy
