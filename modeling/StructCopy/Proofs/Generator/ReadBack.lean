/-
  Proofs/Generator/ReadBack: reading a generated file.

  A run that succeeds leaves aliases under which all of its functions could have been
  written, since no ordinary path loses its qualifier later.  So its file is one of
  imports and functions, and reading it depends on nothing but the types of the mappings
  as they are written.  It fails only where the path of a package joins the name of a
  type to a number.
-/
import StructCopy.Proofs.Config.NamedType
import StructCopy.Proofs.Fields.Naming
import StructCopy.Proofs.Generator.FileText
import StructCopy.Proofs.Generator.Numbering
import StructCopy.Proofs.Generator.SingleType

set_option autoImplicit false

namespace StructCopy

open StructCopy.Module (Loader GoModule BuildEnv)
open StructCopy.Files (FileSource)
open Go (pieces)

variable {L : Loader} {config : MappingConfig} {global : List ConversionRule}

/-! ## The aliases that a run leaves -/

theorem assemble_of_functionWith {position : Nat} {m : MappingSpec} {a : Aliases} {f : CopyFunction}
    (h : L.functionWith config global position m a = .ok f) :
    ∃ sources dests, L.bothFields m = .ok (sources, dests) ∧
      assemble m sources dests global config.defaultTag a = .ok f := by
  unfold Loader.functionWith at h
  split at h
  · cases h
  · next sources dests hboth =>
    split at h
    · cases h
    · next hassemble =>
      cases h
      exact ⟨sources, dests, hboth, hassemble⟩

namespace Session

variable {kind : String → Prop}

/-- A run over mappings succeeds if the function for the first one can be made and the run over
the others succeeds. -/
theorem ok_of_functionsFor_cons {s after : Session L} {position : Nat} {m : MappingSpec}
    {rest : List MappingSpec} {fs : List CopyFunction}
    (h : s.functionsFor config global position (m :: rest) = (.ok fs, after)) :
    ∃ f gs, fs = f :: gs ∧ (s.functionFor config global position m).1 = .ok f ∧
      (s.functionFor config global position m).2.functionsFor config global (position + 1) rest =
        (.ok gs, after) := by
  cases hf : (s.functionFor config global position m).1 with
  | error e =>
    rw [functionsFor_cons_error hf] at h
    cases h
  | ok f =>
    rw [functionsFor_cons_ok hf] at h
    dsimp only at h
    obtain ⟨hresult, rfl⟩ := Prod.mk.inj h
    obtain ⟨gs, hgs, rfl⟩ := Go.ok_of_map_eq_ok hresult
    exact ⟨f, gs, rfl, rfl, Prod.ext hgs rfl⟩

/-- In a run that succeeds, every function is the one that its mapping has under the aliases that
the run leaves. -/
theorem Sound.functions_of_ok {s : Session L} (hs : s.Sound) (hdistinct : Aliases.Distinct kind)
    (hglobal : ∀ r ∈ global, r.Accepted) (hkindGlobal : ∀ path ∈ importsOf global, kind path)
    {ms : List MappingSpec} (hms : ∀ m ∈ ms, m.Accepted)
    (hkind : ∀ m ∈ ms, ∀ path ∈ L.pathsFor m, kind path)
    (hknown : ∀ path ∈ importsOf global, s.aliases.Knows path) (hfrom : s.aliases.From kind)
    {position : Nat} {fs : List CopyFunction} {after : Session L}
    (hrun : s.functionsFor config global position ms = (.ok fs, after)) :
    List.Forall₂ (fun m f => ∃ position, L.functionWith config global position m after.aliases =
      .ok f) ms fs := by
  induction ms generalizing s position fs with
  | nil =>
    cases hrun
    exact .nil
  | cons m rest ih =>
    obtain ⟨hkindm, hkindRest⟩ := List.forall_mem_cons.1 hkind
    obtain ⟨hmsm, hmsRest⟩ := List.forall_mem_cons.1 hms
    obtain ⟨f, gs, rfl, hf, hrest⟩ := ok_of_functionsFor_cons hrun
    obtain ⟨hsound, haliases, hresult⟩ := hs.functionFor config global position m
    have hext := Aliases.extends_registerAll s.aliases (L.pathsFor m)
    have hnext := hfrom.registerAll hkindm
    rw [← haliases] at hext hnext
    have hknownNext : ∀ path ∈ importsOf global,
        (s.functionFor config global position m).2.aliases.Knows path :=
      fun path hpath => (hknown path hpath).mono hext
    have hknownm : ∀ path ∈ L.pathsFor m,
        (s.functionFor config global position m).2.aliases.Knows path := by
      intro path hpath
      rw [haliases]
      exact Aliases.knows_registerAll _ hpath
    -- what is registered later changes no qualifier that this mapping renders
    obtain ⟨-, hextAfter, hfromAfter⟩ := @Sound.functionsFor L config global kind _ hsound
      (position + 1) rest hkindRest hnext
    rw [hrest] at hextAfter hfromAfter
    have hfunction : L.functionWith config global position m after.aliases = .ok f := by
      rw [← hf, hresult, ← haliases]
      refine functionWith_eq hmsm hglobal ?_ position
      rintro path (hpath | hpath)
      · exact (hknownNext path hpath).qualifierFor_eq hdistinct (hkindGlobal path hpath) hextAfter
          hfromAfter
      · exact (hknownm path hpath).qualifierFor_eq hdistinct (hkindm path hpath) hextAfter
          hfromAfter
    exact .cons ⟨position, hfunction⟩ (ih hsound hmsRest hkindRest hknownNext hnext hrest)

end Session

/-! ## Functions under the aliases -/

/-- A type of a mapping stands in its function behind a blank. -/
theorem MappingSpec.Bare.infix_of_assemble {m : MappingSpec} (hm : m.Bare)
    {sources dests : List StructField} {defaultTag : String} {a : Aliases} {f : CopyFunction}
    (h : assemble m sources dests [] defaultTag a = .ok f) :
    ∀ t ∈ m.types, ' ' :: (t.render a).toList <:+: f.text.toList := by
  obtain ⟨-, hsignature, -⟩ := hm.of_assemble h
  have hsrc : "(src ".toList = "(src".toList ++ [' '] := rfl
  have hdst : ") (dst ".toList = ") (dst".toList ++ [' '] := rfl
  have htext := f.text_eq
  rw [hsignature, signatureOf_eq_head hm.args, hsrc, hdst] at htext
  generalize " \x7b\n".toList ++ ((indentedBody f.body).toList ++ "\treturn\n\x7d".toList) = rest
    at htext
  rw [htext]
  refine List.forall_mem_cons.2 ⟨?_, List.forall_mem_singleton.2 ?_⟩
  · refine ⟨f.doc.toList ++ ['\n'] ++ ("func ".toList ++ (m.functionName.toList ++
      "(src".toList)), ") (dst".toList ++ ' ' :: ((m.dest.render a).toList ++ (")".toList ++ rest)),
      ?_⟩
    simp only [List.append_assoc, List.cons_append, List.nil_append]
  · refine ⟨f.doc.toList ++ ['\n'] ++ ("func ".toList ++ (m.functionName.toList ++
      ("(src".toList ++ ' ' :: ((m.source.render a).toList ++ ") (dst".toList)))),
      ")".toList ++ rest, ?_⟩
    simp only [List.append_assoc, List.cons_append, List.nil_append]

/-- What stands for the path of a type is set off behind a blank. -/
theorem TypeTemplate.Named.setOff {t : TypeTemplate} (h : t.Named) {path : String}
    (hpath : path ∈ t.placeholderPaths) (a : Aliases) :
    Aliases.SetOff (a.qualifierFor path) (' ' :: (t.render a).toList) := by
  cases h with
  | alone _ _ _ _ hpaths =>
    rw [hpaths] at hpath
    cases hpath
  | qualified _ _ _ hpaths hrender =>
    rw [hpaths, List.mem_singleton] at hpath
    rw [hrender, ← hpath]
    exact ⟨[], _, rfl⟩

/-! ## Reading the text of a file -/

/-- A file whose functions are passed over is read as its package and its imports, if the types of
all mappings can be taken apart. Otherwise it cannot be read. -/
theorem read_fileText {packageName : String} (hpackage : Go.Identifier packageName) {a : Aliases}
    (ha : a.Tidy) {ms : List MappingSpec} {fs : List CopyFunction}
    (h : List.Forall₂ (fun m f => Go.FunctionText f.text.toList (∀ t ∈ m.types, t.Separable a))
      ms fs) (name : String) :
    ((∀ m ∈ ms, ∀ t ∈ m.types, t.Separable a) → ∃ imports,
      imports.map Go.Import.entry = a.importEntries (codeOf fs) ∧
        Go.SourceFile.ofText name (fileText packageName a fs) =
          .ok ⟨name, packageName, imports, []⟩) ∧
      ((¬∀ m ∈ ms, ∀ t ∈ m.types, t.Separable a) → ∃ e,
        Go.SourceFile.ofText name (fileText packageName a fs) = .error e) := by
  have hfunctions : List.Forall₂ Go.FunctionText (fs.map fun f => f.text.toList)
      (ms.map fun m => ∀ t ∈ m.types, t.Separable a) := by
    rw [List.forall₂_map_left_iff, List.forall₂_map_right_iff]
    exact h.flip
  have hclean : (∀ clean ∈ ms.map fun m => ∀ t ∈ m.types, t.Separable a, clean) ↔
      ∀ m ∈ ms, ∀ t ∈ m.types, t.Separable a :=
    List.forall_mem_map
  have hcomment : '\n' ∉ headerComment := by decide
  rw [← hclean]
  exact ⟨fun hall => Go.exists_ofText_functionFile hcomment hpackage (ha.importable _) hfunctions
      hall (toList_fileText packageName a fs) name,
    fun hsome => Go.ofText_functionFile_error hcomment hpackage (ha.importable _) hfunctions hsome
      (toList_fileText packageName a fs) name⟩

/-! ## Simple documents -/

/-- There are neither rules nor arguments, the package and the functions have identifiers for
names, every type has one line, and all import paths are ordinary. -/
structure MappingConfig.Simple (config : MappingConfig) (L : Loader) : Prop where
  package : Go.Identifier config.packageName
  conversions : ∀ m ∈ config.mappings, m.conversions = []
  args : ∀ m ∈ config.mappings, m.args = []
  name : ∀ m ∈ config.mappings, Text.isIdentifier m.functionName.toList = true
  line : ∀ m ∈ config.mappings, ∀ t ∈ m.types, '\n' ∉ t.text.toList
  path : ∀ path ∈ config.usedPaths L [], Aliases.Ordinary path

namespace MappingConfig.Simple

variable {document : MappingDocument}

theorem bare (h : config.Simple L) (hconfig : document.check = .ok config) {m : MappingSpec}
    (hm : m ∈ config.mappings) : m.Bare := by
  have hline : ∀ t ∈ m.types, '\n' ∉ t.unaliased.toList := by
    intro t ht hmem
    have haccepted := MappingDocument.accepted_types_of_check hconfig m hm t ht
    exact h.line m hm t ht (haccepted.mem_of_mem_unaliased hmem)
  exact ⟨h.conversions m hm, h.args m hm, h.name m hm, hline _ List.mem_cons_self,
    hline _ (List.mem_cons_of_mem _ List.mem_cons_self)⟩

theorem repeats (h : config.Simple L) (hconfig : document.check = .ok config) :
    Session.Repeats L config [] :=
  Session.repeats_of_distinct Aliases.distinct_ordinary
    (MappingDocument.accepted_of_check hconfig) (fun _ hr => absurd hr List.not_mem_nil) h.path

end MappingConfig.Simple

namespace Session

/-- A run that succeeds gives the text of a file with its functions. -/
theorem ok_of_generate {s after : Session L} {text : String}
    (h : s.generate config global = (.ok text, after)) :
    ∃ fs, (s.register (importsOf global)).functionsFor config global 0 config.mappings =
      (.ok fs, after) ∧ text = fileText config.packageName after.aliases fs := by
  rw [generate_eq] at h
  obtain ⟨hresult, rfl⟩ := Prod.mk.inj h
  obtain ⟨fs, hfs, rfl⟩ := Go.ok_of_map_eq_ok hresult
  exact ⟨fs, Prod.ext hfs rfl, rfl⟩

/-- Runs that succeed and repeat one another leave the names of the paths that are used. -/
theorem Repeats.aliases_eq (h : Repeats L config global) {n : Nat} {text : String}
    (hrun : ((afterRuns L config global n).generate config global).1 = .ok text) (k : Nat) :
    (afterRuns L config global (k + 1)).aliases =
      Aliases.empty.registerAll (config.usedPaths L global) := by
  have hfirst := (h n).1.symm.trans hrun
  obtain ⟨fs, hfs, -⟩ := ok_of_generate (Prod.ext hfirst rfl)
  have hsound := (sound_fresh (L := L)).register (importsOf global)
  obtain ⟨haliases, -⟩ := hsound.registers_of_ok (congrArg Prod.fst hfs)
  rw [(h k).2]
  unfold MappingConfig.usedPaths
  rw [Aliases.registerAll_append]
  rw [hfs] at haliases
  exact haliases

end Session

/-! ## The functions of simple documents -/

/-- The function of a mapping is passed over as a declaration, and holds the names of the paths that
the types of the mapping refer to. -/
structure IsFunctionOf (a : Aliases) (m : MappingSpec) (f : CopyFunction) : Prop where
  text : Go.FunctionText f.text.toList (∀ t ∈ m.types, t.Separable a)
  setOff : ∀ t ∈ m.types, ∀ path ∈ t.placeholderPaths,
    Aliases.SetOff (a.qualifierFor path) f.text.toList

namespace MappingConfig.Simple

variable {document : MappingDocument}

theorem isFunctionOf (h : config.Simple L) (hL : L.Named) (hconfig : document.check = .ok config)
    {a : Aliases} {m : MappingSpec} (hm : m ∈ config.mappings)
    (ha : ∀ t ∈ m.types, t.Qualified a) {position : Nat} {f : CopyFunction}
    (hf : L.functionWith config [] position m a = .ok f) : IsFunctionOf a m f := by
  have hbare := h.bare hconfig hm
  have haccepted := MappingDocument.accepted_types_of_check hconfig m hm
  obtain ⟨sources, dests, hboth, hassemble⟩ := assemble_of_functionWith hf
  obtain ⟨hsources, hdests⟩ := answers_of_bothFields hboth
  have hplain : ∀ t ∈ m.types, (t.render a).toList.all Go.isPlain = true :=
    fun t ht => (haccepted t ht).named.all_isPlain (h.line m hm t ht) (ha t ht)
  refine ⟨?_, fun t ht path hpath => ?_⟩
  · have htext := hbare.isFunctionText hassemble (Loader.isIdentifier_of_answerFor hL hsources)
      (Loader.isIdentifier_of_answerFor hL hdests) (hplain _ List.mem_cons_self)
      (hplain _ (List.mem_cons_of_mem _ List.mem_cons_self))
    have htypes : (∀ t ∈ m.types, t.Separable a) ↔ m.source.Separable a ∧ m.dest.Separable a := by
      unfold MappingSpec.types
      rw [List.forall_mem_cons, List.forall_mem_singleton]
    rwa [htypes]
  · exact ((haccepted t ht).named.setOff hpath a).mono (hbare.infix_of_assemble hassemble t ht)

/-- Every path that a type refers to has its own qualifier once the paths that are used have been
registered. -/
theorem qualified (h : config.Simple L) {m : MappingSpec} (hm : m ∈ config.mappings)
    {t : TypeTemplate} (ht : t ∈ m.types) :
    t.Qualified (Aliases.empty.registerAll (config.usedPaths L [])) := by
  intro path hpath
  have himports := TypeTemplate.mem_imports_of_placeholderPaths hpath
  have hdeclared : path ∈ m.declaredImports := by
    rcases List.mem_cons.1 ht with rfl | ht
    · exact List.mem_append_left _ (List.mem_append_right _ himports)
    · rw [List.mem_singleton.1 ht] at himports
      exact List.mem_append_right _ himports
  have hused : path ∈ config.usedPaths L [] :=
    List.mem_append_right _ (List.mem_flatMap.2 ⟨m, hm, mem_pathsFor_of_declared hdeclared⟩)
  have hknows := Aliases.knows_registerAll Aliases.empty hused
  exact ⟨h.path path hused, hknows.qualifierOf (h.path path hused)
    ((Aliases.from_empty Aliases.Ordinary).registerAll h.path)⟩

/-- The file of a run is made of the functions of its mappings under the aliases that the run
leaves. -/
theorem exists_functions (h : config.Simple L) (hL : L.Named) (hconfig : document.check = .ok config)
    {n : Nat} {text : String} {after : Session L}
    (hrun : (Session.afterRuns L config [] n).generate config [] = (.ok text, after)) :
    ∃ functions,
      (Session.afterRuns L config [] n).functionsFor config [] 0 config.mappings =
        (.ok functions, after) ∧
      text = fileText config.packageName after.aliases functions ∧
      after.aliases = Aliases.empty.registerAll (config.usedPaths L []) ∧
      List.Forall₂ (IsFunctionOf after.aliases) config.mappings functions := by
  have hregistered := (h.repeats hconfig).aliases_eq (congrArg Prod.fst hrun)
  have hafter : after.aliases = Aliases.empty.registerAll (config.usedPaths L []) := by
    rw [← hregistered n, Session.afterRuns, hrun]
  have hbefore : (Session.afterRuns L config [] n).aliases.From Aliases.Ordinary := by
    cases n with
    | zero => exact Aliases.from_empty _
    | succ n =>
      rw [hregistered n]
      exact (Aliases.from_empty Aliases.Ordinary).registerAll h.path
  have hkind : ∀ m ∈ config.mappings, ∀ path ∈ L.pathsFor m, Aliases.Ordinary path :=
    fun m hm path hpath => h.path path (List.mem_flatMap.2 ⟨m, hm, hpath⟩)
  obtain ⟨functions, hfunctions, htext⟩ := Session.ok_of_generate hrun
  have hwith := (Session.sound_afterRuns L config [] n).functions_of_ok Aliases.distinct_ordinary
    (fun _ hr => absurd hr List.not_mem_nil) (fun _ hpath => absurd hpath List.not_mem_nil)
    (MappingDocument.accepted_of_check hconfig) hkind
    (fun _ hpath => absurd hpath List.not_mem_nil) hbefore hfunctions
  refine ⟨functions, hfunctions, htext, hafter, ?_⟩
  refine ((List.forall₂_and_left _ _).2 ⟨fun m hm => hm, hwith⟩).imp fun m f hboth => ?_
  obtain ⟨hm, position, hf⟩ := hboth
  refine h.isFunctionOf hL hconfig hm (fun t ht => ?_) hf
  rw [hafter]
  exact h.qualified hm ht

end MappingConfig.Simple

variable {path name : String}

theorem simple_copyConfig (hpath : Aliases.Ordinary path) (h : Go.Identifier name) :
    (copyConfig path name).Simple (structLoader path name) := by
  have hname : Text.isIdentifier "F".toList = true := by decide
  have hbreak : '\n' ∉ (typeIn path name).text.toList := by
    have hplaceholder : placeholder 0 ++ "." = "\x7b\x7b .Import0 \x7d\x7d." := by decide
    change '\n' ∉ (placeholder 0 ++ "." ++ name).toList
    rw [hplaceholder]
    exact not_mem_toList_append (by decide) (not_mem_of_isIdentifier h.1 (by decide))
  have hpackage : Go.Identifier "out" := ⟨by decide, by decide⟩
  refine ⟨hpackage, ?_, ?_, ?_, ?_, ?_⟩
  · exact List.forall_mem_singleton.2 rfl
  · exact List.forall_mem_singleton.2 rfl
  · exact List.forall_mem_singleton.2 hname
  · refine List.forall_mem_singleton.2 (List.forall_mem_cons.2 ⟨hbreak, ?_⟩)
    exact List.forall_mem_singleton.2 hbreak
  · intro p hp
    unfold MappingConfig.usedPaths copyConfig at hp
    rw [List.flatMap_singleton, pathsFor_copySpec path h] at hp
    have hp : p = path := by simpa [importsOf] using hp
    rw [hp]
    exact hpath

/-! ## Reading a generated file -/

/-- Let a run over a simple document succeed. Its file can be read exactly if the types of all
mappings, as they are written, can be taken apart into tokens. So it is where every path that keeps
its own name has letters in front of its words or only decimal numerals. What is read has the package
of the document, no types, and as its imports the paths that the functions refer to, in the order of
their registration, those without a name first. The paths with a slash that the types of the mappings
refer to are among them. -/
theorem generated_file_read {module : GoModule} {source : FileSource} {env : BuildEnv}
    {document : MappingDocument} {config : MappingConfig} (hconfig : document.check = .ok config)
    (hsimple : config.Simple (module.loader source env)) {n : Nat} {text : String}
    {after : Session (module.loader source env)}
    (hrun : (Session.afterRuns (module.loader source env) config [] n).generate config [] =
      (.ok text, after)) (name : String) :
    ∃ functions,
      (Session.afterRuns (module.loader source env) config [] n).functionsFor config [] 0
        config.mappings = (.ok functions, after) ∧
      let entries := after.aliases.importEntries (codeOf functions)
      ((∃ file, Go.SourceFile.ofText name text = .ok file) ↔
        ∀ m ∈ config.mappings, ∀ t ∈ m.types, t.Separable after.aliases) ∧
      ((∀ m ∈ config.mappings, ∀ t ∈ m.types, ∀ path ∈ t.placeholderPaths,
          Aliases.isNumbered path = false → t.Apart path) →
        ∃ file, Go.SourceFile.ofText name text = .ok file) ∧
      (∀ file, Go.SourceFile.ofText name text = .ok file →
        file.package = config.packageName ∧ file.types = [] ∧
          file.imports.map Go.Import.entry = entries) ∧
      ∀ m ∈ config.mappings, ∀ t ∈ m.types, ∀ path ∈ t.placeholderPaths,
        Aliases.isNumbered path = true → ∃ position,
          (Aliases.aliasAt position, path) ∈ after.aliases.bindings ∧
            (some (Aliases.aliasAt position), path) ∈ entries := by
  obtain ⟨functions, hfunctions, rfl, hafter, htexts⟩ :=
    hsimple.exists_functions (module.named_loader source env) hconfig hrun
  have hqualified : ∀ m ∈ config.mappings, ∀ t ∈ m.types, t.Qualified after.aliases := by
    intro m hm t ht
    rw [hafter]
    exact hsimple.qualified hm ht
  have htidy : after.aliases.Tidy := by
    rw [hafter]
    exact Aliases.tidy_empty.registerAll hsimple.path
  obtain ⟨hread, hfault⟩ := read_fileText hsimple.package htidy
    (htexts.imp fun _ _ h => h.text) name
  have hiff : (∃ file, Go.SourceFile.ofText name (fileText config.packageName after.aliases
      functions) = .ok file) ↔ ∀ m ∈ config.mappings, ∀ t ∈ m.types, t.Separable after.aliases := by
    constructor
    · rintro ⟨file, hfile⟩
      by_contra hsome
      obtain ⟨e, he⟩ := hfault hsome
      cases he.symm.trans hfile
    · intro hall
      obtain ⟨imports, -, hfile⟩ := hread hall
      exact ⟨_, hfile⟩
  refine ⟨functions, hfunctions, hiff, fun hapart => ?_, fun file hfile => ?_, ?_⟩
  · refine hiff.2 fun m hm t ht => ?_
    have haccepted := MappingDocument.accepted_types_of_check hconfig m hm t ht
    exact haccepted.named.separable (hsimple.line m hm t ht) (hqualified m hm t ht)
      (hapart m hm t ht)
  · obtain ⟨imports, himports, hfile'⟩ := hread (hiff.1 ⟨file, hfile⟩)
    cases hfile.symm.trans hfile'
    exact ⟨rfl, rfl, himports⟩
  · intro m hm t ht path hpath hslash
    obtain ⟨f, hf, hfunction⟩ := exists_of_mem_right htexts.flip hm
    have hqualifier := (hqualified m hm t ht path hpath).2
    have hset := hfunction.setOff t ht path hpath
    generalize after.aliases.qualifierFor path = q at hqualifier hset
    cases hqualifier with
    | itself hnone => cases hnone.symm.trans hslash
    | @name position _ hbound =>
      refine ⟨position, hbound, Aliases.mem_importEntries hbound (hset.mono ?_)⟩
      exact infix_intercalate "\n\n" (List.mem_map_of_mem hf)

/-- The file for the type `A` of the path `a/b` is read, and the path is imported under its
name. -/
theorem generated_file_read_numbered :
    (copyDocument "a/b" "A").check = .ok (copyConfig "a/b" "A") ∧
      (copyConfig "a/b" "A").Simple (structLoader "a/b" "A") ∧
      ∃ text after, (Session.afterRuns (structLoader "a/b" "A") (copyConfig "a/b" "A") [] 0).generate
          (copyConfig "a/b" "A") [] = (.ok text, after) ∧
        ∃ file, Go.SourceFile.ofText "out.go" text = .ok file ∧ file.package = "out" ∧
          file.types = [] ∧ ∃ position, (Aliases.aliasAt position, "a/b") ∈ after.aliases.bindings ∧
            (some (Aliases.aliasAt position), "a/b") ∈ file.imports.map Go.Import.entry := by
  have hname : Go.Identifier "A" := ⟨by decide, by decide⟩
  have hpath : Aliases.Ordinary "a/b" := by
    have hall : "a/b".toList.all Aliases.isPathChar = true := by decide
    exact List.all_eq_true.1 hall
  have hcheck : (copyDocument "a/b" "A").check = .ok (copyConfig "a/b" "A") :=
    check_copyDocument hname.1 (by cbv)
  have hsimple := simple_copyConfig hpath hname
  have hslash : Aliases.isNumbered "a/b" = true := by decide
  have hapart : ∀ m ∈ (copyConfig "a/b" "A").mappings, ∀ t ∈ m.types,
      ∀ path ∈ t.placeholderPaths, Aliases.isNumbered path = false → t.Apart path := by
    intro m hm t ht path hmem hplain
    rw [types_copyConfig hm ht, placeholderPaths_typeIn, List.mem_singleton] at hmem
    rw [hmem, hslash] at hplain
    cases hplain
  obtain ⟨text, after, hrun⟩ := exists_generate_copyConfig "a/b" hname
  obtain ⟨functions, -, -, hread, hfile, himported⟩ :=
    generated_file_read hcheck hsimple (n := 0) hrun "out.go"
  obtain ⟨file, htext⟩ := hread hapart
  obtain ⟨hpackage, htypes, hentries⟩ := hfile file htext
  obtain ⟨position, hbound, hentry⟩ := himported (copySpec "a/b" "A") List.mem_cons_self
    (typeIn "a/b" "A") List.mem_cons_self "a/b"
    (by rw [placeholderPaths_typeIn]; exact List.mem_cons_self) hslash
  rw [← hentries] at hentry
  exact ⟨hcheck, hsimple, text, after, hrun, file, htext, hpackage, htypes, position, hbound, hentry⟩

/-- The path `1` joins the name of a type to a number, which ends before the Arabic digit in that
name. -/
theorem not_separable_typeIn (a : Aliases) : ¬(typeIn "1" "a\u0663").Separable a := by
  have hqualifier : a.qualifierFor "1" = "1" := rfl
  have hnumber : Go.step '1' ['.', 'a', '\u0663'] = .ok (.token (.number "1.a") 0, ['\u0663']) := rfl
  have hstray : Go.Stray '\u0663' :=
    ⟨by decide +kernel, by decide +kernel, by decide +kernel, by decide +kernel⟩
  intro h
  unfold TypeTemplate.Separable at h
  rw [render_typeIn, hqualifier] at h
  change (pieces ['1', '.', 'a', '\u0663']).2 = none at h
  rw [Go.pieces_of_step hnumber, pieces] at h
  split at h
  · cases h
  · next hstep =>
    rw [hstray.step_eq (by decide +kernel)] at hstep
    cases hstep

/-- The file for the type `a\u0663` of the path `1` cannot be read. -/
theorem generated_file_not_read :
    (copyDocument "1" "a\u0663").check = .ok (copyConfig "1" "a\u0663") ∧
      (copyConfig "1" "a\u0663").Simple (structLoader "1" "a\u0663") ∧
      ∃ text after, (Session.fresh (structLoader "1" "a\u0663")).generate
          (copyConfig "1" "a\u0663") [] = (.ok text, after) ∧
        ∃ e, Go.SourceFile.ofText "out.go" text = .error e := by
  have hname : Go.Identifier "a\u0663" := ⟨by decide +kernel, by decide⟩
  have hpath : Aliases.Ordinary "1" := by
    have hall : "1".toList.all Aliases.isPathChar = true := by decide
    exact List.all_eq_true.1 hall
  have hcheck : (copyDocument "1" "a\u0663").check = .ok (copyConfig "1" "a\u0663") :=
    check_copyDocument hname.1 (by cbv)
  have hsimple := simple_copyConfig hpath hname
  obtain ⟨text, after, hrun⟩ := exists_generate_copyConfig "1" hname
  refine ⟨hcheck, hsimple, text, after, hrun, ?_⟩
  obtain ⟨functions, -, rfl, hafter, htexts⟩ := hsimple.exists_functions
    ((structModule "1").named_loader (structFiles "a\u0663") structEnv) hcheck (n := 0) hrun
  have htidy : after.aliases.Tidy := by
    rw [hafter]
    exact Aliases.tidy_empty.registerAll hsimple.path
  refine (read_fileText hsimple.package htidy (htexts.imp fun _ _ h => h.text) "out.go").2 ?_
  intro hall
  exact not_separable_typeIn _ (hall _ List.mem_cons_self _ List.mem_cons_self)

end StructCopy
