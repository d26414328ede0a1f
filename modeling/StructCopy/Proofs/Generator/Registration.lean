/-
  Proofs/Generator/Registration: what is rendered has been registered.

  A run assembles one function after another, each under the aliases that it has
  reached by then.  Every import path that an assembly may render has been registered
  before, by the mapping itself, by the global rules or by the search for its fields,
  whether that search took place in this run or an earlier one stored its fields.  A
  registered path has a qualifier, unless stripping it twice gives another path than
  stripping it once and that other path has no name.
-/
import Mathlib
import StructCopy.Proofs.Generator.Confusion

set_option autoImplicit false

namespace StructCopy

open StructCopy.Module (Loader)

/-! ## Qualifiers of registered paths -/

namespace Aliases

theorem lookUp_eq_empty {a : Aliases} {path : String} : a.lookUp path = "" ↔ path ∉ a.numbered := by
  have hname : ∀ position, aliasAt position ≠ "" := by
    intro position
    simp [aliasAt]
  unfold lookUp
  cases hposition : a.numbered.idxOf? path with
  | none => simpa using hposition
  | some position =>
    have hmem : path ∈ a.numbered := by
      rw [← List.isSome_idxOf?, hposition]
      rfl
    simp [hname, hmem]

/-- A path has no qualifier exactly if it has a slash and no name is registered for what is left of
it after stripping it twice. -/
theorem qualifierFor_eq_empty {a : Aliases} {path : String} (h : normal path ≠ "") :
    a.qualifierFor path = "" ↔
      isNumbered (normal path) = true ∧ normal (normal path) ∉ a.numbered := by
  have hempty : (normal path).isEmpty = false := by simpa using h
  rw [qualifierFor_eq_lookUp, hempty]
  cases hnumbered : isNumbered (normal path) with
  | true => simpa using lookUp_eq_empty
  | false => simpa using h

/-- A registered path that stripping leaves alone has a qualifier. -/
theorem Knows.qualifierFor_ne_empty {a : Aliases} {path : String} (h : a.Knows path)
    (hne : normal path ≠ "") (hstrip : normal (normal path) = normal path) :
    a.qualifierFor path ≠ "" := by
  rw [Ne, qualifierFor_eq_empty hne, hstrip]
  rintro ⟨hnumbered, hmissing⟩
  cases h with
  | empty h => exact hne (String.isEmpty_iff.1 h)
  | numbered _ hmem => exact hmissing hmem
  | plain h => cases hnumbered.symm.trans h

end Aliases

/-! ## Assemblies -/

/-- What a function is assembled from. -/
structure Assembly where
  mapping : MappingSpec
  sources : List StructField
  dests : List StructField
  aliases : Aliases

variable {L : Loader} {config : MappingConfig} {global : List ConversionRule}

namespace Session

/-- What the function for a mapping is assembled from, if its two types can be resolved. -/
def assemblyFor (s : Session L) (m : MappingSpec) : Assembly :=
  ⟨m, (s.prepare m).2.fieldsOf m.sourceKey, (s.prepare m).2.fieldsOf m.destKey,
    (s.prepare m).2.aliases⟩

/-- A run over mappings carries out this assembly. -/
inductive Assembles (config : MappingConfig) (global : List ConversionRule) :
    Session L → Nat → List MappingSpec → Assembly → Prop where
  | here {s : Session L} {position : Nat} {m : MappingSpec} {rest : List MappingSpec}
      (hprepare : (s.prepare m).1 = .ok ()) :
      Assembles config global s position (m :: rest) (s.assemblyFor m)
  | later {s : Session L} {position : Nat} {m : MappingSpec} {rest : List MappingSpec}
      {f : CopyFunction} {a : Assembly}
      (hfunction : (s.functionFor config global position m).1 = .ok f)
      (h : Assembles config global (s.functionFor config global position m).2 (position + 1) rest
        a) :
      Assembles config global s position (m :: rest) a

theorem bothFields_of_prepare {s : Session L} {m : MappingSpec} (h : s.Sound)
    (hprepare : (s.prepare m).1 = .ok ()) :
    L.bothFields m = .ok ((s.assemblyFor m).sources, (s.assemblyFor m).dests) := by
  have hprepared := h.prepare m
  cases hboth : L.bothFields m with
  | error e =>
    have hresult := hprepared.result
    rw [hboth, hprepare] at hresult
    cases hresult
  | ok both =>
    obtain ⟨sources, dests⟩ := both
    obtain ⟨hsources, hdests⟩ := hprepared.stored sources dests hboth
    unfold assemblyFor
    dsimp only
    rw [hsources, hdests]

/-- All paths that an assembly may render have been registered. -/
theorem Assembles.knows {s : Session L} {position : Nat} {ms : List MappingSpec} {a : Assembly}
    (h : Assembles config global s position ms a) (hsound : s.Sound)
    (hms : ∀ m ∈ ms, m.Accepted) (hglobal : ∀ r ∈ global, r.Accepted)
    (hknown : ∀ path ∈ importsOf global, s.aliases.Knows path) :
    ∀ path ∈ renderedPaths a.mapping a.sources a.dests global, a.aliases.Knows path := by
  induction h with
  | @here s position m rest hprepare =>
    intro path hpath
    have hboth := bothFields_of_prepare hsound hprepare
    have haliases : (s.assemblyFor m).aliases = s.aliases.registerAll (L.pathsFor m) :=
      (hsound.prepare m).aliases
    rw [haliases]
    rcases mem_of_renderedPaths (hms m List.mem_cons_self) hglobal hboth hpath with
      hpath | hpath
    · exact (hknown path hpath).mono (Aliases.extends_registerAll _ _)
    · exact Aliases.knows_registerAll _ hpath
  | @later s position m rest f a _ _ ih =>
    obtain ⟨hafter, haliases, -⟩ := hsound.functionFor config global position m
    refine ih hafter (fun m' hm' => hms m' (List.mem_cons_of_mem _ hm')) fun path hpath => ?_
    rw [haliases]
    exact (hknown path hpath).mono (Aliases.extends_registerAll _ _)

/-! ## Runs -/

theorem Sound.after_functionsFor {s : Session L} (h : s.Sound) (position : Nat)
    (ms : List MappingSpec) : (s.functionsFor config global position ms).2.Sound := by
  induction ms generalizing s position with
  | nil => exact h
  | cons m rest ih =>
    obtain ⟨hsound, -, -⟩ := h.functionFor config global position m
    cases hf : (s.functionFor config global position m).1 with
    | error e =>
      rw [functionsFor_cons_error hf]
      exact hsound
    | ok f =>
      rw [functionsFor_cons_ok hf]
      exact ih hsound (position + 1)

theorem sound_afterRuns (L : Loader) (config : MappingConfig) (global : List ConversionRule)
    (n : Nat) : (afterRuns L config global n).Sound := by
  induction n with
  | zero => exact sound_fresh
  | succ n ih =>
    unfold afterRuns
    rw [generate_eq]
    exact (ih.register (importsOf global)).after_functionsFor 0 config.mappings

/-- The run with this number, the first one being 0, carries out this assembly. -/
def RunAssembles (L : Loader) (config : MappingConfig) (global : List ConversionRule) (n : Nat)
    (a : Assembly) : Prop :=
  Assembles config global ((afterRuns L config global n).register (importsOf global)) 0
    config.mappings a

end Session

/-- In every run, all import paths that an assembly may render have been registered before.  Such a
path has a qualifier if stripping it twice is the same as stripping it once, and otherwise exactly
if it has no slash or what is left of it has a name by chance. -/
theorem rendered_paths_registered {document : MappingDocument} {entries : List ConversionEntry}
    (hconfig : document.check = .ok config)
    (hglobal : checkEach "conversions" ConversionEntry.check entries = .ok global) {n : Nat}
    {a : Assembly} (ha : Session.RunAssembles L config global n a) {path : String}
    (hpath : path ∈ renderedPaths a.mapping a.sources a.dests global)
    (hne : Aliases.normal path ≠ "") :
    a.aliases.Knows path ∧
      (Aliases.normal (Aliases.normal path) = Aliases.normal path →
        a.aliases.qualifierFor path ≠ "") ∧
      (a.aliases.qualifierFor path = "" ↔ Aliases.isNumbered (Aliases.normal path) = true ∧
        Aliases.normal (Aliases.normal path) ∉ a.aliases.numbered) := by
  have hsound := (Session.sound_afterRuns L config global n).register (importsOf global)
  have hknows := ha.knows hsound (MappingDocument.accepted_of_check hconfig)
    (accepted_of_checkEach hglobal) (fun p hp => Aliases.knows_registerAll _ hp) path hpath
  exact ⟨hknows, hknows.qualifierFor_ne_empty hne, Aliases.qualifierFor_eq_empty hne⟩

/-- A path of one mapping that is registered and has no qualifier: stripped twice, it is `a/b`. -/
theorem rendered_paths_registered_confused :
    ∃ a : Assembly, (twoMappings "\" a/b\"" "c/d").check = .ok (twoSpecs "\" a/b\"" "c/d") ∧
      checkEach "conversions" ConversionEntry.check [] = .ok [] ∧
      Session.RunAssembles bareLoader (twoSpecs "\" a/b\"" "c/d") [] 0 a ∧
      "\" a/b\"" ∈ renderedPaths a.mapping a.sources a.dests [] ∧
      a.aliases.Knows "\" a/b\"" ∧ a.aliases.qualifierFor "\" a/b\"" = "" := by
  let path : String := "\" a/b\""
  let spec := selfSpec (qualifiedA path) path
  let start := (Session.fresh bareLoader).register (importsOf [])
  have hsound : start.Sound := Session.sound_fresh.register _
  have hprepared := hsound.prepare spec
  have hprepare : (start.prepare spec).1 = .ok () := by
    rw [hprepared.result, bothFields_selfSpec]
    rfl
  have hrun : Session.RunAssembles bareLoader (twoSpecs path "c/d") [] 0
      (start.assemblyFor spec) :=
    .here hprepare
  have hrendered : path ∈ renderedPaths (start.assemblyFor spec).mapping
      (start.assemblyFor spec).sources (start.assemblyFor spec).dests [] :=
    List.mem_append_left _ (List.mem_append_left _ (List.mem_append_left _
      (List.mem_append_left _ List.mem_cons_self)))
  have haliases : (start.assemblyFor spec).aliases = ⟨[Aliases.normal path], []⟩ := by
    have hpaths : bareLoader.pathsFor spec = [path, path, path, path] := pathsFor_selfSpec rfl
    refine hprepared.aliases.trans ?_
    rw [hpaths]
    exact registerAll_replicate (by decide) List.not_mem_nil
  have hentries : checkEach "conversions" ConversionEntry.check [] = .ok [] := rfl
  have hne : Aliases.normal path ≠ "" := by decide
  obtain ⟨hknows, -, hqualifier⟩ :=
    rendered_paths_registered (check_twoMappings path "c/d") hentries hrun hrendered hne
  refine ⟨start.assemblyFor spec, check_twoMappings path "c/d", hentries, hrun, hrendered, hknows,
    hqualifier.2 ⟨by decide, ?_⟩⟩
  rw [haliases]
  decide

end StructCopy
