/-
  Proofs/Generator/Numbering: which names imports get, and in which order.

  Registering keeps the first occurrence of each path with a slash, so the names follow
  the order in which a run comes upon the paths.  What a run registers depends on the
  document and on what its types discover, not on which fields have been stored.
-/
import Mathlib
import StructCopy.Proofs.Fields.Trace
import StructCopy.Proofs.Generator.Confusion

set_option autoImplicit false

namespace StructCopy

open StructCopy.Module (Loader)

/-! ## First occurrences -/

namespace Aliases

/-- The paths that get names, in the order of their names: stripped of space and quotation marks,
not empty, with a slash, and each at its first occurrence. -/
def firstSeen (paths : List String) : List String :=
  ((paths.map normal).filter fun path => !path.isEmpty && isNumbered path).eraseDups

/-- Adding elements once each keeps the first occurrences of the new ones. -/
theorem foldl_addOnce (paths more : List String) :
    more.foldl addOnce paths =
      paths ++ (more.filter fun path => !paths.contains path).eraseDups := by
  induction more generalizing paths with
  | nil => simp
  | cons path more ih =>
    rw [List.foldl_cons, ih]
    unfold addOnce
    cases hpath : paths.contains path with
    | true =>
      rw [if_pos rfl, List.filter_cons_of_neg (by simp only [hpath]; decide)]
    | false =>
      have hnew : (!paths.contains path) = true := by rw [hpath]; rfl
      have hboth : (more.filter fun p => !(paths ++ [path]).contains p) =
          (more.filter fun p => !paths.contains p).filter fun p => !p == path := by
        rw [List.filter_filter]
        refine List.filter_congr fun p _ => ?_
        rw [List.contains_append, List.contains_cons, List.contains_nil, Bool.or_false,
          Bool.not_or, Bool.and_comm]
      have hfirst : ((path :: more).filter fun p => !paths.contains p) =
          path :: more.filter fun p => !paths.contains p :=
        List.filter_cons_of_pos hnew
      rw [if_neg Bool.false_ne_true, hfirst, List.eraseDups_cons, hboth, List.append_assoc]
      rfl

theorem numbered_registerAll (a : Aliases) (paths : List String) :
    (a.registerAll paths).numbered =
      ((paths.map normal).filter fun path => !path.isEmpty && isNumbered path).foldl addOnce
        a.numbered := by
  induction paths generalizing a with
  | nil => rfl
  | cons path paths ih =>
    rw [registerAll_cons, ih, List.map_cons]
    generalize normal path = p
    unfold put
    cases hempty : p.isEmpty with
    | true => simp [hempty]
    | false =>
      cases hnumbered : isNumbered p with
      | true => simp [hempty, hnumbered]
      | false => simp [hempty, hnumbered]

theorem bindings_registerAll (paths : List String) :
    (empty.registerAll paths).bindings =
      (firstSeen paths).zipIdx.map fun entry => ("ref" ++ toString (entry.2 + 1), entry.1) := by
  have hnumbered : (empty.registerAll paths).numbered = firstSeen paths := by
    rw [numbered_registerAll, foldl_addOnce]
    simp [empty, firstSeen]
  unfold bindings aliasAt
  rw [hnumbered]

end Aliases

/-! ## What a run registers -/

/-- The import paths of a document and its rules in the order in which they are registered, given
what each type discovers. -/
def MappingConfig.pathSequence (config : MappingConfig) (global : List ConversionRule)
    (trace : TypeKey → List String) : List String :=
  importsOf global ++ config.mappings.flatMap fun m =>
    importsOf m.conversions ++ m.args.flatMap (·.type.imports) ++ m.source.imports ++
      m.dest.imports ++ trace m.sourceKey ++ trace m.destKey

variable {L : Loader}

theorem bothFields_of_functionWith {config : MappingConfig} {global : List ConversionRule}
    {position : Nat} {m : MappingSpec} {a : Aliases} {f : CopyFunction}
    (h : L.functionWith config global position m a = .ok f) :
    ∃ sources dests, L.bothFields m = .ok (sources, dests) := by
  unfold Loader.functionWith at h
  split at h
  · cases h
  · next sources dests hboth => exact ⟨sources, dests, hboth⟩

namespace Session

/-- A run over mappings that succeeds finds the fields of all their types, and registers what they
declare and discover. -/
theorem Sound.registers_of_ok {s : Session L} (h : s.Sound) {config : MappingConfig}
    {global : List ConversionRule} {position : Nat} {ms : List MappingSpec}
    {fs : List CopyFunction} (hrun : (s.functionsFor config global position ms).1 = .ok fs) :
    (s.functionsFor config global position ms).2.aliases =
        s.aliases.registerAll (ms.flatMap L.pathsFor) ∧
      ∀ m ∈ ms, ∃ sources dests, L.bothFields m = .ok (sources, dests) := by
  induction ms generalizing s position fs with
  | nil => exact ⟨rfl, fun m hm => absurd hm List.not_mem_nil⟩
  | cons m rest ih =>
    obtain ⟨hsound, haliases, hresult⟩ := h.functionFor config global position m
    cases hf : (s.functionFor config global position m).1 with
    | error e =>
      rw [functionsFor_cons_error hf] at hrun
      cases hrun
    | ok f =>
      rw [functionsFor_cons_ok hf] at hrun ⊢
      obtain ⟨more, hmore, -⟩ := Go.ok_of_map_eq_ok hrun
      obtain ⟨hafter, hfields⟩ := ih hsound hmore
      constructor
      · rw [List.flatMap_cons, Aliases.registerAll_append, ← haliases]
        exact hafter
      · intro m' hm'
        rcases List.mem_cons.1 hm' with rfl | hm'
        · exact bothFields_of_functionWith (hresult.symm.trans hf)
        · exact hfields m' hm'

end Session

/-- The names that a first run leaves are those of the first occurrences in one sequence: the
imports of the global rules, then mapping by mapping the imports of its rules, of its arguments and
of its two types, and what these two types discover.  What a type discovers is determined by the
declarations alone. -/
theorem bindings_eq_firstSeen {config : MappingConfig} {global : List ConversionRule}
    {text : String} (h : ((Session.fresh L).generate config global).1 = .ok text) :
    ∃ trace : TypeKey → List String,
      (∀ m ∈ config.mappings, ∀ key ∈ [m.sourceKey, m.destKey], ∀ found,
        L.Discovers key found ↔ found = trace key) ∧
      ((Session.fresh L).generate config global).2.aliases.bindings =
        (Aliases.firstSeen (config.pathSequence global trace)).zipIdx.map fun entry =>
          ("ref" ++ toString (entry.2 + 1), entry.1) := by
  rw [Session.generate_eq] at h ⊢
  obtain ⟨fs, hrun, -⟩ := Go.ok_of_map_eq_ok h
  have hsound := (Session.sound_fresh (L := L)).register (importsOf global)
  obtain ⟨haliases, hfields⟩ := hsound.registers_of_ok hrun
  refine ⟨L.foundFor, ?_, ?_⟩
  · intro m hm key hkey found
    obtain ⟨sources, dests, hboth⟩ := hfields m hm
    obtain ⟨hsource, hdest⟩ := answers_of_bothFields hboth
    have hdiscovers : L.Discovers key (L.foundFor key) := by
      simp only [List.mem_cons, List.not_mem_nil, or_false] at hkey
      rcases hkey with rfl | rfl
      · exact discovers_foundFor hsource
      · exact discovers_foundFor hdest
    constructor
    · intro hfound
      exact hfound.unique hdiscovers
    · rintro rfl
      exact hdiscovers
  · have hsequence : importsOf global ++ config.mappings.flatMap L.pathsFor =
        config.pathSequence global L.foundFor := by
      unfold MappingConfig.pathSequence
      congr 1
      refine List.flatMap_congr fun m hm => ?_
      obtain ⟨sources, dests, hboth⟩ := hfields m hm
      obtain ⟨hsource, -⟩ := answers_of_bothFields hboth
      unfold Loader.pathsFor MappingSpec.declaredImports
      rw [hsource]
      rfl
    dsimp only
    rw [haliases, ← hsequence, ← Aliases.bindings_registerAll, Aliases.registerAll_append]
    rfl

theorem discovers_bareLoader (path : String) : bareLoader.Discovers ⟨path, "A"⟩ [path] :=
  .struct ⟨bareLoader_load path, rfl⟩ (Go.TypeExpr.encloses_struct _) .noMember

/-- Two mappings that come upon two paths give them the first two names, under which the paths stand
stripped; a path without a slash gets none. -/
theorem bindings_eq_firstSeen_twoSpecs :
    (∃ text, ((Session.fresh bareLoader).generate (twoSpecs "\" a/b\"" " c/d") []).1 = .ok text ∧
      ((Session.fresh bareLoader).generate (twoSpecs "\" a/b\"" " c/d") []).2.aliases.bindings =
        [("ref1", " a/b"), ("ref2", "c/d")]) ∧
    ∃ text, ((Session.fresh bareLoader).generate (twoSpecs "fmt" "\"c/d\"") []).1 = .ok text ∧
      ((Session.fresh bareLoader).generate (twoSpecs "fmt" "\"c/d\"") []).2.aliases.bindings =
        [("ref1", "c/d")] := by
  have hall : ∀ path other, ∃ text,
      ((Session.fresh bareLoader).generate (twoSpecs path other) []).1 = .ok text ∧
      ((Session.fresh bareLoader).generate (twoSpecs path other) []).2.aliases.bindings =
        (Aliases.firstSeen [path, path, path, path, other, other, other, other]).zipIdx.map
          fun entry => ("ref" ++ toString (entry.2 + 1), entry.1) := by
    intro path other
    have hrun := (generate_twoSpecs (Session.sound_fresh (L := bareLoader)) path other).1
    refine ⟨_, hrun, ?_⟩
    obtain ⟨trace, htrace, hbindings⟩ := bindings_eq_firstSeen hrun
    have hfirst : trace ⟨path, "A"⟩ = [path] :=
      ((htrace (selfSpec (qualifiedA path) path) List.mem_cons_self _ List.mem_cons_self _).1
        (discovers_bareLoader path)).symm
    have hsecond : trace ⟨other, "A"⟩ = [other] :=
      ((htrace (selfSpec (plainA other) other) (List.mem_cons_of_mem _ List.mem_cons_self) _
        List.mem_cons_self _).1 (discovers_bareLoader other)).symm
    have hsequence : (twoSpecs path other).pathSequence [] trace =
        [path, path, path, path, other, other, other, other] := by
      unfold MappingConfig.pathSequence twoSpecs
      rw [List.flatMap_cons, List.flatMap_cons]
      unfold selfSpec
      dsimp only
      rw [hfirst, hsecond]
      rfl
    rw [hbindings, hsequence]
  obtain ⟨text, hquoted⟩ := hall "\" a/b\"" " c/d"
  obtain ⟨text', hplain⟩ := hall "fmt" "\"c/d\""
  exact ⟨⟨text, hquoted.1, hquoted.2.trans (by decide)⟩, text', hplain.1,
    hplain.2.trans (by decide)⟩

end StructCopy
