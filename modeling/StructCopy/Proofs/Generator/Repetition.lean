/-
  Proofs/Generator/Repetition: generating a file again in the same session.

  What a session has loaded and stored does not show: a sound session generates what
  its aliases alone determine.  The first run registers every path that is rendered
  before it is rendered, so a later run registers nothing new.  It renders the same
  qualifiers if no path is confused with another one.
-/
import StructCopy.Generator
import StructCopy.Proofs.Aliases.Growth
import StructCopy.Proofs.Config.Acceptance

set_option autoImplicit false

namespace StructCopy

open StructCopy.Module (Loader)
open Go (bind_eq_ok)

variable {L : Loader}

/-! ## Sound sessions -/

namespace Session

/-- What is kept is what would be found again, and nothing would be discovered that is not
known. -/
structure Sound (s : Session L) : Prop where
  honest : s.cache.Honest
  answered : ∀ key fields, s.fields.get? key = some fields → L.answerFor key = .ok fields
  known : ∀ key fields, s.fields.get? key = some fields →
    ∀ path ∈ L.foundFor key, s.aliases.Knows path

theorem sound_fresh : (fresh L).Sound := by
  refine ⟨Module.PackageCache.honest_empty, ?_, ?_⟩
  · intro key fields h
    cases h
  · intro key fields h
    cases h

theorem Sound.register {s : Session L} (h : s.Sound) (paths : List String) :
    (s.register paths).Sound := by
  refine ⟨h.honest, h.answered, ?_⟩
  intro key fields hget path hpath
  exact (h.known key fields hget path hpath).mono (Aliases.extends_registerAll _ _)

/-- What comes of seeing to it that the fields of a type are stored. -/
structure Ensured (s : Session L) (key : TypeKey) (after : Except ResolveError Unit × Session L) :
    Prop where
  sound : after.2.Sound
  result : after.1 = (L.answerFor key).map fun _ => ()
  aliases : after.2.aliases = s.aliases.registerAll (L.foundFor key)
  stored : ∀ fields, L.answerFor key = .ok fields → after.2.fields.get? key = some fields
  kept : ∀ other fields, s.fields.get? other = some fields →
    after.2.fields.get? other = some fields

/-- Nothing happens for a type whose fields are stored. -/
theorem Sound.ensured_of_stored {s : Session L} (h : s.Sound) {key : TypeKey}
    {fields : List StructField} (hget : s.fields.get? key = some fields) :
    s.Ensured key (.ok (), s) where
  sound := h
  result := by rw [h.answered key fields hget]; rfl
  aliases := (Aliases.registerAll_eq_of_knows (h.known key fields hget)).symm
  stored := by
    intro fields' hanswer
    rw [h.answered key fields hget] at hanswer
    rw [hget, Except.ok.inj hanswer]
  kept := fun _ _ hother => hother

/-- What the search finds is stored. -/
theorem Sound.ensured_of_found {s : Session L} (h : s.Sound) {key : TypeKey}
    (hget : s.fields.get? key = none) {fields : List StructField}
    (hanswer : L.answerFor key = .ok fields) {cache : Module.PackageCache L} (hcache : cache.Honest) :
    s.Ensured key (.ok (), ⟨cache, s.fields.insert key fields,
      s.aliases.registerAll (L.foundFor key)⟩) := by
  have hself : (s.fields.insert key fields).get? key = some fields := by
    rw [FieldStore.get?_insert_self, hget]
    rfl
  have hother : ∀ other fields', (s.fields.insert key fields).get? other = some fields' →
      other ≠ key → s.fields.get? other = some fields' := by
    intro other fields' hother hne
    rw [FieldStore.get?_insert_of_ne _ _ hne] at hother
    exact hother
  refine ⟨⟨hcache, ?_, ?_⟩, by rw [hanswer]; rfl, rfl, ?_, ?_⟩
  · intro other fields' hget'
    by_cases hkey : other = key
    · subst hkey
      cases hself.symm.trans hget'
      exact hanswer
    · exact h.answered other fields' (hother other fields' hget' hkey)
  · intro other fields' hget' path hpath
    by_cases hkey : other = key
    · subst hkey
      exact Aliases.knows_registerAll _ hpath
    · have hknown := h.known other fields' (hother other fields' hget' hkey) path hpath
      exact hknown.mono (Aliases.extends_registerAll _ _)
  · intro fields' hanswer'
    cases hanswer.symm.trans hanswer'
    exact hself
  · intro other fields' hget'
    have hne : other ≠ key := by
      rintro rfl
      cases hget.symm.trans hget'
    dsimp only
    rw [FieldStore.get?_insert_of_ne _ _ hne]
    exact hget'

/-- What a failed search discovers is registered. -/
theorem Sound.ensured_of_error {s : Session L} (h : s.Sound) {key : TypeKey} {e : ResolveError}
    (hanswer : L.answerFor key = .error e) {cache : Module.PackageCache L}
    (hcache : cache.Honest) :
    s.Ensured key (.error e, ⟨cache, s.fields, s.aliases.registerAll (L.foundFor key)⟩) := by
  refine ⟨⟨hcache, h.answered, ?_⟩, by rw [hanswer]; rfl, rfl, ?_, fun _ _ hget => hget⟩
  · intro other fields hget path hpath
    exact (h.known other fields hget path hpath).mono (Aliases.extends_registerAll _ _)
  · intro fields hanswer'
    cases hanswer.symm.trans hanswer'

/-- The search for the fields of a type ends as in a fresh session, and what it discovers there is
registered. -/
theorem explore_expand {s : Session L} (h : s.cache.Honest) (key : TypeKey) :
    s.explore (expand key) = (L.answerFor key, { s with
      cache := (expand key s.cache).cache
      aliases := s.aliases.registerAll (L.foundFor key) }) := by
  have hsteady := steady_expand (L := L) key
  have hresult : (expand key s.cache).result = L.answerFor key := hsteady.result _ h
  have hfound : (expand key s.cache).discovered = L.foundFor key := hsteady.discovered _ h
  unfold explore
  dsimp only
  rw [hresult, hfound]

theorem Sound.ensure {s : Session L} (h : s.Sound) (key : TypeKey) :
    s.Ensured key (s.ensure key) := by
  have hcache := (steady_expand key).honest s.cache h.honest
  unfold Session.ensure FieldStore.contains
  cases hget : s.fields.get? key with
  | some fields => exact h.ensured_of_stored hget
  | none =>
    rw [explore_expand h.honest]
    cases hanswer : L.answerFor key with
    | ok fields => exact h.ensured_of_found hget hanswer hcache
    | error e => exact h.ensured_of_error hanswer hcache

end Session

/-! ## What aliases determine -/

namespace Module.Loader

/-- The fields of the two types of a mapping, or why one of them has none. -/
def bothFields (L : Loader) (m : MappingSpec) :
    Except ResolveError (List StructField × List StructField) := do
  return (← L.answerFor m.sourceKey, ← L.answerFor m.destKey)

/-- The import paths that a mapping registers, in order. The second type is left out if the first
one has no fields. -/
def pathsFor (L : Loader) (m : MappingSpec) : List String :=
  m.declaredImports ++ L.foundFor m.sourceKey ++
    match L.answerFor m.sourceKey with
    | .ok _ => L.foundFor m.destKey
    | .error _ => []

/-- The function for a mapping under given aliases. -/
def functionWith (L : Loader) (config : MappingConfig) (global : List ConversionRule)
    (position : Nat) (m : MappingSpec) (aliases : Aliases) : Except GenerateError CopyFunction :=
  let context := "mapping " ++ toString position ++ " (" ++ m.label ++ ")"
  match L.bothFields m with
  | .error e => .error (.resolve context e)
  | .ok (sources, dests) =>
    match assemble m sources dests global config.defaultTag aliases with
    | .error (field, e) => .error (.template (context ++ ": field " ++ field.name) e)
    | .ok f => .ok f

end Module.Loader

namespace Session

/-- What comes of preparing a mapping. -/
structure Prepared (s : Session L) (m : MappingSpec)
    (after : Except ResolveError Unit × Session L) : Prop where
  sound : after.2.Sound
  result : after.1 = (L.bothFields m).map fun _ => ()
  aliases : after.2.aliases = s.aliases.registerAll (L.pathsFor m)
  stored : ∀ sources dests, L.bothFields m = .ok (sources, dests) →
    after.2.fieldsOf m.sourceKey = sources ∧ after.2.fieldsOf m.destKey = dests

theorem Sound.prepare {s : Session L} (h : s.Sound) (m : MappingSpec) :
    s.Prepared m (s.prepare m) := by
  have hsource := (h.register m.declaredImports).ensure m.sourceKey
  unfold Session.prepare
  generalize (s.register m.declaredImports).ensure m.sourceKey = after at hsource
  obtain ⟨r, t⟩ := after
  have hresult := hsource.result
  have haliases := hsource.aliases
  dsimp only at hresult haliases
  cases hanswer : L.answerFor m.sourceKey with
  | error e =>
    have hr : r = .error e := by rw [hresult, hanswer]; rfl
    subst hr
    have hboth : L.bothFields m = .error e := by
      unfold Loader.bothFields
      rw [hanswer]
      rfl
    refine ⟨hsource.sound, by rw [hboth]; rfl, ?_, ?_⟩
    · unfold Loader.pathsFor
      rw [hanswer, List.append_nil, Aliases.registerAll_append]
      exact haliases
    · intro sources dests hok
      cases hboth.symm.trans hok
  | ok sources =>
    have hr : r = .ok () := by rw [hresult, hanswer]; rfl
    subst hr
    have hboth : L.bothFields m = (L.answerFor m.destKey).map (sources, ·) := by
      unfold Loader.bothFields
      rw [hanswer]
      rfl
    have hdest := hsource.sound.ensure m.destKey
    refine ⟨hdest.sound, ?_, ?_, ?_⟩
    · refine hdest.result.trans ?_
      rw [hboth]
      cases L.answerFor m.destKey <;> rfl
    · refine hdest.aliases.trans ?_
      unfold Loader.pathsFor
      rw [hanswer, Aliases.registerAll_append, Aliases.registerAll_append]
      exact congrArg (Aliases.registerAll · _) haliases
    · intro sources' dests hok
      rw [hboth] at hok
      obtain ⟨dests', hanswer', heq⟩ := Go.ok_of_map_eq_ok hok
      cases heq
      have hkept := hdest.kept _ _ (hsource.stored sources hanswer)
      have hstored := hdest.stored dests hanswer'
      unfold fieldsOf
      rw [hkept, hstored]
      exact ⟨rfl, rfl⟩

theorem Sound.functionFor {s : Session L} (h : s.Sound) (config : MappingConfig)
    (global : List ConversionRule) (position : Nat) (m : MappingSpec) :
    (s.functionFor config global position m).2.Sound ∧
      (s.functionFor config global position m).2.aliases =
        s.aliases.registerAll (L.pathsFor m) ∧
      (s.functionFor config global position m).1 =
        L.functionWith config global position m (s.aliases.registerAll (L.pathsFor m)) := by
  have hprepared := h.prepare m
  unfold Session.functionFor Loader.functionWith
  generalize s.prepare m = after at hprepared
  obtain ⟨r, t⟩ := after
  have hresult := hprepared.result
  have haliases := hprepared.aliases
  have hsound := hprepared.sound
  dsimp only at hresult haliases hsound ⊢
  rw [← haliases]
  cases hboth : L.bothFields m with
  | error e =>
    have hr : r = .error e := by rw [hresult, hboth]; rfl
    subst hr
    exact ⟨hsound, rfl, rfl⟩
  | ok both =>
    obtain ⟨sources, dests⟩ := both
    have hr : r = .ok () := by rw [hresult, hboth]; rfl
    subst hr
    obtain ⟨hsources, hdests⟩ := hprepared.stored sources dests hboth
    dsimp only at hsources hdests ⊢
    rw [hsources, hdests]
    rcases assemble m sources dests global config.defaultTag t.aliases with ⟨field, e⟩ | f
    · exact ⟨hsound, rfl, rfl⟩
    · exact ⟨hsound, rfl, rfl⟩

end Session

/-! ## Rendered paths -/

/-- The import paths of some rules. -/
def importsOf (rules : List ConversionRule) : List String :=
  rules.flatMap (·.imports)

theorem answers_of_bothFields {m : MappingSpec} {sources dests : List StructField}
    (h : L.bothFields m = .ok (sources, dests)) :
    L.answerFor m.sourceKey = .ok sources ∧ L.answerFor m.destKey = .ok dests := by
  obtain ⟨sources', hsource, h⟩ := bind_eq_ok h
  obtain ⟨dests', hdest, h⟩ := bind_eq_ok h
  cases h
  exact ⟨hsource, hdest⟩

theorem mem_importsOf {rules : List ConversionRule} (haccepted : ∀ r ∈ rules, r.Accepted)
    {path : String} (h : path ∈ rules.flatMap (·.paths)) : path ∈ importsOf rules := by
  obtain ⟨r, hr, hpath⟩ := List.mem_flatMap.1 h
  exact List.mem_flatMap.2 ⟨r, hr, (haccepted r hr).mem_imports hpath⟩

theorem mem_pathsFor_of_declared {m : MappingSpec} {path : String}
    (h : path ∈ m.declaredImports) : path ∈ L.pathsFor m :=
  List.mem_append_left _ (List.mem_append_left _ h)

theorem mem_pathsFor_of_field {m : MappingSpec} {sources dests : List StructField}
    (hboth : L.bothFields m = .ok (sources, dests)) {f : StructField}
    (hf : f ∈ sources ++ dests) {path : String} (h : path ∈ f.type.imports) :
    path ∈ L.pathsFor m := by
  obtain ⟨hsource, hdest⟩ := answers_of_bothFields hboth
  unfold Loader.pathsFor
  rw [hsource]
  rcases List.mem_append.1 hf with hf | hf
  · exact List.mem_append_left _ (List.mem_append_right _ (Loader.mem_foundFor hsource hf h))
  · exact List.mem_append_right _ (Loader.mem_foundFor hdest hf h)

/-- All paths that a mapping renders have been registered, for the mapping or for the global
rules. -/
theorem mem_of_renderedPaths {m : MappingSpec} {global : List ConversionRule} (hm : m.Accepted)
    (hglobal : ∀ r ∈ global, r.Accepted) {sources dests : List StructField}
    (hboth : L.bothFields m = .ok (sources, dests)) {path : String}
    (h : path ∈ renderedPaths m sources dests global) :
    path ∈ importsOf global ∨ path ∈ L.pathsFor m := by
  simp only [renderedPaths, List.mem_append, List.flatMap_append, or_assoc] at h
  rcases h with h | h | h | h | h | h | h
  · exact .inr (mem_pathsFor_of_declared (by simp [MappingSpec.declaredImports, h]))
  · exact .inr (mem_pathsFor_of_declared (by simp [MappingSpec.declaredImports, h]))
  · refine .inr (mem_pathsFor_of_declared ?_)
    unfold MappingSpec.declaredImports
    rw [List.append_assoc, List.append_assoc]
    exact List.mem_append_right _ (List.mem_append_left _ h)
  · have hpath := mem_importsOf hm h
    refine .inr (mem_pathsFor_of_declared ?_)
    unfold MappingSpec.declaredImports
    rw [List.append_assoc, List.append_assoc]
    exact List.mem_append_left _ hpath
  · exact .inl (mem_importsOf hglobal h)
  · obtain ⟨f, hf, hpath⟩ := List.mem_flatMap.1 h
    exact .inr (mem_pathsFor_of_field hboth (List.mem_append_left _ hf) hpath)
  · obtain ⟨f, hf, hpath⟩ := List.mem_flatMap.1 h
    exact .inr (mem_pathsFor_of_field hboth (List.mem_append_right _ hf) hpath)

/-- Aliases that agree on the paths that are rendered give a mapping the same function. -/
theorem functionWith_eq {m : MappingSpec} {config : MappingConfig} {global : List ConversionRule}
    {a b : Aliases} (hm : m.Accepted) (hglobal : ∀ r ∈ global, r.Accepted)
    (h : ∀ path, path ∈ importsOf global ∨ path ∈ L.pathsFor m → a.AgreeOn b path)
    (position : Nat) :
    L.functionWith config global position m b = L.functionWith config global position m a := by
  unfold Loader.functionWith
  cases hboth : L.bothFields m with
  | error e => rfl
  | ok both =>
    obtain ⟨sources, dests⟩ := both
    dsimp only
    rw [assemble_eq config.defaultTag fun path hpath =>
      h path (mem_of_renderedPaths hm hglobal hboth hpath)]

/-! ## The same again -/

namespace Session

variable {config : MappingConfig} {global : List ConversionRule} {kind : String → Prop}

theorem functionsFor_cons_error {s : Session L} {position : Nat} {m : MappingSpec}
    {e : GenerateError} (h : (s.functionFor config global position m).1 = .error e)
    (rest : List MappingSpec) :
    s.functionsFor config global position (m :: rest) =
      (.error e, (s.functionFor config global position m).2) := by
  unfold functionsFor
  rw [← Prod.eta (s.functionFor config global position m), h]

theorem functionsFor_cons_ok {s : Session L} {position : Nat} {m : MappingSpec} {f : CopyFunction}
    (h : (s.functionFor config global position m).1 = .ok f) (rest : List MappingSpec) :
    s.functionsFor config global position (m :: rest) =
      let after := (s.functionFor config global position m).2.functionsFor config global
        (position + 1) rest
      (after.1.map (f :: ·), after.2) := by
  rw [functionsFor, ← Prod.eta (s.functionFor config global position m), h]
  dsimp only
  rcases (s.functionFor config global position m).2.functionsFor config global (position + 1)
    rest with ⟨e | fs, t⟩
  · rfl
  · rfl

/-- What running over some mappings keeps, and that it only adds to the aliases. -/
theorem Sound.functionsFor {s : Session L} (h : s.Sound) (position : Nat)
    {ms : List MappingSpec} (hkind : ∀ m ∈ ms, ∀ path ∈ L.pathsFor m, kind path)
    (hfrom : s.aliases.From kind) :
    (s.functionsFor config global position ms).2.Sound ∧
      s.aliases.Extends (s.functionsFor config global position ms).2.aliases ∧
      (s.functionsFor config global position ms).2.aliases.From kind := by
  induction ms generalizing s position with
  | nil => exact ⟨h, .refl _, hfrom⟩
  | cons m rest ih =>
    obtain ⟨hsound, haliases, -⟩ := h.functionFor config global position m
    have hext := Aliases.extends_registerAll s.aliases (L.pathsFor m)
    have hnext := hfrom.registerAll (hkind m List.mem_cons_self)
    rw [← haliases] at hext hnext
    cases hf : (s.functionFor config global position m).1 with
    | error e =>
      rw [functionsFor_cons_error hf]
      exact ⟨hsound, hext, hnext⟩
    | ok f =>
      rw [functionsFor_cons_ok hf]
      obtain ⟨hsound', hext', hfrom'⟩ := ih hsound (position + 1)
        (fun m' hm' => hkind m' (List.mem_cons_of_mem _ hm')) hnext
      exact ⟨hsound', hext.trans hext', hfrom'⟩

/-- A session that knows at least what another one leaves behind a mapping gives this mapping the
same function there, or fails in the same way, and learns nothing. -/
theorem Sound.functionFor_again {s t : Session L} (hs : s.Sound) (ht : t.Sound) (position : Nat)
    {m : MappingSpec} (hdistinct : Aliases.Distinct kind) (hm : m.Accepted)
    (hglobal : ∀ r ∈ global, r.Accepted) (hkind : ∀ path ∈ L.pathsFor m, kind path)
    (hkindGlobal : ∀ path ∈ importsOf global, kind path)
    (hknown : ∀ path ∈ importsOf global, s.aliases.Knows path) (hfrom : t.aliases.From kind)
    (hext : (s.functionFor config global position m).2.aliases.Extends t.aliases) :
    (t.functionFor config global position m).1 = (s.functionFor config global position m).1 ∧
      (t.functionFor config global position m).2.aliases = t.aliases := by
  obtain ⟨-, haliases, hresult⟩ := hs.functionFor config global position m
  obtain ⟨-, htaliases, htresult⟩ := ht.functionFor config global position m
  rw [haliases] at hext
  have hknownm : ∀ path ∈ L.pathsFor m, (s.aliases.registerAll (L.pathsFor m)).Knows path :=
    fun _ hpath => Aliases.knows_registerAll _ hpath
  have hsame : t.aliases.registerAll (L.pathsFor m) = t.aliases :=
    Aliases.registerAll_eq_of_knows fun path hpath => (hknownm path hpath).mono hext
  rw [hsame] at htaliases htresult
  refine ⟨?_, htaliases⟩
  rw [htresult, hresult]
  refine functionWith_eq hm hglobal ?_ position
  rintro path (hpath | hpath)
  · have hglobally := (hknown path hpath).mono (Aliases.extends_registerAll _ (L.pathsFor m))
    exact hglobally.qualifierFor_eq hdistinct (hkindGlobal path hpath) hext hfrom
  · exact (hknownm path hpath).qualifierFor_eq hdistinct (hkind path hpath) hext hfrom

/-- A session that knows at least what a run over some mappings leaves gives the answer of that
run, and does not change. -/
theorem Sound.functionsFor_again {s t : Session L} (hs : s.Sound) (ht : t.Sound) (position : Nat)
    {ms : List MappingSpec} (hdistinct : Aliases.Distinct kind) (hms : ∀ m ∈ ms, m.Accepted)
    (hglobal : ∀ r ∈ global, r.Accepted) (hkind : ∀ m ∈ ms, ∀ path ∈ L.pathsFor m, kind path)
    (hkindGlobal : ∀ path ∈ importsOf global, kind path)
    (hknown : ∀ path ∈ importsOf global, s.aliases.Knows path) (hfrom : t.aliases.From kind)
    (hfromFirst : s.aliases.From kind)
    (hext : (s.functionsFor config global position ms).2.aliases.Extends t.aliases) :
    (t.functionsFor config global position ms).1 = (s.functionsFor config global position ms).1 ∧
      (t.functionsFor config global position ms).2.aliases = t.aliases ∧
      (t.functionsFor config global position ms).2.Sound := by
  induction ms generalizing s t position with
  | nil => exact ⟨rfl, rfl, ht⟩
  | cons m rest ih =>
    have hkindm := hkind m List.mem_cons_self
    have hkindRest := fun m' hm' => hkind m' (List.mem_cons_of_mem _ hm')
    obtain ⟨hsound, haliases, -⟩ := hs.functionFor config global position m
    obtain ⟨htsound, -, -⟩ := ht.functionFor config global position m
    have hnext := hfromFirst.registerAll hkindm
    rw [← haliases] at hnext
    -- what the first run left behind this mapping is known in the second one
    have hextm : (s.functionFor config global position m).2.aliases.Extends t.aliases := by
      cases hf : (s.functionFor config global position m).1 with
      | error e =>
        rw [functionsFor_cons_error hf] at hext
        exact hext
      | ok f =>
        rw [functionsFor_cons_ok hf] at hext
        exact (hsound.functionsFor (position + 1) hkindRest hnext).2.1.trans hext
    obtain ⟨hfunction, htaliases⟩ := hs.functionFor_again ht position hdistinct
      (hms m List.mem_cons_self) hglobal hkindm hkindGlobal hknown hfrom hextm
    cases hf : (s.functionFor config global position m).1 with
    | error e =>
      rw [functionsFor_cons_error hf, functionsFor_cons_error (hfunction.trans hf)]
      exact ⟨rfl, htaliases, htsound⟩
    | ok f =>
      rw [functionsFor_cons_ok hf] at hext
      rw [functionsFor_cons_ok hf, functionsFor_cons_ok (hfunction.trans hf)]
      rw [← htaliases] at hext hfrom
      have hknownRest : ∀ path ∈ importsOf global,
          (s.functionFor config global position m).2.aliases.Knows path := by
        intro path hpath
        rw [haliases]
        exact (hknown path hpath).mono (Aliases.extends_registerAll _ _)
      obtain ⟨hanswer, hleft, hsound'⟩ := ih hsound htsound (position + 1)
        (fun m' hm' => hms m' (List.mem_cons_of_mem _ hm')) hkindRest hknownRest hfrom hnext hext
      refine ⟨?_, hleft.trans htaliases, hsound'⟩
      dsimp only
      rw [hanswer]

/-! ## Runs -/

/-- The session after some runs. -/
def afterRuns (L : Loader) (config : MappingConfig) (global : List ConversionRule) :
    Nat → Session L
  | 0 => fresh L
  | n + 1 => ((afterRuns L config global n).generate config global).2

/-- Every run in a session gives the answer of the first run, and leaves the aliases that the first
run left. -/
def Repeats (L : Loader) (config : MappingConfig) (global : List ConversionRule) : Prop :=
  ∀ n, ((afterRuns L config global n).generate config global).1 =
      ((fresh L).generate config global).1 ∧
    (afterRuns L config global (n + 1)).aliases = (afterRuns L config global 1).aliases

theorem generate_eq (s : Session L) (config : MappingConfig) (global : List ConversionRule) :
    s.generate config global =
      let after := (s.register (importsOf global)).functionsFor config global 0 config.mappings
      (after.1.map (fileText config.packageName after.2.aliases), after.2) := by
  unfold generate importsOf
  dsimp only
  generalize (s.register _).functionsFor config global 0 config.mappings = after
  rcases after with ⟨e | functions, t⟩
  · rfl
  · rfl

end Session

/-- The import paths that generating a file may register. -/
def MappingConfig.usedPaths (config : MappingConfig) (L : Loader) (global : List ConversionRule) :
    List String :=
  importsOf global ++ config.mappings.flatMap L.pathsFor

/-- A configuration whose paths are not confused with one another gives the same file again and
again. -/
theorem Session.repeats_of_distinct {config : MappingConfig} {global : List ConversionRule}
    {kind : String → Prop} (hdistinct : Aliases.Distinct kind)
    (hms : ∀ m ∈ config.mappings, m.Accepted) (hglobal : ∀ r ∈ global, r.Accepted)
    (hkind : ∀ path ∈ config.usedPaths L global, kind path) :
    Session.Repeats L config global := by
  obtain ⟨hkindGlobal, hkindMappings⟩ := List.forall_mem_append.1 hkind
  replace hkindMappings : ∀ m ∈ config.mappings, ∀ path ∈ L.pathsFor m, kind path :=
    fun m hm path hpath => hkindMappings path (List.mem_flatMap.2 ⟨m, hm, hpath⟩)
  have hsound := sound_fresh.register (L := L) (importsOf global)
  have hfrom := (Aliases.from_empty kind).registerAll hkindGlobal
  obtain ⟨hsoundFirst, hextFirst, hfromFirst⟩ :=
    @Sound.functionsFor L config global kind _ hsound 0 _ hkindMappings hfrom
  have hknown : ∀ path ∈ importsOf global,
      ((fresh L).register (importsOf global)).aliases.Knows path :=
    fun path hpath => Aliases.knows_registerAll _ hpath
  -- a run from a sound session with the aliases of the first run changes nothing
  have hagain : ∀ t : Session L, t.Sound →
      t.aliases = (afterRuns L config global 1).aliases →
      (t.generate config global).1 = ((fresh L).generate config global).1 ∧
        (t.generate config global).2.aliases = (afterRuns L config global 1).aliases ∧
        (t.generate config global).2.Sound := by
    intro t ht haliases
    unfold afterRuns afterRuns at haliases ⊢
    rw [generate_eq (fresh L)] at haliases ⊢
    dsimp only at haliases ⊢
    have hsame : (t.register (importsOf global)).aliases = t.aliases := by
      refine Aliases.registerAll_eq_of_knows fun path hpath => ?_
      rw [haliases]
      exact (hknown path hpath).mono hextFirst
    rw [← haliases] at hfromFirst
    rw [← hsame] at hfromFirst
    obtain ⟨hanswer, hleft, hsound'⟩ := hsound.functionsFor_again (ht.register (importsOf global))
      0 hdistinct hms hglobal hkindMappings hkindGlobal hknown hfromFirst hfrom
      (by rw [hsame, haliases]; exact .refl _)
    rw [generate_eq t]
    dsimp only
    rw [hanswer, hleft, hsame, haliases]
    exact ⟨rfl, rfl, hsound'⟩
  have hrun : ∀ n, (afterRuns L config global (n + 1)).Sound ∧
      (afterRuns L config global (n + 1)).aliases = (afterRuns L config global 1).aliases := by
    intro n
    induction n with
    | zero =>
      refine ⟨?_, rfl⟩
      unfold afterRuns
      rw [generate_eq]
      exact hsoundFirst
    | succ n ih =>
      obtain ⟨-, hleft, hsound'⟩ := hagain _ ih.1 ih.2
      exact ⟨hsound', hleft⟩
  intro n
  refine ⟨?_, (hrun n).2⟩
  cases n with
  | zero => rfl
  | succ n => exact (hagain _ (hrun n).1 (hrun n).2).1

end StructCopy
