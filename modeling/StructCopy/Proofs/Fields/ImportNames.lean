/-
  Proofs/Fields/ImportNames: which import a qualifier belongs to.

  The imports of a file are tried in the order of the file.  The first one that binds the
  qualifier gives the path, whether it binds a name of its own or that of its package.  So
  an explicit name decides, unless an import without a name comes first whose package has,
  or is taken to have, the same name.
-/
import StructCopy.Proofs.Fields.Exactness

set_option autoImplicit false

namespace StructCopy

open StructCopy.Module (Loader Package PackageCache)
open StructCopy.Go (SourceFile)

namespace Module.Loader

/-! ## Explicit names first -/

/-- An import has the qualifier for its explicit name. -/
def namedAs (qualifier : String) (i : Go.Import) : Bool :=
  i.name == some qualifier

/-- An import has no name of its own, and its package has the name, declared or guessed. -/
def suggests (L : Loader) (qualifier : String) (i : Go.Import) : Bool :=
  i.name.isNone && L.nameOf i.path == qualifier

/-- The path that belongs to a qualifier when explicit names win: that of the first import with
this name, and if there is none, that of the first import without a name whose package has it. -/
def explicitPath? (L : Loader) (file : SourceFile) (qualifier : String) : Option String :=
  ((file.imports.find? (namedAs qualifier)).or (file.imports.find? (L.suggests qualifier))).map
    Go.Import.path

/-- An import without a name, whose package has the name, stands before the first import that has
it explicitly, and leads to another path. Nothing before it binds the name. -/
def Overtaken (L : Loader) (file : SourceFile) (qualifier : String) : Prop :=
  ∃ front i back explicit, file.imports = front ++ i :: back ∧
    (∀ k ∈ front, L.bindsQualifier qualifier k = false) ∧ L.suggests qualifier i = true ∧
    file.imports.find? (namedAs qualifier) = some explicit ∧ explicit.path ≠ i.path

variable {L : Loader} {file : SourceFile} {qualifier : String}

theorem bindsQualifier_eq (hblank : qualifier ≠ "_") (hdot : qualifier ≠ ".") (i : Go.Import) :
    L.bindsQualifier qualifier i = (namedAs qualifier i || L.suggests qualifier i) := by
  unfold bindsQualifier namedAs suggests
  cases hname : i.name with
  | none => simp
  | some name =>
    by_cases h : name = qualifier
    · subst h
      simp [hblank, hdot]
    · simp [h]

/-- What overtakes an explicit name is the import that is found first. -/
theorem overtaken_iff (hbinds : ∀ i, L.suggests qualifier i = true → L.bindsQualifier qualifier i) :
    L.Overtaken file qualifier ↔
      ∃ i explicit, file.imports.find? (L.bindsQualifier qualifier) = some i ∧
        L.suggests qualifier i = true ∧
        file.imports.find? (namedAs qualifier) = some explicit ∧ explicit.path ≠ i.path := by
  constructor
  · rintro ⟨front, i, back, explicit, himports, hfront, hi, hexplicit, hne⟩
    refine ⟨i, explicit, ?_, hi, hexplicit, hne⟩
    exact List.find?_eq_some_iff_append.2
      ⟨hbinds i hi, front, back, himports, fun k hk => by rw [hfront k hk]; rfl⟩
  · rintro ⟨i, explicit, hfound, hi, hexplicit, hne⟩
    obtain ⟨-, front, back, himports, hfront⟩ := List.find?_eq_some_iff_append.1 hfound
    exact ⟨front, i, back, explicit, himports, fun k hk => by simpa using hfront k hk, hi,
      hexplicit, hne⟩

/-- Trying the imports in their order finds the explicit name, unless it has been overtaken. -/
theorem pathBehind?_eq_explicitPath?_iff (hblank : qualifier ≠ "_") (hdot : qualifier ≠ ".") :
    L.pathBehind? file qualifier = L.explicitPath? file qualifier ↔
      ¬ L.Overtaken file qualifier := by
  have hbinds := bindsQualifier_eq (L := L) hblank hdot
  rw [overtaken_iff fun i hi => by rw [hbinds, hi, Bool.or_true]]
  unfold pathBehind? explicitPath?
  cases hfound : file.imports.find? (L.bindsQualifier qualifier) with
  | none =>
    have hnone := List.find?_eq_none.1 hfound
    simp only [hbinds, Bool.or_eq_true, not_or] at hnone
    rw [List.find?_eq_none.2 fun i hi => (hnone i hi).1,
      List.find?_eq_none.2 fun i hi => (hnone i hi).2]
    simp
  | some i =>
    obtain ⟨hi, front, back, himports, hfront⟩ := List.find?_eq_some_iff_append.1 hfound
    -- what does not bind the qualifier has it neither way
    have hneither : ∀ k ∈ front, namedAs qualifier k = false ∧ L.suggests qualifier k = false := by
      simpa [hbinds] using hfront
    cases hsuggests : L.suggests qualifier i with
    | false =>
      have hnamed : namedAs qualifier i = true := by simpa [hbinds, hsuggests] using hi
      have hexplicit : file.imports.find? (namedAs qualifier) = some i :=
        List.find?_eq_some_iff_append.2
          ⟨hnamed, front, back, himports, fun k hk => by rw [(hneither k hk).1]; rfl⟩
      simp [hexplicit, hsuggests]
    | true =>
      have hsuggested : file.imports.find? (L.suggests qualifier) = some i :=
        List.find?_eq_some_iff_append.2
          ⟨hsuggests, front, back, himports, fun k hk => by rw [(hneither k hk).2]; rfl⟩
      cases hexplicit : file.imports.find? (namedAs qualifier) with
      | none => simp [hsuggested]
      | some explicit =>
        have hwins : (some explicit).or (some i) = some explicit := rfl
        rw [hsuggested, hwins, Option.map_some, Option.map_some, Option.some.injEq]
        constructor
        · rintro hsame ⟨i', explicit', hi', -, hexplicit', hne⟩
          cases hi'
          cases hexplicit'
          exact hne hsame.symm
        · intro hnot
          exact Classical.byContradiction fun hne =>
            hnot ⟨i, explicit, rfl, hsuggests, rfl, Ne.symm hne⟩

end Module.Loader

/-! ## What a qualifier leads to -/

variable {L : Loader}

/-- The outcome of looking for the path behind a qualifier in a file of a package. -/
def lookupOutcome (p : Package) (file : SourceFile) (qualifier : String) :
    Option String → Except ResolveError String
  | some path => .ok path
  | none => .error (.importNotFound qualifier p.path file.name)

theorem lookupOutcome_injective {p : Package} {file : SourceFile} {qualifier : String}
    {found found' : Option String}
    (h : lookupOutcome p file qualifier found = lookupOutcome p file qualifier found') :
    found = found' := by
  cases found <;> cases found' <;> cases h <;> rfl

/-- A qualifier leads to the path of the first import that binds it, in the order of the file and
whatever has been loaded before, and fails if there is none. This is the path of the first import
that has the qualifier for its explicit name, or else of the first one without a name whose package
is so called, if and only if the explicit name has not been overtaken by an import without a name
that leads elsewhere. -/
theorem importPath_explicit_iff (p : Package) (file : SourceFile) {qualifier : String}
    (hblank : qualifier ≠ "_") (hdot : qualifier ≠ ".") {cache : PackageCache L}
    (hcache : cache.Reached) :
    (importPath p file qualifier cache).result.map Subtype.val =
        lookupOutcome p file qualifier
          ((file.imports.find? (L.bindsQualifier qualifier)).map Go.Import.path) ∧
      ((importPath p file qualifier cache).result.map Subtype.val =
          lookupOutcome p file qualifier (L.explicitPath? file qualifier) ↔
        ¬ L.Overtaken file qualifier) := by
  have hfound : (importPath p file qualifier cache).result.map Subtype.val =
      lookupOutcome p file qualifier (L.pathBehind? file qualifier) := by
    rw [(steady_importPath p file qualifier).result cache hcache.honest]
    rcases answer_importPath (L := L) p file qualifier with ⟨m, hm, hpath, h⟩ | ⟨hpath, h⟩
    · rw [hpath, h]
      rfl
    · rw [hpath, h]
      rfl
  refine ⟨hfound, ?_⟩
  rw [hfound, ← Loader.pathBehind?_eq_explicitPath?_iff hblank hdot]
  exact ⟨lookupOutcome_injective, congrArg _⟩

/-- A loader that finds no package. -/
def Module.Loader.barren : Loader where
  load path := .error (.unresolved path "m")
  finite := ⟨[], fun _ _ h => by cases h⟩

/-- A file that has a plain import of a package that is taken to be called `uuid`, and behind it
one under this name. -/
def twoUuids : SourceFile :=
  ⟨"x.go", "app", [⟨4, none, "c/uuid"⟩, ⟨5, some "uuid", "a/b"⟩], []⟩

/-- The guessed name of the first import overtakes the explicit name of the second one. -/
theorem importPath_explicit_iff_guessed : ("uuid" ≠ "_" ∧ "uuid" ≠ ".") ∧
    (PackageCache.empty Loader.barren).Reached ∧
    Loader.barren.explicitPath? twoUuids "uuid" = some "a/b" ∧
    ∀ p : Package, (importPath p twoUuids "uuid" (.empty Loader.barren)).result.map Subtype.val =
      .ok "c/uuid" := by
  have hfirst : twoUuids.imports.find? (Loader.barren.bindsQualifier "uuid") =
      some ⟨4, none, "c/uuid"⟩ := by cbv
  have hexplicit : twoUuids.imports.find? (Loader.namedAs "uuid") =
      some ⟨5, some "uuid", "a/b"⟩ := by decide
  refine ⟨by decide, .empty, ?_, fun p => ?_⟩
  · rw [Loader.explicitPath?, hexplicit]
    rfl
  · rw [(importPath_explicit_iff p twoUuids (by decide) (by decide) .empty).1, hfirst]
    rfl

end StructCopy
