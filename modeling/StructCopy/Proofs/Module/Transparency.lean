/-
  Proofs/Module/Transparency: what a package cache may answer.

  A cache is honest if every name it keeps is the name that its loader accounts for.
  The empty cache is honest, and loading packages and asking for names keeps a cache
  honest; an honest cache answers every question as its loader does, whatever has
  been asked before.
-/
import StructCopy.Module.Cache

set_option autoImplicit false

namespace StructCopy.Module

/-- The name that an import of a path binds: the declared name of the package, or the guessed
one if the package does not load. -/
def Loader.nameOf (L : Loader) (path : String) : String :=
  match L.load path with
  | .ok package => package.name
  | .error _ => guessName path

theorem Loader.load_cases (L : Loader) (path : String) :
    (∃ package, L.load path = .ok package) ∨ ∃ e, L.load path = .error e := by
  cases L.load path with
  | ok package => exact .inl ⟨package, rfl⟩
  | error e => exact .inr ⟨e, rfl⟩

namespace PackageCache

variable {L : Loader}

/-- Every name that is kept is the one that the loader accounts for. -/
def Honest (c : PackageCache L) : Prop :=
  ∀ path name, c.names.lookup path = some name → name = L.nameOf path

/-- The caches that come about by loading packages and asking for their names. -/
inductive Reached : PackageCache L → Prop where
  | empty : Reached (.empty L)
  | load {c : PackageCache L} (path : String) (h : Reached c) : Reached (c.load path).2
  | packageName {c : PackageCache L} (path : String) (h : Reached c) :
      Reached (c.packageName path).2

/-! ## Honest caches -/

theorem honest_empty : (PackageCache.empty L).Honest := by
  intro path name h
  simp [empty] at h

/-- One more name, if it is the right one, leaves the look-ups right. -/
theorem lookup_cons_eq_nameOf {names : List (String × String)} {path : String}
    (h : ∀ p name, names.lookup p = some name → name = L.nameOf p) :
    ∀ p name, ((path, L.nameOf path) :: names).lookup p = some name → name = L.nameOf p := by
  intro p name hlookup
  by_cases hp : p = path
  · subst hp
    rw [List.lookup_cons_self] at hlookup
    exact (Option.some.inj hlookup).symm
  · rw [List.lookup_cons, beq_eq_false_iff_ne.2 hp] at hlookup
    exact h p name hlookup

theorem Honest.load {c : PackageCache L} (h : c.Honest) (path : String) :
    (c.load path).2.Honest := by
  unfold PackageCache.load
  split
  · exact h
  · split
    · exact h
    · next package hload =>
      have hname : package.name = L.nameOf path := by
        unfold Loader.nameOf
        rw [hload]
      intro p name hlookup
      dsimp only at hlookup
      rw [hname] at hlookup
      exact lookup_cons_eq_nameOf h p name hlookup

theorem Honest.packageName {c : PackageCache L} (h : c.Honest) (path : String) :
    (c.packageName path).1 = L.nameOf path ∧ (c.packageName path).2.Honest := by
  have hfst := c.load_fst path
  have hkept := h.load path
  unfold PackageCache.packageName
  split
  · next name hlookup => exact ⟨h path name hlookup, h⟩
  · split
    · next package after hload =>
      rw [hload] at hfst hkept
      refine ⟨?_, hkept⟩
      unfold Loader.nameOf
      rw [← hfst]
    · next e after hload =>
      rw [hload] at hfst hkept
      have hname : guessName path = L.nameOf path := by
        unfold Loader.nameOf
        rw [← hfst]
      refine ⟨hname, ?_⟩
      intro p name hlookup
      dsimp only at hlookup
      rw [hname] at hlookup
      exact lookup_cons_eq_nameOf hkept p name hlookup

theorem Reached.honest {c : PackageCache L} (h : c.Reached) : c.Honest := by
  induction h with
  | empty => exact honest_empty
  | load path _ ih => exact ih.load path
  | packageName path _ ih => exact (ih.packageName path).2

end PackageCache

end StructCopy.Module
