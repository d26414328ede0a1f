/-
  Module/Cache: loaded packages, kept for later use.

  A cache over a loader keeps the packages that loaded and the names that import
  paths bind, and remembers what it asked its loader for.  `sound` says that a kept
  package is what the loader answers; `load_fst` draws the conclusion that a cache
  answers exactly as its loader does.
-/
import StructCopy.Module.ImportPath
import StructCopy.Module.Package

set_option autoImplicit false

namespace StructCopy.Module

/-- What has been loaded through a loader so far. -/
structure PackageCache (L : Loader) where
  /-- packages that loaded, by import path -/
  packages : List (String × Package)
  /-- package names, declared or guessed, by import path -/
  names : List (String × String)
  /-- the paths that the loader was asked for, in order -/
  asked : List String
  sound : ∀ path package, packages.lookup path = some package → L.load path = .ok package

namespace PackageCache

variable {L : Loader}

/-- Nothing has been loaded. -/
def empty (L : Loader) : PackageCache L where
  packages := []
  names := []
  asked := []
  sound := by simp

/-- Loads a package, asking the loader only if the package is not kept yet. -/
def load (c : PackageCache L) (path : String) : Except LoadError Package × PackageCache L :=
  match c.packages.lookup path with
  | some package => (.ok package, c)
  | none =>
    match h : L.load path with
    | .error e => (.error e, { c with asked := c.asked ++ [path] })
    | .ok package =>
      (.ok package,
        { packages := (path, package) :: c.packages
          names := (path, package.name) :: c.names
          asked := c.asked ++ [path]
          sound := by
            intro p q hq
            by_cases hp : p = path
            · subst hp
              simp only [List.lookup_cons_self, Option.some.injEq] at hq
              rw [← hq]
              exact h
            · rw [List.lookup_cons, beq_eq_false_iff_ne.2 hp] at hq
              exact c.sound p q hq })

theorem load_fst (c : PackageCache L) (path : String) : (c.load path).1 = L.load path := by
  unfold load
  split
  · next package h => rw [c.sound path package h]
  · split <;> simp_all

/-- The name that an import of a path binds: the declared name of the package if it loads, the
name that the path suggests otherwise. -/
def packageName (c : PackageCache L) (path : String) : String × PackageCache L :=
  match c.names.lookup path with
  | some name => (name, c)
  | none =>
    match c.load path with
    | (.ok package, c) => (package.name, c)
    | (.error _, c) => (guessName path, { c with names := (path, guessName path) :: c.names })

end PackageCache

end StructCopy.Module
