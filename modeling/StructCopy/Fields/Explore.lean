/-
  Fields/Explore: computations that load packages and come upon modules.

  An exploration starts from a package cache and ends with a result or an error, the
  modules it discovered, in order, and the cache as it is then.  Discoveries and
  loaded packages are kept when the exploration fails.
-/
import StructCopy.Fields.Basic
import StructCopy.Module.Cache

set_option autoImplicit false

namespace StructCopy

open StructCopy.Module (Loader Package PackageCache)

/-- How an exploration ends. -/
structure Visit (L : Loader) (α : Type) where
  result : Except ResolveError α
  /-- the modules discovered, in order, repetitions included -/
  discovered : List String
  cache : PackageCache L

/-- An exploration. -/
def Explore (L : Loader) (α : Type) : Type :=
  PackageCache L → Visit L α

namespace Explore

variable {L : Loader}

/-- Nothing to explore. -/
def pure {α : Type} (a : α) : Explore L α :=
  fun cache => ⟨.ok a, [], cache⟩

/-- One exploration after another; the second one is left out if the first one fails. -/
def bind {α β : Type} (x : Explore L α) (f : α → Explore L β) : Explore L β :=
  fun cache =>
    let v := x cache
    match v.result with
    | .error e => ⟨.error e, v.discovered, v.cache⟩
    | .ok a =>
      let w := f a v.cache
      ⟨w.result, v.discovered ++ w.discovered, w.cache⟩

instance : Monad (Explore L) where
  pure := Explore.pure
  bind := Explore.bind

/-- Fails. -/
def fail {α : Type} (e : ResolveError) : Explore L α :=
  fun cache => ⟨.error e, [], cache⟩

/-- Discovers modules. -/
def discover (modules : List String) : Explore L Unit :=
  fun cache => ⟨.ok (), modules, cache⟩

/-- A type template, or its fault. -/
def ofTemplate (t : Except TemplateError TypeTemplate) : Explore L TypeTemplate :=
  fun cache => ⟨t.mapError .template, [], cache⟩

/-- The package of a module, as the loader answers it. -/
def package (module : String) : Explore L { p : Package // L.load module = .ok p } :=
  fun cache =>
    match h : cache.load module with
    | (.ok p, after) => ⟨.ok ⟨p, by rw [← cache.load_fst, h]⟩, [], after⟩
    | (.error e, after) => ⟨.error (.load module e), [], after⟩

/-- The name that an import of a module binds. -/
def packageName (module : String) : Explore L String :=
  fun cache =>
    let answer := cache.packageName module
    ⟨.ok answer.1, [], answer.2⟩

end Explore

end StructCopy
