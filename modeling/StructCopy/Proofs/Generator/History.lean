/-
  Proofs/Generator/History: what a session was asked before does not show.

  A session may be asked for the fields of types, for packages and their names, and to
  register import paths, in any order and with any outcome.  Each request keeps the
  cache honest and only adds to the aliases, so the fields of a type, or the error that
  takes their place, are those of a fresh session, and the names that are given out
  already stay as they are.
-/
import StructCopy.Proofs.Generator.Repetition

set_option autoImplicit false

namespace StructCopy

open StructCopy.Module (Loader)

/-! ## Bindings -/

/-- What is registered later is bound behind what was registered before. -/
theorem Aliases.Extends.bindings {a b : Aliases} (h : a.Extends b) : a.bindings <+: b.bindings := by
  obtain ⟨more, hmore⟩ := h.numbered
  unfold Aliases.bindings
  rw [← hmore, List.zipIdx_append, List.map_append]
  exact List.prefix_append _ _

/-! ## Requests -/

/-- What a session may be asked. -/
inductive Request where
  /-- the fields of a type -/
  | fields (key : TypeKey)
  /-- the name that an import path binds -/
  | packageName (path : String)
  /-- the package of an import path -/
  | package (path : String)
  /-- names for import paths -/
  | names (paths : List String)
  deriving DecidableEq, Repr

namespace Session

variable {L : Loader}

/-- What a request leaves, whether it succeeds or fails. -/
def serve (s : Session L) : Request → Session L
  | .fields key => (s.explore (expand key)).2
  | .packageName path => { s with cache := (s.cache.packageName path).2 }
  | .package path => { s with cache := (s.cache.load path).2 }
  | .names paths => s.register paths

/-- What requests leave, one after another. -/
def serveAll (s : Session L) (requests : List Request) : Session L :=
  requests.foldl serve s

theorem serveAll_append (s : Session L) (requests more : List Request) :
    s.serveAll (requests ++ more) = (s.serveAll requests).serveAll more :=
  List.foldl_append

theorem honest_serve {s : Session L} (h : s.cache.Honest) (request : Request) :
    (s.serve request).cache.Honest := by
  unfold serve
  cases request with
  | fields key =>
    dsimp only
    rw [explore_expand h]
    exact (steady_expand key).honest _ h
  | packageName path => exact (h.packageName path).2
  | package path => exact h.load path
  | names paths => exact h

theorem extends_serve (s : Session L) (request : Request) :
    s.aliases.Extends (s.serve request).aliases := by
  unfold serve
  cases request with
  | fields key => exact Aliases.extends_registerAll _ _
  | packageName path => exact .refl _
  | package path => exact .refl _
  | names paths => exact Aliases.extends_registerAll _ _

theorem honest_serveAll {s : Session L} (h : s.cache.Honest) (requests : List Request) :
    (s.serveAll requests).cache.Honest := by
  induction requests generalizing s with
  | nil => exact h
  | cons request rest ih => exact ih (honest_serve h request)

theorem extends_serveAll (s : Session L) (requests : List Request) :
    s.aliases.Extends (s.serveAll requests).aliases := by
  induction requests generalizing s with
  | nil => exact .refl _
  | cons request rest ih => exact (s.extends_serve request).trans (ih _)

end Session

/-- Whatever a session was asked before, a type has the fields, or the error, that it has in a fresh
session.  What the search for them finds is registered behind all that has been bound at any time
before, and it does not depend on the past either. -/
theorem fields_independent_of_history (L : Loader) (past : List Request) (key : TypeKey) :
    let before := (Session.fresh L).serveAll past
    let after := before.explore (expand key)
    after.1 = ((Session.fresh L).explore (expand key)).1 ∧
      before.aliases.bindings <+: after.2.aliases.bindings ∧
      (∀ earlier, earlier <+: past →
        ((Session.fresh L).serveAll earlier).aliases.bindings <+: before.aliases.bindings) ∧
      after.2.aliases = before.aliases.registerAll (L.foundFor key) := by
  intro before after
  have hfresh : (Session.fresh L).cache.Honest := Module.PackageCache.honest_empty
  have hbefore : before.cache.Honest := Session.honest_serveAll hfresh past
  have hfirst : (Session.fresh L).explore (expand key) = _ := Session.explore_expand hfresh key
  have hafter : after = _ := Session.explore_expand hbefore key
  rw [hfirst, hafter]
  refine ⟨rfl, (Aliases.extends_registerAll _ _).bindings, ?_, rfl⟩
  rintro earlier ⟨later, hpast⟩
  have hlater : before = ((Session.fresh L).serveAll earlier).serveAll later := by
    rw [← Session.serveAll_append, hpast]
  rw [hlater]
  exact (Session.extends_serveAll _ later).bindings

end StructCopy
