/-
  Proofs/Fields/Steady: explorations whose outcome does not depend on the past.

  A steady exploration ends the same way from every honest cache and leaves an honest
  cache, so its outcome is that of a fresh cache: `answer` and `found`.  The single
  steps of an exploration are steady, and so is one steady exploration after another;
  the lemmas on `bind` say what comes of it.
-/
import StructCopy.Fields.Explore
import StructCopy.Proofs.Module.Transparency

set_option autoImplicit false

namespace StructCopy.Explore

open StructCopy.Module (Loader Package PackageCache)

variable {L : Loader} {α β : Type}

/-- How an exploration ends when nothing has been loaded before. -/
def answer (x : Explore L α) : Except ResolveError α :=
  (x (.empty L)).result

/-- The modules that an exploration discovers when nothing has been loaded before. -/
def found (x : Explore L α) : List String :=
  (x (.empty L)).discovered

/-- The exploration ends in the same way from every honest cache, and leaves an honest one. -/
structure Steady (x : Explore L α) : Prop where
  honest : ∀ c : PackageCache L, c.Honest → (x c).cache.Honest
  result : ∀ c : PackageCache L, c.Honest → (x c).result = x.answer
  discovered : ∀ c : PackageCache L, c.Honest → (x c).discovered = x.found

/-- To be steady it suffices to have one outcome for all honest caches. -/
theorem Steady.of_forall {x : Explore L α} (r : Except ResolveError α) (ds : List String)
    (h : ∀ c : PackageCache L, c.Honest →
      (x c).cache.Honest ∧ (x c).result = r ∧ (x c).discovered = ds) : x.Steady := by
  obtain ⟨-, hr, hds⟩ := h (.empty L) PackageCache.honest_empty
  constructor
  · exact fun c hc => (h c hc).1
  · intro c hc
    rw [(h c hc).2.1]
    exact hr.symm
  · intro c hc
    rw [(h c hc).2.2]
    exact hds.symm

/-! ## One after another -/

theorem run_bind_ok {x : Explore L α} {f : α → Explore L β} {c : PackageCache L} {a : α}
    (h : (x c).result = .ok a) :
    (x >>= f) c = ⟨(f a (x c).cache).result,
      (x c).discovered ++ (f a (x c).cache).discovered, (f a (x c).cache).cache⟩ := by
  change Explore.bind x f c = _
  unfold Explore.bind
  simp only [h]

theorem run_bind_error {x : Explore L α} {f : α → Explore L β} {c : PackageCache L}
    {e : ResolveError} (h : (x c).result = .error e) :
    (x >>= f) c = ⟨.error e, (x c).discovered, (x c).cache⟩ := by
  change Explore.bind x f c = _
  unfold Explore.bind
  simp only [h]

theorem Steady.bind {x : Explore L α} {f : α → Explore L β} (hx : x.Steady)
    (hf : ∀ a, (f a).Steady) : (x >>= f).Steady := by
  cases h : x.answer with
  | error e =>
    refine .of_forall (.error e) x.found ?_
    intro c hc
    rw [run_bind_error ((hx.result c hc).trans h)]
    exact ⟨hx.honest c hc, rfl, hx.discovered c hc⟩
  | ok a =>
    refine .of_forall (f a).answer (x.found ++ (f a).found) ?_
    intro c hc
    have hafter := hx.honest c hc
    rw [run_bind_ok ((hx.result c hc).trans h)]
    refine ⟨(hf a).honest _ hafter, (hf a).result _ hafter, ?_⟩
    dsimp only
    rw [hx.discovered c hc, (hf a).discovered _ hafter]

theorem answer_bind_ok {x : Explore L α} {f : α → Explore L β} {a : α} (hx : x.Steady)
    (hf : (f a).Steady) (h : x.answer = .ok a) : (x >>= f).answer = (f a).answer := by
  have hafter := hx.honest _ PackageCache.honest_empty
  unfold answer
  rw [run_bind_ok h]
  exact hf.result _ hafter

theorem answer_bind_error {x : Explore L α} {f : α → Explore L β} {e : ResolveError}
    (h : x.answer = .error e) : (x >>= f).answer = .error e := by
  unfold answer
  rw [run_bind_error h]

theorem found_bind_ok {x : Explore L α} {f : α → Explore L β} {a : α} (hx : x.Steady)
    (hf : (f a).Steady) (h : x.answer = .ok a) : (x >>= f).found = x.found ++ (f a).found := by
  have hafter := hx.honest _ PackageCache.honest_empty
  unfold found
  rw [run_bind_ok h]
  exact congrArg _ (hf.discovered _ hafter)

/-! ## Single steps -/

theorem Steady.pure (a : α) : (Pure.pure a : Explore L α).Steady :=
  .of_forall (.ok a) [] fun _ hc => ⟨hc, rfl, rfl⟩

@[simp] theorem answer_pure (a : α) : (Pure.pure a : Explore L α).answer = .ok a := rfl

theorem Steady.fail (e : ResolveError) : (Explore.fail e : Explore L α).Steady :=
  .of_forall (.error e) [] fun _ hc => ⟨hc, rfl, rfl⟩

@[simp] theorem answer_fail (e : ResolveError) :
    (Explore.fail e : Explore L α).answer = .error e := rfl

theorem Steady.discover (modules : List String) :
    (Explore.discover modules : Explore L Unit).Steady :=
  .of_forall (.ok ()) modules fun _ hc => ⟨hc, rfl, rfl⟩

@[simp] theorem answer_discover (modules : List String) :
    (Explore.discover modules : Explore L Unit).answer = .ok () := rfl

theorem Steady.ofTemplate (t : Except TemplateError TypeTemplate) :
    (Explore.ofTemplate t : Explore L TypeTemplate).Steady :=
  .of_forall (t.mapError .template) [] fun _ hc => ⟨hc, rfl, rfl⟩

@[simp] theorem answer_ofTemplate (t : Except TemplateError TypeTemplate) :
    (Explore.ofTemplate t : Explore L TypeTemplate).answer = t.mapError .template := rfl

theorem Steady.packageName (module : String) :
    (Explore.packageName module : Explore L String).Steady := by
  refine .of_forall (.ok (L.nameOf module)) [] ?_
  intro c hc
  obtain ⟨hname, hafter⟩ := hc.packageName module
  exact ⟨hafter, congrArg Except.ok hname, rfl⟩

@[simp] theorem answer_packageName (module : String) :
    (Explore.packageName module : Explore L String).answer = .ok (L.nameOf module) :=
  congrArg Except.ok (PackageCache.honest_empty.packageName module).1

/-- Loading a package that the loader has. -/
theorem run_package_ok {module : String} {p : Package} (h : L.load module = .ok p)
    (c : PackageCache L) :
    Explore.package module c = ⟨.ok ⟨p, h⟩, [], (c.load module).2⟩ := by
  have hfst := c.load_fst module
  unfold Explore.package
  split
  · next q after hload =>
    have hafter := congrArg Prod.snd hload
    rw [hload] at hfst
    have hq : q = p := Except.ok.inj (hfst.trans h)
    subst hq
    rw [hafter]
  · next e after hload =>
    rw [hload, h] at hfst
    cases hfst

/-- Loading a package that the loader does not have. -/
theorem run_package_error {module : String} {e : Module.LoadError} (h : L.load module = .error e)
    (c : PackageCache L) :
    Explore.package module c = ⟨.error (.load module e), [], (c.load module).2⟩ := by
  have hfst := c.load_fst module
  unfold Explore.package
  split
  · next q after hload =>
    rw [hload, h] at hfst
    cases hfst
  · next e' after hload =>
    have hafter := congrArg Prod.snd hload
    rw [hload] at hfst
    have he : e' = e := Except.error.inj (hfst.trans h)
    subst he
    rw [hafter]

theorem answer_package_ok {module : String} {p : Package} (h : L.load module = .ok p) :
    (Explore.package module : Explore L _).answer = .ok ⟨p, h⟩ := by
  unfold answer
  rw [run_package_ok h]

theorem found_package_ok {module : String} {p : Package} (h : L.load module = .ok p) :
    (Explore.package module : Explore L _).found = [] := by
  unfold found
  rw [run_package_ok h]

theorem answer_package_error {module : String} {e : Module.LoadError}
    (h : L.load module = .error e) :
    (Explore.package module : Explore L _).answer = .error (.load module e) := by
  unfold answer
  rw [run_package_error h]

theorem Steady.package (module : String) : (Explore.package module : Explore L _).Steady := by
  rcases L.load_cases module with ⟨p, h⟩ | ⟨e, h⟩
  · refine .of_forall (.ok ⟨p, h⟩) [] ?_
    intro c hc
    rw [run_package_ok h]
    exact ⟨hc.load module, rfl, rfl⟩
  · refine .of_forall (.error (.load module e)) [] ?_
    intro c hc
    rw [run_package_error h]
    exact ⟨hc.load module, rfl, rfl⟩

end StructCopy.Explore
