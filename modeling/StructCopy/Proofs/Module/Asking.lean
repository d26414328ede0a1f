/-
  Proofs/Module/Asking: when a package cache asks its loader.

  A cache is asked for packages and for the names that import paths bind, in any order.
  What it keeps is a matter of the questions so far: the packages that loaded, and the
  names of these and of the paths that somebody wanted to have the name of.  So every
  question is answered as the loader accounts for, and it is settled which of them get
  as far as the loader.
-/
import StructCopy.Proofs.Module.Transparency

set_option autoImplicit false

namespace StructCopy.Module

/-! ## Questions -/

/-- A question to a package cache. -/
inductive Query where
  /-- for the package of an import path -/
  | package (path : String)
  /-- for the name that an import path binds -/
  | name (path : String)
  deriving DecidableEq, Repr

/-- An answer to a question. -/
inductive Answer where
  | package (found : Except LoadError Package)
  | name (name : String)

namespace Query

/-- The path that a question is about. -/
def path : Query → String
  | .package p => p
  | .name p => p

/-- The answer to a question where packages load as `load` says. -/
def answer (load : String → Except LoadError Package) : Query → Answer
  | .package path => .package (load path)
  | .name path =>
    match load path with
    | .ok found => .name found.name
    | .error _ => .name (guessName path)

/-- Behind the questions `past`, a question gets as far as the loader. About a path that loads,
this is the first question; about another one, every question for the package and the first one
for the name. -/
def Asks (load : String → Except LoadError Package) (past : List Query) (q : Query) : Prop :=
  match load q.path with
  | .ok _ => q.path ∉ past.map path
  | .error _ => q = .package q.path ∨ q ∉ past

instance (load : String → Except LoadError Package) (past : List Query) (q : Query) :
    Decidable (q.Asks load past) := by
  unfold Asks
  split <;> infer_instance

theorem mem_paths_concat {past : List Query} {q : Query} {p : String} :
    p ∈ (past ++ [q]).map path ↔ p ∈ past.map path ∨ p = q.path := by
  simp

theorem mem_concat_iff {past : List Query} {q q' : Query} :
    q' ∈ past ++ [q] ↔ q' ∈ past ∨ q' = q := by
  simp

end Query

/-! ## Single questions -/

namespace PackageCache

variable {L : Loader} {c : PackageCache L} {path : String}

/-- A package that is kept is not loaded again. -/
theorem load_of_kept {package : Package} (h : c.packages.lookup path = some package) :
    c.load path = (.ok package, c) := by
  unfold PackageCache.load
  split
  · next found hfound =>
    rw [hfound] at h
    cases h
    rfl
  · next hnone =>
    rw [hnone] at h
    cases h

/-- A path that does not load is not remembered. -/
theorem load_of_error {e : LoadError} (h : L.load path = .error e) :
    c.load path = (.error e, { c with asked := c.asked ++ [path] }) := by
  unfold PackageCache.load
  split
  · next package hkept =>
    have hload := c.sound path package hkept
    rw [h] at hload
    cases hload
  · split
    · next e' hload =>
      rw [h] at hload
      cases hload
      rfl
    · next package hload =>
      rw [h] at hload
      cases hload

/-- A package that is new is kept with its name. -/
theorem load_of_new {package : Package} (hkept : c.packages.lookup path = none)
    (h : L.load path = .ok package) :
    (c.load path).1 = .ok package ∧
      (c.load path).2.packages = (path, package) :: c.packages ∧
      (c.load path).2.names = (path, package.name) :: c.names ∧
      (c.load path).2.asked = c.asked ++ [path] := by
  unfold PackageCache.load
  split
  · next found hfound =>
    rw [hkept] at hfound
    cases hfound
  · split
    · next e hload =>
      rw [h] at hload
      cases hload
    · next found hload =>
      rw [h] at hload
      cases hload
      exact ⟨rfl, rfl, rfl, rfl⟩

/-- Answers a question. -/
def serve (c : PackageCache L) : Query → Answer × PackageCache L
  | .package path => (.package (c.load path).1, (c.load path).2)
  | .name path => (.name (c.packageName path).1, (c.packageName path).2)

/-- Answers questions one after another. -/
def serveAll (c : PackageCache L) : List Query → List Answer × PackageCache L
  | [] => ([], c)
  | q :: more =>
    ((c.serve q).1 :: ((c.serve q).2.serveAll more).1, ((c.serve q).2.serveAll more).2)

/-! ## What a cache remembers -/

/-- Behind the questions `past`, the packages that are kept are those of the paths that load, and
names are kept for these paths and for those whose name was asked for. -/
structure Remembers (c : PackageCache L) (past : List Query) : Prop where
  packages : ∀ path, (c.packages.lookup path).isSome = true ↔
    (∃ package, L.load path = .ok package) ∧ path ∈ past.map Query.path
  names : ∀ path, (c.names.lookup path).isSome = true ↔
    ((∃ package, L.load path = .ok package) ∧ path ∈ past.map Query.path) ∨ .name path ∈ past
  honest : c.Honest

theorem isSome_lookup_cons {α : Type} {p : String} {a : α} {kept : List (String × α)} :
    (((path, a) :: kept).lookup p).isSome = true ↔ p = path ∨ (kept.lookup p).isSome = true := by
  by_cases hp : p = path
  · subst hp
    simp
  · rw [List.lookup_cons, beq_eq_false_iff_ne.2 hp]
    simp [hp]

theorem remembers_empty : (PackageCache.empty L).Remembers [] where
  packages path := by simp [empty]
  names path := by simp [empty]
  honest := honest_empty

variable {past : List Query}

/-- A question that changes nothing was answered from what is remembered. -/
theorem Remembers.again (h : c.Remembers past) {q : Query}
    (hpath : q.path ∈ past.map Query.path) (hload : ∃ package, L.load q.path = .ok package) :
    c.Remembers (past ++ [q]) where
  packages p := by
    rw [h.packages, Query.mem_paths_concat]
    refine and_congr_right fun _ => ⟨.inl, fun hp => hp.elim id ?_⟩
    rintro rfl
    exact hpath
  names p := by
    rw [h.names, Query.mem_paths_concat, Query.mem_concat_iff]
    constructor
    · rintro (⟨hp, hmem⟩ | hmem)
      · exact .inl ⟨hp, .inl hmem⟩
      · exact .inr (.inl hmem)
    · rintro (⟨hp, hmem | rfl⟩ | hmem | rfl)
      · exact .inl ⟨hp, hmem⟩
      · exact .inl ⟨hp, hpath⟩
      · exact .inr hmem
      · exact .inl ⟨hload, hpath⟩
  honest := h.honest

/-- A package that was loaded is remembered with its name, whichever of the two was asked for. -/
theorem Remembers.keep (h : c.Remembers past) {q : Query} {package : Package}
    (hload : L.load q.path = .ok package) {c' : PackageCache L}
    (hpackages : c'.packages = (q.path, package) :: c.packages)
    (hnames : c'.names = (q.path, package.name) :: c.names) (hhonest : c'.Honest) :
    c'.Remembers (past ++ [q]) where
  packages p := by
    rw [hpackages, isSome_lookup_cons, h.packages, Query.mem_paths_concat]
    constructor
    · rintro (rfl | ⟨hp, hmem⟩)
      · exact ⟨⟨package, hload⟩, .inr rfl⟩
      · exact ⟨hp, .inl hmem⟩
    · rintro ⟨hp, hmem | rfl⟩
      · exact .inr ⟨hp, hmem⟩
      · exact .inl rfl
  names p := by
    rw [hnames, isSome_lookup_cons, h.names, Query.mem_paths_concat, Query.mem_concat_iff]
    constructor
    · rintro (rfl | ⟨hp, hmem⟩ | hmem)
      · exact .inl ⟨⟨package, hload⟩, .inr rfl⟩
      · exact .inl ⟨hp, .inl hmem⟩
      · exact .inr (.inl hmem)
    · rintro (⟨hp, hmem | rfl⟩ | hmem | rfl)
      · exact .inr (.inl ⟨hp, hmem⟩)
      · exact .inl rfl
      · exact .inr (.inr hmem)
      · exact .inl rfl
  honest := hhonest

/-- A path that does not load leaves a name at most, if the question was for its name. -/
theorem Remembers.miss (h : c.Remembers past) {q : Query} {e : LoadError}
    (hload : L.load q.path = .error e) {c' : PackageCache L} (hpackages : c'.packages = c.packages)
    (hnames : ∀ p, (c'.names.lookup p).isSome = true ↔
      .name p = q ∨ (c.names.lookup p).isSome = true) (hhonest : c'.Honest) :
    c'.Remembers (past ++ [q]) := by
  have hpaths : ∀ p, (∃ package, L.load p = .ok package) →
      (p ∈ (past ++ [q]).map Query.path ↔ p ∈ past.map Query.path) := by
    rintro p ⟨package, hp⟩
    rw [Query.mem_paths_concat]
    refine or_iff_left ?_
    rintro rfl
    rw [hload] at hp
    cases hp
  refine ⟨fun p => ?_, fun p => ?_, hhonest⟩
  · rw [hpackages, h.packages]
    exact and_congr_right fun hp => (hpaths p hp).symm
  · rw [hnames, h.names, and_congr_right (hpaths p), Query.mem_concat_iff, or_comm, or_assoc]

/-! ## Which questions reach the loader -/

/-- A question for a package gets as far as the loader if no package is kept. -/
theorem Remembers.asks_package_iff (h : c.Remembers past) :
    (Query.package path).Asks L.load past ↔ c.packages.lookup path = none := by
  rw [← Option.not_isSome_iff_eq_none, h.packages]
  unfold Query.Asks Query.path
  split
  · next package hload =>
    exact ⟨fun hnew hmem => hnew hmem.2, fun h hmem => h ⟨⟨package, hload⟩, hmem⟩⟩
  · next e hload =>
    refine iff_of_true (.inl rfl) ?_
    rintro ⟨⟨package, hpackage⟩, -⟩
    rw [hload] at hpackage
    cases hpackage

/-- A question for a name gets as far as the loader if no name is kept. -/
theorem Remembers.asks_name_iff (h : c.Remembers past) :
    (Query.name path).Asks L.load past ↔ c.names.lookup path = none := by
  rw [← Option.not_isSome_iff_eq_none, h.names, not_or]
  have hpath : .name path ∈ past → path ∈ past.map Query.path :=
    fun hname => List.mem_map_of_mem (f := Query.path) hname
  unfold Query.Asks Query.path
  split
  · next package hload =>
    exact ⟨fun hnew => ⟨fun hmem => hnew hmem.2, fun hname => hnew (hpath hname)⟩,
      fun hnew hmem => hnew.1 ⟨⟨package, hload⟩, hmem⟩⟩
  · next e hload =>
    have hfails : ¬ ∃ package, L.load path = .ok package := by
      rintro ⟨package, hpackage⟩
      rw [hload] at hpackage
      cases hpackage
    exact ⟨fun hnew => ⟨fun hmem => hfails hmem.1, hnew.elim nofun id⟩, fun hnew => .inr hnew.2⟩

/-- What a question for a package leaves, and whether it was passed on to the loader. -/
theorem serve_package (h : c.Remembers past) (path : String) :
    (c.load path).2.Remembers (past ++ [Query.package path]) ∧
      (c.load path).2.asked =
        c.asked ++ if (Query.package path).Asks L.load past then [path] else [] := by
  have hhonest := h.honest.load path
  cases hkept : c.packages.lookup path with
  | some package =>
    have hknown := (h.packages path).1 (by rw [hkept]; rfl)
    rw [load_of_kept hkept, if_neg (by rw [h.asks_package_iff, hkept]; exact nofun),
      List.append_nil]
    exact ⟨h.again (q := .package path) hknown.2 hknown.1, rfl⟩
  | none =>
    rw [if_pos (h.asks_package_iff.2 hkept)]
    rcases L.load_cases path with ⟨package, hload⟩ | ⟨e, hload⟩
    · obtain ⟨-, hpackages, hnames, hasked⟩ := load_of_new hkept hload
      exact ⟨h.keep (q := .package path) hload hpackages hnames hhonest, hasked⟩
    · rw [load_of_error hload] at hhonest ⊢
      exact ⟨h.miss (q := .package path) hload rfl (fun p => by simp) hhonest, rfl⟩

/-- What a question for a name leaves, and whether it was passed on to the loader. -/
theorem serve_name (h : c.Remembers past) (path : String) :
    (c.packageName path).2.Remembers (past ++ [Query.name path]) ∧
      (c.packageName path).2.asked =
        c.asked ++ if (Query.name path).Asks L.load past then [path] else [] := by
  have hhonest := (h.honest.packageName path).2
  unfold PackageCache.packageName at hhonest ⊢
  cases hkept : c.names.lookup path with
  | some name =>
    have hsome : (c.names.lookup path).isSome = true := by rw [hkept]; rfl
    rw [if_neg (by rw [h.asks_name_iff, hkept]; exact nofun), List.append_nil]
    refine ⟨?_, rfl⟩
    rcases L.load_cases path with hload | ⟨e, hload⟩
    · exact h.again (q := .name path) (((h.names path).1 hsome).elim And.right fun hname =>
        List.mem_map_of_mem (f := Query.path) hname) hload
    · refine h.miss (q := .name path) hload rfl (fun p => ⟨.inr, ?_⟩) h.honest
      rintro (hp | hp)
      · cases hp
        exact hsome
      · exact hp
  | none =>
    rw [if_pos (h.asks_name_iff.2 hkept)]
    rw [hkept] at hhonest
    rcases L.load_cases path with ⟨package, hload⟩ | ⟨e, hload⟩
    · have hnone : c.packages.lookup path = none := by
        rw [← Option.not_isSome_iff_eq_none, h.packages]
        intro hmem
        have hsome := (h.names path).2 (.inl hmem)
        rw [hkept] at hsome
        cases hsome
      obtain ⟨hfound, hpackages, hnames, hasked⟩ := load_of_new hnone hload
      rcases hafter : c.load path with ⟨found, after⟩
      rw [hafter] at hfound hpackages hnames hasked hhonest
      cases hfound
      exact ⟨h.keep (q := .name path) hload hpackages hnames hhonest, hasked⟩
    · rw [load_of_error hload] at hhonest ⊢
      refine ⟨h.miss (q := .name path) hload rfl (fun p => ?_) hhonest, rfl⟩
      rw [isSome_lookup_cons, Query.name.injEq]

/-- A question is answered as the loader accounts for; whether it gets as far as the loader depends
on the questions before it only. -/
theorem serve_eq (h : c.Remembers past) (q : Query) :
    (c.serve q).1 = q.answer L.load ∧ (c.serve q).2.Remembers (past ++ [q]) ∧
      (c.serve q).2.asked = c.asked ++ if q.Asks L.load past then [q.path] else [] := by
  cases q with
  | package path => exact ⟨congrArg Answer.package (c.load_fst path), serve_package h path⟩
  | name path =>
    refine ⟨?_, serve_name h path⟩
    change Answer.name (c.packageName path).1 = _
    rw [(h.honest.packageName path).1]
    unfold Loader.nameOf Query.answer
    dsimp only
    rcases L.load_cases path with ⟨package, hload⟩ | ⟨e, hload⟩ <;> rw [hload]

end PackageCache

/-! ## All questions -/

namespace Query

variable {load load' : String → Except LoadError Package}

/-- The paths that a loader is asked for by questions behind `past`, in order. -/
def calls (load : String → Except LoadError Package) : List Query → List Query → List String
  | _, [] => []
  | past, q :: more =>
    (if q.Asks load past then [q.path] else []) ++ calls load (past ++ [q]) more

/-- Only the path that a question is about has to be loaded. -/
theorem answer_congr {q : Query} (h : load' q.path = load q.path) :
    q.answer load' = q.answer load := by
  cases q with
  | package p => exact congrArg Answer.package h
  | name p =>
    change load' p = load p at h
    unfold answer
    dsimp only
    rw [h]

theorem asks_congr {q : Query} (h : load' q.path = load q.path) (past : List Query) :
    q.Asks load' past ↔ q.Asks load past := by
  unfold Asks
  rw [h]

theorem calls_congr {queries : List Query} (h : ∀ q ∈ queries, load' q.path = load q.path)
    (past : List Query) : calls load' past queries = calls load past queries := by
  induction queries generalizing past with
  | nil => rfl
  | cons q more ih =>
    obtain ⟨hq, hmore⟩ := List.forall_mem_cons.1 h
    unfold calls
    simp only [ih hmore, asks_congr hq past]

theorem calls_append (past before after : List Query) :
    calls load past (before ++ after) =
      calls load past before ++ calls load (past ++ before) after := by
  induction before generalizing past with
  | nil => rw [List.nil_append, calls, List.nil_append, List.append_nil]
  | cons q before ih =>
    rw [List.cons_append, calls, calls, ih, List.append_assoc, List.append_assoc,
      List.singleton_append]

theorem count_call (past : List Query) (q : Query) (path : String) :
    (if q.Asks load past then [q.path] else []).count path =
      if q.path = path ∧ q.Asks load past then 1 else 0 := by
  by_cases hasks : q.Asks load past
  · rw [if_pos hasks, List.count_singleton]
    simp [hasks]
  · rw [if_neg hasks, if_neg fun h => hasks h.2, List.count_nil]

/-- A path that loads is asked for once, by the first question about it. -/
theorem count_calls_of_ok {path : String} {package : Package} (h : load path = .ok package)
    (past queries : List Query) :
    (calls load past queries).count path =
      if path ∈ past.map Query.path then 0
      else if path ∈ queries.map Query.path then 1 else 0 := by
  induction queries generalizing past with
  | nil => simp [calls]
  | cons q more ih =>
    rw [calls, List.count_append, count_call, ih]
    by_cases hq : q.path = path
    · have hasks : q.Asks load past ↔ path ∉ past.map Query.path := by
        unfold Asks
        rw [hq, h]
      by_cases hpath : path ∈ past.map Query.path <;> simp_all
    · simp [hq, Ne.symm hq]

/-- A path that does not load is asked for by every question for its package, and once more by
the first question for its name. -/
theorem count_calls_of_error {path : String} {e : LoadError} (h : load path = .error e)
    (past queries : List Query) :
    (calls load past queries).count path = queries.count (.package path) +
      if .name path ∈ past then 0 else if .name path ∈ queries then 1 else 0 := by
  induction queries generalizing past with
  | nil => simp [calls]
  | cons q more ih =>
    rw [calls, List.count_append, count_call, ih]
    have hasks : q.path = path → (q.Asks load past ↔ q = .package path ∨ q ∉ past) := by
      rintro rfl
      unfold Asks
      rw [h]
    cases q with
    | package p =>
      by_cases hp : p = path
      · subst hp
        rw [if_pos ⟨rfl, (hasks rfl).2 (.inl rfl)⟩, List.count_cons_self]
        simp only [mem_concat_iff, reduceCtorEq, or_false, List.mem_cons, false_or]
        omega
      · rw [if_neg fun hq => hp hq.1, List.count_cons_of_ne (by simpa using hp)]
        simp
    | name p =>
      rw [List.count_cons_of_ne (by simp)]
      by_cases hp : p = path
      · subst hp
        by_cases hpast : Query.name p ∈ past
        · rw [if_neg fun hq => ((hasks rfl).1 hq.2).elim nofun (· hpast)]
          simp [hpast]
        · rw [if_pos ⟨rfl, (hasks rfl).2 (.inr hpast)⟩]
          simp [hpast]
          omega
      · rw [if_neg fun hq => hp hq.1]
        simp [Ne.symm hp]

end Query

/-- Questions are answered as the loader accounts for, one after another. -/
theorem PackageCache.serveAll_eq {L : Loader} {c : PackageCache L} {past : List Query}
    (h : c.Remembers past) (queries : List Query) :
    (c.serveAll queries).1 = queries.map (Query.answer L.load) ∧
      (c.serveAll queries).2.asked = c.asked ++ Query.calls L.load past queries := by
  induction queries generalizing c past with
  | nil => exact ⟨rfl, (List.append_nil _).symm⟩
  | cons q more ih =>
    obtain ⟨hanswer, hafter, hasked⟩ := serve_eq h q
    obtain ⟨hanswers, hcalls⟩ := ih hafter
    constructor
    · change (c.serve q).1 :: ((c.serve q).2.serveAll more).1 = _
      rw [hanswer, hanswers, List.map_cons]
    · change ((c.serve q).2.serveAll more).2.asked = _
      rw [hcalls, hasked, List.append_assoc, Query.calls]

/-- Whatever packages load as, some loader answers finitely many paths in this way. -/
theorem Loader.exists_load_eq (load : String → Except LoadError Package) (paths : List String) :
    ∃ L : Loader, ∀ path ∈ paths, L.load path = load path := by
  refine ⟨⟨fun path => if path ∈ paths then load path else .error (.unresolved path ""), ?_⟩,
    fun path hpath => if_pos hpath⟩
  refine ⟨paths.flatMap fun path => ((load path).toOption.map Package.files).getD [], ?_⟩
  intro path package hload file hfile
  split at hload
  · next hpath =>
    refine List.mem_flatMap.2 ⟨path, hpath, ?_⟩
    rw [hload]
    exact hfile
  · cases hload

/-- A cache over a loader is transparent.  Packages may load in any way at all, since some loader
answers the paths of the questions like this; over every such loader each question for a package or
a name is answered as packages load, and it is passed on to the loader exactly if `Asks` says so.
A path that loads is therefore asked for at most once; a path that does not load is asked for by
every question for its package, and once by all questions for its name together. -/
theorem cache_transparent (load : String → Except LoadError Package) (queries : List Query) :
    (∃ L : Loader, ∀ q ∈ queries, L.load q.path = load q.path) ∧
    ∀ L : Loader, (∀ q ∈ queries, L.load q.path = load q.path) →
      let asked := fun questions => ((PackageCache.empty L).serveAll questions).2.asked
      ((PackageCache.empty L).serveAll queries).1 = queries.map (Query.answer load) ∧
      (∀ past q more, queries = past ++ q :: more →
        asked (past ++ [q]) = asked past ++ if q.Asks load past then [q.path] else []) ∧
      (∀ path package, load path = .ok package → (asked queries).count path ≤ 1) ∧
      ∀ path e, load path = .error e → (asked queries).count path =
        queries.count (.package path) + if .name path ∈ queries then 1 else 0 := by
  refine ⟨?_, fun L hL => ?_⟩
  · obtain ⟨L, hL⟩ := Loader.exists_load_eq load (queries.map Query.path)
    exact ⟨L, fun q hq => hL q.path (List.mem_map_of_mem hq)⟩
  intro asked
  have hrun := PackageCache.serveAll_eq (PackageCache.remembers_empty (L := L))
  have hasked : ∀ questions, (∀ q ∈ questions, L.load q.path = load q.path) →
      asked questions = Query.calls load [] questions := by
    intro questions hquestions
    exact (hrun questions).2.trans (Query.calls_congr hquestions [])
  refine ⟨?_, ?_, ?_, ?_⟩
  · rw [(hrun queries).1]
    exact List.map_congr_left fun q hq => Query.answer_congr (hL q hq)
  · rintro past q more rfl
    have hpast : ∀ q' ∈ past ++ [q], L.load q'.path = load q'.path := fun q' hq' =>
      hL q' (by simpa using (List.mem_append.1 hq').imp_right fun h => Or.inl (by simpa using h))
    rw [hasked _ hpast, hasked past fun q' hq' => hL q' (List.mem_append_left _ hq'),
      Query.calls_append, List.nil_append, Query.calls, Query.calls, List.append_nil]
  · intro path package hload
    rw [hasked queries hL, Query.count_calls_of_ok hload]
    split
    · exact Nat.zero_le _
    · split <;> decide
  · intro path e hload
    rw [hasked queries hL, Query.count_calls_of_error hload, if_neg List.not_mem_nil]

/-- A loader with one package, whose name is not the one that its path suggests. -/
def modelsLoader : Loader where
  load path :=
    if path = "m/models" then .ok ⟨path, "entities", ⟨"/m/models"⟩, []⟩
    else .error (.unresolved path "m")
  finite := by
    refine ⟨[], fun path package hload file hfile => ?_⟩
    split at hload
    · cases hload
      exact hfile
    · cases hload

/-- Both kinds of questions, about the package and about a path that does not load. -/
def mixedQueries : List Query :=
  [.package "g/go-uuid", .name "g/go-uuid", .name "m/models", .package "m/models",
    .package "g/go-uuid", .name "g/go-uuid", .name "m/models"]

/-- The path that does not load is asked for three times, twice for its package and once for its
name; the package is loaded once, for its name. -/
theorem cache_transparent_mixed :
    (∀ q ∈ mixedQueries, modelsLoader.load q.path = modelsLoader.load q.path) ∧
      ((PackageCache.empty modelsLoader).serveAll mixedQueries).1 =
        mixedQueries.map (Query.answer modelsLoader.load) ∧
      ((PackageCache.empty modelsLoader).serveAll mixedQueries).2.asked.count "g/go-uuid" = 3 ∧
      ((PackageCache.empty modelsLoader).serveAll mixedQueries).2.asked.count "m/models" ≤ 1 := by
  have hsame : ∀ q ∈ mixedQueries, modelsLoader.load q.path = modelsLoader.load q.path :=
    fun _ _ => rfl
  obtain ⟨hanswers, -, hkept, hmissed⟩ :=
    (cache_transparent modelsLoader.load mixedQueries).2 modelsLoader hsame
  exact ⟨hsame, hanswers, hmissed "g/go-uuid" (.unresolved "g/go-uuid" "m") rfl,
    hkept "m/models" ⟨"m/models", "entities", ⟨"/m/models"⟩, []⟩ rfl⟩

end StructCopy.Module
