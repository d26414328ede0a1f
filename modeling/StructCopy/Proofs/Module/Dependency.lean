/-
  Proofs/Module/Dependency: the required module that a path is looked for in.

  It is the one with the longest path among those that the path lies in, where the path of a
  module has to end with the path or in front of a slash.  Two such paths of one length are
  the same path, so that the order of the requirements does not matter.
-/
import Mathlib.Data.List.Nodup
import StructCopy.Files.Store
import StructCopy.Module.Directory

set_option autoImplicit false

namespace StructCopy

/-! ## A directory with a path behind it -/

namespace Files.Path

/-- The text of a directory with the rest of a path behind it, set off by a slash. -/
inductive Followed (base : Path) : String → Path → Prop where
  | nothing : Followed base "" base
  | direct {rest : String} (hrest : rest ≠ "")
      (hbase : base.text = "" ∨ base.text.toList.getLast? = some '/') :
      Followed base rest ⟨base.text ++ rest⟩
  | slash {rest : String} (hrest : rest ≠ "") (hbase : base.text ≠ "")
      (hslash : base.text.toList.getLast? ≠ some '/') :
      Followed base rest ⟨base.text ++ "/" ++ rest⟩

end Files.Path

namespace Module

open StructCopy.Files (FileSource)

namespace GoModule

theorem below_of_slash {rest : String} (h : rest.toList.head? = some '/') (base : Files.Path) :
    below base rest = ⟨rest⟩ := by
  have hne : rest.isEmpty = false := by
    rw [Bool.eq_false_iff, ne_eq, String.isEmpty_iff]
    rintro rfl
    cases h
  rw [below, hne, if_neg Bool.false_ne_true, Files.Path.joinText, Files.Path.join,
    Files.Path.isAbsolute, h, if_pos (beq_self_eq_true _)]

theorem followed_below {rest : String} (h : rest.toList.head? ≠ some '/') (base : Files.Path) :
    base.Followed rest (below base rest) := by
  unfold below
  split
  · next hempty =>
    rw [String.isEmpty_iff.1 hempty]
    exact .nothing
  next hempty =>
  rw [String.isEmpty_iff] at hempty
  rw [Files.Path.joinText, Files.Path.join, Files.Path.isAbsolute, if_neg (by simpa using h)]
  split
  · next hbase =>
    rw [Bool.or_eq_true, String.isEmpty_iff, beq_iff_eq] at hbase
    exact .direct hempty hbase
  · next hbase =>
    rw [Bool.or_eq_true, String.isEmpty_iff, beq_iff_eq, not_or] at hbase
    exact .slash hempty hbase.1 hbase.2

/-- The rest of a path is put behind a directory unless it begins with a slash: then it takes the
place of the directory. -/
theorem followed_below_iff {base : Files.Path} {rest : String} :
    base.Followed rest (below base rest) ↔ base.text = "" ∨ rest.toList.head? ≠ some '/' := by
  by_cases h : rest.toList.head? = some '/'
  · rw [below_of_slash h]
    constructor
    · intro hfollowed
      generalize hdir : (⟨rest⟩ : Files.Path) = dir at hfollowed
      have htext : rest.length = dir.text.length := congrArg (fun d => d.text.length) hdir
      cases hfollowed with
      | nothing => cases h
      | direct =>
        rw [String.length_append] at htext
        exact .inl (String.length_eq_zero_iff.1 (by omega))
      | slash =>
        rw [String.length_append, String.length_append, show "/".length = 1 from rfl] at htext
        omega
    · rintro (hbase | hno)
      · have hne : rest ≠ "" := by
          rintro rfl
          cases h
        have hdirect : base.Followed rest ⟨base.text ++ rest⟩ := .direct hne (.inl hbase)
        rwa [hbase, String.empty_append] at hdirect
      · exact absurd h hno
  · exact iff_of_true (followed_below h base) (.inr h)

end GoModule

/-! ## Modules that a path lies in -/

/-- The path is that of the module, or goes on behind it with a slash and the rest. -/
inductive LiesIn (path module : String) : String → Prop where
  | itself (h : path = module) : LiesIn path module ""
  | inside {rest : String} (h : path = module ++ "/" ++ rest) : LiesIn path module rest

theorem within?_eq_some_iff {path module rest : String} (hpath : path ≠ "") :
    within? path module = some rest ↔ LiesIn path module rest := by
  have hsplit : path = module ++ "/" ++ rest ↔
      path.toList = module.toList ++ '/' :: rest.toList := by
    rw [← String.toList_inj, String.toList_append, String.toList_append, List.append_assoc]
    rfl
  unfold within?
  split
  · next hself =>
    rw [Bool.or_eq_true, String.isEmpty_iff, beq_iff_eq] at hself
    have hself := hself.resolve_left hpath
    constructor
    · intro h
      cases h
      exact .itself hself
    · intro h
      cases h with
      | itself => rfl
      | inside hrest =>
        -- a path is not longer than itself
        rw [hself] at hrest
        have hlength := congrArg String.length hrest
        rw [String.length_append, String.length_append, show "/".length = 1 from rfl] at hlength
        omega
  next hself =>
  rw [Bool.or_eq_true, String.isEmpty_iff, beq_iff_eq, not_or] at hself
  constructor
  · intro h
    split at h
    · next hafter =>
      cases h
      refine .inside (hsplit.2 ?_)
      rw [Text.after?_eq_some.1 hafter, String.toList_ofList]
    · cases h
  · intro h
    cases h with
    | itself hmodule => exact absurd hmodule hself.2
    | inside hrest =>
      rw [Text.after?_eq_some.2 (hsplit.1 hrest)]
      exact congrArg some String.ofList_toList

/-- Of the modules that a path lies in, no two have paths of one length. -/
theorem LiesIn.unique {path module module' rest rest' : String} (h : LiesIn path module rest)
    (h' : LiesIn path module' rest') (hlength : module.length = module'.length) :
    module = module' ∧ rest = rest' := by
  have hfront : ∀ {m r}, LiesIn path m r → ∃ behind, path.toList = m.toList ++ behind ∧
      (behind = [] ∧ r = "" ∨ behind = '/' :: r.toList) := by
    intro m r h
    cases h with
    | itself h => exact ⟨[], by rw [h, List.append_nil], .inl ⟨rfl, rfl⟩⟩
    | inside h =>
      refine ⟨'/' :: r.toList, ?_, .inr rfl⟩
      rw [h, String.toList_append, String.toList_append, List.append_assoc]
      rfl
  obtain ⟨behind, hsplit, hbehind⟩ := hfront h
  obtain ⟨behind', hsplit', hbehind'⟩ := hfront h'
  rw [hsplit] at hsplit'
  obtain ⟨hmodule, heq⟩ := List.append_inj hsplit'
    (by rwa [String.length_toList, String.length_toList])
  refine ⟨String.toList_inj.1 hmodule, String.toList_inj.1 ?_⟩
  rcases hbehind with ⟨rfl, rfl⟩ | rfl <;> rcases hbehind' with ⟨rfl, rfl⟩ | rfl
  · rfl
  · cases heq
  · cases heq
  · exact (List.cons.inj heq).2

/-! ## The longest one -/

namespace GoModule

theorem longer_eq_or (best : Option (Requirement × String)) (r : Requirement × String) :
    longer best r = r ∨ best = some (longer best r) := by
  cases best with
  | none => exact .inl rfl
  | some b =>
    unfold longer
    dsimp only
    split
    · exact .inr rfl
    · exact .inl rfl

theorem length_le_longer {best : Option (Requirement × String)} {r c : Requirement × String}
    (h : c = r ∨ best = some c) : c.1.path.length ≤ (longer best r).1.path.length := by
  cases best with
  | none =>
    rcases h with rfl | h
    · exact Nat.le_refl _
    · cases h
  | some b =>
    rw [Option.some_inj] at h
    unfold longer
    dsimp only
    split
    · next hlonger => rcases h with rfl | rfl <;> omega
    · next hlonger => rcases h with rfl | rfl <;> omega

/-- What is kept of some candidates is one of them, and none is longer. -/
theorem foldl_longer {cs : List (Requirement × String)} {start : Option (Requirement × String)}
    {best : Requirement × String}
    (h : cs.foldl (fun best r => some (longer best r)) start = some best) :
    (best ∈ cs ∨ start = some best) ∧
      ∀ c, c ∈ cs ∨ start = some c → c.1.path.length ≤ best.1.path.length := by
  induction cs generalizing start with
  | nil =>
    refine ⟨.inr h, fun c hc => ?_⟩
    cases h.symm.trans (hc.resolve_left List.not_mem_nil)
    exact Nat.le_refl _
  | cons r cs ih =>
    obtain ⟨hmem, hlongest⟩ := ih h
    have hbest := hlongest _ (.inr rfl)
    constructor
    · rcases hmem with hmem | hmem
      · exact .inl (List.mem_cons_of_mem _ hmem)
      · cases hmem
        refine (longer_eq_or start r).imp_left fun heq => ?_
        rw [heq]
        exact List.mem_cons_self
    · rintro c (hc | hc)
      · rcases List.mem_cons.1 hc with rfl | hc
        · exact Nat.le_trans (length_le_longer (.inl rfl)) hbest
        · exact hlongest c (.inl hc)
      · exact Nat.le_trans (length_le_longer (.inr hc)) hbest

theorem foldl_longer_ne_none {cs : List (Requirement × String)} (hne : cs ≠ []) :
    cs.foldl (fun best r => some (longer best r)) none ≠ none := by
  have hsome : ∀ (cs : List (Requirement × String)) b,
      cs.foldl (fun best r => some (longer best r)) (some b) ≠ none := by
    intro cs
    induction cs with
    | nil => exact fun b => nofun
    | cons c cs ih => exact fun b => ih _
  obtain ⟨c, cs, rfl⟩ := List.exists_cons_of_ne_nil hne
  exact hsome cs _

variable {m : GoModule} {env : BuildEnv} {path rest : String} {r : Requirement}

/-- The requirement whose path is longer than that of any other one that the path lies in. -/
structure Longest (m : GoModule) (path : String) (r : Requirement) (rest : String) : Prop where
  mem : r ∈ m.file.requires
  lies : LiesIn path r.path rest
  longest : ∀ r' ∈ m.file.requires, ∀ rest', LiesIn path r'.path rest' → r' ≠ r →
    r'.path.length < r.path.length

theorem Longest.unique {r' : Requirement} {rest' : String} (h : m.Longest path r rest)
    (h' : m.Longest path r' rest') : r = r' ∧ rest = rest' := by
  have heq : r = r' := by
    by_contra hne
    have hlt := h.longest r' h'.mem rest' h'.lies (Ne.symm hne)
    have hgt := h'.longest r h.mem rest h.lies hne
    omega
  subst heq
  exact ⟨rfl, (h.lies.unique h'.lies rfl).2⟩

/-- Every required path is named once. -/
def DistinctRequires (m : GoModule) : Prop :=
  (m.file.requires.map (·.path)).Nodup

/-- Every replaced path is named once. -/
def DistinctReplaces (m : GoModule) : Prop :=
  (m.file.replaces.map (·.path)).Nodup

theorem exists_longest (hrequires : m.DistinctRequires) (hr : r ∈ m.file.requires)
    (hlies : LiesIn path r.path rest) (hpath : path ≠ "") :
    ∃ r' rest', m.requirementFor? path = some (r', rest') ∧ m.Longest path r' rest' := by
  have hcandidate : ∀ {r rest}, r ∈ m.file.requires → LiesIn path r.path rest →
      (r, rest) ∈ m.file.requires.filterMap
        fun r => (within? path r.path).map fun rest => (r, rest) := by
    intro r rest hr hlies
    refine List.mem_filterMap.2 ⟨r, hr, ?_⟩
    rw [(within?_eq_some_iff hpath).2 hlies]
    rfl
  obtain ⟨⟨r', rest'⟩, hfound⟩ := Option.ne_none_iff_exists'.1
    (foldl_longer_ne_none (List.ne_nil_of_mem (hcandidate hr hlies)))
  obtain ⟨hmem, hlongest⟩ := foldl_longer hfound
  obtain ⟨r'', hr', hrest⟩ := List.mem_filterMap.1 (hmem.resolve_right nofun)
  obtain ⟨rest'', hwithin, heq⟩ := Option.map_eq_some_iff.1 hrest
  cases heq
  have hlies' := (within?_eq_some_iff hpath).1 hwithin
  refine ⟨r', rest', hfound, hr', hlies', fun d hd drest hdlies hne => ?_⟩
  refine Nat.lt_of_le_of_ne (hlongest (d, drest) (.inl (hcandidate hd hdlies))) fun hlength => ?_
  -- paths of one length that the path lies in are one path, and each path is required once
  exact hne (List.inj_on_of_nodup_map hrequires hd hr' (hdlies.unique hlies' hlength).1)

theorem requirementFor?_eq_some_iff (hrequires : m.DistinctRequires) (hpath : path ≠ "") :
    m.requirementFor? path = some (r, rest) ↔ m.Longest path r rest := by
  constructor
  · intro h
    have hmem := (foldl_longer h).1.resolve_right nofun
    obtain ⟨r', hr, hrest⟩ := List.mem_filterMap.1 hmem
    obtain ⟨rest', hwithin, heq⟩ := Option.map_eq_some_iff.1 hrest
    cases heq
    obtain ⟨r', rest', hfound, hlongest⟩ :=
      exists_longest hrequires hr ((within?_eq_some_iff hpath).1 hwithin) hpath
    cases h.symm.trans hfound
    exact hlongest
  · intro h
    obtain ⟨r', rest', hfound, hlongest⟩ := exists_longest hrequires h.mem h.lies hpath
    obtain ⟨rfl, rfl⟩ := h.unique hlongest
    exact hfound

/-! ## Where it is kept -/

/-- The directory that a required module is kept in: that of its replacement if there is one, else
the one of its version in the module cache. -/
inductive KeptIn (m : GoModule) (env : BuildEnv) (r : Requirement) : Files.Path → Prop where
  | directory {target : String} (h : ⟨r.path, target, none⟩ ∈ m.file.replaces) :
      KeptIn m env r (m.root.joinText target)
  | version {target version : String} {cache : Files.Path}
      (h : ⟨r.path, target, some version⟩ ∈ m.file.replaces)
      (hcache : env.moduleCache = some cache) :
      KeptIn m env r (cache.joinText (cacheName target version))
  | required {cache : Files.Path} (h : ∀ x ∈ m.file.replaces, x.path ≠ r.path)
      (hcache : env.moduleCache = some cache) :
      KeptIn m env r (cache.joinText (cacheName r.path r.version))

theorem find?_replaces (hreplaces : m.DistinctReplaces) {x : Replacement} :
    m.file.replaces.find? (fun x => x.path == r.path) = some x ↔
      x ∈ m.file.replaces ∧ x.path = r.path := by
  have hfound : ∀ {x}, m.file.replaces.find? (fun x => x.path == r.path) = some x →
      x.path = r.path := fun h => by simpa using List.find?_some h
  constructor
  · intro h
    exact ⟨List.mem_of_find?_eq_some h, hfound h⟩
  · rintro ⟨hx, hpath⟩
    cases h : m.file.replaces.find? (fun x => x.path == r.path) with
    | none => exact absurd (beq_iff_eq.2 hpath) (List.find?_eq_none.1 h x hx)
    | some y =>
      have hy : y.path = x.path := (hfound h).trans hpath.symm
      rw [List.inj_on_of_nodup_map hreplaces (List.mem_of_find?_eq_some h) hx hy]

theorem requirementDir?_eq_some_iff (hreplaces : m.DistinctReplaces) {base : Files.Path} :
    m.requirementDir? env r = some base ↔ m.KeptIn env r base := by
  have hcached : ∀ path version, cached? env path version = some base ↔
      ∃ cache, env.moduleCache = some cache ∧ cache.joinText (cacheName path version) = base :=
    fun _ _ => Option.map_eq_some_iff
  unfold requirementDir?
  constructor
  · intro h
    split at h
    · next hfind =>
      cases h
      obtain ⟨hx, hpath⟩ := (find?_replaces hreplaces).1 hfind
      cases hpath
      exact .directory hx
    · next hfind =>
      obtain ⟨hx, hpath⟩ := (find?_replaces hreplaces).1 hfind
      cases hpath
      obtain ⟨cache, hcache, rfl⟩ := (hcached _ _).1 h
      exact .version hx hcache
    · next hfind =>
      obtain ⟨cache, hcache, rfl⟩ := (hcached _ _).1 h
      exact .required (fun x hx => by simpa using List.find?_eq_none.1 hfind x hx) hcache
  · intro h
    cases h with
    | directory h => rw [(find?_replaces hreplaces).2 ⟨h, rfl⟩]
    | version h hcache =>
      rw [(find?_replaces hreplaces).2 ⟨h, rfl⟩]
      exact (hcached _ _).2 ⟨_, hcache, rfl⟩
    | required h hcache =>
      rw [List.find?_eq_none.2 fun x hx => by simpa using h x hx]
      exact (hcached _ _).2 ⟨_, hcache, rfl⟩

/-- The directory that a path has in the required module with the longest path. -/
def DependencyDir (m : GoModule) (env : BuildEnv) (path : String) (dir : Files.Path) : Prop :=
  ∃ r rest base, m.Longest path r rest ∧ m.KeptIn env r base ∧ below base rest = dir

theorem dependencyDir?_eq_some_iff (hrequires : m.DistinctRequires)
    (hreplaces : m.DistinctReplaces) (hpath : path ≠ "") {dir : Files.Path} :
    m.dependencyDir? env path = some dir ↔ m.DependencyDir env path dir := by
  unfold dependencyDir? DependencyDir
  constructor
  · intro h
    obtain ⟨⟨r, rest⟩, hfound, hdir⟩ := Option.bind_eq_some_iff.1 h
    obtain ⟨base, hbase, heq⟩ := Option.bind_eq_some_iff.1 hdir
    exact ⟨r, rest, base, (requirementFor?_eq_some_iff hrequires hpath).1 hfound,
      (requirementDir?_eq_some_iff hreplaces).1 hbase, Option.some.inj heq⟩
  · rintro ⟨r, rest, base, hlongest, hkept, rfl⟩
    refine Option.bind_eq_some_iff.2
      ⟨(r, rest), (requirementFor?_eq_some_iff hrequires hpath).2 hlongest, ?_⟩
    exact Option.bind_eq_some_iff.2
      ⟨base, (requirementDir?_eq_some_iff hreplaces).2 hkept, rfl⟩

/-! ## The order of the directives -/

/-- The modules have the same root and path, and declare the same in any order. -/
structure Reordered (m m' : GoModule) : Prop where
  root : m.root = m'.root
  path : m.file.path = m'.file.path
  requires : m.file.requires.Perm m'.file.requires
  replaces : m.file.replaces.Perm m'.file.replaces

variable {m' : GoModule}

theorem Reordered.symm (h : m.Reordered m') : m'.Reordered m :=
  ⟨h.root.symm, h.path.symm, h.requires.symm, h.replaces.symm⟩

theorem Reordered.longest (h : m.Reordered m') (hlongest : m.Longest path r rest) :
    m'.Longest path r rest where
  mem := h.requires.mem_iff.1 hlongest.mem
  lies := hlongest.lies
  longest r' hr' := hlongest.longest r' (h.requires.mem_iff.2 hr')

theorem Reordered.keptIn (h : m.Reordered m') {base : Files.Path} (hkept : m.KeptIn env r base) :
    m'.KeptIn env r base := by
  cases hkept with
  | directory hx =>
    rw [h.root]
    exact .directory (h.replaces.mem_iff.1 hx)
  | version hx hcache => exact .version (h.replaces.mem_iff.1 hx) hcache
  | required hx hcache => exact .required (fun x hmem => hx x (h.replaces.mem_iff.2 hmem)) hcache

theorem Reordered.dependencyDir (h : m.Reordered m') {dir : Files.Path}
    (hdir : m.DependencyDir env path dir) : m'.DependencyDir env path dir := by
  obtain ⟨r, rest, base, hlongest, hkept, rfl⟩ := hdir
  exact ⟨r, rest, base, h.longest hlongest, h.keptIn hkept, rfl⟩

theorem Reordered.packageDir?_eq (h : m.Reordered m') (hrequires : m.DistinctRequires)
    (hreplaces : m.DistinctReplaces) (source : FileSource) (env : BuildEnv) (path : String) :
    m.packageDir? source env path = m'.packageDir? source env path := by
  have hrequires' : m'.DistinctRequires := (h.requires.map _).nodup_iff.1 hrequires
  have hreplaces' : m'.DistinctReplaces := (h.replaces.map _).nodup_iff.1 hreplaces
  unfold packageDir?
  rw [← h.path, ← h.root]
  split
  · rfl
  · next hwithin =>
    have hpath : path ≠ "" := by
      rintro rfl
      cases hwithin
    have hdir : m.dependencyDir? env path = m'.dependencyDir? env path := by
      ext dir
      rw [dependencyDir?_eq_some_iff hrequires hreplaces hpath,
        dependencyDir?_eq_some_iff hrequires' hreplaces' hpath]
      exact ⟨h.dependencyDir, h.symm.dependencyDir⟩
    rw [hdir]

/-! ## Package directories -/

/-- A path that is looked for among the required modules: it lies neither in the module itself nor
among the vendored packages. -/
structure Foreign (m : GoModule) (source : FileSource) (path : String) : Prop where
  outside : within? path m.file.path = none
  notVendored : source.isDirectory ((m.root.joinText "vendor").joinText path) = false

theorem Foreign.packageDir?_eq {source : FileSource} (h : m.Foreign source path)
    (env : BuildEnv) :
    m.packageDir? source env path = ((m.dependencyDir? env path).filter source.isDirectory).or
      ((standardDir? env path).filter source.isDirectory) := by
  unfold packageDir?
  rw [h.outside]
  dsimp only
  rw [h.notVendored, if_neg Bool.false_ne_true]

theorem Foreign.ne_empty {source : FileSource} (h : m.Foreign source path) : path ≠ "" := by
  rintro rfl
  cases h.outside

/-- Among the required modules a path is looked for in the one with the longest path that it lies
in, which there is if it lies in any; the directory is that of the module with the rest of the path
behind it, unless the rest begins with a slash.  The order of the directives does not matter. -/
theorem packageDir?_longest {m : GoModule} (hrequires : m.DistinctRequires)
    (hreplaces : m.DistinctReplaces) :
    (∀ source env path, m.Foreign source path →
      (∀ dir, m.DependencyDir env path dir → source.isDirectory dir = true →
        m.packageDir? source env path = some dir) ∧
      ((∀ dir, m.DependencyDir env path dir → source.isDirectory dir = false) →
        m.packageDir? source env path = (standardDir? env path).filter source.isDirectory) ∧
      ∀ r ∈ m.file.requires, ∀ rest, LiesIn path r.path rest →
        ∃! found : Requirement × String, m.Longest path found.1 found.2) ∧
    (∀ (base : Files.Path) (rest : String), base.Followed rest (below base rest) ↔
      base.text = "" ∨ rest.toList.head? ≠ some '/') ∧
    ∀ m', m.Reordered m' → ∀ source env path,
      m.packageDir? source env path = m'.packageDir? source env path := by
  refine ⟨fun source env path hforeign => ?_, fun _ _ => followed_below_iff,
    fun m' h => h.packageDir?_eq hrequires hreplaces⟩
  have hdir : ∀ dir, m.dependencyDir? env path = some dir ↔ m.DependencyDir env path dir :=
    fun _ => dependencyDir?_eq_some_iff hrequires hreplaces hforeign.ne_empty
  rw [hforeign.packageDir?_eq]
  refine ⟨fun dir hdep hinside => ?_, fun hnone => ?_, fun r hr rest hlies => ?_⟩
  · rw [(hdir dir).2 hdep, Option.filter_some, if_pos hinside, Option.some_or]
  · cases hfound : m.dependencyDir? env path with
    | none => rw [Option.filter_none, Option.none_or]
    | some dir =>
      rw [Option.filter_some, hnone dir ((hdir dir).1 hfound), if_neg Bool.false_ne_true,
        Option.none_or]
  · obtain ⟨r', rest', -, hlongest⟩ := exists_longest hrequires hr hlies hforeign.ne_empty
    refine ⟨(r', rest'), hlongest, fun found hfound => ?_⟩
    obtain ⟨hr, hrest⟩ := hfound.unique hlongest
    exact Prod.ext hr hrest

/-- A module that requires another module and one inside it, which is replaced by a directory. -/
def nestedModule : GoModule :=
  ⟨⟨"/m"⟩, ⟨"m", [⟨"e.com/lib", "v1"⟩, ⟨"e.com/lib/sub", "v2"⟩, ⟨"e.com/li", "v3"⟩],
    [⟨"e.com/lib/sub", "../sub", none⟩]⟩⟩

/-- A build with a module cache. -/
def cachedEnv : BuildEnv :=
  ⟨⟨"linux", "amd64", true⟩, some ⟨"/cache"⟩, none⟩

/-- The files of the inner module, its like in the module cache, and files elsewhere. -/
def nestedFiles : Files.Store :=
  .ofList [("/sub/x/a.go", ""), ("/cache/e.com/lib@v1/sub/x/a.go", ""), ("/etc/a.go", "")]

/-- The inner module is chosen, and another slash leads out of the module. -/
theorem packageDir?_longest_nested :
    nestedModule.DistinctRequires ∧ nestedModule.DistinctReplaces ∧
      nestedModule.packageDir? nestedFiles.source cachedEnv "e.com/lib/sub/x" =
        some ⟨"/m/../sub/x"⟩ ∧
      nestedModule.packageDir? nestedFiles.source cachedEnv "e.com/lib//etc" = some ⟨"/etc"⟩ ∧
      ¬ (⟨"/cache/e.com/lib@v1"⟩ : Files.Path).Followed "/etc" ⟨"/etc"⟩ := by
  have hrequires : nestedModule.DistinctRequires := by
    unfold DistinctRequires
    decide
  have hreplaces : nestedModule.DistinctReplaces := by
    unfold DistinctReplaces
    decide
  obtain ⟨hdirs, hfollowed, -⟩ := packageDir?_longest hrequires hreplaces
  have hinner : nestedModule.Longest "e.com/lib/sub/x" ⟨"e.com/lib/sub", "v2"⟩ "x" := by
    refine ⟨by decide, .inside rfl, fun r' hr' _ _ hne => ?_⟩
    have hshorter : ∀ r' ∈ nestedModule.file.requires, r' ≠ ⟨"e.com/lib/sub", "v2"⟩ →
        r'.path.length < "e.com/lib/sub".length := by decide
    exact hshorter r' hr' hne
  have houter : nestedModule.Longest "e.com/lib//etc" ⟨"e.com/lib", "v1"⟩ "/etc" := by
    refine ⟨by decide, .inside rfl, fun r' hr' rest' hlies hne => ?_⟩
    have hwithin : ∀ r' ∈ nestedModule.file.requires, r' ≠ ⟨"e.com/lib", "v1"⟩ →
        within? "e.com/lib//etc" r'.path = none := by decide
    rw [← within?_eq_some_iff (by decide), hwithin r' hr' hne] at hlies
    cases hlies
  have hreplaced : nestedModule.KeptIn cachedEnv ⟨"e.com/lib/sub", "v2"⟩ ⟨"/m/../sub"⟩ := by
    have hdir : nestedModule.root.joinText "../sub" = ⟨"/m/../sub"⟩ := by decide
    rw [← hdir]
    exact .directory (by decide)
  have hcached : nestedModule.KeptIn cachedEnv ⟨"e.com/lib", "v1"⟩ ⟨"/cache/e.com/lib@v1"⟩ := by
    have hdir : (⟨"/cache"⟩ : Files.Path).joinText (cacheName "e.com/lib" "v1") =
        ⟨"/cache/e.com/lib@v1"⟩ := by decide
    rw [← hdir]
    exact .required (by decide) rfl
  have hslash : below ⟨"/cache/e.com/lib@v1"⟩ "/etc" = ⟨"/etc"⟩ := below_of_slash rfl _
  refine ⟨hrequires, hreplaces, ?_, ?_, ?_⟩
  · obtain ⟨hfound, -, -⟩ := hdirs nestedFiles.source cachedEnv "e.com/lib/sub/x"
      ⟨by decide, by decide⟩
    exact hfound _ ⟨_, _, _, hinner, hreplaced, by decide⟩ (by decide)
  · obtain ⟨hfound, -, -⟩ := hdirs nestedFiles.source cachedEnv "e.com/lib//etc"
      ⟨by decide, by decide⟩
    exact hfound _ ⟨_, _, _, houter, hcached, hslash⟩ (by decide)
  · rw [← hslash, hfollowed]
    decide

end GoModule

end Module

end StructCopy
