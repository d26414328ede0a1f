/-
  Proofs/Files/Order: the order in which files are stored.

  A store may hold its files in any order.  Looking up a location, asking for something
  below it and listing names in order all give the same answers for two stores that
  hold the same files under distinct locations, so that these stores are one source,
  and everything that is loaded and generated from them is the same.
-/
import Mathlib.Data.List.Nodup
import StructCopy.Module.Loading
import StructCopy.Proofs.Files.Addition
import StructCopy.Proofs.Generator.Repetition

set_option autoImplicit false

namespace StructCopy

namespace Files.Store

/-! ## Stores with the same files -/

/-- Every location holds one file. -/
def Distinct (s : Store) : Prop :=
  (s.files.map Prod.fst).Nodup

theorem lookup_eq_some_iff_mem {files : List (Location × String)}
    (h : (files.map Prod.fst).Nodup) {l : Location} {text : String} :
    files.lookup l = some text ↔ (l, text) ∈ files := by
  induction files with
  | nil => simp
  | cons file files ih =>
    obtain ⟨l', text'⟩ := file
    rw [List.map_cons, List.nodup_cons] at h
    rw [List.lookup_cons, List.mem_cons]
    by_cases hl : l = l'
    · subst hl
      have hmissing : (l, text) ∉ files := fun hmem =>
        h.1 (List.mem_map.2 ⟨(l, text), hmem, rfl⟩)
      simp [hmissing, eq_comm]
    · rw [beq_eq_false_iff_ne.2 hl, ih h.2]
      simp [hl]

theorem get?_eq_of_perm {s t : Store} (h : s.files.Perm t.files) (hs : s.Distinct)
    (l : Location) : s.get? l = t.get? l := by
  have ht : t.Distinct := (h.map Prod.fst).nodup_iff.1 hs
  ext text
  unfold get?
  rw [lookup_eq_some_iff_mem hs, lookup_eq_some_iff_mem ht, h.mem_iff]

theorem hasBelow_eq_of_perm {s t : Store} (h : s.files.Perm t.files) (l : Location) :
    s.hasBelow l = t.hasBelow l := by
  rw [Bool.eq_iff_iff]
  unfold hasBelow
  simp only [List.any_eq_true, h.mem_iff]

/-- Names in order are the same names in the same order. -/
theorem namesIn_eq_of_perm {s t : Store} (h : s.files.Perm t.files) (d : Location) :
    s.namesIn d = t.namesIn d := by
  unfold namesIn
  have hsorted : ∀ names : List String,
      (names.mergeSort (· ≤ ·)).Pairwise (fun a b => decide (a ≤ b) = true) :=
    List.pairwise_mergeSort decide_le_trans decide_le_total
  refine List.Perm.eq_of_pairwise (fun a b _ _ hab hba => ?_) (hsorted _) (hsorted _) ?_
  · exact String.le_antisymm (of_decide_eq_true hab) (of_decide_eq_true hba)
  · exact ((List.mergeSort_perm _ _).trans (h.filterMap fun file => d.entryName? file.1)).trans
      (List.mergeSort_perm _ _).symm

/-- Stores that hold the same files under distinct locations are one source. -/
theorem source_eq_of_perm {s t : Store} (h : s.files.Perm t.files) (hs : s.Distinct) :
    s.source = t.source := by
  have hread : s.read = t.read := by
    funext p
    unfold read
    rw [get?_eq_of_perm h hs]
  have hlist : s.list = t.list := by
    funext p
    unfold list
    dsimp only
    rw [hasBelow_eq_of_perm h, namesIn_eq_of_perm h]
  have hdirectory : s.isDirectory = t.isDirectory := by
    funext p
    unfold isDirectory
    rw [hasBelow_eq_of_perm h]
  unfold source
  simp only [hread, hlist, hdirectory]

/-! ## Storing files one after another -/

/-- A file under the location of its path. -/
def located (file : String × String) : Location × String :=
  (Location.ofPath ⟨file.1⟩, file.2)

/-- Storing at new locations replaces nothing. -/
theorem perm_foldl_insert {files : List (String × String)} {s : Store}
    (h : ((files.map located ++ s.files).map Prod.fst).Nodup) :
    (files.foldl (fun s file => s.insert ⟨file.1⟩ file.2) s).files.Perm
      (files.map located ++ s.files) := by
  induction files generalizing s with
  | nil => exact List.Perm.refl _
  | cons file files ih =>
    have hmove : (located file :: files.map located ++ s.files).Perm
        (files.map located ++ located file :: s.files) := List.perm_middle.symm
    have hnodup := (hmove.map Prod.fst).nodup_iff.1 h
    have hinsert : (s.insert ⟨file.1⟩ file.2).files = located file :: s.files := by
      refine files_insert fun other hmem heq => ?_
      rw [List.map_append, List.map_cons] at hnodup
      have hnew := (List.nodup_cons.1 (List.nodup_append.1 hnodup).2.1).1
      exact hnew (List.mem_map.2 ⟨other, hmem, heq⟩)
    rw [List.foldl_cons]
    refine (ih ?_).trans ?_
    · rw [hinsert]
      exact hnodup
    · rw [hinsert]
      exact hmove.symm

/-- Files with distinct locations are all stored. -/
theorem perm_ofList {files : List (String × String)}
    (h : (files.map fun file => Location.ofPath ⟨file.1⟩).Nodup) :
    (ofList files).files.Perm (files.map located) := by
  have hnodup : ((files.map located ++ empty.files).map Prod.fst).Nodup := by
    rw [empty, List.append_nil, List.map_map]
    exact h
  have hperm := perm_foldl_insert hnodup
  rwa [empty, List.append_nil] at hperm

end Files.Store

/-! ## Everything read from a store -/

open Files (Store Location)
open StructCopy.Module (BuildEnv GoModule)

/-- Files with distinct locations, stored one after another in any two orders, and stores that keep
them in any order: the module is found alike, every import path is loaded as the same package or
fails with the same error, and so every run of every configuration and every inspection of a type
comes to the same end. -/
theorem answers_independent_of_order {files files' : List (String × String)}
    (hfiles : files.Perm files')
    (hdistinct : (files.map fun file => Location.ofPath ⟨file.1⟩).Nodup) {s s' : Store}
    (hs : s.files.Perm (Store.ofList files).files)
    (hs' : s'.files.Perm (Store.ofList files').files) :
    (∀ root, GoModule.discover s.source root = GoModule.discover s'.source root) ∧
      ∀ (m : GoModule) (env : BuildEnv),
        (∀ path, m.load s.source env path = m.load s'.source env path) ∧
        (∀ config global n,
          ((Session.afterRuns (m.loader s.source env) config global n).generate config global).1 =
              ((Session.afterRuns (m.loader s'.source env) config global n).generate config
                global).1 ∧
            (Session.afterRuns (m.loader s.source env) config global n).aliases =
              (Session.afterRuns (m.loader s'.source env) config global n).aliases) ∧
        ∀ key, inspect (m.loader s.source env) key = inspect (m.loader s'.source env) key := by
  have hdistinct' : (files'.map fun file => Location.ofPath ⟨file.1⟩).Nodup :=
    (hfiles.map _).nodup_iff.1 hdistinct
  have hlocated : s.files.Perm (files.map Store.located) :=
    hs.trans (Store.perm_ofList hdistinct)
  have hsame : s.files.Perm s'.files :=
    (hlocated.trans (hfiles.map Store.located)).trans
      (hs'.trans (Store.perm_ofList hdistinct')).symm
  have hstore : s.Distinct := by
    refine (hlocated.map Prod.fst).nodup_iff.2 ?_
    rw [List.map_map]
    exact hdistinct
  have hsource : s.source = s'.source := Store.source_eq_of_perm hsame hstore
  rw [hsource]
  exact ⟨fun _ => rfl, fun _ _ => ⟨fun _ => rfl, fun _ _ _ => ⟨rfl, rfl⟩, fun _ => rfl⟩⟩

/-- Two files of a directory that disagree about the package, stored in either order. -/
theorem answers_independent_of_order_clash :
    [("/m/a.go", "package a\n"), ("/m/./b.go", "package b\n")].Perm
        [("/m/./b.go", "package b\n"), ("/m/a.go", "package a\n")] ∧
      ([("/m/a.go", "package a\n"), ("/m/./b.go", "package b\n")].map fun file =>
        Location.ofPath ⟨file.1⟩).Nodup ∧
      ∀ (m : GoModule) (env : BuildEnv) (path : String),
        m.load (Store.ofList [("/m/a.go", "package a\n"), ("/m/./b.go", "package b\n")]).source env
            path =
          m.load (Store.ofList [("/m/./b.go", "package b\n"), ("/m/a.go", "package a\n")]).source
            env path := by
  have hperm : [("/m/a.go", "package a\n"), ("/m/./b.go", "package b\n")].Perm
      [("/m/./b.go", "package b\n"), ("/m/a.go", "package a\n")] := List.Perm.swap _ _ _
  have hdistinct : ([("/m/a.go", "package a\n"), ("/m/./b.go", "package b\n")].map fun file =>
      Location.ofPath ⟨file.1⟩).Nodup := by decide
  refine ⟨hperm, hdistinct, fun m env path => ?_⟩
  exact ((answers_independent_of_order hperm hdistinct (List.Perm.refl _)
    (List.Perm.refl _)).2 m env).1 path

end StructCopy
