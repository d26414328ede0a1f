/-
  Proofs/Aliases/Paths: import paths of ordinary characters.

  A path of letters, numbers, slashes and a few marks has nothing around it that is cut
  off when it is registered.  What stands for it in code, its name or the path itself, is
  a plain text.
-/
import StructCopy.Proofs.Aliases.Renaming
import StructCopy.Proofs.Go.Plain

set_option autoImplicit false

namespace StructCopy

/-! ## Characters -/

namespace Text

theorem isWordPart_of_isAlphanumeric {c : Char} (h : isAlphanumeric c = true) :
    isWordPart c = true := by
  rw [isWordPart, h]
  rfl

end Text

namespace Aliases

/-! ## Ordinary paths -/

/-- A letter, a number, a slash, or a mark that a path may hold. -/
def isPathChar (c : Char) : Bool :=
  Text.isAlphanumeric c || ['-', '.', '_', '~', '/'].contains c

/-- All characters of the path are ordinary. -/
def Ordinary (path : String) : Prop :=
  ∀ c ∈ path.toList, isPathChar c = true

theorem cases_of_isPathChar {c : Char} (h : isPathChar c = true) :
    Text.isWordPart c = true ∨ c ∈ ['-', '.', '~', '/'] := by
  rw [isPathChar, Bool.or_eq_true, List.contains_iff_mem] at h
  rcases h with h | h
  · exact .inl (Text.isWordPart_of_isAlphanumeric h)
  · simp only [List.mem_cons, List.not_mem_nil, or_false] at h
    rcases h with rfl | rfl | rfl | rfl | rfl
    · exact .inr List.mem_cons_self
    · exact .inr (by decide)
    · exact .inl (by decide)
    · exact .inr (by decide)
    · exact .inr (by decide)

theorem isBlank_of_isPathChar {c : Char} (h : isPathChar c = true) : Text.isBlank c = false := by
  rcases cases_of_isPathChar h with h | h
  · rw [Bool.eq_false_iff]
    intro hblank
    rw [Go.isWordPart_of_isBlank hblank] at h
    cases h
  · have hmarks : (['-', '.', '~', '/'].all fun d => !Text.isBlank d) = true := by decide
    simpa using List.all_eq_true.1 hmarks c h

theorem ne_of_isPathChar {c d : Char} (h : isPathChar c = true) (hd : isPathChar d = false) :
    c ≠ d := by
  rintro rfl
  rw [h] at hd
  cases hd

variable {path : String}

/-- Nothing is cut off an ordinary path. -/
theorem Ordinary.normal_eq (h : Ordinary path) : normal path = path := by
  have hquotes : ∀ c ∈ path.toList, (c == '"') = false := by
    intro c hc
    exact beq_false_of_ne (ne_of_isPathChar (h c hc) (by decide))
  exact normal_eq_iff.2 ⟨path.toList,
    .of_forall fun c hc => isBlank_of_isPathChar (h c hc), .of_forall hquotes⟩

/-- Ordinary paths are not confused with one another. -/
theorem distinct_ordinary : Distinct Ordinary := by
  rintro path other hpath - ⟨-, hne, -⟩
  rw [hpath.normal_eq, hpath.normal_eq] at hne
  exact hne rfl

/-- An ordinary path without a slash is a plain text. -/
theorem Ordinary.isPlain (h : Ordinary path) (hslash : isNumbered path = false) :
    path.toList.all Go.isPlain = true := by
  rw [List.all_eq_true]
  intro c hc
  rcases cases_of_isPathChar (h c hc) with hword | hmark
  · exact Go.isPlain_of_isWordPart hword
  · simp only [List.mem_cons, List.not_mem_nil, or_false] at hmark
    rcases hmark with rfl | rfl | rfl | rfl
    · decide
    · decide
    · decide
    · rw [isNumbered, List.contains_iff_mem.2 hc] at hslash
      cases hslash

/-- All registered paths are ordinary. -/
structure Tidy (a : Aliases) : Prop where
  numbered : ∀ p ∈ a.numbered, Ordinary p
  plain : ∀ p ∈ a.plain, Ordinary p

theorem tidy_empty : empty.Tidy :=
  ⟨fun _ h => absurd h List.not_mem_nil, fun _ h => absurd h List.not_mem_nil⟩

theorem Tidy.put {a : Aliases} (h : a.Tidy) (hpath : Ordinary path) : (a.put path).Tidy := by
  have hadd : ∀ paths : List String, (∀ p ∈ paths, Ordinary p) →
      ∀ p ∈ addOnce paths path, Ordinary p := by
    intro paths hpaths p hp
    rcases mem_of_mem_addOnce hp with hp | rfl
    · exact hpaths p hp
    · exact hpath
  unfold Aliases.put
  split
  · exact h
  · split
    · exact ⟨hadd _ h.numbered, h.plain⟩
    · exact ⟨h.numbered, hadd _ h.plain⟩

theorem Tidy.registerAll {a : Aliases} (h : a.Tidy) {paths : List String}
    (hpaths : ∀ p ∈ paths, Ordinary p) : (a.registerAll paths).Tidy := by
  induction paths generalizing a with
  | nil => exact h
  | cons path paths ih =>
    obtain ⟨hpath, hrest⟩ := List.forall_mem_cons.1 hpaths
    rw [registerAll_cons, hpath.normal_eq]
    exact ih (h.put hpath) hrest

/-! ## Names of paths -/

theorem isIdentifier_aliasAt (position : Nat) :
    Text.isIdentifier (aliasAt position).toList = true := by
  have hparts := isWordPart_of_isNumberedName (isNumberedName_aliasAt position)
  have hletters : "ref".toList = ['r', 'e', 'f'] := rfl
  rw [aliasAt_toList, hletters] at hparts ⊢
  rw [List.cons_append, Text.isIdentifier, Bool.and_eq_true, List.all_eq_true]
  exact ⟨by decide, fun c hc => hparts c (List.mem_cons_of_mem _ hc)⟩

/-- What code writes before a point for an ordinary path: the path itself, or the name that it is
bound to. -/
inductive QualifierOf (a : Aliases) (path : String) : String → Prop where
  | itself (h : isNumbered path = false) : QualifierOf a path path
  | name {position : Nat} (h : isNumbered path = true) (hname : (aliasAt position, path) ∈ a.bindings) :
      QualifierOf a path (aliasAt position)

theorem Knows.qualifierOf {a : Aliases} {kind : String → Prop} (h : a.Knows path)
    (hpath : Ordinary path) (ha : a.From kind) : QualifierOf a path (a.qualifierFor path) := by
  unfold Knows at h
  rw [qualifierFor_eq_lookUp, hpath.normal_eq, hpath.normal_eq]
  rw [hpath.normal_eq] at h
  cases hslash : isNumbered path with
  | false =>
    cases hempty : path.isEmpty with
    | false => exact .itself hslash
    | true =>
      have hlookUp : a.lookUp path = path := by
        rw [String.isEmpty_iff.1 hempty]
        exact lookUp_empty fun p hp => (ha p hp).1
      change QualifierOf a path (a.lookUp path)
      rw [hlookUp]
      exact .itself hslash
  | true =>
    have hmem : path ∈ a.numbered := by
      cases h with
      | empty hempty =>
        rw [String.isEmpty_iff.1 hempty, not_isNumbered_empty] at hslash
        cases hslash
      | numbered _ hmem => exact hmem
      | plain hplain => cases hplain.symm.trans hslash
    obtain ⟨position, hname, hbound⟩ := exists_lookUp hmem
    rw [Bool.not_true, Bool.and_false, if_neg Bool.false_ne_true, hname]
    exact .name hslash (mem_bindings.2 ⟨position, hbound, rfl⟩)

end Aliases

end StructCopy
