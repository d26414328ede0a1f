/-
  Proofs/Aliases/Renaming: from the names of one numbering to those of another.

  Two aliases may number the same paths differently.  A text is carried from one
  numbering to the other word by word: a word that is a name in the first one becomes
  the name of the same path in the second one, and every other word stays.  This is how
  the qualifiers of known paths correspond, and how texts do in which no other word looks
  like a name.
-/
import StructCopy.Proofs.Aliases.Growth
import StructCopy.Proofs.Go.Lexing

set_option autoImplicit false

namespace StructCopy

/-! ## Words -/

namespace Text

/-- The longest runs of word characters in a text, with an empty one between two other
characters. -/
def wordRuns (s : List Char) : List (List Char) :=
  splitWhere (fun c => !isWordPart c) s

theorem wordRuns_append_cons {word : List Char} (hword : ∀ c ∈ word, isWordPart c = true) {c : Char}
    (hc : isWordPart c = false) (s : List Char) :
    wordRuns (word ++ c :: s) = word :: wordRuns s := by
  induction word with
  | nil => simp [wordRuns, splitWhere, hc]
  | cons d word ih =>
    have hd := hword d List.mem_cons_self
    have hrest := ih fun c' hc' => hword c' (List.mem_cons_of_mem _ hc')
    unfold wordRuns at hrest ⊢
    rw [List.cons_append, splitWhere, hrest]
    simp [hd]

theorem wordRuns_word {word : List Char} (hword : ∀ c ∈ word, isWordPart c = true) :
    wordRuns word = [word] := by
  induction word with
  | nil => rfl
  | cons d word ih =>
    have hd := hword d List.mem_cons_self
    have hrest := ih fun c' hc' => hword c' (List.mem_cons_of_mem _ hc')
    unfold wordRuns at hrest ⊢
    rw [splitWhere, hrest]
    simp [hd]

/-- A text with its longest runs of word characters replaced; `word` is the run that has begun
before the text. -/
def mapWords (f : List Char → List Char) : (word s : List Char) → List Char
  | word, [] => f word
  | word, c :: s =>
    if isWordPart c then mapWords f (word ++ [c]) s else f word ++ c :: mapWords f [] s

variable {f : List Char → List Char}

theorem mapWords_append_cons {c : Char} (hc : isWordPart c = false) (word s rest : List Char) :
    mapWords f word (s ++ c :: rest) = mapWords f word s ++ c :: mapWords f [] rest := by
  induction s generalizing word with
  | nil => simp [mapWords, hc]
  | cons d s ih =>
    rw [List.cons_append, mapWords, mapWords]
    split
    · exact ih _
    · rw [ih, List.append_assoc, List.cons_append]

theorem mapWords_word {s : List Char} (hs : ∀ c ∈ s, isWordPart c = true) (word : List Char) :
    mapWords f word s = f (word ++ s) := by
  induction s generalizing word with
  | nil => rw [mapWords, List.append_nil]
  | cons c s ih =>
    have hrest := ih fun c' hc' => hs c' (List.mem_cons_of_mem _ hc')
    rw [mapWords, if_pos (hs c List.mem_cons_self), hrest, List.append_assoc]
    rfl

/-- A text stays as it is if all its runs do. -/
theorem mapWords_eq_append {word s : List Char} (hword : ∀ c ∈ word, isWordPart c = true)
    (h : ∀ run ∈ wordRuns (word ++ s), f run = run) : mapWords f word s = word ++ s := by
  induction s generalizing word with
  | nil =>
    rw [List.append_nil, wordRuns_word hword] at h
    rw [mapWords, List.append_nil]
    exact h word List.mem_cons_self
  | cons c s ih =>
    rw [mapWords]
    cases hc : isWordPart c with
    | true =>
      have happend : word ++ [c] ++ s = word ++ c :: s := by simp
      rw [if_pos rfl, ← happend]
      rw [← happend] at h
      refine ih ?_ h
      intro d hd
      rcases List.mem_append.1 hd with hd | hd
      · exact hword d hd
      · rw [List.mem_singleton.1 hd]
        exact hc
    | false =>
      rw [wordRuns_append_cons hword hc] at h
      have hnext := @ih [] (fun d hd => by cases hd)
        fun run hrun => h run (List.mem_cons_of_mem _ hrun)
      rw [if_neg Bool.false_ne_true, h word List.mem_cons_self, hnext, List.nil_append]

end Text

/-! ## Names -/

namespace Aliases

/-- The form of the names of numbered paths: `ref` and decimal digits. -/
def IsNumberedName (word : List Char) : Prop :=
  ∃ digits, digits ≠ [] ∧ (∀ d ∈ digits, d.isDigit = true) ∧ word = "ref".toList ++ digits

theorem aliasAt_toList (position : Nat) :
    (aliasAt position).toList = "ref".toList ++ Nat.toDigits 10 (position + 1) := by
  simp [aliasAt]

theorem isNumberedName_aliasAt (position : Nat) : IsNumberedName (aliasAt position).toList := by
  refine ⟨Nat.toDigits 10 (position + 1), Nat.toDigits_ne_nil, fun d hd => ?_, aliasAt_toList _⟩
  exact Nat.isDigit_of_mem_toDigits (b := 10) (by decide) (by decide) hd

theorem isWordPart_of_isNumberedName {word : List Char} (h : IsNumberedName word) :
    ∀ c ∈ word, Text.isWordPart c = true := by
  have hletters : ∀ c ∈ "ref".toList, Text.isWordPart c = true := List.all_eq_true.1 (by decide)
  obtain ⟨digits, -, hdigits, rfl⟩ := h
  intro c hc
  rcases List.mem_append.1 hc with hc | hc
  · exact hletters c hc
  · exact Go.forall_digit (P := fun c => Text.isWordPart c = true) (by decide) (hdigits c hc)

/-- Different positions have different names. -/
theorem aliasAt_injective {i j : Nat} (h : (aliasAt i).toList = (aliasAt j).toList) : i = j := by
  rw [aliasAt_toList, aliasAt_toList] at h
  have hdigits := congrArg (Nat.ofDigitChars 10 · 0) (List.append_cancel_left h)
  simp only [Nat.ofDigitChars_ten_toDigits] at hdigits
  omega

theorem mem_bindings {a : Aliases} {binding : String × String} :
    binding ∈ a.bindings ↔
      ∃ i, a.numbered[i]? = some binding.2 ∧ binding.1 = aliasAt i := by
  unfold bindings
  rw [List.mem_map]
  constructor
  · rintro ⟨⟨path, i⟩, hentry, rfl⟩
    exact ⟨i, List.mk_mem_zipIdx_iff_getElem?.1 hentry, rfl⟩
  · obtain ⟨name, path⟩ := binding
    rintro ⟨i, hpath, rfl⟩
    exact ⟨(path, i), List.mk_mem_zipIdx_iff_getElem?.2 hpath, rfl⟩

/-- A name of the first numbering as a name of the second one: that of the same path. Any other
word stays. -/
def rename (a b : Aliases) (word : List Char) : List Char :=
  match a.bindings.find? fun binding => binding.1.toList == word with
  | some binding => (b.lookUp binding.2).toList
  | none => word

theorem rename_of_not_isNumberedName {a b : Aliases} {word : List Char}
    (h : ¬ IsNumberedName word) : a.rename b word = word := by
  have hnone : a.bindings.find? (fun binding => binding.1.toList == word) = none := by
    refine List.find?_eq_none.2 fun binding hbinding heq => h ?_
    obtain ⟨entry, -, rfl⟩ := List.mem_map.1 hbinding
    rw [← eq_of_beq heq]
    exact isNumberedName_aliasAt entry.2
  unfold rename
  rw [hnone]

theorem not_isNumberedName_nil : ¬ IsNumberedName [] := by
  rintro ⟨digits, -, -, h⟩
  cases h

/-- A numbered path is looked up under the name that it is bound to. -/
theorem exists_lookUp {a : Aliases} {path : String} (h : path ∈ a.numbered) :
    ∃ i, a.lookUp path = aliasAt i ∧ a.numbered[i]? = some path := by
  obtain ⟨i, hi⟩ := Option.isSome_iff_exists.1 (List.isSome_idxOf?.2 h)
  obtain ⟨hlt, hget, -⟩ := List.idxOf?_eq_some_iff.1 hi
  refine ⟨i, ?_, by rw [List.getElem?_eq_getElem hlt, hget]⟩
  unfold lookUp
  rw [hi]

/-- The name of a numbered path becomes its name in the second numbering. -/
theorem rename_lookUp {a : Aliases} {path : String} (h : path ∈ a.numbered) (b : Aliases) :
    a.rename b (a.lookUp path).toList = (b.lookUp path).toList := by
  obtain ⟨i, hlookUp, hpath⟩ := exists_lookUp h
  have hbound : (aliasAt i, path) ∈ a.bindings := mem_bindings.2 ⟨i, hpath, rfl⟩
  unfold rename
  rw [hlookUp]
  cases hfind : a.bindings.find? fun binding => binding.1.toList == (aliasAt i).toList with
  | none => exact absurd (beq_self_eq_true _) (List.find?_eq_none.1 hfind _ hbound)
  | some binding =>
    obtain ⟨j, hother, hname⟩ := mem_bindings.1 (List.mem_of_find?_eq_some hfind)
    have hsame : binding.1.toList = (aliasAt i).toList := by simpa using List.find?_some hfind
    rw [hname] at hsame
    rw [aliasAt_injective hsame, hpath] at hother
    rw [Option.some.inj hother]

/-! ## Qualifiers -/

theorem lookUp_empty {a : Aliases} (h : ∀ p ∈ a.numbered, isNumbered p = true) :
    a.lookUp "" = "" := by
  have hmissing : "" ∉ a.numbered := by
    intro hmem
    cases not_isNumbered_empty.symm.trans (h "" hmem)
  unfold lookUp
  rw [List.idxOf?_eq_none_iff.2 hmissing]

/-- What a path has to be like for its qualifier to be carried over: if it is numbered, stripping
it twice is the same as stripping it once; if it keeps its own name, no word of that looks like the
name of a numbered path. -/
structure Steadfast (path : String) : Prop where
  stripped : isNumbered (normal path) = true → normal (normal path) = normal path
  plain : isNumbered (normal path) = false →
    ∀ run ∈ Text.wordRuns (normal path).toList, ¬ IsNumberedName run

/-- The qualifier of a known path becomes its qualifier in the second numbering. -/
theorem mapWords_qualifierFor {a b : Aliases} {path : String} (h : a.Knows path)
    (hsteadfast : Steadfast path) (ha : ∀ p ∈ a.numbered, isNumbered p = true)
    (hb : ∀ p ∈ b.numbered, isNumbered p = true) :
    Text.mapWords (a.rename b) [] (a.qualifierFor path).toList = (b.qualifierFor path).toList := by
  have hkeep : ∀ s : List Char, (∀ run ∈ Text.wordRuns s, ¬ IsNumberedName run) →
      Text.mapWords (a.rename b) [] s = s := by
    intro s hs
    refine Text.mapWords_eq_append (fun c hc => by cases hc) fun run hrun => ?_
    exact rename_of_not_isNumberedName (hs run hrun)
  rw [qualifierFor_eq_lookUp, qualifierFor_eq_lookUp]
  unfold Knows at h
  cases h with
  | empty hempty =>
    rw [String.isEmpty_iff.1 hempty, normal_empty, lookUp_empty ha, lookUp_empty hb]
    exact rename_of_not_isNumberedName not_isNumberedName_nil
  | numbered hnumbered hmem =>
    obtain ⟨i, hlookUp, -⟩ := exists_lookUp hmem
    have hword : ∀ c ∈ (a.lookUp (normal path)).toList, Text.isWordPart c = true := by
      rw [hlookUp]
      exact isWordPart_of_isNumberedName (isNumberedName_aliasAt i)
    rw [hnumbered, hsteadfast.stripped hnumbered]
    simp only [Bool.not_true, Bool.and_false, Bool.false_eq_true, if_false]
    rw [Text.mapWords_word hword, List.nil_append]
    exact rename_lookUp hmem b
  | plain hnumbered hmem =>
    cases hempty : (normal path).isEmpty with
    | true =>
      rw [String.isEmpty_iff.1 hempty, normal_empty, lookUp_empty ha, lookUp_empty hb]
      exact rename_of_not_isNumberedName not_isNumberedName_nil
    | false =>
      rw [hnumbered]
      simp only [Bool.not_false, Bool.and_self, if_true]
      exact hkeep _ (hsteadfast.plain hnumbered)

end Aliases

end StructCopy
