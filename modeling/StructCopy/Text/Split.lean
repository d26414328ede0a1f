/-
  Text/Split: taking texts apart at lines, words, characters and marks.

  All functions work on lists of characters and lose nothing but what they split
  at: `cut?_eq_some` says so for a mark, `lines` drops line ends only.
-/
import StructCopy.Text.Blank

set_option autoImplicit false

namespace StructCopy.Text

/-! ## Fronts and ends -/

/-- What follows `front` in a text that starts with it. -/
def after? : (front s : List Char) → Option (List Char)
  | [], s => some s
  | _ :: _, [] => none
  | f :: front, c :: s => if f = c then after? front s else none

theorem after?_eq_some {front s rest : List Char} :
    after? front s = some rest ↔ s = front ++ rest := by
  induction front generalizing s with
  | nil => simp [after?]
  | cons f front ih =>
    cases s with
    | nil => simp [after?]
    | cons c s =>
      by_cases h : f = c
      · subst h
        simp [after?, ih]
      · simp [after?, h, Ne.symm h]

/-- What precedes `tail` in a text that ends with it. -/
def before? (tail s : List Char) : Option (List Char) :=
  (after? tail.reverse s.reverse).map List.reverse

/-! ## Marks -/

/-- The parts before and after the first place where `mark` stands. -/
def cut? (mark : List Char) : List Char → Option (List Char × List Char)
  | [] => if mark.isEmpty then some ([], []) else none
  | c :: s =>
    match after? mark (c :: s) with
    | some rest => some ([], rest)
    | none => (cut? mark s).map fun found => (c :: found.1, found.2)

theorem eq_append_of_cut? {mark s left right : List Char}
    (h : cut? mark s = some (left, right)) : s = left ++ mark ++ right := by
  induction s generalizing left right with
  | nil =>
    cases mark <;> simp [cut?] at h
    obtain ⟨rfl, rfl⟩ := h
    rfl
  | cons c s ih =>
    simp only [cut?] at h
    split at h
    · next rest hrest =>
      simp only [Option.some.injEq, Prod.mk.injEq] at h
      obtain ⟨rfl, rfl⟩ := h
      simpa using after?_eq_some.1 hrest
    · obtain ⟨⟨left', right'⟩, hcut, heq⟩ := Option.map_eq_some_iff.1 h
      simp only [Prod.mk.injEq] at heq
      obtain ⟨rfl, rfl⟩ := heq
      rw [ih hcut]
      simp

theorem length_lt_of_cut? {mark s left right : List Char} (hmark : mark ≠ [])
    (h : cut? mark s = some (left, right)) : right.length < s.length := by
  have := List.length_pos_iff.2 hmark
  rw [eq_append_of_cut? h]
  simp only [List.length_append]
  omega

/-- Whether `mark` stands somewhere in the text. -/
def contains (mark s : List Char) : Bool :=
  (cut? mark s).isSome

/-- The part before the first `mark`, or the whole text if there is none. -/
def upTo (mark s : List Char) : List Char :=
  match cut? mark s with
  | some (left, _) => left
  | none => s

/-! ## Separators -/

/-- The parts between the characters that satisfy `p`; always at least one. -/
def splitWhere (p : Char → Bool) : List Char → List (List Char)
  | [] => [[]]
  | c :: s =>
    if p c then [] :: splitWhere p s
    else
      match splitWhere p s with
      | [] => [[c]]
      | part :: parts => (c :: part) :: parts

theorem splitWhere_ne_nil (p : Char → Bool) (s : List Char) : splitWhere p s ≠ [] := by
  cases s with
  | nil => simp [splitWhere]
  | cons c s =>
    simp only [splitWhere]
    split
    · simp
    · split <;> simp

/-- The parts between the occurrences of one character. -/
def splitAt (sep : Char) (s : List Char) : List (List Char) :=
  splitWhere (· == sep) s

/-- The words of a text: its longest runs without white space. -/
def words (s : List Char) : List (List Char) :=
  (splitWhere isBlank s).filter fun word => !word.isEmpty

/-- The lines of a text: each ends at a line feed, which is dropped together with one
carriage return before it. A last line without line feed counts if it is not empty. -/
def lines : List Char → List (List Char)
  | [] => []
  | '\n' :: s => [] :: lines s
  | '\r' :: '\n' :: s => [] :: lines s
  | c :: s =>
    match lines s with
    | [] => [[c]]
    | line :: rest => (c :: line) :: rest

end StructCopy.Text
