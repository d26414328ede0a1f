/-
  Proofs/Go/Extension: the pieces of a text stay when the text goes on.

  A text without comments that can be taken apart to its end is taken apart in the
  same way in front of another text, when that starts with a character no piece goes
  on with: a blank, a line break, or a mark that is no part of a longer operator.
-/
import StructCopy.Proofs.Go.Lexing
import StructCopy.Proofs.Text.Marks

set_option autoImplicit false

namespace StructCopy.Go

/-- A character that belongs to no word, number, comment mark or operator of more than one
character: a piece before it ends there. -/
def isBarrier (c : Char) : Bool :=
  !Text.isWordPart c && !isNumberPart c && longOperators.all fun text => !text.toList.contains c

section

variable {d : Char} {r : List Char}

theorem isWordPart_of_isBarrier (hd : isBarrier d = true) : Text.isWordPart d = false := by
  simp only [isBarrier, Bool.and_eq_true, Bool.not_eq_true'] at hd
  exact hd.1.1

theorem isNumberPart_of_isBarrier (hd : isBarrier d = true) : isNumberPart d = false := by
  simp only [isBarrier, Bool.and_eq_true, Bool.not_eq_true'] at hd
  exact hd.1.2

theorem not_mem_longOperator (hd : isBarrier d = true) {text : String}
    (htext : text ∈ longOperators) : d ∉ text.toList := by
  simp only [isBarrier, Bool.and_eq_true] at hd
  have htext' := List.all_eq_true.1 hd.2 text htext
  intro hmem
  rw [List.contains_iff_mem.2 hmem] at htext'
  cases htext'

theorem isDigit_of_isBarrier (hd : isBarrier d = true) : d.isDigit = false := by
  have hpart := isNumberPart_of_isBarrier hd
  simp only [isNumberPart, Char.isAlphanum, Bool.or_eq_false_iff] at hpart
  exact hpart.1.1.2

theorem ne_slash_of_isBarrier (hd : isBarrier d = true) : d ≠ '/' := by
  rintro rfl
  have hmem : "/=" ∈ longOperators := by decide
  exact not_mem_longOperator hd hmem (by decide)

theorem ne_star_of_isBarrier (hd : isBarrier d = true) : d ≠ '*' := by
  rintro rfl
  have hmem : "*=" ∈ longOperators := by decide
  exact not_mem_longOperator hd hmem (by decide)

/-! ## Literals -/

/-- A backslash is either the last character or in front of another one. -/
theorem ne_backslash {c : Char} {s : List Char} (hend : c = '\\' → s = [] → False)
    (hescape : ∀ c' s', c = '\\' → s = c' :: s' → False) : c ≠ '\\' := by
  intro hc
  cases s with
  | nil => exact hend hc rfl
  | cons c' s => exact hescape c' s hc rfl

theorem stringBody_append {s value rest : List Char} (h : stringBody s = .ok (value, rest))
    (more : List Char) : stringBody (s ++ more) = .ok (value, rest ++ more) := by
  fun_induction stringBody s generalizing value with
  | case1 => cases h
  | case2 => cases h
  | case3 s =>
    cases h
    rw [List.cons_append, stringBody]
  | case4 => cases h
  | case5 c s ih =>
    obtain ⟨⟨value', rest'⟩, hfound, heq⟩ := ok_of_map_eq_ok h
    cases heq
    rw [List.cons_append, List.cons_append, stringBody, ih hfound]
    rfl
  | case6 c s hbreak hclose hend hescape ih =>
    obtain ⟨⟨value', rest'⟩, hfound, heq⟩ := ok_of_map_eq_ok h
    cases heq
    have hplain := ne_backslash hend hescape
    rw [List.cons_append, stringBody, ih hfound]
    · rfl
    · exact hbreak
    · exact hclose
    · exact fun hc _ => hplain hc
    · exact fun _ _ hc _ => hplain hc

theorem runeBody_append {s value rest : List Char} (h : runeBody s = .ok (value, rest))
    (more : List Char) : runeBody (s ++ more) = .ok (value, rest ++ more) := by
  fun_induction runeBody s generalizing value with
  | case1 => cases h
  | case2 s =>
    cases h
    rw [List.cons_append, runeBody]
  | case3 => cases h
  | case4 => cases h
  | case5 c s ih =>
    obtain ⟨⟨value', rest'⟩, hfound, heq⟩ := ok_of_map_eq_ok h
    cases heq
    rw [List.cons_append, List.cons_append, runeBody, ih hfound]
    rfl
  | case6 c s hclose hbreak hend hescape ih =>
    obtain ⟨⟨value', rest'⟩, hfound, heq⟩ := ok_of_map_eq_ok h
    cases heq
    have hplain := ne_backslash hend hescape
    rw [List.cons_append, runeBody, ih hfound]
    · rfl
    · exact hclose
    · exact hbreak
    · exact fun hc _ => hplain hc
    · exact fun _ _ hc _ => hplain hc

theorem rawStringBody_append {s value rest : List Char}
    (h : rawStringBody s = .ok (value, rest)) (more : List Char) :
    rawStringBody (s ++ more) = .ok (value, rest ++ more) := by
  unfold rawStringBody at h
  split at h
  · next hfound =>
    cases h
    rw [rawStringBody, Text.cut?_append hfound (List.cons_ne_nil _ _)]
  · cases h

/-! ## Words, numbers and operators -/

theorem takeWhile_append_barrier {p : Char → Bool} (hp : p d = false) (s : List Char) :
    (s ++ d :: r).takeWhile p = s.takeWhile p := by
  induction s with
  | nil => rw [List.nil_append, List.takeWhile_cons, hp]; rfl
  | cons c s ih => rw [List.cons_append, List.takeWhile_cons, List.takeWhile_cons, ih]

theorem dropWhile_append_barrier {p : Char → Bool} (hp : p d = false) (s : List Char) :
    (s ++ d :: r).dropWhile p = s.dropWhile p ++ d :: r := by
  induction s with
  | nil => rw [List.nil_append, List.dropWhile_cons, hp]; rfl
  | cons c s ih =>
    rw [List.cons_append, List.dropWhile_cons, List.dropWhile_cons, ih]
    split <;> rfl

theorem after?_append {front : List Char} (hd : d ∉ front) (s : List Char) :
    Text.after? front (s ++ d :: r) = (Text.after? front s).map (· ++ d :: r) := by
  induction front generalizing s with
  | nil => simp only [Text.after?, Option.map_some]
  | cons f front ih =>
    rw [List.mem_cons, not_or] at hd
    cases s with
    | nil => simp only [List.nil_append, Text.after?, if_neg (Ne.symm hd.1), Option.map_none]
    | cons c s =>
      simp only [List.cons_append, Text.after?]
      split
      · exact ih hd.2 s
      · rfl

theorem longOperator?_append (hd : isBarrier d = true) (s : List Char) :
    longOperator? (s ++ d :: r) =
      (longOperator? s).map fun found => (found.1, found.2 ++ d :: r) := by
  have hbars : ∀ text ∈ longOperators, d ∉ text.toList := fun _ => not_mem_longOperator hd
  unfold longOperator?
  generalize longOperators = texts at hbars
  induction texts with
  | nil => rfl
  | cons text texts ih =>
    rw [List.forall_mem_cons] at hbars
    rw [List.findSome?_cons, List.findSome?_cons, after?_append hbars.1]
    cases Text.after? text.toList s with
    | some => rfl
    | none => exact ih hbars.2

/-! ## One piece -/

theorem head?_append_barrier {m : Char} (hd : d ≠ m) (s : List Char) :
    (s ++ d :: r).head? = some m ↔ s.head? = some m := by
  cases s with
  | cons => rfl
  | nil =>
    rw [List.nil_append, List.head?_cons, Option.some_inj]
    exact ⟨fun h => absurd h hd, nofun⟩

theorem startsNumber_append (hd : isBarrier d = true) (c : Char) (s : List Char) :
    startsNumber c (s ++ d :: r) = startsNumber c s := by
  cases s with
  | cons => rfl
  | nil =>
    simp only [startsNumber, List.nil_append, List.head?_cons, Option.map_some, Option.getD_some,
      isDigit_of_isBarrier hd, List.head?_nil, Option.map_none, Option.getD_none]

theorem lead_append (hd : isBarrier d = true) (c : Char) (s : List Char) :
    lead c (s ++ d :: r) = lead c s := by
  refine lead_congr (fun m hm => head?_append_barrier ?_ s) (startsNumber_append hd c s)
  rintro rfl
  rcases List.mem_cons.1 hm with rfl | hm
  · exact ne_slash_of_isBarrier hd rfl
  · exact ne_star_of_isBarrier hd (List.mem_singleton.1 hm)

/-- A piece that is no comment is cut off alike when the text goes on. -/
theorem step_append (hd : isBarrier d = true) {c : Char} {s rest : List Char} {piece : Piece}
    (h : step c s = .ok (piece, rest)) (hcomment : ∀ breaks, piece ≠ .comment breaks) :
    step c (s ++ d :: r) = .ok (piece, rest ++ d :: r) := by
  rw [step_eq_cut] at h
  rw [step_eq_cut, lead_append hd]
  cases hlead : lead c s <;> rw [hlead] at h
  case lineBreak | blank =>
    cases h
    rfl
  case lineComment =>
    cases h
    exact absurd rfl (hcomment 0)
  case blockComment =>
    obtain ⟨found, -, heq⟩ := ok_of_map_eq_ok h
    cases heq
    exact absurd rfl (hcomment _)
  case string =>
    obtain ⟨found, hfound, heq⟩ := ok_of_map_eq_ok h
    cases heq
    rw [Lead.cut, stringBody_append hfound]
    rfl
  case rawString =>
    obtain ⟨found, hfound, heq⟩ := ok_of_map_eq_ok h
    cases heq
    rw [Lead.cut, rawStringBody_append hfound]
    rfl
  case rune =>
    obtain ⟨found, hfound, heq⟩ := ok_of_map_eq_ok h
    cases heq
    rw [Lead.cut, runeBody_append hfound]
    rfl
  case number =>
    cases h
    rw [Lead.cut, takeWhile_append_barrier (isNumberPart_of_isBarrier hd),
      dropWhile_append_barrier (isNumberPart_of_isBarrier hd)]
  case word =>
    cases h
    rw [Lead.cut, takeWhile_append_barrier (isWordPart_of_isBarrier hd),
      dropWhile_append_barrier (isWordPart_of_isBarrier hd)]
  case operator =>
    unfold Lead.cut at h ⊢
    dsimp only at h ⊢
    rw [← List.cons_append, longOperator?_append hd]
    split at h
    · next hlong =>
      cases h
      rw [hlong]
      rfl
    · next hlong =>
      rw [hlong]
      split at h
      · cases h
        rfl
      · cases h

/-! ## All pieces -/

/-- A text without comments is taken apart alike in front of a barrier. -/
theorem pieces_append (hd : isBarrier d = true) {s : List Char} (hfault : (pieces s).2 = none)
    (hcomment : ∀ breaks, Piece.comment breaks ∉ (pieces s).1) :
    pieces (s ++ d :: r) = ((pieces s).1 ++ (pieces (d :: r)).1, (pieces (d :: r)).2) := by
  fun_induction pieces s with
  | case1 => rfl
  | case2 c s fault hstep => cases hfault
  | case3 c s piece rest hstep found ih =>
    have hmore : ∀ breaks, Piece.comment breaks ∉ found.1 := fun breaks hmem =>
      hcomment breaks (List.mem_cons_of_mem _ hmem)
    have hpiece : ∀ breaks, piece ≠ .comment breaks := by
      rintro breaks rfl
      exact hcomment breaks List.mem_cons_self
    rw [List.cons_append, pieces_of_step (step_append hd hstep hpiece), ih hfault hmore]
    rfl

end

end StructCopy.Go
