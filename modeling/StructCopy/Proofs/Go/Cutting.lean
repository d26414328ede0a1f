/-
  Proofs/Go/Cutting: what a piece of source text looks like.

  `CutsOff` says once what `step` can cut off the front of a text, one case for each
  kind of piece.  Literals and block comments end with the mark that closes them.
-/
import Mathlib.Data.List.TakeWhile
import StructCopy.Proofs.Go.Lexing

set_option autoImplicit false

namespace StructCopy.Go

/-! ## Kinds of pieces -/

/-- The piece is cut off the front of the text `c :: s`, and the rest follows it. -/
inductive CutsOff : Char → List Char → Piece → List Char → Prop where
  | lineBreak {s : List Char} : CutsOff '\n' s .lineBreak s
  | lineComment {s : List Char} (hmark : s.head? = some '/') :
      CutsOff '/' s (.comment 0) (s.dropWhile (· != '\n'))
  | blockComment {s inside rest : List Char} (hbody : commentBody s = .ok (inside, rest)) :
      CutsOff '/' ('*' :: s) (.comment (lineFeeds inside)) rest
  | blank {c : Char} {s : List Char} (hblank : Text.isBlank c = true) : CutsOff c s .blank s
  | string {s value rest : List Char} (hbody : stringBody s = .ok (value, rest)) :
      CutsOff '"' s (.token (.str (String.ofList value)) 0) rest
  | rawString {s value rest : List Char} (hbody : rawStringBody s = .ok (value, rest)) :
      CutsOff '\x60' s
        (.token (.str (String.ofList (value.filter (· != '\r')))) (lineFeeds value)) rest
  | rune {s value rest : List Char} (hbody : runeBody s = .ok (value, rest)) :
      CutsOff '\'' s (.token (.rune (String.ofList value)) 0) rest
  | number {c : Char} {s : List Char} (hstart : startsNumber c s = true) :
      CutsOff c s (.token (.number (String.ofList (c :: s.takeWhile isNumberPart))) 0)
        (s.dropWhile isNumberPart)
  | word {c : Char} {s : List Char} (hstart : Text.isWordStart c = true) :
      CutsOff c s (.token (.word (String.ofList (c :: s.takeWhile Text.isWordPart))) 0)
        (s.dropWhile Text.isWordPart)
  | longOperator {c : Char} {s rest : List Char} {text : String} (hmem : text ∈ longOperators)
      (htext : c :: s = text.toList ++ rest) :
      CutsOff c s (.token (longOperator text) 0) rest
  | shortOperator {c : Char} {s : List Char} {token : Token}
      (htoken : shortOperator? c = some token) : CutsOff c s (.token token 0) s

theorem cutsOff_of_step {c : Char} {s rest : List Char} {piece : Piece}
    (h : step c s = .ok (piece, rest)) : CutsOff c s piece rest := by
  have hfits := fits_lead c s
  rw [step_eq_cut] at h
  cases hlead : lead c s <;> rw [hlead] at h hfits
  case lineBreak =>
    cases hfits
    cases h
    exact .lineBreak
  case lineComment =>
    obtain ⟨rfl, hmark⟩ := hfits
    cases h
    exact .lineComment hmark
  case blockComment =>
    obtain ⟨rfl, hstar⟩ := hfits
    obtain ⟨s, rfl⟩ := List.head?_eq_some_iff.1 hstar
    obtain ⟨⟨inside, rest⟩, hbody, heq⟩ := ok_of_map_eq_ok h
    cases heq
    exact .blockComment hbody
  case blank =>
    cases h
    exact .blank hfits
  case string =>
    cases hfits
    obtain ⟨⟨value, rest⟩, hbody, heq⟩ := ok_of_map_eq_ok h
    cases heq
    exact .string hbody
  case rawString =>
    cases hfits
    obtain ⟨⟨value, rest⟩, hbody, heq⟩ := ok_of_map_eq_ok h
    cases heq
    exact .rawString hbody
  case rune =>
    cases hfits
    obtain ⟨⟨value, rest⟩, hbody, heq⟩ := ok_of_map_eq_ok h
    cases heq
    exact .rune hbody
  case number =>
    cases h
    exact .number hfits
  case word =>
    cases h
    exact .word hfits
  case operator =>
    unfold Lead.cut at h
    dsimp only at h
    split at h
    · next hlong =>
      cases h
      obtain ⟨text, hmem, hfound⟩ := List.exists_of_findSome?_eq_some hlong
      obtain ⟨rest', hafter, heq⟩ := Option.map_eq_some_iff.1 hfound
      cases heq
      exact .longOperator hmem (Text.after?_eq_some.1 hafter)
    · split at h
      · next htoken =>
        cases h
        exact .shortOperator htoken
      · cases h

/-! ## What is cut off -/

/-- A string literal ends with its closing mark. -/
theorem eq_append_of_stringBody {s value rest : List Char}
    (h : stringBody s = .ok (value, rest)) : ∃ inside, s = inside ++ '"' :: rest := by
  fun_induction stringBody s generalizing value with
  | case1 => cases h
  | case2 => cases h
  | case3 s =>
    cases h
    exact ⟨[], rfl⟩
  | case4 => cases h
  | case5 c s ih =>
    obtain ⟨⟨value', rest'⟩, hfound, heq⟩ := ok_of_map_eq_ok h
    cases heq
    obtain ⟨inside, rfl⟩ := ih hfound
    exact ⟨'\\' :: c :: inside, rfl⟩
  | case6 c s _ _ _ _ ih =>
    obtain ⟨⟨value', rest'⟩, hfound, heq⟩ := ok_of_map_eq_ok h
    cases heq
    obtain ⟨inside, rfl⟩ := ih hfound
    exact ⟨c :: inside, rfl⟩

/-- A rune literal ends with its closing quote. -/
theorem eq_append_of_runeBody {s value rest : List Char}
    (h : runeBody s = .ok (value, rest)) : ∃ inside, s = inside ++ '\'' :: rest := by
  fun_induction runeBody s generalizing value with
  | case1 => cases h
  | case2 s =>
    cases h
    exact ⟨[], rfl⟩
  | case3 => cases h
  | case4 => cases h
  | case5 c s ih =>
    obtain ⟨⟨value', rest'⟩, hfound, heq⟩ := ok_of_map_eq_ok h
    cases heq
    obtain ⟨inside, rfl⟩ := ih hfound
    exact ⟨'\\' :: c :: inside, rfl⟩
  | case6 c s _ _ _ _ ih =>
    obtain ⟨⟨value', rest'⟩, hfound, heq⟩ := ok_of_map_eq_ok h
    cases heq
    obtain ⟨inside, rfl⟩ := ih hfound
    exact ⟨c :: inside, rfl⟩

/-- A raw string literal ends with its closing mark. -/
theorem eq_append_of_rawStringBody {s value rest : List Char}
    (h : rawStringBody s = .ok (value, rest)) : s = value ++ '\x60' :: rest := by
  unfold rawStringBody at h
  split at h
  · next found hfound =>
    cases h
    have hsplit := Text.eq_append_of_cut? hfound
    rwa [List.append_assoc] at hsplit
  · cases h

/-- A block comment ends with its closing mark. -/
theorem eq_append_of_commentBody {s inside rest : List Char}
    (h : commentBody s = .ok (inside, rest)) : s = inside ++ '*' :: '/' :: rest := by
  unfold commentBody at h
  split at h
  · next found hfound =>
    cases h
    have hsplit := Text.eq_append_of_cut? hfound
    rwa [List.append_assoc] at hsplit
  · cases h

/-! ## Words and points -/

theorem longOperator_cases (text : String) : longOperator text = .ellipsis ∨
    longOperator text = .arrow ∨ longOperator text = .operator text := by
  unfold longOperator
  split
  · exact .inl rfl
  split
  · exact .inr (.inl rfl)
  · exact .inr (.inr rfl)

theorem shortOperator?_ne_word (c : Char) (w : String) : shortOperator? c ≠ some (.word w) := by
  unfold shortOperator?
  split
  case h_14 => split <;> simp
  all_goals simp

/-- A word is made of the characters up to the first one that is no part of it. -/
theorem eq_append_of_cutsOff_word {c : Char} {s rest : List Char} {w : String} {breaks : Nat}
    (h : CutsOff c s (.token (.word w) breaks) rest) :
    Text.isWordStart c = true ∧ '.' ∉ w.toList ∧ c :: s = w.toList ++ rest := by
  generalize hpiece : Piece.token (.word w) breaks = piece at h
  cases h with
  | word hstart =>
    cases hpiece
    rw [String.toList_ofList]
    refine ⟨hstart, ?_, ?_⟩
    · intro hmem
      rcases List.mem_cons.1 hmem with rfl | hmem
      · cases hstart
      · cases List.mem_takeWhile_imp hmem
    · rw [List.cons_append, List.takeWhile_append_dropWhile]
  | @longOperator _ _ _ text =>
    rcases longOperator_cases text with h | h | h <;> rw [h] at hpiece <;> cases hpiece
  | shortOperator htoken =>
    cases hpiece
    exact absurd htoken (shortOperator?_ne_word _ w)
  | _ => cases hpiece

theorem eq_point_of_shortOperator? {c : Char} (h : shortOperator? c = some .dot) : c = '.' := by
  unfold shortOperator? at h
  split at h
  case h_14 => split at h <;> simp at h
  all_goals first | rfl | simp at h

/-- A point is a piece of its own. -/
theorem eq_of_cutsOff_dot {c : Char} {s rest : List Char} {breaks : Nat}
    (h : CutsOff c s (.token .dot breaks) rest) : c = '.' ∧ rest = s := by
  generalize hpiece : Piece.token .dot breaks = piece at h
  cases h with
  | @longOperator _ _ _ text =>
    rcases longOperator_cases text with h | h | h <;> rw [h] at hpiece <;> cases hpiece
  | shortOperator htoken =>
    cases hpiece
    exact ⟨eq_point_of_shortOperator? htoken, rfl⟩
  | _ => cases hpiece

end StructCopy.Go
