/-
  Proofs/Text/Trimming: what is left of a text without the white space at its ends.

  Trimming takes nothing but the ends away: a text without white space comes out of the
  white space around it, other text at either end stays, and so does every mark that
  holds no white space.
-/
import Mathlib.Data.List.TakeWhile
import StructCopy.Text.Blank

set_option autoImplicit false

namespace StructCopy.Text

/-! ## Characters that stay -/

theorem dropWhile_eq_self {p : Char → Bool} {s : List Char} (h : ∀ c ∈ s, p c = false) :
    s.dropWhile p = s := by
  cases s with
  | nil => rfl
  | cons c s => rw [List.dropWhile_cons, h c List.mem_cons_self, if_neg Bool.false_ne_true]

theorem dropEndWhile_eq_self {p : Char → Bool} {s : List Char} (h : ∀ c ∈ s, p c = false) :
    dropEndWhile p s = s := by
  unfold dropEndWhile
  rw [dropWhile_eq_self fun c hc => h c (List.mem_reverse.1 hc), List.reverse_reverse]

theorem mem_dropWhile {p : Char → Bool} {c : Char} (hc : p c = false) {s : List Char}
    (h : c ∈ s) : c ∈ s.dropWhile p := by
  induction s with
  | nil => cases h
  | cons d s ih =>
    rw [List.dropWhile_cons]
    split
    · next hd =>
      rcases List.mem_cons.1 h with rfl | h
      · rw [hc] at hd
        cases hd
      · exact ih h
    · exact h

theorem mem_dropEndWhile {p : Char → Bool} {c : Char} (hc : p c = false) {s : List Char}
    (h : c ∈ s) : c ∈ dropEndWhile p s :=
  List.mem_reverse.2 (mem_dropWhile hc (List.mem_reverse.2 h))

theorem mem_of_mem_dropEndWhile {p : Char → Bool} {c : Char} {s : List Char}
    (h : c ∈ dropEndWhile p s) : c ∈ s :=
  List.mem_reverse.1 ((List.dropWhile_sublist p).subset (List.mem_reverse.1 h))

/-! ## What is taken away -/

/-- Cutting off characters at the end leaves a front. -/
theorem exists_append_dropEndWhile (p : Char → Bool) (s : List Char) :
    ∃ back, s = dropEndWhile p s ++ back ∧ ∀ c ∈ back, p c = true := by
  refine ⟨(s.reverse.takeWhile p).reverse, ?_, fun c hc => ?_⟩
  · unfold dropEndWhile
    rw [← List.reverse_append, List.takeWhile_append_dropWhile, List.reverse_reverse]
  · exact List.mem_takeWhile_imp (List.mem_reverse.1 hc)

theorem exists_append_trimEnd (s : List Char) :
    ∃ back, s = trimEnd s ++ back ∧ ∀ c ∈ back, isBlank c = true :=
  exists_append_dropEndWhile isBlank s

/-- What is left of a text when the characters of a kind at both ends are taken away. -/
structure Strips (p : Char → Bool) (s kept : List Char) : Prop where
  around : ∃ front back, s = front ++ (kept ++ back) ∧ (∀ c ∈ front, p c = true) ∧
    ∀ c ∈ back, p c = true
  first : ∀ c ∈ kept.head?, p c = false
  last : ∀ c ∈ kept.getLast?, p c = false

theorem eq_false_of_mem_head?_dropWhile {p : Char → Bool} {s : List Char} {c : Char}
    (h : c ∈ (s.dropWhile p).head?) : p c = false := by
  have hstop := List.head?_dropWhile_not p s
  rw [Option.mem_def.1 h] at hstop
  simpa using hstop

/-- Nothing is taken away from a text without such characters. -/
theorem Strips.of_forall {p : Char → Bool} {s : List Char} (h : ∀ c ∈ s, p c = false) :
    Strips p s s :=
  ⟨⟨[], [], by simp, List.forall_mem_nil _, List.forall_mem_nil _⟩,
    fun c hc => h c (List.mem_of_mem_head? hc), fun c hc => h c (List.mem_of_mem_getLast? hc)⟩

theorem strips_ends (p : Char → Bool) (s : List Char) :
    Strips p s (dropEndWhile p (s.dropWhile p)) := by
  obtain ⟨back, hend, hback⟩ := exists_append_dropEndWhile p (s.dropWhile p)
  refine ⟨⟨s.takeWhile p, back, ?_, fun c hc => List.mem_takeWhile_imp hc, hback⟩, ?_, ?_⟩
  · rw [← hend]
    exact List.takeWhile_append_dropWhile.symm
  · intro c hc
    obtain ⟨kept, hkept⟩ := List.head?_eq_some_iff.1 hc
    refine eq_false_of_mem_head?_dropWhile (s := s) ?_
    rw [hend, hkept]
    rfl
  · intro c hc
    rw [dropEndWhile, List.getLast?_reverse] at hc
    exact eq_false_of_mem_head?_dropWhile hc

theorem Strips.ends_eq {p : Char → Bool} {s kept : List Char} (h : Strips p s kept) :
    dropEndWhile p (s.dropWhile p) = kept := by
  obtain ⟨⟨front, back, rfl, hfront, hback⟩, hfirst, hlast⟩ := h
  have hend : ∀ c ∈ back.reverse, p c = true := fun c hc => hback c (List.mem_reverse.1 hc)
  rw [List.dropWhile_append_of_pos hfront]
  rcases List.eq_nil_or_concat kept with rfl | ⟨kept, d, rfl⟩
  · rw [List.nil_append, List.dropWhile_eq_nil_iff.2 hback]
    rfl
  · rw [List.concat_eq_append] at hfirst hlast ⊢
    have hd : p d = false := hlast d (by simp)
    have hstart : (kept ++ [d] ++ back).dropWhile p = kept ++ [d] ++ back := by
      cases kept with
      | nil => exact List.dropWhile_cons_of_neg (by simp [hd])
      | cons c kept => exact List.dropWhile_cons_of_neg (by simp [hfirst c rfl])
    rw [hstart, dropEndWhile, List.reverse_append, List.dropWhile_append_of_pos hend,
      List.reverse_append, List.reverse_singleton, List.singleton_append,
      List.dropWhile_cons_of_neg (by simp [hd]), List.reverse_cons, List.reverse_reverse]

theorem ends_eq_iff {p : Char → Bool} {s kept : List Char} :
    dropEndWhile p (s.dropWhile p) = kept ↔ Strips p s kept := by
  constructor
  · rintro rfl
    exact strips_ends p s
  · exact Strips.ends_eq

/-- Trimming takes the white space at both ends, and nothing else. -/
theorem trim_eq_iff {s kept : List Char} : trim s = kept ↔ Strips isBlank s kept :=
  ends_eq_iff

theorem trimQuotes_eq_iff {s kept : List Char} :
    trimQuotes s = kept ↔ Strips (· == '"') s kept :=
  ends_eq_iff

/-- What is left after cutting off white space stands between white space. -/
theorem exists_append_trim (s : List Char) :
    ∃ front back, s = front ++ (trim s ++ back) ∧ (∀ c ∈ front, isBlank c = true) ∧
      ∀ c ∈ back, isBlank c = true :=
  (trim_eq_iff.1 rfl).around

theorem eq_of_mem_head?_trimEnd {c d : Char} {s : List Char}
    (h : d ∈ (trimEnd (c :: s)).head?) : d = c := by
  obtain ⟨blanks, hsplit, -⟩ := exists_append_trimEnd (c :: s)
  obtain ⟨t, ht⟩ := List.head?_eq_some_iff.1 h
  rw [ht, List.cons_append] at hsplit
  exact (List.cons.inj hsplit).1.symm

/-! ## Text with white space around it -/

/-- White space in front of another character is cut off up to this character. -/
theorem trimStart_append_cons {c : Char} (hc : isBlank c = false) (s rest : List Char) :
    trimStart (s ++ c :: rest) = trimStart s ++ c :: rest := by
  induction s with
  | nil => simp [trimStart, hc]
  | cons d s ih =>
    unfold trimStart at ih ⊢
    rw [List.cons_append, List.dropWhile_cons, List.dropWhile_cons]
    split
    · exact ih
    · rfl

theorem trim_append_of_blanks {blanks : List Char} (h : ∀ c ∈ blanks, isBlank c = true)
    (s : List Char) : trim (blanks ++ s) = trim s := by
  unfold trim trimStart
  rw [List.dropWhile_append_of_pos h]

theorem trim_blanks {blanks : List Char} (h : ∀ c ∈ blanks, isBlank c = true) :
    trim blanks = [] := by
  rw [← List.append_nil blanks, trim_append_of_blanks h]
  rfl

/-- A text without white space is what is left of it between white space. -/
theorem trim_between {before body after : List Char} (hbefore : ∀ c ∈ before, isBlank c = true)
    (hbody : ∀ c ∈ body, isBlank c = false) (hafter : ∀ c ∈ after, isBlank c = true) :
    trim (before ++ (body ++ after)) = body := by
  obtain ⟨-, hfirst, hlast⟩ := Strips.of_forall hbody
  exact trim_eq_iff.2 ⟨⟨before, after, rfl, hbefore, hafter⟩, hfirst, hlast⟩

theorem trimEnd_append {s : List Char} (hs : trimEnd s = s) (t : List Char) :
    trimEnd (s ++ t) = s ++ trimEnd t := by
  have hreverse : s.reverse.dropWhile isBlank = s.reverse := by
    rw [← List.reverse_inj, List.reverse_reverse]
    exact hs
  unfold trimEnd dropEndWhile
  rw [List.reverse_append, List.dropWhile_append]
  split
  · next hempty =>
    rw [hreverse, List.reverse_reverse, List.isEmpty_iff.1 hempty, List.reverse_nil,
      List.append_nil]
  · rw [List.reverse_append, List.reverse_reverse]

/-- A text that begins without white space keeps its front; the end is cut behind it. -/
theorem trim_append {c : Char} {front : List Char} (hc : isBlank c = false)
    (hfront : trimEnd (c :: front) = c :: front) (t : List Char) :
    trim (c :: front ++ t) = c :: front ++ trimEnd t := by
  have hstart : trimStart (c :: front ++ t) = c :: front ++ t :=
    List.dropWhile_cons_of_neg (by simp [hc])
  rw [trim, hstart, trimEnd_append hfront]

theorem trim_concat {c : Char} (hc : isBlank c = true) (s : List Char) :
    trim (s ++ [c]) = trim s := by
  have hend : ∀ t, trimEnd (t ++ [c]) = trimEnd t := by
    intro t
    unfold trimEnd dropEndWhile
    rw [List.reverse_append, List.reverse_singleton, List.singleton_append,
      List.dropWhile_cons_of_pos hc]
  have hall : [c].dropWhile isBlank = [] := List.dropWhile_cons_of_pos hc
  unfold trim trimStart
  rw [List.dropWhile_append, hall]
  split
  · next hempty => rw [List.isEmpty_iff.1 hempty]
  · exact hend _

/-! ## Marks -/

section

variable {mark : List Char} (hne : mark ≠ []) (hmark : ∀ c ∈ mark, isBlank c = false)
include hne hmark

theorem infix_trimStart_iff {s : List Char} : mark <:+: trimStart s ↔ mark <:+: s := by
  induction s with
  | nil => rfl
  | cons c s ih =>
    unfold trimStart at ih ⊢
    rw [List.dropWhile_cons]
    split
    · next hc =>
      rw [ih, List.infix_cons_iff]
      refine ⟨.inr, fun h => h.resolve_left ?_⟩
      obtain ⟨d, mark, rfl⟩ := List.exists_cons_of_ne_nil hne
      intro hstart
      obtain rfl := (List.cons_prefix_cons.1 hstart).1
      rw [hmark d List.mem_cons_self] at hc
      cases hc
    · rfl

theorem infix_trimEnd_iff {s : List Char} : mark <:+: trimEnd s ↔ mark <:+: s := by
  have hreverse : ∀ c ∈ mark.reverse, isBlank c = false :=
    fun c hc => hmark c (List.mem_reverse.1 hc)
  have hstart := infix_trimStart_iff (by simpa using hne) hreverse (s := s.reverse)
  rw [List.reverse_infix] at hstart
  rw [← hstart, ← List.reverse_infix]
  unfold trimEnd dropEndWhile trimStart
  rw [List.reverse_reverse]

/-- A mark without white space is not cut off. -/
theorem infix_trim_iff {s : List Char} : mark <:+: trim s ↔ mark <:+: s := by
  unfold trim
  rw [infix_trimEnd_iff hne hmark, infix_trimStart_iff hne hmark]

end

end StructCopy.Text
