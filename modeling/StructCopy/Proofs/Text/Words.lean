/-
  Proofs/Text/Words: the words of a text and the marks between them.

  Every text is words with white space around them, in one way.  Cutting off white space at its
  ends leaves the words as they are, and a mark without white space stands in one of them.
-/
import StructCopy.Proofs.Text.Separators
import StructCopy.Proofs.Text.Trimming

set_option autoImplicit false

namespace StructCopy.Text

/-! ## Words -/

theorem exists_spaced (s : List Char) : ∃ ws, Spaced ws s := by
  induction s with
  | nil => exact ⟨[], .nil⟩
  | cons c s ih =>
    obtain ⟨ws, h⟩ := ih
    cases hc : isBlank c with
    | true => exact ⟨ws, .blank hc h⟩
    | false =>
      have hone : ∀ d ∈ [c], isBlank d = false := List.forall_mem_singleton.2 hc
      cases h with
      | nil => exact ⟨[[c]], .word (List.cons_ne_nil c []) hone (by simp) .nil⟩
      | blank hd h => exact ⟨[c] :: ws, .word (List.cons_ne_nil c []) hone (by simpa) (.blank hd h)⟩
      | @word w ws s hne hw hs h =>
        exact ⟨(c :: w) :: ws, .word (List.cons_ne_nil c w) (List.forall_mem_cons.2 ⟨hc, hw⟩) hs h⟩

theorem spaced_iff {ws : List (List Char)} {s : List Char} : Spaced ws s ↔ words s = ws := by
  constructor
  · exact Spaced.words_eq
  · rintro rfl
    obtain ⟨ws, h⟩ := exists_spaced s
    rwa [h.words_eq]

theorem words_trimStart (s : List Char) : words (trimStart s) = words s := by
  induction s with
  | nil => rfl
  | cons c s ih =>
    unfold trimStart at ih ⊢
    cases hc : isBlank c with
    | true => rw [List.dropWhile_cons_of_pos hc, ih, words_cons_of_blank hc]
    | false => rw [List.dropWhile_cons_of_neg (by simp [hc])]

theorem words_trimEnd (s : List Char) : words (trimEnd s) = words s := by
  obtain ⟨back, hs, hback⟩ := exists_append_trimEnd s
  rw [← words_append_of_blanks hback (trimEnd s), ← hs]

theorem words_trim (s : List Char) : words (trim s) = words s :=
  (words_trimEnd _).trans (words_trimStart s)

theorem Spaced.trimStart {ws : List (List Char)} {s : List Char} (h : Spaced ws s) :
    Spaced ws (trimStart s) :=
  spaced_iff.2 ((words_trimStart s).trans h.words_eq)

theorem Spaced.trimEnd {ws : List (List Char)} {s : List Char} (h : Spaced ws s) :
    Spaced ws (trimEnd s) :=
  spaced_iff.2 ((words_trimEnd s).trans h.words_eq)

theorem Spaced.trim {ws : List (List Char)} {s : List Char} (h : Spaced ws s) :
    Spaced ws (trim s) :=
  spaced_iff.2 ((words_trim s).trans h.words_eq)

theorem Spaced.isBlank {s : List Char} (h : Spaced [] s) : ∀ c ∈ s, isBlank c = true := by
  generalize hws : ([] : List (List Char)) = ws at h
  induction h with
  | nil => exact List.forall_mem_nil _
  | blank hc _ ih => exact List.forall_mem_cons.2 ⟨hc, ih hws⟩
  | word => cases hws

/-- A single word is what is left of its text. -/
theorem Spaced.trim_eq {w s : List Char} (h : Spaced [w] s) : Text.trim s = w := by
  generalize hws : [w] = ws at h
  induction h with
  | nil => cases hws
  | @blank c _ s hc _ ih =>
    have hone : ∀ d ∈ [c], Text.isBlank d = true := List.forall_mem_singleton.2 hc
    rw [← ih hws, ← trim_append_of_blanks hone s]
    rfl
  | word hne hw _ h =>
    cases hws
    exact trim_between (List.forall_mem_nil _) hw h.isBlank

theorem trimEnd_cons (c : Char) {s : List Char} (h : Text.trimEnd s ≠ []) :
    Text.trimEnd (c :: s) = c :: Text.trimEnd s := by
  unfold Text.trimEnd dropEndWhile at h ⊢
  rw [List.reverse_cons, List.dropWhile_append, if_neg (by simpa using h), List.reverse_concat]

theorem trim_append_blanks {blanks : List Char} (h : ∀ c ∈ blanks, isBlank c = true)
    (s : List Char) : Text.trim (s ++ blanks) = Text.trim s := by
  induction blanks generalizing s with
  | nil => rw [List.append_nil]
  | cons c blanks ih =>
    obtain ⟨hc, hrest⟩ := List.forall_mem_cons.1 h
    rw [List.append_cons, ih hrest, trim_concat hc]

theorem trim_trimEnd (s : List Char) : Text.trim (Text.trimEnd s) = Text.trim s := by
  obtain ⟨back, hs, hback⟩ := exists_append_trimEnd s
  rw [← trim_append_blanks hback (Text.trimEnd s), ← hs]

theorem isBlank_of_trim_eq_nil {s : List Char} (h : Text.trim s = []) :
    ∀ c ∈ s, isBlank c = true := by
  have hwords : words s = [] := by rw [← words_trim, h]; rfl
  exact (spaced_iff.2 hwords).isBlank

/-! ## Marks of two characters -/

section

variable {a b : Char}

theorem pair_infix_cons {c : Char} {s : List Char} :
    [a, b] <:+: c :: s ↔ (c = a ∧ s.head? = some b) ∨ [a, b] <:+: s := by
  rw [List.infix_cons_iff, List.cons_prefix_cons]
  refine or_congr_left (and_congr eq_comm ?_)
  cases s with
  | nil => simp
  | cons d s => simp [eq_comm]

/-- A mark of two characters stands in one of two texts, or where they meet. -/
theorem pair_infix_append {s t : List Char} : [a, b] <:+: s ++ t ↔
    [a, b] <:+: s ∨ [a, b] <:+: t ∨ (s.getLast? = some a ∧ t.head? = some b) := by
  induction s with
  | nil => simp
  | cons c s ih =>
    rw [List.cons_append, pair_infix_cons, pair_infix_cons, ih]
    cases s with
    | nil => simp; tauto
    | cons d s =>
      rw [List.getLast?_cons_cons, List.cons_append, List.head?_cons, List.head?_cons]
      tauto

/-- A mark without white space stands in one of the words. -/
theorem Spaced.not_pair_infix {ws : List (List Char)} {s : List Char} (h : Spaced ws s)
    (ha : Text.isBlank a = false) (hb : Text.isBlank b = false)
    (hws : ∀ w ∈ ws, ¬ [a, b] <:+: w) : ¬ [a, b] <:+: s := by
  induction h with
  | nil => simp
  | @blank c _ s hc _ ih =>
    rw [pair_infix_cons, not_or]
    refine ⟨?_, ih hws⟩
    rintro ⟨rfl, -⟩
    rw [ha] at hc
    cases hc
  | word hne _ hs _ ih =>
    obtain ⟨hw, hrest⟩ := List.forall_mem_cons.1 hws
    rw [pair_infix_append, not_or, not_or]
    refine ⟨hw, ih hrest, ?_⟩
    rintro ⟨-, hhead⟩
    have hblank := hs b hhead
    rw [hb] at hblank
    cases hblank

end

end StructCopy.Text
