/-
  Proofs/Text/Marks: where a mark stands in a text.

  `cut?` finds the first place of a mark: what it finds stays when the text goes on, the
  part before the mark does not hold it, and a text that holds it anywhere is cut.
  `before?` takes a mark off the end of a text.
-/
import StructCopy.Text.Split

set_option autoImplicit false

namespace StructCopy.Text

/-! ## The first place -/

/-- A mark is found at its first place. -/
theorem cut?_of_first {mark s : List Char} (hmark : mark ≠ [])
    (h : ¬ mark <:+: s ++ mark.dropLast) (rest : List Char) :
    cut? mark (s ++ (mark ++ rest)) = some (s, rest) := by
  induction s with
  | nil =>
    obtain ⟨c, mark', rfl⟩ := List.exists_cons_of_ne_nil hmark
    have hafter : after? (c :: mark') (c :: (mark' ++ rest)) = some rest :=
      after?_eq_some.2 rfl
    simp only [List.nil_append, List.cons_append, cut?, hafter]
  | cons c s ih =>
    have hafter : after? mark (c :: (s ++ (mark ++ rest))) = none := by
      cases hfound : after? mark (c :: (s ++ (mark ++ rest))) with
      | none => rfl
      | some after =>
        -- it would stand in front of the last character of the one behind the text
        have hprefix : mark <+: (c :: s ++ mark.dropLast) ++ (mark.getLast hmark :: rest) := by
          refine ⟨after, ?_⟩
          rw [← after?_eq_some.1 hfound, List.append_assoc, List.append_cons mark.dropLast,
            List.dropLast_concat_getLast hmark, List.cons_append]
        have hlength : mark.length ≤ (c :: s ++ mark.dropLast).length := by
          simp only [List.cons_append, List.length_cons, List.length_append, List.length_dropLast]
          omega
        exact absurd (List.prefix_of_prefix_length_le hprefix (List.prefix_append _ _)
          hlength).isInfix h
    have hrest : ¬ mark <:+: s ++ mark.dropLast := fun hin =>
      h (hin.trans (List.infix_cons (List.infix_refl _)))
    simp only [List.cons_append, cut?, hafter, ih hrest, Option.map_some]

/-- A single character is found behind a text that does not hold it. -/
theorem cut?_append_cons {mark : Char} {s : List Char} (h : mark ∉ s) (rest : List Char) :
    cut? [mark] (s ++ mark :: rest) = some (s, rest) := by
  induction s with
  | nil => simp only [List.nil_append, cut?, after?, if_true]
  | cons c s ih =>
    rw [List.mem_cons, not_or] at h
    simp only [List.cons_append, cut?, after?, if_neg h.1, ih h.2, Option.map_some]

/-- A mark that is found stands nowhere before, not even by its first characters. -/
theorem not_infix_before {mark s left right : List Char}
    (h : cut? mark s = some (left, right)) (hmark : mark ≠ []) :
    ¬ mark <:+: left ++ mark.dropLast := by
  induction s generalizing left with
  | nil =>
    rw [cut?, if_neg (by simpa using hmark)] at h
    cases h
  | cons c s ih =>
    have hwhole := eq_append_of_cut? h
    unfold cut? at h
    split at h
    · cases h
      intro hin
      have hlength := hin.length_le
      have hpos := List.length_pos_iff.2 hmark
      simp only [List.nil_append, List.length_dropLast] at hlength
      omega
    · next hafter =>
      obtain ⟨⟨left', right'⟩, hfound, heq⟩ := Option.map_eq_some_iff.1 h
      cases heq
      rw [List.cons_append, List.infix_cons_iff]
      rintro (hstart | hin)
      · have hfront : c :: left' ++ mark.dropLast <+: c :: s := by
          rw [hwhole]
          exact ((List.prefix_append_right_inj _).2 (List.dropLast_prefix mark)).trans
            (List.prefix_append _ _)
        obtain ⟨rest, hrest⟩ := hstart.trans hfront
        rw [after?_eq_some.2 hrest.symm] at hafter
        cases hafter
      · exact ih hfound hin

/-- What is found stays when the text goes on. -/
theorem cut?_append {mark s left right : List Char} (h : cut? mark s = some (left, right))
    (hmark : mark ≠ []) (more : List Char) :
    cut? mark (s ++ more) = some (left, right ++ more) := by
  have hsplit : s ++ more = left ++ (mark ++ (right ++ more)) := by
    rw [eq_append_of_cut? h]
    simp only [List.append_assoc]
  rw [hsplit]
  exact cut?_of_first hmark (not_infix_before h hmark) _

/-! ## Anywhere -/

theorem cut?_eq_none {mark s : List Char} (h : ¬ mark <:+: s) : cut? mark s = none := by
  cases hfound : cut? mark s with
  | none => rfl
  | some found =>
    exact absurd ⟨found.1, found.2, (eq_append_of_cut? hfound).symm⟩ h

theorem not_infix_of_cut? {mark s : List Char} (h : cut? mark s = none) : ¬ mark <:+: s := by
  induction s with
  | nil =>
    rw [List.infix_nil]
    rintro rfl
    cases h
  | cons c s ih =>
    unfold cut? at h
    split at h
    · cases h
    next hafter =>
    rw [Option.map_eq_none_iff] at h
    rw [List.infix_cons_iff]
    rintro (⟨rest, hprefix⟩ | hin)
    · rw [after?_eq_some.2 hprefix.symm] at hafter
      cases hafter
    · exact ih h hin

theorem contains_iff {mark s : List Char} : contains mark s = true ↔ mark <:+: s := by
  unfold contains
  constructor
  · intro h
    obtain ⟨found, hfound⟩ := Option.isSome_iff_exists.1 h
    exact ⟨found.1, found.2, (eq_append_of_cut? hfound).symm⟩
  · intro h
    cases hfound : cut? mark s with
    | none => exact absurd h (not_infix_of_cut? hfound)
    | some found => rfl

/-! ## At the end -/

theorem before?_eq_some_iff {tail s front : List Char} :
    before? tail s = some front ↔ s = front ++ tail := by
  unfold before?
  rw [Option.map_eq_some_iff]
  constructor
  · rintro ⟨rest, hrest, rfl⟩
    rw [← List.reverse_inj, after?_eq_some.1 hrest, List.reverse_append, List.reverse_reverse]
  · rintro rfl
    refine ⟨front.reverse, ?_, List.reverse_reverse front⟩
    rw [after?_eq_some, List.reverse_append]

theorem isSome_before?_iff {tail s : List Char} :
    (before? tail s).isSome = true ↔ tail <:+ s := by
  rw [Option.isSome_iff_exists]
  exact exists_congr fun front => before?_eq_some_iff.trans eq_comm

end StructCopy.Text
