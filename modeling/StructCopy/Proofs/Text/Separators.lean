/-
  Proofs/Text/Separators: the parts of a text between separators.

  Text that goes on goes on in its last part, and parts that hold no separator are told
  apart again when they are joined.  Lines are the parts between line feeds, but for the
  carriage returns at their ends and an empty part at the end of the text.
-/
import Mathlib.Data.List.Forall2
import StructCopy.Text.Split

set_option autoImplicit false

namespace StructCopy.Text

/-! ## One character after another -/

theorem splitWhere_cons_of_pos {p : Char → Bool} {c : Char} (hc : p c = true) (s : List Char) :
    splitWhere p (c :: s) = [] :: splitWhere p s :=
  if_pos hc

theorem splitWhere_cons_of_neg {p : Char → Bool} {c : Char} (hc : p c = false) (s : List Char) :
    splitWhere p (c :: s) = (splitWhere p s).modifyHead (c :: ·) := by
  rw [splitWhere, if_neg (by simp [hc])]
  split
  · next hnil => exact absurd hnil (splitWhere_ne_nil p s)
  · next hparts => rw [hparts, List.modifyHead_cons]

theorem splitWhere_eq_splitOnP (p : Char → Bool) (s : List Char) :
    splitWhere p s = s.splitOnP p := by
  induction s with
  | nil => exact List.splitOnP_nil.symm
  | cons c s ih =>
    rw [List.splitOnP_cons_eq_if_modifyHead, ← ih]
    cases hc : p c with
    | true => rw [splitWhere_cons_of_pos hc, if_pos rfl]
    | false => rw [splitWhere_cons_of_neg hc, if_neg Bool.false_ne_true]

theorem splitWhere_of_forall {p : Char → Bool} {s : List Char} (h : ∀ c ∈ s, p c = false) :
    splitWhere p s = [s] := by
  rw [splitWhere_eq_splitOnP, List.splitOnP_eq_singleton h]

theorem exists_splitWhere_concat (p : Char → Bool) (s : List Char) :
    ∃ upper last, splitWhere p s = upper ++ [last] :=
  ⟨_, _, (List.dropLast_append_getLast (splitWhere_ne_nil p s)).symm⟩

theorem forall_mem_splitWhere (p : Char → Bool) (s : List Char) :
    ∀ part ∈ splitWhere p s, ∀ c ∈ part, p c = false := by
  induction s with
  | nil => simp [splitWhere]
  | cons c s ih =>
    cases hc : p c with
    | true =>
      rw [splitWhere_cons_of_pos hc]
      exact List.forall_mem_cons.2 ⟨List.forall_mem_nil _, ih⟩
    | false =>
      rw [splitWhere_cons_of_neg hc]
      obtain ⟨part, parts, hparts⟩ := List.exists_cons_of_ne_nil (splitWhere_ne_nil p s)
      rw [hparts] at ih
      rw [hparts, List.modifyHead_cons]
      obtain ⟨hpart, hrest⟩ := List.forall_mem_cons.1 ih
      exact List.forall_mem_cons.2 ⟨List.forall_mem_cons.2 ⟨hc, hpart⟩, hrest⟩

/-- The first part begins the text, and every part stands in it. -/
theorem infix_of_mem_splitWhere {p : Char → Bool} {s part : List Char}
    (h : part ∈ splitWhere p s) : part <:+: s := by
  have hall : (∀ first ∈ (splitWhere p s).head?, first <+: s) ∧
      ∀ part ∈ splitWhere p s, part <:+: s := by
    clear h
    induction s with
    | nil => simp [splitWhere]
    | cons c s ih =>
      obtain ⟨hfirst, hparts⟩ := ih
      cases hc : p c with
      | true =>
        rw [splitWhere_cons_of_pos hc]
        refine ⟨by simp, List.forall_mem_cons.2 ⟨List.nil_infix, fun part hpart => ?_⟩⟩
        exact List.infix_cons (hparts part hpart)
      | false =>
        rw [splitWhere_cons_of_neg hc]
        obtain ⟨first, parts, hsplit⟩ := List.exists_cons_of_ne_nil (splitWhere_ne_nil p s)
        rw [hsplit] at hfirst hparts
        rw [hsplit, List.modifyHead_cons]
        have hstart : c :: first <+: c :: s :=
          (List.prefix_cons_inj c).2 (hfirst first rfl)
        refine ⟨by simpa using hstart, List.forall_mem_cons.2 ⟨hstart.isInfix, ?_⟩⟩
        exact fun part hpart => List.infix_cons (hparts part (List.mem_cons_of_mem _ hpart))
  exact hall.2 part h

/-! ## Text that goes on -/

/-- The last part goes on with the first part of what follows. -/
theorem splitWhere_append {p : Char → Bool} {s : List Char} {upper : List (List Char)}
    {last : List Char} (h : splitWhere p s = upper ++ [last]) (t : List Char) :
    splitWhere p (s ++ t) = upper ++ (splitWhere p t).modifyHead (last ++ ·) := by
  induction s generalizing upper last with
  | nil =>
    have hlast : [] ++ [[]] = upper ++ [last] := h
    obtain ⟨rfl, hlast⟩ := List.append_inj' hlast rfl
    cases hlast
    obtain ⟨part, parts, hparts⟩ := List.exists_cons_of_ne_nil (splitWhere_ne_nil p t)
    rw [List.nil_append, List.nil_append, hparts]
    rfl
  | cons c s ih =>
    obtain ⟨before, last', hs⟩ := exists_splitWhere_concat p s
    rw [List.cons_append]
    cases hc : p c with
    | true =>
      rw [splitWhere_cons_of_pos hc, hs, ← List.cons_append] at h
      obtain ⟨rfl, hlast⟩ := List.append_inj' h rfl
      cases hlast
      rw [splitWhere_cons_of_pos hc, ih hs, List.cons_append]
    | false =>
      rw [splitWhere_cons_of_neg hc, hs] at h
      rw [splitWhere_cons_of_neg hc, ih hs]
      cases before with
      | nil =>
        have hlast : [] ++ [c :: last'] = upper ++ [last] := h
        obtain ⟨rfl, hlast⟩ := List.append_inj' hlast rfl
        cases hlast
        rw [List.nil_append, List.nil_append, List.modifyHead_modifyHead]
        rfl
      | cons first before =>
        rw [List.cons_append, List.modifyHead_cons, ← List.cons_append] at h
        obtain ⟨rfl, hlast⟩ := List.append_inj' h rfl
        cases hlast
        rw [List.cons_append, List.modifyHead_cons, List.cons_append]

/-- Text without separators goes to the last part. -/
theorem splitWhere_append_plain {p : Char → Bool} {s : List Char} {upper : List (List Char)}
    {last : List Char} (h : splitWhere p s = upper ++ [last]) {t : List Char}
    (ht : ∀ c ∈ t, p c = false) : splitWhere p (s ++ t) = upper ++ [last ++ t] := by
  rw [splitWhere_append h, splitWhere_of_forall ht, List.modifyHead_cons]

/-- A separator ends the last part. -/
theorem splitWhere_append_cons {p : Char → Bool} {c : Char} (hc : p c = true) (s t : List Char) :
    splitWhere p (s ++ c :: t) = splitWhere p s ++ splitWhere p t := by
  simp only [splitWhere_eq_splitOnP, List.splitOnP_append_cons s t hc]

theorem not_mem_of_mem_splitAt {sep : Char} {s part : List Char} (h : part ∈ splitAt sep s) :
    sep ∉ part := by
  intro hmem
  have hsep := forall_mem_splitWhere (· == sep) s part h sep hmem
  rw [beq_self_eq_true] at hsep
  cases hsep

theorem splitAt_of_not_mem {sep : Char} {s : List Char} (h : sep ∉ s) : splitAt sep s = [s] :=
  splitWhere_of_forall fun _ hc => beq_eq_false_iff_ne.2 fun heq => h (heq ▸ hc)

/-- What stands before the first separator is the first part. -/
theorem exists_splitAt_append {sep : Char} {s rest : List Char} (hs : sep ∉ s)
    (hrest : ∀ c ∈ rest.head?, c = sep) : ∃ parts, splitAt sep (s ++ rest) = s :: parts := by
  have hplain : splitWhere (· == sep) s = [] ++ [s] := splitAt_of_not_mem hs
  unfold splitAt
  rw [splitWhere_append hplain, List.nil_append]
  cases rest with
  | nil => exact ⟨[], by rw [splitWhere, List.modifyHead_cons, List.append_nil]⟩
  | cons c rest =>
    refine ⟨splitWhere (· == sep) rest, ?_⟩
    rw [splitWhere_cons_of_pos (p := (· == sep)) (beq_iff_eq.2 (hrest c rfl)),
      List.modifyHead_cons, List.append_nil]

/-- The parts of a text that is joined from parts. -/
theorem splitAt_intercalate {sep : Char} {parts : List (List Char)} (hne : parts ≠ [])
    (h : ∀ part ∈ parts, sep ∉ part) : splitAt sep ([sep].intercalate parts) = parts := by
  rw [splitAt, splitWhere_eq_splitOnP]
  exact List.splitOn_intercalate sep h hne

theorem mem_of_mem_intercalate {sep c : Char} {parts : List (List Char)}
    (h : c ∈ [sep].intercalate parts) : c = sep ∨ ∃ part ∈ parts, c ∈ part := by
  induction parts with
  | nil => cases h
  | cons part parts ih =>
    cases parts with
    | nil =>
      rw [List.intercalate_singleton] at h
      exact .inr ⟨part, List.mem_cons_self, h⟩
    | cons next parts =>
      rw [List.intercalate_cons_cons, List.append_assoc, List.mem_append, List.singleton_append,
        List.mem_cons] at h
      rcases h with h | h | h
      · exact .inr ⟨part, List.mem_cons_self, h⟩
      · exact .inl h
      · exact (ih h).imp_right fun ⟨other, hother, hc⟩ =>
          ⟨other, List.mem_cons_of_mem _ hother, hc⟩

theorem length_splitAt (sep : Char) (s : List Char) :
    (splitAt sep s).length = s.count sep + 1 := by
  unfold splitAt
  induction s with
  | nil => rfl
  | cons c s ih =>
    cases hc : c == sep with
    | true =>
      rw [splitWhere_cons_of_pos (p := (· == sep)) hc, List.length_cons, ih, eq_of_beq hc,
        List.count_cons_self]
    | false =>
      rw [splitWhere_cons_of_neg (p := (· == sep)) hc, List.length_modifyHead, ih,
        List.count_cons_of_ne (by simpa using hc)]

/-! ## Words -/

/-- Words with white space around them and between them. -/
inductive Spaced : List (List Char) → List Char → Prop where
  | nil : Spaced [] []
  | blank {c : Char} {ws : List (List Char)} {s : List Char} (hc : isBlank c = true)
      (h : Spaced ws s) : Spaced ws (c :: s)
  | word {w : List Char} {ws : List (List Char)} {s : List Char} (hne : w ≠ [])
      (hw : ∀ c ∈ w, isBlank c = false) (hs : ∀ c ∈ s.head?, isBlank c = true)
      (h : Spaced ws s) : Spaced (w :: ws) (w ++ s)

theorem words_cons_of_blank {c : Char} (hc : isBlank c = true) (s : List Char) :
    words (c :: s) = words s := by
  rw [words, splitWhere_cons_of_pos hc, List.filter_cons_of_neg (by simp), words]

theorem words_append_of_word {w : List Char} (hne : w ≠ []) (hw : ∀ c ∈ w, isBlank c = false)
    {s : List Char} (hs : ∀ c ∈ s.head?, isBlank c = true) : words (w ++ s) = w :: words s := by
  have hplain : splitWhere isBlank w = [] ++ [w] := splitWhere_of_forall hw
  have hkeep : ∀ ws, (w :: ws).filter (fun word => !word.isEmpty) =
      w :: ws.filter fun word => !word.isEmpty :=
    fun _ => List.filter_cons_of_pos (by simpa using hne)
  rw [words, splitWhere_append hplain, List.nil_append]
  cases s with
  | nil =>
    rw [splitWhere, List.modifyHead_cons, List.append_nil, hkeep]
    rfl
  | cons c s =>
    have hc := hs c rfl
    rw [splitWhere_cons_of_pos hc, List.modifyHead_cons, List.append_nil, hkeep,
      words_cons_of_blank hc, words]

theorem Spaced.words_eq {ws : List (List Char)} {s : List Char} (h : Spaced ws s) :
    words s = ws := by
  induction h with
  | nil => rfl
  | blank hc _ ih => rw [words_cons_of_blank hc, ih]
  | word hne hw hs _ ih => rw [words_append_of_word hne hw hs, ih]

/-- Words with one space between them. -/
theorem spaced_intercalate {ws : List (List Char)}
    (h : ∀ w ∈ ws, w ≠ [] ∧ ∀ c ∈ w, isBlank c = false) :
    Spaced ws ([' '].intercalate ws) := by
  have hspace : isBlank ' ' = true := by decide
  induction ws with
  | nil => exact .nil
  | cons w ws ih =>
    obtain ⟨⟨hne, hw⟩, hws⟩ := List.forall_mem_cons.1 h
    cases ws with
    | nil =>
      have hlast := Spaced.word hne hw (by simp) .nil
      rw [List.append_nil] at hlast
      rwa [List.intercalate_singleton]
    | cons next ws =>
      rw [List.intercalate_cons_cons, List.append_assoc, List.singleton_append]
      exact .word hne hw (by simpa using hspace) (.blank hspace (ih hws))

theorem words_append_of_blanks {blanks : List Char} (h : ∀ c ∈ blanks, isBlank c = true)
    (s : List Char) : words (s ++ blanks) = words s := by
  have hblanks : ∀ {t : List Char}, (∀ c ∈ t, isBlank c = true) →
      (splitWhere isBlank t).filter (fun word => !word.isEmpty) = [] := by
    intro t ht
    induction t with
    | nil => rfl
    | cons c t ih =>
      obtain ⟨hc, ht⟩ := List.forall_mem_cons.1 ht
      rw [splitWhere_cons_of_pos hc, List.filter_cons_of_neg (by simp), ih ht]
  obtain ⟨upper, last, hs⟩ := exists_splitWhere_concat isBlank s
  rw [words, words, splitWhere_append hs, hs]
  cases blanks with
  | nil => rw [splitWhere, List.modifyHead_cons, List.append_nil]
  | cons c blanks =>
    obtain ⟨hc, hrest⟩ := List.forall_mem_cons.1 h
    rw [splitWhere_cons_of_pos hc, List.modifyHead_cons, List.append_nil,
      List.append_cons upper, List.filter_append, hblanks hrest, List.append_nil]

/-! ## The last part -/

theorem eq_of_splitWhere_eq_singleton {p : Char → Bool} {s part : List Char}
    (h : splitWhere p s = [part]) : part = s := by
  induction s generalizing part with
  | nil =>
    cases h
    rfl
  | cons c s ih =>
    simp only [splitWhere] at h
    split at h
    · exact absurd (List.cons.inj h).2 (splitWhere_ne_nil p s)
    · split at h
      · next hnil => exact absurd hnil (splitWhere_ne_nil p s)
      · next first parts hparts =>
        cases h
        rw [ih hparts]

/-- What follows the last separator. -/
theorem suffix_of_getLast?_splitAt {sep : Char} {s last : List Char}
    (h : (splitAt sep s).tail.getLast? = some last) : (sep :: last) <:+ s := by
  unfold splitAt at h
  induction s with
  | nil => cases h
  | cons c s ih =>
    simp only [splitWhere] at h
    split at h
    · next hc =>
      cases eq_of_beq hc
      rw [List.tail_cons] at h
      cases hparts : splitWhere (· == sep) s with
      | nil => exact absurd hparts (splitWhere_ne_nil _ s)
      | cons first parts =>
        rw [hparts] at h ih
        cases parts with
        | nil =>
          cases Option.some.inj h
          cases eq_of_splitWhere_eq_singleton hparts
          exact List.suffix_rfl
        | cons second parts => exact (ih h).trans (List.suffix_cons sep s)
    · split at h
      · cases h
      · next first parts hparts =>
        rw [hparts] at ih
        exact (ih h).trans (List.suffix_cons c s)

/-! ## Lines -/

/-- The lines are the parts between line feeds, but for an empty one at the end, and each may have
lost a carriage return. -/
theorem exists_splitAt_lines (s : List Char) :
    ∃ parts, (splitAt '\n' s = parts ∨ splitAt '\n' s = parts ++ [[]]) ∧
      List.Forall₂ (fun part line => part = line ∨ part = line ++ ['\r']) parts (lines s) := by
  unfold splitAt
  induction s using lines.induct with
  | case1 => exact ⟨[], .inr rfl, .nil⟩
  | case2 s ih =>
    obtain ⟨parts, hparts, hlines⟩ := ih
    refine ⟨[] :: parts, ?_, .cons (.inl rfl) hlines⟩
    rcases hparts with hparts | hparts
    · exact .inl (congrArg ([] :: ·) hparts)
    · exact .inr (congrArg ([] :: ·) hparts)
  | case3 s ih =>
    obtain ⟨parts, hparts, hlines⟩ := ih
    refine ⟨['\r'] :: parts, ?_, .cons (.inr rfl) hlines⟩
    rw [splitWhere_cons_of_neg rfl, splitWhere_cons_of_pos rfl, List.modifyHead_cons]
    rcases hparts with hparts | hparts
    · exact .inl (congrArg (['\r'] :: ·) hparts)
    · exact .inr (congrArg (['\r'] :: ·) hparts)
  | case4 c s hbreak hreturn hempty ih =>
    obtain ⟨parts, hparts, hlines⟩ := ih
    rw [hempty] at hlines
    cases hlines
    have hs : splitWhere (· == '\n') s = [[]] :=
      hparts.resolve_left (splitWhere_ne_nil _ s)
    have hline : lines (c :: s) = [[c]] := by
      rw [lines, hempty]
      · exact hbreak
      · exact hreturn
    rw [hline, splitWhere_cons_of_neg (p := (· == '\n')) (beq_eq_false_iff_ne.2 hbreak), hs]
    exact ⟨[[c]], .inl rfl, .cons (.inl rfl) .nil⟩
  | case5 c s hbreak hreturn line rest hs ih =>
    obtain ⟨parts, hparts, hlines⟩ := ih
    rw [hs] at hlines
    have hline : lines (c :: s) = (c :: line) :: rest := by
      rw [lines, hs]
      · exact hbreak
      · exact hreturn
    rw [hline, splitWhere_cons_of_neg (p := (· == '\n')) (beq_eq_false_iff_ne.2 hbreak)]
    cases hlines with
    | @cons part _ parts _ hpart hrest =>
      refine ⟨(c :: part) :: parts, ?_, .cons ?_ hrest⟩
      · rcases hparts with hparts | hparts
        · exact .inl (congrArg (List.modifyHead (c :: ·)) hparts)
        · exact .inr (congrArg (List.modifyHead (c :: ·)) hparts)
      · rcases hpart with rfl | rfl
        · exact .inl rfl
        · exact .inr rfl

end StructCopy.Text
