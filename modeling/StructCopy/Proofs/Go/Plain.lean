/-
  Proofs/Go/Plain: texts without literals, comments and brackets.

  A plain text is made of white space, letters, numbers of any script, and the marks
  that a package path has besides.  Taken apart it gives blanks and tokens that neither
  open nor close anything, and only one thing can go wrong with it: no token starts with
  a number that is no decimal digit.  Whether that happens does not depend on what stands
  behind a barrier.
-/
import StructCopy.Proofs.Go.Cutting
import StructCopy.Proofs.Go.Extension

set_option autoImplicit false

namespace StructCopy.Go

/-! ## Plain characters -/

/-- A character of a plain text. -/
def isPlain (c : Char) : Bool :=
  Text.isWordPart c || (Text.isBlank c && c != '\n') || ['.', '-', '~'].contains c

theorem ne_of_isPlain {c d : Char} (h : isPlain c = true) (hd : isPlain d = false) : c ≠ d := by
  rintro rfl
  rw [h] at hd
  cases hd

theorem isPlain_of_isWordPart {c : Char} (h : Text.isWordPart c = true) : isPlain c = true := by
  rw [isPlain, h]
  rfl

theorem isWordPart_of_mem {w : List Char} (hw : Text.isIdentifier w = true) {c : Char}
    (hc : c ∈ w) : Text.isWordPart c = true := by
  obtain ⟨first, more, rfl, hstart, hmore⟩ := exists_cons_of_isIdentifier hw
  rcases List.mem_cons.1 hc with rfl | hc
  · exact Text.isWordPart_of_isWordStart hstart
  · exact List.all_eq_true.1 hmore c hc

theorem isPlain_of_isIdentifier {w : List Char} (hw : Text.isIdentifier w = true) :
    w.all isPlain = true :=
  List.all_eq_true.2 fun _ hc => isPlain_of_isWordPart (isWordPart_of_mem hw hc)

theorem isPlain_of_isBlank {c : Char} (h : Text.isBlank c = true) (hbreak : c ≠ '\n') :
    isPlain c = true := by
  simp [isPlain, h, hbreak]

/-! ## Pieces of plain texts -/

/-- A blank, or a token that opens and closes nothing and ends no statement by itself. -/
def Piece.isPlain : Piece → Bool
  | .token t breaks => breaks == 0 && !t.opens && !t.closes && t != .semicolon
  | .blank => true
  | _ => false

theorem isPlain_longOperator (text : String) :
    (Piece.token (longOperator text) 0).isPlain = true := by
  rcases longOperator_cases text with h | h | h <;> rw [h] <;> rfl

theorem isPlain_shortOperator {c : Char} (hc : isPlain c = true) {token : Token}
    (h : shortOperator? c = some token) : (Piece.token token 0).isPlain = true := by
  have hne : ∀ d, isPlain d = false → c ≠ d := fun _ => ne_of_isPlain hc
  unfold shortOperator? at h
  split at h
  case h_14 =>
    split at h
    · cases h
      rfl
    · cases h
  case h_8 | h_11 | h_13 =>
    cases h
    rfl
  all_goals exact absurd rfl (hne _ (by decide))

theorem exists_cons_of_longOperator {text : String} (h : text ∈ longOperators) :
    ∃ c s, text.toList = c :: s := by
  have hnonempty : ∀ text ∈ longOperators, text.toList ≠ [] := by decide
  exact List.exists_cons_of_ne_nil (hnonempty text h)

/-- What a piece that starts with a plain character is, and that the text behind it is an end of
the text. -/
theorem CutsOff.of_isPlain {c : Char} {s rest : List Char} {piece : Piece}
    (h : CutsOff c s piece rest) (hc : isPlain c = true) : piece.isPlain = true ∧ rest <:+ s := by
  have hne : ∀ d, isPlain d = false → c ≠ d := fun _ => ne_of_isPlain hc
  cases h with
  | blank => exact ⟨rfl, List.suffix_rfl⟩
  | number => exact ⟨rfl, List.dropWhile_suffix _⟩
  | word => exact ⟨rfl, List.dropWhile_suffix _⟩
  | @longOperator _ _ _ text hmem htext =>
    refine ⟨isPlain_longOperator text, ?_⟩
    obtain ⟨d, front, hfront⟩ := exists_cons_of_longOperator hmem
    rw [hfront, List.cons_append] at htext
    exact ⟨front, (List.cons.inj htext).2.symm⟩
  | shortOperator htoken => exact ⟨isPlain_shortOperator hc htoken, List.suffix_rfl⟩
  | _ => exact absurd rfl (hne _ (by decide))

/-- Every operator of more than one character starts with one of a single character. -/
theorem isSome_shortOperator? {c : Char} {s rest : List Char} {token : Token}
    (h : longOperator? (c :: s) = some (token, rest)) : (shortOperator? c).isSome = true := by
  have hstart : ∀ text ∈ longOperators, (text.toList.head?.bind shortOperator?).isSome = true := by
    decide
  obtain ⟨text, hmem, hfound⟩ := List.exists_of_findSome?_eq_some h
  obtain ⟨rest', hafter, -⟩ := Option.map_eq_some_iff.1 hfound
  obtain ⟨d, front, hfront⟩ := exists_cons_of_longOperator hmem
  have hsome := hstart text hmem
  have htext := Text.after?_eq_some.1 hafter
  rw [hfront, List.cons_append] at htext
  rw [hfront, List.head?_cons, Option.bind_some] at hsome
  rw [(List.cons.inj htext).1]
  exact hsome

theorem isWordPart_of_shortOperator? {c : Char} {token : Token}
    (h : shortOperator? c = some token) : Text.isWordPart c = false := by
  unfold shortOperator? at h
  split at h
  case h_14 =>
    split at h
    · next hmem =>
      have hall : ("+-/%&|^<>!".toList.all fun d => !Text.isWordPart d) = true := by decide
      simpa using List.all_eq_true.1 hall c (List.contains_iff_mem.1 hmem)
    · cases h
  all_goals decide

/-- Nothing can be cut off before this character, whatever stands behind it. -/
def Stray (c : Char) : Prop :=
  Text.isBlank c = false ∧ c.isDigit = false ∧ Text.isWordStart c = false ∧ shortOperator? c = none

/-- A plain character is no mark of a comment or of a literal. -/
theorem lead_of_isPlain {c : Char} (hc : isPlain c = true) (hblank : Text.isBlank c = false)
    (s : List Char) :
    lead c s =
      if startsNumber c s then .number else if Text.isWordStart c then .word else .operator :=
  lead_of_unmarked hc (by decide) hblank s

theorem stray_of_step {c : Char} {s : List Char} {fault : PieceFault} (hc : isPlain c = true)
    (h : step c s = .error fault) : Stray c := by
  cases hblank : Text.isBlank c with
  | true =>
    rw [step_eq_cut, lead_of_isBlank hblank (ne_of_isPlain hc (by decide))] at h
    cases h
  | false =>
    rw [step_eq_cut, lead_of_isPlain hc hblank] at h
    split at h
    · cases h
    next hnumber =>
    split at h
    · cases h
    next hword =>
    rw [Lead.cut] at h
    split at h
    · cases h
    · split at h
      · cases h
      · next hshort =>
        rw [startsNumber, Bool.or_eq_true, not_or] at hnumber
        exact ⟨hblank, Bool.eq_false_iff.2 hnumber.1, Bool.eq_false_iff.2 hword, hshort⟩

theorem Stray.step_eq {c : Char} (h : Stray c) (hc : isPlain c = true) (s : List Char) :
    step c s = .error (.strayCharacter c) := by
  obtain ⟨hblank, hdigit, hword, hshort⟩ := h
  have hpoint : c ≠ '.' := by
    rintro rfl
    cases hshort
  have hnumber : startsNumber c s = false := by
    rw [startsNumber, hdigit, beq_false_of_ne hpoint]
    rfl
  have hlong : longOperator? (c :: s) = none := by
    cases hfound : longOperator? (c :: s) with
    | none => rfl
    | some found =>
      have hsome := isSome_shortOperator? hfound
      rw [hshort] at hsome
      cases hsome
  rw [step_eq_cut, lead_of_isPlain hc hblank, hnumber, if_neg Bool.false_ne_true, hword,
    if_neg Bool.false_ne_true, Lead.cut, hlong, hshort]

/-- In a plain text, only a number that is no decimal digit can be stray. -/
theorem Stray.isNumeric {c : Char} (h : Stray c) (hc : isPlain c = true) :
    Text.isNumeric c = true := by
  obtain ⟨hblank, -, hword, hshort⟩ := h
  have hmarks : ∀ d ∈ ['.', '-', '~'], (shortOperator? d).isSome = true :=
    List.all_eq_true.1 (by decide)
  have hmark : ['.', '-', '~'].contains c = false := by
    rw [Bool.eq_false_iff]
    intro hmem
    have hsome := hmarks c (List.contains_iff_mem.1 hmem)
    rw [hshort] at hsome
    cases hsome
  rw [Text.isWordStart, Bool.or_eq_false_iff] at hword
  rwa [isPlain, hmark, hblank, Text.isWordPart, Text.isAlphanumeric, hword.1, hword.2,
    Bool.false_and, Bool.or_false, Bool.or_false, Bool.or_false, Bool.false_or] at hc

/-! ## Plain texts -/

theorem isPlain_of_suffix {s rest : List Char} (h : rest <:+ s) (hs : s.all isPlain = true) :
    rest.all isPlain = true := by
  rw [List.all_eq_true] at hs ⊢
  exact fun c hc => hs c (h.subset hc)

/-- The pieces of a plain text are plain. -/
theorem isPlain_of_mem_pieces {s : List Char} (hs : s.all isPlain = true) :
    ∀ piece ∈ (pieces s).1, piece.isPlain = true := by
  fun_induction pieces s with
  | case1 => exact fun _ h => absurd h List.not_mem_nil
  | case2 => exact fun _ h => absurd h List.not_mem_nil
  | case3 c s piece rest hstep found ih =>
    rw [List.all_cons, Bool.and_eq_true] at hs
    obtain ⟨hpiece, hrest⟩ := (cutsOff_of_step hstep).of_isPlain hs.1
    intro piece' hmem
    rcases List.mem_cons.1 hmem with rfl | hmem
    · exact hpiece
    · exact ih (isPlain_of_suffix hrest hs.2) piece' hmem

/-- A plain text that can be taken apart is taken apart alike in front of a barrier. -/
theorem pieces_append_of_isPlain {d : Char} (hd : isBarrier d = true) {s : List Char}
    (hs : s.all isPlain = true) (hfault : (pieces s).2 = none) (r : List Char) :
    pieces (s ++ d :: r) = ((pieces s).1 ++ (pieces (d :: r)).1, (pieces (d :: r)).2) := by
  refine pieces_append hd hfault fun breaks hmem => ?_
  cases isPlain_of_mem_pieces hs _ hmem

/-- A plain text that cannot be taken apart cannot be taken apart in front of a barrier. -/
theorem fault_append_of_isPlain {d : Char} (hd : isBarrier d = true) {s : List Char}
    (hs : s.all isPlain = true) (hfault : (pieces s).2 ≠ none) (r : List Char) :
    (pieces (s ++ d :: r)).2 ≠ none := by
  fun_induction pieces s with
  | case1 => exact absurd rfl hfault
  | case2 c s fault hstep =>
    rw [List.all_cons, Bool.and_eq_true] at hs
    rw [List.cons_append, pieces]
    split
    · exact Option.some_ne_none _
    · next hstep' =>
      rw [(stray_of_step hs.1 hstep).step_eq hs.1] at hstep'
      cases hstep'
  | case3 c s piece rest hstep found ih =>
    rw [List.all_cons, Bool.and_eq_true] at hs
    obtain ⟨hpiece, hrest⟩ := (cutsOff_of_step hstep).of_isPlain hs.1
    have hcomment : ∀ breaks, piece ≠ .comment breaks := by
      rintro breaks rfl
      cases hpiece
    rw [List.cons_append, pieces_of_step (step_append hd hstep hcomment)]
    exact ih (isPlain_of_suffix hrest hs.2) hfault

/-! ## Plain texts without a fault -/

theorem exists_stray_of_fault {s : List Char} (hs : s.all isPlain = true)
    (hfault : (pieces s).2 ≠ none) : ∃ c ∈ s, Text.isNumeric c = true ∧ c.isDigit = false := by
  fun_induction pieces s with
  | case1 => exact absurd rfl hfault
  | case2 c s fault hstep =>
    rw [List.all_cons, Bool.and_eq_true] at hs
    have hstray := stray_of_step hs.1 hstep
    exact ⟨c, List.mem_cons_self, hstray.isNumeric hs.1, hstray.2.1⟩
  | case3 c s piece rest hstep found ih =>
    rw [List.all_cons, Bool.and_eq_true] at hs
    obtain ⟨-, hrest⟩ := (cutsOff_of_step hstep).of_isPlain hs.1
    obtain ⟨c', hmem, hc'⟩ := ih (isPlain_of_suffix hrest hs.2) hfault
    exact ⟨c', List.mem_cons_of_mem _ (hrest.subset hmem), hc'⟩

/-- A plain text whose numbers are decimal digits can be taken apart. -/
theorem fault_eq_none_of_digits {s : List Char} (hs : s.all isPlain = true)
    (hdigits : ∀ c ∈ s, Text.isNumeric c = true → c.isDigit = true) : (pieces s).2 = none := by
  refine Decidable.byContradiction fun hfault => ?_
  obtain ⟨c, hmem, hnumeric, hdigit⟩ := exists_stray_of_fault hs hfault
  rw [hdigits c hmem hnumeric] at hdigit
  cases hdigit

/-! ## Words that start with letters -/

/-- Every word of the text, a longest run of letters, numbers and `_`, starts with a letter or `_`.
The text stands behind a character of a word if `inside` says so. -/
def lettersFirst (inside : Bool) : List Char → Bool
  | [] => true
  | c :: s =>
    if Text.isWordPart c then (inside || Text.isWordStart c) && lettersFirst true s
    else lettersFirst false s

theorem lettersFirst_append {front : List Char} (h : ∀ c ∈ front, Text.isWordPart c = false)
    (s : List Char) : lettersFirst false (front ++ s) = lettersFirst false s := by
  induction front with
  | nil => rfl
  | cons c front ih =>
    obtain ⟨hc, hfront⟩ := List.forall_mem_cons.1 h
    rw [List.cons_append, lettersFirst, hc, if_neg Bool.false_ne_true, ih hfront]

theorem lettersFirst_of_forall {s : List Char} (h : ∀ c ∈ s, Text.isWordPart c = false) :
    lettersFirst false s = true := by
  have hs := lettersFirst_append h []
  rwa [List.append_nil] at hs

theorem lettersFirst_concat {inside : Bool} {s : List Char} (h : lettersFirst inside s = true)
    {c : Char} (hc : Text.isWordPart c = false) : lettersFirst inside (s ++ [c]) = true := by
  induction s generalizing inside with
  | nil =>
    rw [List.nil_append, lettersFirst, hc, if_neg Bool.false_ne_true]
    rfl
  | cons d s ih =>
    rw [List.cons_append, lettersFirst]
    rw [lettersFirst] at h
    split
    · next hd =>
      rw [if_pos hd, Bool.and_eq_true] at h
      rw [h.1, ih h.2]
      rfl
    · next hd =>
      rw [if_neg hd] at h
      exact ih h

/-- What stands behind a word starts its words with letters, too. -/
theorem lettersFirst_dropWhile {s : List Char} (h : lettersFirst true s = true) :
    lettersFirst false (s.dropWhile Text.isWordPart) = true := by
  induction s with
  | nil => rfl
  | cons c s ih =>
    rw [lettersFirst] at h
    rw [List.dropWhile_cons]
    cases hc : Text.isWordPart c with
    | true =>
      rw [hc, if_pos rfl, Bool.true_or, Bool.true_and] at h
      exact ih h
    | false =>
      rw [hc, if_neg Bool.false_ne_true] at h
      rwa [if_neg Bool.false_ne_true, lettersFirst, hc, if_neg Bool.false_ne_true]

theorem isWordStart_of_lettersFirst {c : Char} {s : List Char}
    (h : lettersFirst false (c :: s) = true) (hc : Text.isWordPart c = true) :
    Text.isWordStart c = true ∧ lettersFirst true s = true := by
  rwa [lettersFirst, hc, if_pos rfl, Bool.false_or, Bool.and_eq_true] at h

theorem lettersFirst_of_not_isWordPart {c : Char} {s : List Char}
    (h : lettersFirst false (c :: s) = true) (hc : Text.isWordPart c = false) :
    lettersFirst false s = true := by
  rwa [lettersFirst, hc, if_neg Bool.false_ne_true] at h

theorem isWordPart_of_isNumeric {c : Char} (h : Text.isNumeric c = true) :
    Text.isWordPart c = true := by
  rw [Text.isWordPart, Text.isAlphanumeric, h, Bool.or_true]
  rfl

/-- A digit is a number. -/
theorem isNumeric_of_isDigit {c : Char} (h : c.isDigit = true) : Text.isNumeric c = true :=
  forall_digit (P := fun c => Text.isNumeric c = true) (by decide) h

theorem isDigit_of_lettersFirst {c : Char} {s : List Char}
    (h : lettersFirst false (c :: s) = true) : c.isDigit = false := by
  rw [Bool.eq_false_iff]
  intro hdigit
  have hpart := isWordPart_of_isNumeric (isNumeric_of_isDigit hdigit)
  have hstart := (isWordStart_of_lettersFirst h hpart).1
  rw [isDigit_of_isWordStart hstart] at hdigit
  cases hdigit

/-- A word of a plain text in front of another word ends in the text, or runs into that word and
ends with it. -/
theorem dropWhile_before_word {q w b : List Char} (hq : lettersFirst true q = true)
    (hw : w.all Text.isWordPart = true) (hb : Boundary b) :
    (∃ q', (q ++ (w ++ b)).dropWhile Text.isWordPart = q' ++ (w ++ b) ∧ q' <:+ q ∧
      lettersFirst false q' = true) ∨ (q ++ (w ++ b)).dropWhile Text.isWordPart = b := by
  by_cases hparts : q.all Text.isWordPart = true
  · have hall : (q ++ w).all Text.isWordPart = true := by
      rw [List.all_append, hparts, hw]
      rfl
    rw [← List.append_assoc]
    exact .inr (takeWhile_dropWhile_append hall hb).2
  · refine .inl ⟨q.dropWhile Text.isWordPart, ?_, List.dropWhile_suffix _,
      lettersFirst_dropWhile hq⟩
    rw [List.dropWhile_append, if_neg]
    intro hempty
    rw [← List.takeWhile_append_dropWhile (p := Text.isWordPart) (l := q),
      List.isEmpty_iff.1 hempty, List.append_nil] at hparts
    exact hparts List.all_takeWhile

/-- An operator in front of a word ends before it: no operator holds a letter or a number. -/
theorem operator_before_word {c first : Char} {q more rest : List Char} {text : String}
    (hmem : text ∈ longOperators) (htext : c :: q ++ (first :: more) = text.toList ++ rest)
    (hq : lettersFirst false (c :: q) = true) (hfirst : Text.isWordPart first = true) :
    ∃ q', rest = q' ++ first :: more ∧ q' <:+ q ∧ lettersFirst false q' = true := by
  have hnone : ∀ t ∈ longOperators, t.toList.any Text.isWordPart = false := by decide
  have hletters : ∀ d ∈ text.toList, Text.isWordPart d = false :=
    fun d hd => Bool.eq_false_iff.2 (List.any_eq_false.1 (hnone text hmem) d hd)
  obtain ⟨d, front, hfront⟩ := exists_cons_of_longOperator hmem
  rcases List.append_eq_append_iff.1 htext with ⟨past, hpast, hword⟩ | ⟨past, hpast, hrest⟩
  · cases past with
    | nil => exact ⟨[], hword.symm, List.nil_suffix, rfl⟩
    | cons e past =>
      rw [List.cons_append, List.cons.injEq] at hword
      have hpart := hletters e (by rw [hpast]; simp)
      rw [← hword.1, hfirst] at hpart
      cases hpart
  · rw [hpast, lettersFirst_append hletters] at hq
    rw [hfront, List.cons_append, List.cons.injEq] at hpast
    exact ⟨past, hrest, ⟨front, hpast.2.symm⟩, hq⟩

/-- What is left when a piece is cut off a plain text whose words start with letters, in front of a
word: an end of that text and the word, or what stands behind the word. -/
theorem rest_before_word {c : Char} {q w b rest : List Char} {piece : Piece}
    (hplain : isPlain c = true) (hq : lettersFirst false (c :: q) = true)
    (hw : Text.isIdentifier w = true) (hb : Boundary b)
    (h : CutsOff c (q ++ (w ++ b)) piece rest) :
    (∃ q', rest = q' ++ (w ++ b) ∧ q' <:+ q ∧ lettersFirst false q' = true) ∨ rest = b := by
  have hne : ∀ d, isPlain d = false → c ≠ d := fun _ => ne_of_isPlain hplain
  obtain ⟨first, more, rfl, hfirst, hmore⟩ := exists_cons_of_isIdentifier hw
  have hall : (first :: more).all Text.isWordPart = true := by
    rw [List.all_cons, Text.isWordPart_of_isWordStart hfirst, hmore]
    rfl
  generalize hs : q ++ (first :: more ++ b) = s at h
  cases h with
  | blank hblank =>
    exact .inl ⟨q, hs.symm, List.suffix_rfl,
      lettersFirst_of_not_isWordPart hq (isWordPart_of_isBlank hblank)⟩
  | shortOperator htoken =>
    exact .inl ⟨q, hs.symm, List.suffix_rfl,
      lettersFirst_of_not_isWordPart hq (isWordPart_of_shortOperator? htoken)⟩
  | number hstart =>
    rw [startsNumber, isDigit_of_lettersFirst hq, Bool.false_or, Bool.and_eq_true,
      beq_iff_eq, ← hs] at hstart
    obtain ⟨rfl, hnext⟩ := hstart
    cases q with
    | nil =>
      rw [List.nil_append, List.cons_append, List.head?_cons, Option.map_some, Option.getD_some,
        isDigit_of_isWordStart hfirst] at hnext
      cases hnext
    | cons d q =>
      have hd := isDigit_of_lettersFirst (lettersFirst_of_not_isWordPart hq (by decide))
      rw [List.cons_append, List.head?_cons, Option.map_some, Option.getD_some, hd] at hnext
      cases hnext
  | word hstart =>
    have hrest := (isWordStart_of_lettersFirst hq (Text.isWordPart_of_isWordStart hstart)).2
    rw [← hs]
    exact dropWhile_before_word hrest hall hb
  | longOperator hmem htext =>
    rw [← hs, ← List.cons_append] at htext
    exact .inl (operator_before_word hmem htext hq (Text.isWordPart_of_isWordStart hfirst))
  | _ => exact absurd rfl (hne _ (by decide))

/-- A word behind a plain text whose words start with letters can be taken apart with it. -/
theorem fault_eq_none_before_word {q w b : List Char} (hplain : q.all isPlain = true)
    (hq : lettersFirst false q = true) (hw : Text.isIdentifier w = true)
    (hb : b.all isPlain = true) (hboundary : Boundary b)
    (hdigits : ∀ d ∈ b, Text.isNumeric d = true → d.isDigit = true) :
    (pieces (q ++ (w ++ b))).2 = none := by
  have hend := fault_eq_none_of_digits hb hdigits
  induction hlength : q.length using Nat.strongRecOn generalizing q with
  | _ n ih =>
    cases q with
    | nil =>
      have hword := pieces_word (w := String.ofList w) (by rwa [String.toList_ofList]) hboundary
      rw [String.toList_ofList] at hword
      rw [List.nil_append, hword]
      exact hend
    | cons c q =>
      rw [List.all_cons, Bool.and_eq_true] at hplain
      rw [List.cons_append, pieces]
      split
      · next hstep =>
        have hstray := stray_of_step hplain.1 hstep
        have hpart := isWordPart_of_isNumeric (hstray.isNumeric hplain.1)
        have hstart := (isWordStart_of_lettersFirst hq hpart).1
        rw [hstray.2.2.1] at hstart
        cases hstart
      · next hstep =>
        rcases rest_before_word hplain.1 hq hw hboundary (cutsOff_of_step hstep) with
          ⟨q', rfl, hsuffix, hq'⟩ | rfl
        · refine ih q'.length ?_ (isPlain_of_suffix hsuffix hplain.2) hq' rfl
          have hle := hsuffix.length_le
          rw [List.length_cons] at hlength
          omega
        · exact hend

end StructCopy.Go
