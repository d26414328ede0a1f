/-
  Proofs/Go/Lexing: how the parts of a printed text are taken apart into tokens.

  `Scans s ts rest` says that the text `s` begins with the tokens `ts`, with blanks but
  no line break between them, and goes on with `rest`.  Scans compose, so that a
  printed text is followed part by part; what a part ends in may go on in the next
  one only if both are words or numbers, which is what `Boundary` excludes.
-/
import StructCopy.Go.Layout
import StructCopy.Proofs.Text.Marks

set_option autoImplicit false

namespace StructCopy.Go

/-! ## Byte-order marks -/

theorem withoutMark_eq_or (s : List Char) :
    withoutMark s = s ∨ s = '\ufeff' :: withoutMark s := by
  unfold withoutMark
  split
  · exact .inr rfl
  · exact .inl rfl

theorem withoutMark_eq_self {s : List Char} (h : s.head? ≠ some '\ufeff') : withoutMark s = s := by
  unfold withoutMark
  split
  · exact absurd rfl h
  · rfl

theorem withoutMark_cons {c : Char} (s : List Char) (h : c ≠ '\ufeff') :
    withoutMark (c :: s) = c :: s :=
  withoutMark_eq_self fun heq => h (Option.some.inj heq)

theorem withoutMark_append {s : List Char} {c : Char} (hc : c ≠ '\ufeff') (r : List Char) :
    withoutMark (s ++ c :: r) = withoutMark s ++ c :: r := by
  cases s with
  | nil => exact withoutMark_cons r hc
  | cons d s =>
    by_cases hd : d = '\ufeff'
    · rw [hd]
      rfl
    · rw [List.cons_append, withoutMark_cons _ hd, withoutMark_cons _ hd, List.cons_append]

/-! ## Scans -/

/-- The text begins with these tokens on one line, and the second text follows them. -/
inductive Scans : List Char → List Token → List Char → Prop where
  | nil {s : List Char} : Scans s [] s
  | blank {c : Char} {s mid rest : List Char} {ts : List Token} (hstep : step c s = .ok (.blank, mid))
      (h : Scans mid ts rest) : Scans (c :: s) ts rest
  | token {c : Char} {s mid rest : List Char} {token : Token} {breaks : Nat} {ts : List Token}
      (hstep : step c s = .ok (.token token breaks, mid)) (h : Scans mid ts rest) :
      Scans (c :: s) (token :: ts) rest

theorem Scans.trans {s mid rest : List Char} {ts ts' : List Token} (h : Scans s ts mid)
    (h' : Scans mid ts' rest) : Scans s (ts ++ ts') rest := by
  induction h with
  | nil => exact h'
  | blank hstep _ ih => exact .blank hstep (ih h')
  | token hstep _ ih => exact .token hstep (ih h')

/-- One token, alone. -/
theorem Scans.one {c : Char} {s rest : List Char} {token : Token} {breaks : Nat}
    (hstep : step c s = .ok (.token token breaks, rest)) : Scans (c :: s) [token] rest :=
  .token hstep .nil

/-! ## Scans and token lists -/

theorem pieces_of_step {c : Char} {s rest : List Char} {piece : Piece}
    (h : step c s = .ok (piece, rest)) :
    pieces (c :: s) = (piece :: (pieces rest).1, (pieces rest).2) := by
  rw [pieces]
  split
  · next heq =>
    rw [h] at heq
    cases heq
  · next heq =>
    rw [h] at heq
    cases heq
    rfl

theorem pieces_step {c : Char} {s mid : List Char} {piece : Piece} {ps : List Piece}
    {fault : Option PieceFault} (hstep : step c s = .ok (piece, mid))
    (h : pieces mid = (ps, fault)) : pieces (c :: s) = (piece :: ps, fault) := by
  rw [pieces_of_step hstep, h]

/-- The tokens of a scan stand at the front of the tokens of the text, and the rest of the text
is laid out behind them. -/
theorem Scans.layout_eq {s rest : List Char} {ts : List Token} (h : Scans s ts rest) (line : Nat)
    (pending : Bool) :
    (pieces s).2 = (pieces rest).2 ∧ ∃ q line' pending', q.map Located.token = ts ∧
      (layout line pending (pieces s).1).tokens =
        q ++ (layout line' pending' (pieces rest).1).tokens := by
  induction h generalizing line pending with
  | nil => exact ⟨rfl, [], line, pending, rfl, rfl⟩
  | blank hstep _ ih =>
    rw [pieces_of_step hstep]
    exact ih line pending
  | @token c s mid rest token breaks ts hstep _ ih =>
    rw [pieces_of_step hstep]
    obtain ⟨hfault, q, line', pending', hq, htokens⟩ := ih (line + breaks) token.endsStatement
    refine ⟨hfault, ⟨line, token⟩ :: q, line', pending', ?_, ?_⟩
    · rw [List.map_cons, hq]
    · change ⟨line, token⟩ :: (layout (line + breaks) token.endsStatement (pieces mid).1).tokens = _
      rw [htokens]
      rfl

/-! ## Words -/

/-- The text does not go on with what could belong to a word before it. -/
def Boundary (s : List Char) : Prop :=
  ∀ c ∈ s.head?, Text.isWordPart c = false

theorem boundary_nil : Boundary [] := by
  intro c hc
  cases hc

theorem boundary_cons {c : Char} {s : List Char} (h : Text.isWordPart c = false) :
    Boundary (c :: s) := by
  intro c' hc'
  cases hc'
  exact h

/-- White space is no part of a word. -/
theorem isWordPart_of_isBlank {c : Char} (h : Text.isBlank c = true) :
    Text.isWordPart c = false := by
  obtain ⟨range, hmem, hlow, hhigh⟩ := Text.CodePoints.has_iff.1 h
  have hc : c = Char.ofNat c.toNat := (Char.ofNat_toNat c).symm
  have hnone : ∀ range ∈ Text.blankTable, ∀ n ∈ List.range' range.1 (range.2 + 1 - range.1),
      Text.isWordPart (Char.ofNat n) = false := by
    decide +kernel
  rw [hc]
  exact hnone range hmem c.toNat (List.mem_range'_1.2 ⟨hlow, by omega⟩)

theorem isBlank_of_isWordStart {c : Char} (h : Text.isWordStart c = true) :
    Text.isBlank c = false := by
  rw [Bool.eq_false_iff]
  intro hblank
  have hpart := isWordPart_of_isBlank hblank
  rw [Text.isWordPart_of_isWordStart h] at hpart
  cases hpart

/-- What holds of the ten digits holds of every digit. -/
theorem forall_digit {P : Char → Prop} (h : ∀ n ∈ List.range' 48 10, P (Char.ofNat n)) {c : Char}
    (hc : c.isDigit = true) : P c := by
  simp only [Char.isDigit, Bool.and_eq_true, decide_eq_true_eq, ge_iff_le,
    UInt32.le_iff_toNat_le] at hc
  have hlow : 48 ≤ c.toNat := hc.1
  have hhigh : c.toNat ≤ 57 := hc.2
  have hn := h c.toNat (List.mem_range'_1.2 ⟨hlow, by omega⟩)
  rwa [Char.ofNat_toNat] at hn

theorem isDigit_of_isWordStart {c : Char} (h : Text.isWordStart c = true) : c.isDigit = false := by
  rw [Bool.eq_false_iff]
  intro hdigit
  have hword : Text.isWordStart c = false :=
    forall_digit (P := fun c => Text.isWordStart c = false) (by decide) hdigit
  rw [h] at hword
  cases hword

theorem ne_of_isWordStart {c d : Char} (h : Text.isWordStart c = true)
    (hd : Text.isWordStart d = false) : c ≠ d := by
  rintro rfl
  rw [h] at hd
  cases hd

theorem exists_cons_of_isIdentifier {w : List Char} (h : Text.isIdentifier w = true) :
    ∃ c cs, w = c :: cs ∧ Text.isWordStart c = true ∧ cs.all Text.isWordPart = true := by
  cases w with
  | nil => cases h
  | cons c cs =>
    rw [Text.isIdentifier, Bool.and_eq_true] at h
    exact ⟨c, cs, rfl, h⟩

/-- What a predicate holds of throughout is taken off up to where it fails. -/
theorem takeWhile_dropWhile_append {p : Char → Bool} {s rest : List Char} (hs : s.all p = true)
    (hrest : ∀ c ∈ rest.head?, p c = false) :
    (s ++ rest).takeWhile p = s ∧ (s ++ rest).dropWhile p = rest := by
  induction s with
  | nil =>
    cases rest with
    | nil => exact ⟨rfl, rfl⟩
    | cons c rest =>
      have hc : p c = false := hrest c rfl
      rw [List.nil_append, List.takeWhile_cons, List.dropWhile_cons, hc]
      exact ⟨rfl, rfl⟩
  | cons c s ih =>
    rw [List.all_cons, Bool.and_eq_true] at hs
    obtain ⟨htake, hdrop⟩ := ih hs.2
    rw [List.cons_append, List.takeWhile_cons, List.dropWhile_cons, hs.1]
    exact ⟨congrArg (c :: ·) htake, hdrop⟩

/-- A text whose first character starts a word starts with a word. -/
theorem lead_of_isWordStart {c : Char} (h : Text.isWordStart c = true) (s : List Char) :
    lead c s = .word := by
  have hnumber : startsNumber c s = false := by
    rw [startsNumber, isDigit_of_isWordStart h,
      beq_false_of_ne (ne_of_isWordStart h (by decide))]
    rfl
  rw [lead_of_unmarked h (by decide) (isBlank_of_isWordStart h), hnumber,
    if_neg Bool.false_ne_true, if_pos h]

/-- A text that starts with a digit starts with a number. -/
theorem lead_of_isDigit {c : Char} (h : c.isDigit = true) (s : List Char) :
    lead c s = .number := by
  have hblank : Text.isBlank c = false :=
    forall_digit (P := fun c => Text.isBlank c = false) (by decide) h
  have hnumber : startsNumber c s = true := by
    rw [startsNumber, h]
    rfl
  rw [lead_of_unmarked h (by decide) hblank, if_pos hnumber]

/-- A word is cut off up to the boundary behind it. -/
theorem step_word {w : String} (hw : Text.isIdentifier w.toList = true) {rest : List Char}
    (hrest : Boundary rest) :
    ∃ c cs, w.toList = c :: cs ∧ step c (cs ++ rest) = .ok (.token (.word w) 0, rest) := by
  obtain ⟨c, cs, hlist, hstart, hparts⟩ := exists_cons_of_isIdentifier hw
  obtain ⟨htake, hdrop⟩ := takeWhile_dropWhile_append hparts hrest
  refine ⟨c, cs, hlist, ?_⟩
  rw [step_eq_cut, lead_of_isWordStart hstart, Lead.cut, htake, hdrop, ← hlist,
    String.ofList_toList]

/-- A word is read up to the boundary behind it. -/
theorem scans_word {w : String} (hw : Text.isIdentifier w.toList = true) {rest : List Char}
    (hrest : Boundary rest) : Scans (w.toList ++ rest) [.word w] rest := by
  obtain ⟨c, cs, hlist, hstep⟩ := step_word hw hrest
  rw [hlist]
  exact .one hstep

/-- The pieces of a text that starts with a word. -/
theorem pieces_word {w : String} (hw : Text.isIdentifier w.toList = true) {rest : List Char}
    (hrest : Boundary rest) :
    pieces (w.toList ++ rest) = (.token (.word w) 0 :: (pieces rest).1, (pieces rest).2) := by
  obtain ⟨c, cs, hlist, hstep⟩ := step_word hw hrest
  rw [hlist]
  exact pieces_of_step hstep

/-! ## Numbers -/

/-- A decimal number is read up to the bracket that closes an array length. -/
theorem scans_number {digits : String} (hne : digits ≠ "")
    (hdigits : digits.toList.all Char.isDigit = true) (rest : List Char) :
    Scans (digits.toList ++ ']' :: rest) [.number digits] (']' :: rest) := by
  cases hlist : digits.toList with
  | nil => exact absurd (String.toList_eq_nil_iff.1 hlist) hne
  | cons c cs =>
    rw [hlist, List.all_cons, Bool.and_eq_true] at hdigits
    obtain ⟨hdigit, hmore⟩ := hdigits
    have hparts : cs.all isNumberPart = true := by
      rw [List.all_eq_true] at hmore ⊢
      intro d hd
      simp only [isNumberPart, Char.isAlphanum, hmore d hd, Bool.or_true, Bool.true_or]
    have hrest : ∀ d ∈ (']' :: rest).head?, isNumberPart d = false := by
      intro d hd
      cases hd
      rfl
    obtain ⟨htake, hdrop⟩ := takeWhile_dropWhile_append hparts hrest
    have hstep : step c (cs ++ ']' :: rest) = .ok (.token (.number digits) 0, ']' :: rest) := by
      rw [step_eq_cut, lead_of_isDigit hdigit, Lead.cut, htake, hdrop, ← hlist,
        String.ofList_toList]
    exact .one hstep

/-! ## Marks -/

/-- A star before anything but an equals sign. -/
theorem scans_star {s : List Char} (h : s.head? ≠ some '=') : Scans ('*' :: s) [.star] s := by
  have hlong : longOperator? ('*' :: s) = none := by
    cases s with
    | nil => rfl
    | cons c s =>
      have hc : ¬ '=' = c := fun heq => h (congrArg some heq.symm)
      simp [longOperator?, longOperators, Text.after?, hc]
  have hstep : step '*' s = .ok (.token .star 0, s) := by
    unfold step
    rw [hlong]
    rfl
  exact .one hstep

/-- A point before a word. -/
theorem scans_dot {w : String} (hw : Text.isIdentifier w.toList = true) (s : List Char) :
    Scans ('.' :: (w.toList ++ s)) [.dot] (w.toList ++ s) := by
  obtain ⟨c, cs, hlist, hstart, -⟩ := exists_cons_of_isIdentifier hw
  have hc : ¬ '.' = c := (ne_of_isWordStart hstart (by decide)).symm
  have hlong : longOperator? ('.' :: c :: (cs ++ s)) = none := by
    simp [longOperator?, longOperators, Text.after?, hc]
  have hnumber : startsNumber '.' (c :: (cs ++ s)) = false := by
    simp only [startsNumber, List.head?_cons, Option.map_some, Option.getD_some,
      isDigit_of_isWordStart hstart]
    rfl
  have hstep : step '.' (c :: (cs ++ s)) = .ok (.token .dot 0, c :: (cs ++ s)) := by
    rw [step_eq_cut, lead_of_unmarked (p := (· == '.')) rfl rfl rfl, hnumber,
      if_neg Bool.false_ne_true, if_neg (by decide), Lead.cut, hlong]
    rfl
  rw [hlist]
  exact .one hstep

/-- No type starts with what an equals sign is read as. -/
theorem piece_of_step_assign {s rest : List Char} {piece : Piece}
    (h : step '=' s = .ok (piece, rest)) :
    ∃ token, piece = .token token 0 ∧ token.startsType = false := by
  by_cases hdouble : s.head? = some '='
  · obtain ⟨s, rfl⟩ := List.head?_eq_some_iff.1 hdouble
    cases h
    exact ⟨.operator "==", rfl, rfl⟩
  · have hlong : longOperator? ('=' :: s) = none := by
      cases s with
      | nil => rfl
      | cons c s =>
        have hc : ¬ '=' = c := fun heq => hdouble (congrArg some heq.symm)
        simp [longOperator?, longOperators, Text.after?, hc]
    have hstep : step '=' s = .ok (.token .assign 0, s) := by
      unfold step
      rw [hlong]
      rfl
    rw [hstep] at h
    cases h
    exact ⟨.assign, rfl, rfl⟩

/-! ## Raw strings -/

/-- A tag in backquotes is read as it stands when it holds no backquote and no carriage return,
line breaks or not. -/
theorem scans_rawString {tag : String} (hmark : '\x60' ∉ tag.toList) (hreturn : '\r' ∉ tag.toList)
    (rest : List Char) : Scans ('\x60' :: (tag.toList ++ '\x60' :: rest)) [.str tag] rest := by
  have hbody : rawStringBody (tag.toList ++ '\x60' :: rest) = .ok (tag.toList, rest) := by
    rw [rawStringBody, Text.cut?_append_cons hmark]
  have hfilter : tag.toList.filter (· != '\r') = tag.toList := by
    rw [List.filter_eq_self]
    intro c hc
    rw [bne_iff_ne]
    rintro rfl
    exact hreturn hc
  have hstep : step '\x60' (tag.toList ++ '\x60' :: rest) =
      .ok (.token (.str tag) (lineFeeds tag.toList), rest) := by
    have hlead : lead '\x60' (tag.toList ++ '\x60' :: rest) = .rawString := rfl
    rw [step_eq_cut, hlead, Lead.cut, hbody]
    simp only [Except.map, hfilter, String.ofList_toList]
  exact .one hstep

end StructCopy.Go
