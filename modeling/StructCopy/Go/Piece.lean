/-
  Go/Piece: a source text taken apart into tokens, comments and white space.

  `step` reads one piece off the front of a text; `pieces` repeats it to the end or
  to the first fault.  Which piece it is hangs on what the text starts with, its
  `lead`.  A piece knows how many line breaks it counts for, and nothing about where
  it stands: lines are the business of `Go/Layout`.
-/
import StructCopy.Go.Token
import StructCopy.Text.Letter
import StructCopy.Text.Split

set_option autoImplicit false

namespace StructCopy.Go

/-! ## Pieces and faults -/

/-- A piece of source text. -/
inductive Piece where
  /-- a token, with the line breaks counted inside it -/
  | token (token : Token) (breaks : Nat)
  /-- a comment, with the line breaks inside it -/
  | comment (breaks : Nat)
  /-- a white-space character other than the line feed -/
  | blank
  /-- a line feed between other pieces -/
  | lineBreak
  deriving DecidableEq, Repr

/-- The line breaks that a piece counts for. -/
def Piece.breaks : Piece → Nat
  | .token _ n => n
  | .comment n => n
  | .blank => 0
  | .lineBreak => 1

/-- Why a text cannot be taken apart. -/
inductive PieceFault where
  /-- a block comment is not closed -/
  | openComment
  /-- a string literal is not closed on its line -/
  | openString
  /-- the text ends behind a backslash inside a string literal -/
  | openEscape
  /-- a raw string literal is not closed -/
  | openRawString
  /-- a rune literal is not closed on its line -/
  | openRune
  /-- no token starts with this character -/
  | strayCharacter (c : Char)
  deriving DecidableEq, Repr

/-- The message for a fault. -/
def PieceFault.message : PieceFault → String
  | .openComment => "unterminated block comment"
  | .openString => "unterminated string literal"
  | .openEscape => "unterminated escape in string"
  | .openRawString => "unterminated raw string literal"
  | .openRune => "unterminated rune literal"
  | .strayCharacter c => "unexpected character '" ++ String.singleton c ++ "'"

/-- The number of line feeds in a text. -/
def lineFeeds (s : List Char) : Nat :=
  s.count '\n'

/-! ## Literals -/

/-- What an escape in a string literal stands for: the backslash stays where the escape has no
value of its own. -/
def escaped (c : Char) : List Char :=
  if c = '"' then ['"']
  else if c = '\\' then ['\\']
  else if c = 'n' then ['\n']
  else if c = 't' then ['\t']
  else if c = 'r' then ['\r']
  else ['\\', c]

/-- The value of a string literal from behind its opening mark, and what follows it. -/
def stringBody : List Char → Except PieceFault (List Char × List Char)
  | [] => .error .openString
  | '\n' :: _ => .error .openString
  | '"' :: s => .ok ([], s)
  | '\\' :: [] => .error .openEscape
  | '\\' :: c :: s => (stringBody s).map fun found => (escaped c ++ found.1, found.2)
  | c :: s => (stringBody s).map fun found => (c :: found.1, found.2)

/-- The text of a rune literal from behind its opening quote, and what follows it. -/
def runeBody : List Char → Except PieceFault (List Char × List Char)
  | [] => .error .openRune
  | '\'' :: s => .ok ([], s)
  | '\n' :: _ => .error .openRune
  | '\\' :: [] => .error .openRune
  | '\\' :: c :: s => (runeBody s).map fun found => ('\\' :: c :: found.1, found.2)
  | c :: s => (runeBody s).map fun found => (c :: found.1, found.2)

/-- The text of a raw string literal from behind its opening mark, and what follows it. -/
def rawStringBody (s : List Char) : Except PieceFault (List Char × List Char) :=
  match Text.cut? ['\x60'] s with
  | some found => .ok found
  | none => .error .openRawString

/-- The inside of a block comment, and what follows it. -/
def commentBody (s : List Char) : Except PieceFault (List Char × List Char) :=
  match Text.cut? ['*', '/'] s with
  | some found => .ok found
  | none => .error .openComment

/-- A character that a number literal may go on with. -/
def isNumberPart (c : Char) : Bool :=
  c.isAlphanum || c == '_' || c == '.'

/-! ## Operators -/

/-- The operators of more than one character, a longer one before its own beginnings. -/
def longOperators : List String := [
  "<<=", ">>=", "&^=", "&&", "||", "++", "--", "==", "!=", "<=", ">=", ":=", "+=", "-=", "*=", "/=",
  "%=", "&=", "|=", "^=", "<<", ">>", "&^", "<-", "..."
]

/-- The token of an operator of more than one character. -/
def longOperator (text : String) : Token :=
  if text = "..." then .ellipsis else if text = "<-" then .arrow else .operator text

/-- The first operator of more than one character that a text starts with. -/
def longOperator? (s : List Char) : Option (Token × List Char) :=
  longOperators.findSome? fun text =>
    (Text.after? text.toList s).map fun rest => (longOperator text, rest)

/-- The token of a single character. -/
def shortOperator? (c : Char) : Option Token :=
  match c with
  | '\x7b' => some .leftBrace
  | '\x7d' => some .rightBrace
  | '[' => some .leftBracket
  | ']' => some .rightBracket
  | '(' => some .leftParen
  | ')' => some .rightParen
  | ',' => some .comma
  | '.' => some .dot
  | ';' => some .semicolon
  | ':' => some .colon
  | '*' => some .star
  | '=' => some .assign
  | '~' => some .tilde
  | c => if "+-/%&|^<>!".toList.contains c then some (.operator (String.singleton c)) else none

/-! ## One piece -/

/-- A number starts here: a digit, or a point before a digit. -/
def startsNumber (c : Char) (s : List Char) : Bool :=
  c.isDigit || (c == '.' && (s.head?.map Char.isDigit).getD false)

/-- The first piece of the text `c :: s`, and what follows it. -/
def step (c : Char) (s : List Char) : Except PieceFault (Piece × List Char) :=
  if c = '\n' then .ok (.lineBreak, s)
  else if c = '/' ∧ s.head? = some '/' then .ok (.comment 0, s.dropWhile (· != '\n'))
  else if c = '/' ∧ s.head? = some '*' then
    (commentBody s.tail).map fun found => (.comment (lineFeeds found.1), found.2)
  else if Text.isBlank c then .ok (.blank, s)
  else if c = '"' then
    (stringBody s).map fun found => (.token (.str (String.ofList found.1)) 0, found.2)
  else if c = '\x60' then
    (rawStringBody s).map fun found =>
      (.token (.str (String.ofList (found.1.filter (· != '\r')))) (lineFeeds found.1), found.2)
  else if c = '\'' then
    (runeBody s).map fun found => (.token (.rune (String.ofList found.1)) 0, found.2)
  else if startsNumber c s then
    .ok (.token (.number (String.ofList (c :: s.takeWhile isNumberPart))) 0,
      s.dropWhile isNumberPart)
  else if Text.isWordStart c then
    .ok (.token (.word (String.ofList (c :: s.takeWhile Text.isWordPart))) 0,
      s.dropWhile Text.isWordPart)
  else
    match longOperator? (c :: s) with
    | some (token, rest) => .ok (.token token 0, rest)
    | none =>
      match shortOperator? c with
      | some token => .ok (.token token 0, s)
      | none => .error (.strayCharacter c)

/-! ## What a text starts with -/

/-- What the first piece of a text is going to be. -/
inductive Lead where
  | lineBreak
  | lineComment
  | blockComment
  | blank
  | string
  | rawString
  | rune
  | number
  | word
  /-- an operator or mark, or a character that starts no piece -/
  | operator

/-- What the text `c :: s` starts with; its first two characters tell. -/
def lead (c : Char) (s : List Char) : Lead :=
  if c = '\n' then .lineBreak
  else if c = '/' ∧ s.head? = some '/' then .lineComment
  else if c = '/' ∧ s.head? = some '*' then .blockComment
  else if Text.isBlank c then .blank
  else if c = '"' then .string
  else if c = '\x60' then .rawString
  else if c = '\'' then .rune
  else if startsNumber c s then .number
  else if Text.isWordStart c then .word
  else .operator

/-- What is known of a text that starts like this. -/
def Lead.Fits (c : Char) (s : List Char) : Lead → Prop
  | .lineBreak => c = '\n'
  | .lineComment => c = '/' ∧ s.head? = some '/'
  | .blockComment => c = '/' ∧ s.head? = some '*'
  | .blank => Text.isBlank c = true
  | .string => c = '"'
  | .rawString => c = '\x60'
  | .rune => c = '\''
  | .number => startsNumber c s = true
  | .word => Text.isWordStart c = true
  | .operator => True

/-- The first piece of a text that starts like this, and what follows it. -/
def Lead.cut (c : Char) (s : List Char) : Lead → Except PieceFault (Piece × List Char)
  | .lineBreak => .ok (.lineBreak, s)
  | .lineComment => .ok (.comment 0, s.dropWhile (· != '\n'))
  | .blockComment =>
    (commentBody s.tail).map fun found => (.comment (lineFeeds found.1), found.2)
  | .blank => .ok (.blank, s)
  | .string =>
    (stringBody s).map fun found => (.token (.str (String.ofList found.1)) 0, found.2)
  | .rawString =>
    (rawStringBody s).map fun found =>
      (.token (.str (String.ofList (found.1.filter (· != '\r')))) (lineFeeds found.1), found.2)
  | .rune => (runeBody s).map fun found => (.token (.rune (String.ofList found.1)) 0, found.2)
  | .number =>
    .ok (.token (.number (String.ofList (c :: s.takeWhile isNumberPart))) 0,
      s.dropWhile isNumberPart)
  | .word =>
    .ok (.token (.word (String.ofList (c :: s.takeWhile Text.isWordPart))) 0,
      s.dropWhile Text.isWordPart)
  | .operator =>
    match longOperator? (c :: s) with
    | some (token, rest) => .ok (.token token 0, rest)
    | none =>
      match shortOperator? c with
      | some token => .ok (.token token 0, s)
      | none => .error (.strayCharacter c)

theorem fits_lead (c : Char) (s : List Char) : (lead c s).Fits c s := by
  unfold lead
  iterate 9
    split
    · assumption
  trivial

theorem lead_congr {c : Char} {s s' : List Char}
    (hmark : ∀ m ∈ ['/', '*'], s'.head? = some m ↔ s.head? = some m)
    (hnumber : startsNumber c s' = startsNumber c s) : lead c s' = lead c s := by
  unfold lead
  rw [hnumber]
  simp only [hmark '/' (by decide), hmark '*' (by decide)]

theorem lead_of_isBlank {c : Char} (hblank : Text.isBlank c = true) (hbreak : c ≠ '\n')
    (s : List Char) : lead c s = .blank := by
  have hslash : c ≠ '/' := by
    rintro rfl
    cases hblank
  rw [lead, if_neg hbreak, if_neg fun h => hslash h.1, if_neg fun h => hslash h.1, if_pos hblank]

/-- A text that starts with no mark of a comment or of a literal, as `p` holds of its first
character and of none of these marks, and not with white space. -/
theorem lead_of_unmarked {c : Char} {p : Char → Bool} (hc : p c = true)
    (hmarks : (['\n', '/', '"', '\x60', '\''].all fun d => !p d) = true)
    (hblank : Text.isBlank c = false) (s : List Char) :
    lead c s =
      if startsNumber c s then .number else if Text.isWordStart c then .word else .operator := by
  have hne : ∀ d ∈ ['\n', '/', '"', '\x60', '\''], c ≠ d := by
    rintro d hd rfl
    have hnot := List.all_eq_true.1 hmarks c hd
    rw [hc] at hnot
    cases hnot
  rw [lead, if_neg (hne _ (by decide)), if_neg fun h => hne _ (by decide) h.1,
    if_neg fun h => hne _ (by decide) h.1, hblank, if_neg Bool.false_ne_true,
    if_neg (hne _ (by decide)), if_neg (hne _ (by decide)), if_neg (hne _ (by decide))]

/-- The first piece of a text hangs on what the text starts with. -/
theorem step_eq_cut (c : Char) (s : List Char) : step c s = (lead c s).cut c s := by
  unfold lead
  simp only [apply_ite (Lead.cut c s)]
  rfl

/-! ## Every piece is at least one character long -/

/-- What a successful reading that has been mapped was read as. -/
theorem ok_of_map_eq_ok {ε α β : Type} {f : α → β} {result : Except ε α} {y : β}
    (h : result.map f = .ok y) : ∃ x, result = .ok x ∧ f x = y := by
  cases result with
  | error e => simp [Except.map] at h
  | ok x => exact ⟨x, rfl, by simpa [Except.map] using h⟩

/-- What the first of two steps gave, when both succeed. -/
theorem bind_eq_ok {ε α β : Type} {x : Except ε α} {f : α → Except ε β} {b : β}
    (h : x >>= f = .ok b) : ∃ a, x = .ok a ∧ f a = .ok b := by
  cases x with
  | error e => cases h
  | ok a => exact ⟨a, rfl, h⟩

theorem length_lt_of_stringBody {s v rest : List Char}
    (h : stringBody s = .ok (v, rest)) : rest.length < s.length := by
  fun_induction stringBody s generalizing v with
  | case1 => simp at h
  | case2 => simp at h
  | case3 => simp_all
  | case4 => simp at h
  | case5 c s ih =>
    obtain ⟨⟨u, r⟩, hfound, heq⟩ := ok_of_map_eq_ok h
    simp only [Prod.mk.injEq] at heq
    have := ih (v := u) (by rw [hfound, heq.2])
    simp only [List.length_cons]
    omega
  | case6 c s _ _ _ _ ih =>
    obtain ⟨⟨u, r⟩, hfound, heq⟩ := ok_of_map_eq_ok h
    simp only [Prod.mk.injEq] at heq
    have := ih (v := u) (by rw [hfound, heq.2])
    simp only [List.length_cons]
    omega

theorem length_lt_of_runeBody {s v rest : List Char}
    (h : runeBody s = .ok (v, rest)) : rest.length < s.length := by
  fun_induction runeBody s generalizing v with
  | case1 => simp at h
  | case2 => simp_all
  | case3 => simp at h
  | case4 => simp at h
  | case5 c s ih =>
    obtain ⟨⟨u, r⟩, hfound, heq⟩ := ok_of_map_eq_ok h
    simp only [Prod.mk.injEq] at heq
    have := ih (v := u) (by rw [hfound, heq.2])
    simp only [List.length_cons]
    omega
  | case6 c s _ _ _ _ ih =>
    obtain ⟨⟨u, r⟩, hfound, heq⟩ := ok_of_map_eq_ok h
    simp only [Prod.mk.injEq] at heq
    have := ih (v := u) (by rw [hfound, heq.2])
    simp only [List.length_cons]
    omega

theorem length_lt_of_rawStringBody {s value rest : List Char}
    (h : rawStringBody s = .ok (value, rest)) : rest.length < s.length := by
  simp only [rawStringBody] at h
  split at h
  · next found hfound =>
    cases h
    exact Text.length_lt_of_cut? (by simp) hfound
  · simp at h

theorem length_lt_of_commentBody {s value rest : List Char}
    (h : commentBody s = .ok (value, rest)) : rest.length < s.length := by
  simp only [commentBody] at h
  split at h
  · next found hfound =>
    cases h
    exact Text.length_lt_of_cut? (by simp) hfound
  · simp at h

theorem length_le_of_longOperator? {c : Char} {s rest : List Char} {token : Token}
    (h : longOperator? (c :: s) = some (token, rest)) : rest.length ≤ s.length := by
  obtain ⟨text, hmem, hfound⟩ := List.exists_of_findSome?_eq_some h
  obtain ⟨r, hafter, heq⟩ := Option.map_eq_some_iff.1 hfound
  have hnonempty : ∀ t ∈ longOperators, t.toList ≠ [] := by decide
  have hlength := congrArg List.length (Text.after?_eq_some.1 hafter)
  have hpos := List.length_pos_iff.2 (hnonempty text hmem)
  simp only [Prod.mk.injEq] at heq
  simp only [List.length_append, List.length_cons] at hlength
  rw [← heq.2]
  omega

theorem length_le_of_step {c : Char} {s rest : List Char} {piece : Piece}
    (h : step c s = .ok (piece, rest)) : rest.length ≤ s.length := by
  have hdrop : ∀ p : Char → Bool, (s.dropWhile p).length ≤ s.length := fun p =>
    (List.dropWhile_sublist p).length_le
  rw [step_eq_cut] at h
  cases hlead : lead c s <;> rw [hlead] at h
  case lineBreak | blank =>
    cases h
    exact Nat.le_refl _
  case lineComment | number | word =>
    cases h
    exact hdrop _
  case blockComment =>
    obtain ⟨found, hfound, heq⟩ := ok_of_map_eq_ok h
    cases heq
    have hrest := length_lt_of_commentBody hfound
    rw [List.length_tail] at hrest
    omega
  case string =>
    obtain ⟨found, hfound, heq⟩ := ok_of_map_eq_ok h
    cases heq
    exact Nat.le_of_lt (length_lt_of_stringBody hfound)
  case rawString =>
    obtain ⟨found, hfound, heq⟩ := ok_of_map_eq_ok h
    cases heq
    exact Nat.le_of_lt (length_lt_of_rawStringBody hfound)
  case rune =>
    obtain ⟨found, hfound, heq⟩ := ok_of_map_eq_ok h
    cases heq
    exact Nat.le_of_lt (length_lt_of_runeBody hfound)
  case operator =>
    unfold Lead.cut at h
    dsimp only at h
    split at h
    · next hfound =>
      cases h
      exact length_le_of_longOperator? hfound
    · split at h
      · cases h
        exact Nat.le_refl _
      · cases h

/-! ## All pieces -/

/-- The pieces of a text up to its end or its first fault. -/
def pieces : List Char → List Piece × Option PieceFault
  | [] => ([], none)
  | c :: s =>
    match _h : step c s with
    | .error fault => ([], some fault)
    | .ok (piece, rest) =>
      let found := pieces rest
      (piece :: found.1, found.2)
termination_by s => s.length
decreasing_by
  have := length_le_of_step _h
  simp only [List.length_cons]
  omega

end StructCopy.Go
