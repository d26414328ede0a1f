/-
  Proofs/Go/StatementEnds: the semicolons that are put in.

  A source text is a gap and then tokens, each with a gap behind it.  `withSemicolons` is the
  rule for a row of tokens and gaps: behind a token that may end a statement stands one
  semicolon if its gap holds a line feed or no token follows.  A layout carries the same
  decision from piece to piece in `pending`.
-/
import StructCopy.Proofs.Go.Gaps

set_option autoImplicit false

namespace StructCopy.Go

/-! ## The rule -/

/-- A token that may be the last one of a statement. -/
inductive Token.MayEnd : Token → Prop where
  | identifier {w : String} (hword : isKeyword w = false) : MayEnd (.word w)
  | keyword {w : String} (hword : w ∈ ["break", "continue", "fallthrough", "return"]) :
      MayEnd (.word w)
  | str (value : String) : MayEnd (.str value)
  | rune (text : String) : MayEnd (.rune text)
  | number (text : String) : MayEnd (.number text)
  | rightParen : MayEnd .rightParen
  | rightBracket : MayEnd .rightBracket
  | rightBrace : MayEnd .rightBrace
  | increment : MayEnd (.operator "++")
  | decrement : MayEnd (.operator "--")

theorem Token.endsStatement_iff {t : Token} : t.endsStatement = true ↔ t.MayEnd := by
  constructor
  · intro h
    cases t with
    | word w =>
      rw [endsStatement, Bool.or_eq_true, Bool.not_eq_true', List.contains_iff_mem] at h
      exact h.elim .identifier .keyword
    | operator o =>
      rw [endsStatement, Bool.or_eq_true, beq_iff_eq, beq_iff_eq] at h
      rcases h with rfl | rfl
      · exact .increment
      · exact .decrement
    | str value => exact .str value
    | rune text => exact .rune text
    | number text => exact .number text
    | rightParen => exact .rightParen
    | rightBracket => exact .rightBracket
    | rightBrace => exact .rightBrace
    | _ => cases h
  · intro h
    cases h with
    | identifier hword => simp [endsStatement, hword]
    | keyword hword => simp [endsStatement, closingKeywords, hword]
    | _ => rfl

instance : DecidablePred Token.MayEnd :=
  fun _ => decidable_of_iff _ Token.endsStatement_iff

/-- A token as it stands in a text, and the gap behind it. -/
structure Scanned where
  token : Token
  text : List Char
  gap : List Char

/-- Each token, with one semicolon behind it if it may end a statement and a line feed, or no other
token, follows it. -/
def withSemicolons : List Scanned → List Token
  | [] => []
  | s :: rest =>
    if s.token.MayEnd ∧ ('\n' ∈ s.gap ∨ rest = []) then
      s.token :: .semicolon :: withSemicolons rest
    else s.token :: withSemicolons rest

/-! ## Tokens and gaps of a text -/

/-- The tokens of a text with the gaps behind them. -/
def scanned : List Cut → List Scanned
  | [] => []
  | cut :: rest =>
    match cut.piece with
    | .token t _ => ⟨t, cut.text, gapText rest⟩ :: scanned rest
    | _ => scanned rest

section

variable {cut : Cut} {rest : List Cut}

theorem gapText_cons_of_gap (hgap : cut.isToken = false) :
    gapText (cut :: rest) = cut.text ++ gapText rest := by
  rw [gapText, leading, List.takeWhile_cons_of_pos (by simp [hgap]), textOf, List.flatMap_cons]
  rfl

theorem scanned_cons_of_gap (hgap : cut.isToken = false) :
    scanned (cut :: rest) = scanned rest := by
  obtain ⟨piece, text⟩ := cut
  cases piece with
  | token => cases hgap
  | _ => rfl

end

/-- The first gap and the tokens with their gaps make up the text. -/
theorem textOf_eq_gapText_append (cs : List Cut) :
    textOf cs = gapText cs ++ (scanned cs).flatMap fun s => s.text ++ s.gap := by
  induction cs with
  | nil => rfl
  | cons cut rest ih =>
    rw [textOf, List.flatMap_cons, ← textOf, ih]
    by_cases hgap : cut.isToken = false
    · rw [gapText_cons_of_gap hgap, scanned_cons_of_gap hgap, List.append_assoc]
    · obtain ⟨piece, text⟩ := cut
      cases piece with
      | token t breaks =>
        rw [scanned, List.flatMap_cons, List.append_assoc]
        rfl
      | _ => exact absurd rfl hgap

/-! ## Layout -/

/-- A statement ends before these cuts, as far as they can tell: a line feed stands before their
first token, or they have no token. -/
def EndsBefore (cs : List Cut) : Prop :=
  '\n' ∈ gapText cs ∨ scanned cs = []

instance (cs : List Cut) : Decidable (EndsBefore cs) :=
  inferInstanceAs (Decidable (_ ∨ _))

theorem endsBefore_of_break {cut : Cut} {rest : List Cut} (hgap : cut.isToken = false)
    (hbreak : '\n' ∈ cut.text) : EndsBefore (cut :: rest) := by
  left
  rw [gapText_cons_of_gap hgap]
  exact List.mem_append_left _ hbreak

theorem endsBefore_cons_iff {cut : Cut} {rest : List Cut} (hgap : cut.isToken = false)
    (hbreak : '\n' ∉ cut.text) : EndsBefore (cut :: rest) ↔ EndsBefore rest := by
  unfold EndsBefore
  rw [gapText_cons_of_gap hgap, scanned_cons_of_gap hgap, List.mem_append]
  simp only [hbreak, false_or]

theorem not_endsBefore_token (t : Token) (breaks : Nat) (text : List Char) (rest : List Cut) :
    ¬EndsBefore (⟨.token t breaks, text⟩ :: rest) := by
  rintro (hbreak | hnone)
  · cases hbreak
  · cases hnone

/-- The semicolon that is due before some cuts if the token before them may end a statement. -/
def due (pending : Bool) (cs : List Cut) : List Token :=
  if pending = true ∧ EndsBefore cs then [.semicolon] else []

theorem due_false (cs : List Cut) : due false cs = [] :=
  if_neg fun h => Bool.false_ne_true h.1

theorem due_true {cs : List Cut} (h : EndsBefore cs) : due true cs = [.semicolon] :=
  if_pos ⟨rfl, h⟩

theorem due_of_not {cs : List Cut} (h : ¬EndsBefore cs) (pending : Bool) : due pending cs = [] :=
  if_neg fun hdue => h hdue.2

theorem due_cons {cut : Cut} {rest : List Cut} (hgap : cut.isToken = false)
    (hbreak : '\n' ∉ cut.text) (pending : Bool) : due pending (cut :: rest) = due pending rest := by
  unfold due
  simp only [endsBefore_cons_iff hgap hbreak]

/-- A token with the semicolon that is due behind it is what the rule gives for it. -/
theorem withSemicolons_token (t : Token) (breaks : Nat) (text : List Char) (rest : List Cut) :
    withSemicolons (scanned (⟨.token t breaks, text⟩ :: rest)) =
      t :: (due t.endsStatement rest ++ withSemicolons (scanned rest)) := by
  rw [scanned, withSemicolons]
  by_cases hdue : t.MayEnd ∧ EndsBefore rest
  · refine (if_pos hdue).trans ?_
    rw [Token.endsStatement_iff.2 hdue.1, due_true hdue.2]
    rfl
  · refine (if_neg hdue).trans ?_
    rw [due, if_neg fun h => hdue ⟨Token.endsStatement_iff.1 h.1, h.2⟩]
    rfl

/-- White space and comments move the layout on by their lines and end a statement that may end, if
they have any. -/
theorem layout_gap {cut : Cut} (hgap : cut.isToken = false) (line : Nat) (pending : Bool)
    (ps : List Piece) :
    layout line pending (cut.piece :: ps) =
      if pending = true ∧ cut.piece.breaks ≠ 0 then
        (layout (line + cut.piece.breaks) false ps).cons ⟨line, .semicolon⟩
      else layout (line + cut.piece.breaks) pending ps := by
  obtain ⟨piece, text⟩ := cut
  cases piece with
  | token => cases hgap
  | blank => exact (if_neg fun h => h.2 rfl).symm
  | lineBreak => cases pending <;> rfl
  | comment breaks =>
    rw [layout]
    simp only [Bool.and_eq_true, bne_iff_ne]
    rfl

/-- A layout gives the tokens by the rule, behind the semicolon that is due before them. -/
theorem tokens_layout {cs : List Cut} (hgaps : ∀ cut ∈ cs, cut.isToken = false → IsGap cut)
    (line : Nat) (pending : Bool) :
    (layout line pending (cs.map Cut.piece)).tokens.map Located.token =
      due pending cs ++ withSemicolons (scanned cs) := by
  induction cs generalizing line pending with
  | nil =>
    have hends : EndsBefore [] := .inr rfl
    cases pending with
    | false => rfl
    | true =>
      rw [due_true hends]
      rfl
  | cons cut rest ih =>
    obtain ⟨hcut, hrest⟩ := List.forall_mem_cons.1 hgaps
    have hmore := ih hrest
    by_cases hgap : cut.isToken = false
    · rw [List.map_cons, layout_gap hgap, scanned_cons_of_gap hgap]
      have hbreaks := (hcut hgap).break_iff
      by_cases hbreak : '\n' ∈ cut.text
      · cases pending with
        | false =>
          rw [if_neg fun h => Bool.false_ne_true h.1, due_false, hmore, due_false]
        | true =>
          rw [if_pos ⟨rfl, hbreaks.1 hbreak⟩, due_true (endsBefore_of_break hgap hbreak)]
          have hafter := hmore (line + cut.piece.breaks) false
          rw [due_false, List.nil_append] at hafter
          exact congrArg (Token.semicolon :: ·) hafter
      · rw [if_neg fun h => hbreak (hbreaks.2 h.2), due_cons hgap hbreak, hmore]
    · obtain ⟨piece, text⟩ := cut
      cases piece with
      | token t breaks =>
        rw [due_of_not (not_endsBefore_token t breaks text rest), List.nil_append,
          withSemicolons_token, ← hmore (line + breaks) t.endsStatement]
        rfl
      | _ => exact absurd rfl hgap

/-- A source text is gaps of white space and comments between tokens.  Tokenizing it leaves out the
gaps and puts one semicolon behind each token that may end a statement and is followed by a gap with
a line feed or by no token; it puts in no other one. -/
theorem tokenize_semicolons {source : String} {list : TokenList} (h : tokenize source = .ok list) :
    withoutMark source.toList = gapText (cuts (withoutMark source.toList)) ++
      ((scanned (cuts (withoutMark source.toList))).flatMap fun s => s.text ++ s.gap) ∧
    (∀ cut ∈ cuts (withoutMark source.toList), cut.isToken = false → IsGap cut) ∧
    list.tokens.map Located.token =
      withSemicolons (scanned (cuts (withoutMark source.toList))) := by
  have hgaps : ∀ cut ∈ cuts (withoutMark source.toList), cut.isToken = false → IsGap cut :=
    fun cut hmem => isGap_of_mem_cuts hmem
  obtain ⟨hfault, hlist⟩ := pieces_of_tokenize h
  refine ⟨?_, hgaps, ?_⟩
  · rw [← textOf_eq_gapText_append, textOf_cuts hfault]
  · rw [hlist, ← map_cuts, tokens_layout hgaps, due_false, List.nil_append]

/-- A line feed inside a comment and two behind it end a statement once, and a keyword at the end of
the text ends none. -/
theorem tokenize_semicolons_comments :
    tokenize "return /*\n*/ //\n\n\x7d else" = .ok
        ⟨[⟨1, .word "return"⟩, ⟨1, .semicolon⟩, ⟨4, .rightBrace⟩, ⟨4, .word "else"⟩], 4⟩ ∧
      withSemicolons (scanned (cuts (withoutMark "return /*\n*/ //\n\n\x7d else".toList))) =
        [.word "return", .semicolon, .rightBrace, .word "else"] := by
  have htokens : tokenize "return /*\n*/ //\n\n\x7d else" = .ok
      ⟨[⟨1, .word "return"⟩, ⟨1, .semicolon⟩, ⟨4, .rightBrace⟩, ⟨4, .word "else"⟩], 4⟩ := by
    have hend : pieces [] = ([], none) := by rw [pieces]
    have hpieces : pieces (withoutMark "return /*\n*/ //\n\n\x7d else".toList) =
        ([.token (.word "return") 0, .blank, .comment 1, .blank, .comment 0, .lineBreak, .lineBreak,
          .token .rightBrace 0, .blank, .token (.word "else") 0], none) :=
      pieces_step rfl (pieces_step rfl (pieces_step rfl (pieces_step rfl (pieces_step rfl
        (pieces_step rfl (pieces_step rfl (pieces_step rfl (pieces_step rfl
          (pieces_step rfl hend)))))))))
    rw [tokenize, hpieces]
    rfl
  exact ⟨htokens, (tokenize_semicolons htokens).2.2.symm⟩

end StructCopy.Go
