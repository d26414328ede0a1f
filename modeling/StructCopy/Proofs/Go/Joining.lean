/-
  Proofs/Go/Joining: two texts joined at a line break.

  No piece reaches over a line break that stands behind a text which can be taken apart
  to its end, and the break ends a statement just as the end of the first text does.
  So the tokens of the joined text are those of the two parts, the second ones further
  down by the lines of the first part.
-/
import StructCopy.Proofs.Go.Cutting
import StructCopy.Proofs.Go.Extension

set_option autoImplicit false

namespace StructCopy.Go

/-! ## Comments before a line break -/

theorem commentBody_append {s inside rest : List Char} (h : commentBody s = .ok (inside, rest))
    (more : List Char) : commentBody (s ++ more) = .ok (inside, rest ++ more) := by
  unfold commentBody at h
  split at h
  · next hfound =>
    cases h
    rw [commentBody, Text.cut?_append hfound (List.cons_ne_nil _ _)]
  · cases h

/-- A comment is cut off alike before a line break. -/
theorem step_append_of_comment {c : Char} {s rest : List Char} {breaks : Nat}
    (h : step c s = .ok (.comment breaks, rest)) (r : List Char) :
    step c (s ++ '\n' :: r) = .ok (.comment breaks, rest ++ '\n' :: r) := by
  cases cutsOff_of_step h with
  | lineComment hmark =>
    obtain ⟨s, rfl⟩ := List.head?_eq_some_iff.1 hmark
    have hlead : lead '/' ('/' :: s ++ '\n' :: r) = .lineComment := rfl
    rw [step_eq_cut, hlead, Lead.cut, dropWhile_append_barrier (by rfl)]
  | blockComment hbody =>
    have hlead : ∀ s, lead '/' ('*' :: s) = .blockComment := fun _ => rfl
    rw [List.cons_append, step_eq_cut, hlead, Lead.cut, List.tail_cons, commentBody_append hbody]
    rfl

/-! ## Pieces -/

theorem step_append_lineBreak {c : Char} {s rest : List Char} {piece : Piece}
    (h : step c s = .ok (piece, rest)) (r : List Char) :
    step c (s ++ '\n' :: r) = .ok (piece, rest ++ '\n' :: r) := by
  cases piece with
  | comment => exact step_append_of_comment h r
  | token => exact step_append (by decide) h nofun
  | blank => exact step_append (by decide) h nofun
  | lineBreak => exact step_append (by decide) h nofun

/-- No piece reaches over a line break behind a text that can be taken apart to its end. -/
theorem pieces_append_lineBreak {s : List Char} (h : (pieces s).2 = none) (r : List Char) :
    pieces (s ++ '\n' :: r) = ((pieces s).1 ++ .lineBreak :: (pieces r).1, (pieces r).2) := by
  fun_induction pieces s with
  | case1 => exact pieces_of_step rfl
  | case2 => cases h
  | case3 c s piece rest hstep found ih =>
    rw [List.cons_append, pieces_of_step (step_append_lineBreak hstep r), ih h]
    rfl

/-! ## Lines -/

/-- The token, so many lines further down. -/
def Located.below (t : Located) (lines : Nat) : Located :=
  { t with line := t.line + lines }

/-- The tokens of a text and, behind them, those of another text that starts on the line behind
its end. -/
def TokenList.above (list after : TokenList) : TokenList where
  tokens := list.tokens ++ after.tokens.map (·.below list.endLine)
  endLine := after.endLine + list.endLine

theorem foldl_breaks (ps : List Piece) (n : Nat) :
    ps.foldl (fun n p => n + p.breaks) n = n + totalBreaks ps := by
  unfold totalBreaks
  induction ps generalizing n with
  | nil => rfl
  | cons piece ps ih =>
    rw [List.foldl_cons, List.foldl_cons, ih, ih (0 + piece.breaks)]
    omega

theorem totalBreaks_cons (piece : Piece) (ps : List Piece) :
    totalBreaks (piece :: ps) = piece.breaks + totalBreaks ps := by
  rw [totalBreaks, List.foldl_cons, foldl_breaks, Nat.zero_add]

theorem totalBreaks_append (ps qs : List Piece) :
    totalBreaks (ps ++ qs) = totalBreaks ps + totalBreaks qs := by
  rw [totalBreaks, List.foldl_append, foldl_breaks]
  rfl

theorem endLine_layout (line : Nat) (pending : Bool) (ps : List Piece) :
    (layout line pending ps).endLine = line + totalBreaks ps := by
  induction ps generalizing line pending with
  | nil => rfl
  | cons piece ps ih =>
    rw [totalBreaks_cons, ← Nat.add_assoc]
    cases piece with
    | token t breaks => exact ih _ _
    | blank => exact ih _ _
    | lineBreak =>
      cases pending with
      | false => exact ih _ _
      | true => exact ih _ _
    | comment breaks =>
      rw [layout]
      split
      · exact ih _ _
      · exact ih _ _

/-- Further down, the same tokens come out further down. -/
theorem layout_below (lines line : Nat) (pending : Bool) (ps : List Piece) :
    (layout (line + lines) pending ps).tokens =
      (layout line pending ps).tokens.map (·.below lines) := by
  induction ps generalizing line pending with
  | nil => cases pending <;> rfl
  | cons piece ps ih =>
    have hline : ∀ n, line + lines + n = line + n + lines := fun n => Nat.add_right_comm _ _ _
    cases piece with
    | token t breaks =>
      have hrest := ih (line + breaks) t.endsStatement
      rw [← hline] at hrest
      exact congrArg (List.cons _) hrest
    | blank => exact ih line pending
    | lineBreak =>
      have hrest := ih (line + 1) false
      rw [← hline] at hrest
      cases pending with
      | false => exact hrest
      | true => exact congrArg (List.cons _) hrest
    | comment breaks =>
      rw [layout, layout]
      split
      · have hrest := ih (line + breaks) false
        rw [← hline] at hrest
        exact congrArg (List.cons _) hrest
      · have hrest := ih (line + breaks) pending
        rwa [← hline] at hrest

/-- A line break ends a statement as the end of the text does, and behind it nothing is pending. -/
theorem layout_append_lineBreak (line : Nat) (pending : Bool) (ps qs : List Piece) :
    (layout line pending (ps ++ .lineBreak :: qs)).tokens =
      (layout line pending ps).tokens ++ (layout (line + totalBreaks ps + 1) false qs).tokens := by
  induction ps generalizing line pending with
  | nil => cases pending <;> rfl
  | cons piece ps ih =>
    rw [totalBreaks_cons, ← Nat.add_assoc]
    cases piece with
    | token t breaks => exact congrArg (List.cons _) (ih _ _)
    | blank => exact ih _ _
    | lineBreak =>
      cases pending with
      | false => exact ih _ _
      | true => exact congrArg (List.cons _) (ih _ _)
    | comment breaks =>
      rw [List.cons_append, layout, layout]
      split
      · exact congrArg (List.cons _) (ih _ _)
      · exact ih _ _

/-- The layout of two texts that are joined at a line break. -/
theorem layout_join (ps qs : List Piece) :
    layout 1 false (ps ++ .lineBreak :: qs) = (layout 1 false ps).above (layout 1 false qs) := by
  have htokens := layout_append_lineBreak 1 false ps qs
  rw [show 1 + totalBreaks ps + 1 = 1 + (1 + totalBreaks ps) by omega, layout_below,
    ← endLine_layout 1 false ps] at htokens
  have hend : (layout 1 false (ps ++ .lineBreak :: qs)).endLine =
      (layout 1 false qs).endLine + (layout 1 false ps).endLine := by
    simp only [endLine_layout, totalBreaks_append, totalBreaks_cons, Piece.breaks]
    omega
  rw [TokenList.above, ← htokens, ← hend]

/-! ## Texts -/

/-- A text that has tokens, a line break and any other text without a byte-order mark at its front:
the tokens, or the fault and its line, are those of the second text further down, behind the tokens
of the first. -/
theorem tokenize_join {a b : String} {list : TokenList} (ha : tokenize a = .ok list)
    (hb : b.toList.head? ≠ some '\ufeff') :
    tokenize (a ++ "\n" ++ b) =
      match tokenize b with
      | .ok after => .ok (list.above after)
      | .error e => .error ⟨e.line + list.endLine, e.fault⟩ := by
  unfold tokenize at ha
  split at ha
  · next ps hps =>
    cases ha
    have htext : withoutMark (a ++ "\n" ++ b).toList =
        withoutMark a.toList ++ '\n' :: b.toList := by
      rw [← withoutMark_append (by decide), String.toList_append, String.toList_append,
        List.append_assoc]
      rfl
    have hfault : (pieces (withoutMark a.toList)).2 = none := by rw [hps]
    rw [tokenize, tokenize, htext, withoutMark_eq_self hb, pieces_append_lineBreak hfault, hps]
    rcases pieces b.toList with ⟨qs, _ | fault⟩
    · exact congrArg Except.ok (layout_join ps qs)
    · have hline : 1 + totalBreaks (ps ++ .lineBreak :: qs) =
          1 + totalBreaks qs + (layout 1 false ps).endLine := by
        rw [endLine_layout, totalBreaks_append, totalBreaks_cons, Piece.breaks]
        omega
      exact congrArg (fun line => Except.error (LexError.mk line fault)) hline
  · cases ha

/-- The mark `<` at the end of a line and a `-` at the start of the next one are no arrow, and the
break ends no statement there. -/
theorem tokenize_join_operators :
    tokenize "x <" = .ok ⟨[⟨1, .word "x"⟩, ⟨1, .operator "<"⟩], 1⟩ ∧
      tokenize "-y" = .ok ⟨[⟨1, .operator "-"⟩, ⟨1, .word "y"⟩, ⟨1, .semicolon⟩], 1⟩ ∧
      tokenize ("x <" ++ "\n" ++ "-y") = .ok ⟨[⟨1, .word "x"⟩, ⟨1, .operator "<"⟩,
        ⟨2, .operator "-"⟩, ⟨2, .word "y"⟩, ⟨2, .semicolon⟩], 2⟩ := by
  have hend : pieces [] = ([], none) := by rw [pieces]
  have hfirst : tokenize "x <" = .ok ⟨[⟨1, .word "x"⟩, ⟨1, .operator "<"⟩], 1⟩ := by
    have hpieces : pieces (withoutMark "x <".toList) =
        ([.token (.word "x") 0, .blank, .token (.operator "<") 0], none) :=
      pieces_step rfl (pieces_step rfl (pieces_step rfl hend))
    rw [tokenize, hpieces]
    rfl
  have hsecond : tokenize "-y" =
      .ok ⟨[⟨1, .operator "-"⟩, ⟨1, .word "y"⟩, ⟨1, .semicolon⟩], 1⟩ := by
    have hpieces : pieces (withoutMark "-y".toList) =
        ([.token (.operator "-") 0, .token (.word "y") 0], none) :=
      pieces_step rfl (pieces_step rfl hend)
    rw [tokenize, hpieces]
    rfl
  have hjoin := tokenize_join (b := "-y") hfirst (by decide)
  rw [hsecond] at hjoin
  exact ⟨hfirst, hsecond, hjoin⟩

end StructCopy.Go
