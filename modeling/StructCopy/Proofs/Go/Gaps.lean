/-
  Proofs/Go/Gaps: what stands between tokens.

  Every cut of a text is what `step` reads there, so that a cut which is no token is white
  space or a comment, and its piece counts for the line feeds of its characters.  A text
  starts with a gap, and so does what follows each token.
-/
import StructCopy.Proofs.Go.LineNumbers

set_option autoImplicit false

namespace StructCopy.Go

/-! ## Cuts and steps -/

/-- A cut is what is read where it stands. -/
theorem exists_step_of_mem_cuts {s : List Char} {cut : Cut} (h : cut ∈ cuts s) :
    ∃ c t rest, step c t = .ok (cut.piece, rest) ∧ c :: t = cut.text ++ rest := by
  fun_induction pieces s with
  | case1 =>
    rw [cuts] at h
    exact absurd h List.not_mem_nil
  | case2 c s fault hstep =>
    rw [cuts] at h
    split at h
    · exact absurd h List.not_mem_nil
    · next heq =>
      rw [hstep] at heq
      cases heq
  | case3 c s piece rest hstep found ih =>
    obtain ⟨text, htext, hcuts, -⟩ := cuts_of_step hstep
    rw [hcuts] at h
    rcases List.mem_cons.1 h with rfl | hmem
    · exact ⟨c, s, rest, hstep, htext⟩
    · exact ih hmem

/-- What has tokens can be taken apart to its end, and the tokens are the layout of its pieces. -/
theorem pieces_of_tokenize {source : String} {list : TokenList} (h : tokenize source = .ok list) :
    (pieces (withoutMark source.toList)).2 = none ∧
      list = layout 1 false (pieces (withoutMark source.toList)).1 := by
  unfold tokenize at h
  split at h
  · next hpieces =>
    cases h
    rw [hpieces]
    exact ⟨rfl, rfl⟩
  · cases h

/-! ## Gaps -/

/-- The cut is a token. -/
def Cut.isToken (cut : Cut) : Bool :=
  match cut.piece with
  | .token _ _ => true
  | _ => false

/-- White space or a comment.  A line comment holds no line feed, and a block comment ends with the
first closing mark in it. -/
inductive IsGap : Cut → Prop where
  | lineBreak : IsGap ⟨.lineBreak, ['\n']⟩
  | blank {c : Char} (hblank : Text.isBlank c = true) (hbreak : c ≠ '\n') : IsGap ⟨.blank, [c]⟩
  | lineComment {text : List Char} (hbreak : '\n' ∉ text) :
      IsGap ⟨.comment 0, '/' :: '/' :: text⟩
  | blockComment {inside : List Char} (hmark : ¬ ['*', '/'] <:+: inside ++ ['*']) :
      IsGap ⟨.comment (lineFeeds inside), '/' :: '*' :: (inside ++ ['*', '/'])⟩

theorem isGap_of_mem_cuts {s : List Char} {cut : Cut} (h : cut ∈ cuts s)
    (hgap : cut.isToken = false) : IsGap cut := by
  obtain ⟨c, t, rest, hstep, htext⟩ := exists_step_of_mem_cuts h
  obtain ⟨piece, text⟩ := cut
  by_cases hc : c = '\n'
  · subst hc
    cases hstep
    have hsplit : ['\n'] ++ t = text ++ t := htext
    obtain rfl := List.append_cancel_right hsplit
    exact .lineBreak
  dsimp only at hstep htext
  cases cutsOff_of_step hstep with
  | lineBreak => exact absurd rfl hc
  | blank hblank =>
    have hsplit : [c] ++ t = text ++ t := htext
    obtain rfl := List.append_cancel_right hsplit
    exact .blank hblank hc
  | lineComment hmark =>
    obtain ⟨t, rfl⟩ := List.head?_eq_some_iff.1 hmark
    have hsplit : '/' :: '/' :: t.takeWhile (· != '\n') = text := by
      refine (List.append_left_inj (('/' :: t).dropWhile (· != '\n'))).1 ?_
      rw [← htext]
      simp
    subst hsplit
    refine .lineComment fun hmem => ?_
    have hne := List.mem_takeWhile_imp hmem
    simp at hne
  | @blockComment _ inside _ hbody =>
    rw [eq_append_of_commentBody hbody] at htext
    have hsplit : '/' :: '*' :: (inside ++ ['*', '/']) = text := by
      refine (List.append_left_inj rest).1 ?_
      rw [← htext]
      simp
    subst hsplit
    refine .blockComment ?_
    unfold commentBody at hbody
    split at hbody
    · next hcut =>
      cases hbody
      exact Text.not_infix_before hcut (List.cons_ne_nil _ _)
    · cases hbody
  | _ => cases hgap

/-- White space and comments count for their line feeds. -/
theorem IsGap.lineFeeds_eq {cut : Cut} (h : IsGap cut) :
    lineFeeds cut.text = cut.piece.breaks := by
  cases h with
  | lineBreak => rfl
  | blank _ hbreak => exact lineFeeds_eq_zero fun hmem => hbreak (List.mem_singleton.1 hmem).symm
  | lineComment hbreak => exact lineFeeds_eq_zero (by simpa using hbreak)
  | blockComment => simp [lineFeeds, Piece.breaks]

theorem IsGap.break_iff {cut : Cut} (h : IsGap cut) : '\n' ∈ cut.text ↔ cut.piece.breaks ≠ 0 := by
  rw [← h.lineFeeds_eq, lineFeeds, ne_eq, List.count_eq_zero, not_not]

/-- The cuts before the first token. -/
def leading (cs : List Cut) : List Cut :=
  cs.takeWhile fun cut => !cut.isToken

/-- The text before the first token. -/
def gapText (cs : List Cut) : List Char :=
  textOf (leading cs)

theorem isGap_of_mem_leading {s : List Char} {cut : Cut} (h : cut ∈ leading (cuts s)) :
    IsGap cut := by
  have hgap := List.all_eq_true.1 List.all_takeWhile cut h
  exact isGap_of_mem_cuts ((List.takeWhile_sublist _).subset h) (by simpa using hgap)

end StructCopy.Go
