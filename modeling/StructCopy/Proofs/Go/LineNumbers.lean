/-
  Proofs/Go/LineNumbers: the lines that tokens carry.

  `cuts` keeps the characters of every piece, so that a token that stands in the text has
  a place: the pieces before it.  A token carries one line more than there are line
  feeds before it, less those inside literals in double or single quotes: such a line
  feed is read with the backslash before it and counted by no one.
-/
import Mathlib.Algebra.GroupWithZero.Nat
import Mathlib.Data.List.Forall2
import StructCopy.Proofs.Go.Cutting
import StructCopy.Proofs.Go.Joining

set_option autoImplicit false

namespace StructCopy.Go

/-! ## Pieces with their characters -/

/-- A piece and the characters that it is cut from. -/
structure Cut where
  piece : Piece
  text : List Char
  deriving DecidableEq, Repr

/-- The pieces of a text with their characters, up to the end or the first fault. -/
def cuts : List Char → List Cut
  | [] => []
  | c :: s =>
    match _h : step c s with
    | .error _ => []
    | .ok (piece, rest) =>
      ⟨piece, (c :: s).take ((c :: s).length - rest.length)⟩ :: cuts rest
termination_by s => s.length
decreasing_by
  have := length_le_of_step _h
  simp only [List.length_cons]
  omega

/-- The pieces of a source text; a byte-order mark at its front counts as white space. -/
def sourceCuts : List Char → List Cut
  | '\ufeff' :: s => ⟨.blank, ['\ufeff']⟩ :: cuts s
  | s => cuts s

/-- The characters of some pieces. -/
def textOf (cs : List Cut) : List Char :=
  cs.flatMap Cut.text

namespace Cut

/-- A literal in double or single quotes. -/
def isQuoted (cut : Cut) : Bool :=
  cut.text.head? == some '"' || cut.text.head? == some '\''

/-- The line feeds of a piece that are not counted. -/
def hidden (cut : Cut) : Nat :=
  if cut.isQuoted then lineFeeds cut.text else 0

end Cut

/-- The line feeds of some pieces that are not counted. -/
def hiddenFeeds (cs : List Cut) : Nat :=
  (cs.map Cut.hidden).sum

/-! ## The characters of a piece -/

theorem lineFeeds_append (s t : List Char) : lineFeeds (s ++ t) = lineFeeds s + lineFeeds t :=
  List.count_append

theorem lineFeeds_eq_zero {s : List Char} (h : '\n' ∉ s) : lineFeeds s = 0 :=
  List.count_eq_zero.2 h

/-- The characters up to where a test fails, when a line feed fails it. -/
theorem lineFeeds_cons_takeWhile {c : Char} (hc : c ≠ '\n') {p : Char → Bool}
    (hp : p '\n' = false) (s : List Char) : lineFeeds (c :: s.takeWhile p) = 0 := by
  refine lineFeeds_eq_zero fun hmem => ?_
  rcases List.mem_cons.1 hmem with heq | hmem
  · exact hc heq.symm
  · rw [List.mem_takeWhile_imp hmem] at hp
    cases hp

/-- A piece without line feeds counts for none. -/
theorem lineFeeds_of_plain {text : List Char} {piece : Piece} (hbreaks : piece.breaks = 0)
    (htext : lineFeeds text = 0) :
    lineFeeds text = piece.breaks + Cut.hidden ⟨piece, text⟩ := by
  have hhidden : Cut.hidden ⟨piece, text⟩ = 0 := by
    unfold Cut.hidden
    split
    · exact htext
    · rfl
  rw [hbreaks, htext, hhidden]

/-- A literal in quotes counts for no line break. -/
theorem lineFeeds_of_quoted {text : List Char} {piece : Piece} (hbreaks : piece.breaks = 0)
    (htext : Cut.isQuoted ⟨piece, text⟩ = true) :
    lineFeeds text = piece.breaks + Cut.hidden ⟨piece, text⟩ := by
  rw [hbreaks, Nat.zero_add, Cut.hidden, if_pos htext]

theorem lineFeeds_of_unquoted {text : List Char} {piece : Piece}
    (hbreaks : lineFeeds text = piece.breaks) (htext : Cut.isQuoted ⟨piece, text⟩ = false) :
    lineFeeds text = piece.breaks + Cut.hidden ⟨piece, text⟩ := by
  rw [hbreaks, Cut.hidden, htext]
  rfl

/-- A piece is cut from the front of the text, and counts for the line feeds of its characters
unless it is a literal in quotes. -/
theorem exists_text_of_step {c : Char} {s rest : List Char} {piece : Piece}
    (h : step c s = .ok (piece, rest)) :
    ∃ text, c :: s = text ++ rest ∧ lineFeeds text = piece.breaks + Cut.hidden ⟨piece, text⟩ := by
  by_cases hc : c = '\n'
  · subst hc
    cases h
    exact ⟨['\n'], rfl, rfl⟩
  have hwhile : ∀ p : Char → Bool, c :: s = (c :: s.takeWhile p) ++ s.dropWhile p := by
    intro p
    rw [List.cons_append, List.takeWhile_append_dropWhile]
  have hone : lineFeeds [c] = 0 := lineFeeds_eq_zero fun hmem => hc (List.mem_singleton.1 hmem).symm
  cases cutsOff_of_step h with
  | lineBreak => exact absurd rfl hc
  | lineComment =>
    exact ⟨_, hwhile _, lineFeeds_of_plain rfl (lineFeeds_cons_takeWhile hc rfl s)⟩
  | @blockComment s inside _ hbody =>
    refine ⟨'/' :: '*' :: (inside ++ ['*', '/']), ?_, lineFeeds_of_unquoted ?_ rfl⟩
    · rw [eq_append_of_commentBody hbody]
      simp
    · simp [lineFeeds, Piece.breaks]
  | blank => exact ⟨[c], rfl, lineFeeds_of_plain rfl hone⟩
  | string hbody =>
    obtain ⟨inside, rfl⟩ := eq_append_of_stringBody hbody
    exact ⟨'"' :: (inside ++ ['"']), by simp, lineFeeds_of_quoted rfl rfl⟩
  | @rawString _ value _ hbody =>
    refine ⟨'\x60' :: (value ++ ['\x60']), ?_, lineFeeds_of_unquoted ?_ rfl⟩
    · rw [eq_append_of_rawStringBody hbody]
      simp
    · simp [lineFeeds, Piece.breaks]
  | rune hbody =>
    obtain ⟨inside, rfl⟩ := eq_append_of_runeBody hbody
    exact ⟨'\'' :: (inside ++ ['\'']), by simp, lineFeeds_of_quoted rfl rfl⟩
  | number =>
    exact ⟨_, hwhile _, lineFeeds_of_plain rfl (lineFeeds_cons_takeWhile hc rfl s)⟩
  | word =>
    exact ⟨_, hwhile _, lineFeeds_of_plain rfl (lineFeeds_cons_takeWhile hc (by decide) s)⟩
  | longOperator hmem htext =>
    have hplain : '\n' ∉ _ := not_mem_longOperator (by decide) hmem
    exact ⟨_, htext, lineFeeds_of_plain rfl (lineFeeds_eq_zero hplain)⟩
  | shortOperator => exact ⟨[c], rfl, lineFeeds_of_plain rfl hone⟩

/-- The first piece of a text with its characters. -/
theorem cuts_of_step {c : Char} {s rest : List Char} {piece : Piece}
    (h : step c s = .ok (piece, rest)) :
    ∃ text, c :: s = text ++ rest ∧ cuts (c :: s) = ⟨piece, text⟩ :: cuts rest ∧
      lineFeeds text = piece.breaks + Cut.hidden ⟨piece, text⟩ := by
  obtain ⟨text, htext, hfeeds⟩ := exists_text_of_step h
  refine ⟨text, htext, ?_, hfeeds⟩
  rw [cuts]
  split
  · next heq =>
    rw [h] at heq
    cases heq
  · next heq =>
    rw [h] at heq
    cases heq
    rw [htext, List.length_append, Nat.add_sub_cancel, List.take_left]

/-! ## All pieces -/

theorem map_cuts (s : List Char) : (cuts s).map Cut.piece = (pieces s).1 := by
  fun_induction pieces s with
  | case1 => rw [cuts]; rfl
  | case2 c s fault hstep =>
    rw [cuts]
    split
    · rfl
    · next heq =>
      rw [hstep] at heq
      cases heq
  | case3 c s piece rest hstep found ih =>
    obtain ⟨text, -, hcuts, -⟩ := cuts_of_step hstep
    rw [hcuts, List.map_cons, ih]

/-- The pieces of a text that can be taken apart to its end make up the text. -/
theorem textOf_cuts {s : List Char} (h : (pieces s).2 = none) : textOf (cuts s) = s := by
  fun_induction pieces s with
  | case1 => rw [cuts]; rfl
  | case2 => cases h
  | case3 c s piece rest hstep found ih =>
    obtain ⟨text, htext, hcuts, -⟩ := cuts_of_step hstep
    rw [hcuts, textOf, List.flatMap_cons, ← textOf, ih h, ← htext]

/-- Every piece counts for its line feeds, but for those of literals in quotes. -/
def Counted (cs : List Cut) : Prop :=
  ∀ cut ∈ cs, lineFeeds cut.text = cut.piece.breaks + cut.hidden

theorem counted_cuts (s : List Char) : Counted (cuts s) := by
  fun_induction pieces s with
  | case1 => rw [cuts]; exact fun _ hmem => absurd hmem List.not_mem_nil
  | case2 c s fault hstep =>
    rw [cuts]
    split
    · exact fun _ hmem => absurd hmem List.not_mem_nil
    · next heq =>
      rw [hstep] at heq
      cases heq
  | case3 c s piece rest hstep found ih =>
    obtain ⟨text, -, hcuts, hfeeds⟩ := cuts_of_step hstep
    rw [hcuts]
    exact List.forall_mem_cons.2 ⟨hfeeds, ih⟩

theorem hiddenFeeds_cons (cut : Cut) (cs : List Cut) :
    hiddenFeeds (cut :: cs) = cut.hidden + hiddenFeeds cs := by
  rw [hiddenFeeds, List.map_cons, List.sum_cons]
  rfl

theorem lineFeeds_textOf {cs : List Cut} (h : Counted cs) :
    lineFeeds (textOf cs) = totalBreaks (cs.map Cut.piece) + hiddenFeeds cs := by
  induction cs with
  | nil => rfl
  | cons cut cs ih =>
    obtain ⟨hcut, hrest⟩ := List.forall_mem_cons.1 h
    rw [textOf, List.flatMap_cons, ← textOf, lineFeeds_append, hcut, ih hrest, List.map_cons,
      totalBreaks_cons, hiddenFeeds_cons]
    omega

/-- No line feed is left out exactly if no literal in quotes holds one. -/
theorem hiddenFeeds_eq_zero_iff {cs : List Cut} :
    hiddenFeeds cs = 0 ↔ ∀ cut ∈ cs, cut.isQuoted = true → '\n' ∉ cut.text := by
  rw [hiddenFeeds, List.sum_eq_zero_iff_forall_eq_nat, List.forall_mem_map]
  refine forall₂_congr fun cut _ => ?_
  unfold Cut.hidden
  split
  · next hquoted => simp [hquoted, lineFeeds, List.count_eq_zero]
  · next hquoted => simp [hquoted]

/-! ## Source texts -/

theorem sourceCuts_eq (s : List Char) : sourceCuts s = cuts (withoutMark s) ∧ s = withoutMark s ∨
    sourceCuts s = ⟨.blank, ['\ufeff']⟩ :: cuts (withoutMark s) ∧
      s = ['\ufeff'] ++ withoutMark s := by
  by_cases hmark : s.head? = some '\ufeff'
  · obtain ⟨s, rfl⟩ := List.head?_eq_some_iff.1 hmark
    exact .inr ⟨rfl, rfl⟩
  · have hself := withoutMark_eq_self hmark
    refine .inl ⟨?_, hself.symm⟩
    rw [hself]
    unfold sourceCuts
    split
    · exact absurd rfl hmark
    · rfl

theorem textOf_sourceCuts {s : List Char} (h : (pieces (withoutMark s)).2 = none) :
    textOf (sourceCuts s) = s := by
  rcases sourceCuts_eq s with ⟨hcuts, hs⟩ | ⟨hcuts, hs⟩
  · rw [hcuts, textOf_cuts h, ← hs]
  · rw [hcuts, textOf, List.flatMap_cons, ← textOf, textOf_cuts h, ← hs]

theorem counted_sourceCuts (s : List Char) : Counted (sourceCuts s) := by
  rcases sourceCuts_eq s with ⟨hcuts, -⟩ | ⟨hcuts, -⟩
  · rw [hcuts]
    exact counted_cuts _
  · rw [hcuts]
    exact List.forall_mem_cons.2 ⟨rfl, counted_cuts _⟩

/-- White space at the front changes no layout. -/
theorem layout_sourceCuts (s : List Char) (line : Nat) (pending : Bool) :
    layout line pending ((sourceCuts s).map Cut.piece) =
      layout line pending (pieces (withoutMark s)).1 := by
  rcases sourceCuts_eq s with ⟨hcuts, -⟩ | ⟨hcuts, -⟩
  · rw [hcuts, map_cuts]
  · rw [hcuts, List.map_cons, layout, map_cuts]

/-! ## Where tokens come from -/

/-- For every token that a layout gives, the pieces before it, or nothing for a semicolon that is
put in at the end of a line. -/
def origins (before : List Cut) (pending : Bool) : List Cut → List (Option (List Cut))
  | [] => if pending then [none] else []
  | cut :: rest =>
    match cut.piece with
    | .token t _ => some before :: origins (before ++ [cut]) t.endsStatement rest
    | .blank => origins (before ++ [cut]) pending rest
    | .lineBreak => (if pending then [none] else []) ++ origins (before ++ [cut]) false rest
    | .comment n =>
      if pending && n != 0 then none :: origins (before ++ [cut]) false rest
      else origins (before ++ [cut]) pending rest

/-- The token comes from there: it is the next piece, and the line feeds before it are its line but
for those that are not counted; or it is a semicolon that has been put in. -/
def PlacedIn (whole : List Cut) (t : Located) : Option (List Cut) → Prop
  | none => t.token = .semicolon
  | some before =>
    (∃ text breaks after, whole = before ++ ⟨.token t.token breaks, text⟩ :: after) ∧
      t.line + hiddenFeeds before = 1 + lineFeeds (textOf before)

/-- The token carries the line that it stands on, or has been put in. -/
def OnLine (t : Located) (origin : Option (List Cut)) : Prop :=
  ∀ before ∈ origin, t.line = 1 + lineFeeds (textOf before)

theorem textOf_append (cs cs' : List Cut) : textOf (cs ++ cs') = textOf cs ++ textOf cs' :=
  List.flatMap_append

theorem hiddenFeeds_append (cs cs' : List Cut) :
    hiddenFeeds (cs ++ cs') = hiddenFeeds cs + hiddenFeeds cs' := by
  rw [hiddenFeeds, List.map_append, List.sum_append]
  rfl

/-- One piece further on, as many lines further down as the piece counts for. -/
theorem line_behind {line : Nat} {before : List Cut} {cut : Cut}
    (hline : line + hiddenFeeds before = 1 + lineFeeds (textOf before))
    (hcut : lineFeeds cut.text = cut.piece.breaks + cut.hidden) :
    line + cut.piece.breaks + hiddenFeeds (before ++ [cut]) =
      1 + lineFeeds (textOf (before ++ [cut])) := by
  have htext : textOf [cut] = cut.text := List.append_nil _
  have hhidden : hiddenFeeds [cut] = cut.hidden := hiddenFeeds_cons cut []
  rw [textOf_append, lineFeeds_append, hiddenFeeds_append, htext, hhidden, hcut]
  omega

/-- The tokens of a layout come from where `origins` says, if the layout starts on the line that
the pieces before it lead to. -/
theorem forall₂_layout {whole : List Cut} (hcounted : Counted whole) {before rest : List Cut}
    (hwhole : whole = before ++ rest) {line : Nat}
    (hline : line + hiddenFeeds before = 1 + lineFeeds (textOf before)) (pending : Bool) :
    List.Forall₂ (PlacedIn whole) (layout line pending (rest.map Cut.piece)).tokens
      (origins before pending rest) := by
  induction rest generalizing before line pending with
  | nil =>
    cases pending with
    | false => exact .nil
    | true => exact .cons rfl .nil
  | cons cut rest ih =>
    have hcut : lineFeeds cut.text = cut.piece.breaks + cut.hidden :=
      hcounted cut (by rw [hwhole]; exact List.mem_append_right _ List.mem_cons_self)
    have hmore := ih (by rw [hwhole, List.append_assoc]; rfl) (line_behind hline hcut)
    obtain ⟨piece, text⟩ := cut
    cases piece with
    | token t breaks => exact .cons ⟨⟨text, breaks, rest, hwhole⟩, hline⟩ (hmore t.endsStatement)
    | blank => exact hmore pending
    | lineBreak =>
      cases pending with
      | false => exact hmore false
      | true => exact .cons rfl (hmore false)
    | comment breaks =>
      rw [List.map_cons, layout, origins]
      dsimp only
      split
      · exact .cons rfl (hmore false)
      · exact hmore pending

/-- The tokens of a text carry the lines that they stand on, and the end of the text its line. -/
def TrueLines (s : List Char) (list : TokenList) : Prop :=
  List.Forall₂ OnLine list.tokens (origins [] false (sourceCuts s)) ∧
    list.endLine = 1 + lineFeeds s

/-- If no line feed is left out, the line is the true one. -/
theorem PlacedIn.onLine {whole : List Cut} {t : Located} {origin : Option (List Cut)}
    (h : PlacedIn whole t origin) (hhidden : hiddenFeeds whole = 0) : OnLine t origin := by
  intro before hbefore
  cases hbefore
  obtain ⟨⟨text, breaks, after, rfl⟩, hline⟩ := h
  rw [hiddenFeeds_append] at hhidden
  omega

/-- Every token that stands in a text, and the end of the text, is given one line more than there
are line feeds before it, less those inside literals in quotes.  So all lines are true exactly if no
such literal holds a line feed. -/
theorem tokenize_lines {source : String} {list : TokenList} (h : tokenize source = .ok list) :
    textOf (sourceCuts source.toList) = source.toList ∧
      List.Forall₂ (PlacedIn (sourceCuts source.toList)) list.tokens
        (origins [] false (sourceCuts source.toList)) ∧
      list.endLine + hiddenFeeds (sourceCuts source.toList) = 1 + lineFeeds source.toList ∧
      (TrueLines source.toList list ↔
        ∀ cut ∈ sourceCuts source.toList, cut.isQuoted = true → '\n' ∉ cut.text) := by
  have hfault : (pieces (withoutMark source.toList)).2 = none := by
    unfold tokenize at h
    split at h
    · next hpieces => rw [hpieces]
    · cases h
  have hlist : list = layout 1 false ((sourceCuts source.toList).map Cut.piece) := by
    rw [layout_sourceCuts]
    unfold tokenize at h
    split at h
    · next hpieces =>
      cases h
      rw [hpieces]
    · cases h
  subst hlist
  have hcounted := counted_sourceCuts source.toList
  have htext := textOf_sourceCuts hfault
  have hplaced := @forall₂_layout _ hcounted [] _ (List.nil_append _).symm 1 rfl false
  have hend : (layout 1 false ((sourceCuts source.toList).map Cut.piece)).endLine +
      hiddenFeeds (sourceCuts source.toList) = 1 + lineFeeds source.toList := by
    rw [endLine_layout, Nat.add_assoc, ← lineFeeds_textOf hcounted, htext]
  refine ⟨htext, hplaced, hend, ?_⟩
  rw [← hiddenFeeds_eq_zero_iff]
  constructor
  · rintro ⟨-, htrue⟩
    rw [htrue] at hend
    omega
  · intro hhidden
    rw [hhidden] at hend
    exact ⟨hplaced.imp fun t origin hplace => hplace.onLine hhidden, hend⟩

/-- A sign behind a string literal with an escaped line break stands on the second line and carries
the first. -/
theorem tokenize_lines_escaped :
    tokenize "\"\\\n\" +" = .ok ⟨[⟨1, .str "\\\n"⟩, ⟨1, .operator "+"⟩], 1⟩ ∧
      ¬TrueLines "\"\\\n\" +".toList ⟨[⟨1, .str "\\\n"⟩, ⟨1, .operator "+"⟩], 1⟩ := by
  have htokens : tokenize "\"\\\n\" +" = .ok ⟨[⟨1, .str "\\\n"⟩, ⟨1, .operator "+"⟩], 1⟩ := by
    have hend : pieces [] = ([], none) := by rw [pieces]
    have hpieces : pieces (withoutMark "\"\\\n\" +".toList) =
        ([.token (.str "\\\n") 0, .blank, .token (.operator "+") 0], none) :=
      pieces_step rfl (pieces_step rfl (pieces_step rfl hend))
    rw [tokenize, hpieces]
    rfl
  obtain ⟨cut, hmem, hquoted, hfeed⟩ : ∃ cut ∈ sourceCuts "\"\\\n\" +".toList,
      cut.isQuoted = true ∧ '\n' ∈ cut.text := by
    have hstep : step '"' ['\\', '\n', '"', ' ', '+'] =
        .ok (.token (.str "\\\n") 0, [' ', '+']) := rfl
    obtain ⟨text, htext, hcuts, -⟩ := cuts_of_step hstep
    have hliteral : text = ['"', '\\', '\n', '"'] :=
      List.append_cancel_right (htext.symm : text ++ [' ', '+'] = ['"', '\\', '\n', '"'] ++ _)
    subst hliteral
    refine ⟨⟨.token (.str "\\\n") 0, ['"', '\\', '\n', '"']⟩, ?_, by decide, by decide⟩
    change _ ∈ cuts ('"' :: ['\\', '\n', '"', ' ', '+'])
    rw [hcuts]
    exact List.mem_cons_self
  exact ⟨htokens, fun htrue => (tokenize_lines htokens).2.2.2.1 htrue cut hmem hquoted hfeed⟩

end StructCopy.Go
