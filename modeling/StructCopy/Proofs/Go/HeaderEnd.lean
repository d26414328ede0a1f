/-
  Proofs/Go/HeaderEnd: where reading the header of a file ends.

  A header is read line by line, and a line that holds the end of a block comment is passed
  over as a whole.  If the `package` clause follows on such a line, reading goes on behind it,
  and constraints further down count.  If block comments of several lines begin their lines,
  it stops in front of the clause exactly when nothing but white space stands before it there.
-/
import Mathlib.Data.List.Induction
import StructCopy.Proofs.Go.HeaderLines
import StructCopy.Proofs.Go.StatementEnds

set_option autoImplicit false

namespace StructCopy.Go

/-! ## A line with comments in it -/

/-- Only white space stands behind the last line feed. -/
def StartsLine (s : List Char) : Prop :=
  ∀ line ∈ (Text.splitAt '\n' s).getLast?, ∀ c ∈ line, Text.isBlank c = true

/-- What a line holds, up to a place where no comment is open: the end of a comment that was open
where the line begins, white space, or a comment behind white space. -/
inductive LineState : Bool → List Char → Prop where
  | closed {text : List Char} (hmark : "*/".toList <:+: text) : LineState true text
  | blank {text : List Char} (htext : ∀ c ∈ text, Text.isBlank c = true) : LineState false text
  | block {indent body : List Char} (hindent : ∀ c ∈ indent, Text.isBlank c = true)
      (hmark : "*/".toList <:+: body) : LineState false (indent ++ ("/*".toList ++ body))
  | line {indent : List Char} (hindent : ∀ c ∈ indent, Text.isBlank c = true)
      (comment : List Char) : LineState false (indent ++ ("//".toList ++ comment))

theorem LineState.append {inside : Bool} {text more : List Char} (h : LineState inside text)
    (hmore : LineState false more) : LineState inside (text ++ more) := by
  cases h with
  | closed hmark => exact .closed (hmark.trans (List.infix_append' [] _ _))
  | block hindent hmark =>
    rw [List.append_assoc, List.append_assoc]
    exact .block hindent (hmark.trans (List.infix_append' [] _ _))
  | line hindent comment =>
    rw [List.append_assoc, List.append_assoc]
    exact .line hindent _
  | blank htext =>
    cases hmore with
    | blank hmore => exact .blank (List.forall_mem_append.2 ⟨htext, hmore⟩)
    | block hindent hmark =>
      rw [← List.append_assoc]
      exact .block (List.forall_mem_append.2 ⟨htext, hindent⟩) hmark
    | line hindent comment =>
      rw [← List.append_assoc]
      exact .line (List.forall_mem_append.2 ⟨htext, hindent⟩) comment

/-- Nothing is open behind such a line, and it does not end the header. -/
theorem LineState.readLine_eq {inside : Bool} {text : List Char} (h : LineState inside text) :
    readLine inside text = some false := by
  cases h with
  | closed hmark => rw [readLine_inside, Text.contains_iff.2 hmark]; rfl
  | blank htext => exact readLine_blank htext
  | block hindent hmark => rw [readLine_blockComment hindent, Text.contains_iff.2 hmark]; rfl
  | line hindent comment => exact readLine_lineComment hindent comment

/-- The line of the `package` clause ends the header if only white space stands before it. -/
theorem LineState.readLine_package_iff {inside : Bool} {text : List Char}
    (h : LineState inside text) (rest : List Char) :
    readLine inside (text ++ ("package".toList ++ rest)) = none ↔
      ∀ c ∈ text, Text.isBlank c = true := by
  have hslash : '/' ∈ text → ¬ ∀ c ∈ text, Text.isBlank c = true := fun hmem htext =>
    Bool.false_ne_true (htext '/' hmem)
  cases h with
  | closed hmark =>
    rw [readLine_inside]
    exact iff_of_false nofun (hslash (hmark.subset (by decide)))
  | blank htext =>
    refine iff_of_true (readLine_other htext (by decide) ?_ ?_) htext
    · exact fun hmark => absurd (List.cons_prefix_cons.1 hmark).1 (by decide)
    · exact fun hmark => absurd (List.cons_prefix_cons.1 hmark).1 (by decide)
  | block hindent hmark =>
    rw [List.append_assoc, List.append_assoc, readLine_blockComment hindent]
    exact iff_of_false nofun (hslash (by simp))
  | line hindent comment =>
    rw [List.append_assoc, List.append_assoc, readLine_lineComment hindent]
    exact iff_of_false nofun (hslash (by simp))

/-! ## The lines before the first token -/

/-- Behind a block comment of several lines that begins its line, its last line is closed. -/
theorem exists_lines_blockComment {indent inside : List Char}
    (hindent : ∀ c ∈ indent, Text.isBlank c = true) (hbreak : '\n' ∉ indent)
    (hinside : '\n' ∈ inside) (hmark : ¬ ['*', '/'] <:+: inside ++ ['*']) :
    ∃ upper last, Text.splitAt '\n' (indent ++ '/' :: '*' :: (inside ++ ['*', '/'])) =
        upper ++ [last] ∧ readLines false upper = some true ∧ LineState true last ∧
      ∀ line, directives line false upper = [] := by
  obtain ⟨upper, last, hsplit⟩ := Text.exists_splitWhere_concat (· == '\n') inside
  have hopen : ∀ part ∈ upper, ¬ "*/".toList <:+: part := by
    intro part hpart hin
    have hpart := Text.infix_of_mem_splitWhere (hsplit ▸ List.mem_append_left _ hpart)
    exact hmark (hin.trans (hpart.trans (List.prefix_append inside _).isInfix))
  obtain ⟨first, middle, rfl⟩ : ∃ first middle, upper = first :: middle := by
    refine List.exists_cons_of_ne_nil fun hnil => ?_
    have hlength := Text.length_splitAt '\n' inside
    have hcount := List.count_pos_iff.2 hinside
    rw [Text.splitAt, hsplit, hnil] at hlength
    simp only [List.nil_append, List.length_singleton] at hlength
    omega
  obtain ⟨hfirst, hmiddle⟩ := List.forall_mem_cons.1 hopen
  rw [← Text.contains_iff, Bool.not_eq_true] at hfirst
  refine ⟨(indent ++ ("/*".toList ++ first)) :: middle, last ++ ['*', '/'], ?_, ?_,
    .closed (List.suffix_append last _).isInfix, fun line => ?_⟩
  · have hstart : Text.splitWhere (· == '\n') (indent ++ ['/', '*']) =
        [] ++ [indent ++ ['/', '*']] := Text.splitAt_of_not_mem (by simpa using hbreak)
    have hbody := Text.splitWhere_append hstart inside
    rw [hsplit, List.cons_append, List.modifyHead_cons, List.nil_append, ← List.cons_append]
      at hbody
    have hall := Text.splitWhere_append_plain hbody
      (List.forall_mem_cons.2 ⟨rfl, List.forall_mem_singleton.2 rfl⟩ :
        ∀ c ∈ ['*', '/'], (c == '\n') = false)
    simpa [Text.splitAt] using hall
  · rw [readLines, List.foldlM_cons, readLine_blockComment hindent, hfirst]
    exact readLines_inside hmiddle
  · rw [directives_cons, lineDirective?_blockComment hindent, readLine_blockComment hindent, hfirst]
    exact directives_inside hmiddle (line + 1)

/-- The cut is a block comment of several lines that does not begin its line, or it is none. -/
def CommentsStartLines (cs : List Cut) : Prop :=
  ∀ before breaks text after, cs = before ++ ⟨.comment breaks, text⟩ :: after →
    '\n' ∈ text → StartsLine (textOf before)

theorem CommentsStartLines.of_concat {cs : List Cut} {cut : Cut}
    (h : CommentsStartLines (cs ++ [cut])) : CommentsStartLines cs := by
  rintro before breaks text after rfl hbreak
  refine h before breaks text (after ++ [cut]) ?_ hbreak
  rw [List.append_assoc, List.cons_append]

/-- Behind gaps that begin a text the reader stands in a line of comments and white space. -/
theorem exists_lineState {cs : List Cut} (hgaps : ∀ cut ∈ cs, IsGap cut)
    (hcomments : CommentsStartLines cs) :
    ∃ upper last inside, Text.splitAt '\n' (textOf cs) = upper ++ [last] ∧
      readLines false upper = some inside ∧ LineState inside last := by
  induction cs using List.reverseRecOn with
  | nil => exact ⟨[], [], false, rfl, rfl, .blank nofun⟩
  | append_singleton cs cut ih =>
    obtain ⟨hgaps, hcut⟩ := List.forall_mem_append.1 hgaps
    obtain ⟨upper, last, inside, hsplit, hread, hstate⟩ := ih hgaps hcomments.of_concat
    have hgap := hcut cut List.mem_cons_self
    have htext : textOf (cs ++ [cut]) = textOf cs ++ cut.text := by
      rw [textOf_append, textOf, textOf, List.flatMap_singleton]
    rw [htext]
    have hplain : '\n' ∉ cut.text → LineState false cut.text →
        ∃ upper last inside, Text.splitAt '\n' (textOf cs ++ cut.text) = upper ++ [last] ∧
          readLines false upper = some inside ∧ LineState inside last := by
      intro hbreak hmore
      refine ⟨upper, last ++ cut.text, inside, ?_, hread, hstate.append hmore⟩
      exact Text.splitWhere_append_plain hsplit fun c hc =>
        beq_eq_false_iff_ne.2 fun heq => hbreak (heq ▸ hc)
    cases hgap with
    | lineBreak =>
      refine ⟨upper ++ [last], [], false, ?_, ?_, .blank nofun⟩
      · rw [← hsplit]
        exact Text.splitWhere_append_cons (p := (· == '\n')) rfl (textOf cs) []
      · rw [readLines_append, hread, Option.bind_some, readLines, List.foldlM_cons,
          hstate.readLine_eq]
        rfl
    | blank hblank hbreak =>
      exact hplain (by simpa using Ne.symm hbreak) (.blank (by simpa using hblank))
    | @lineComment comment hbreak =>
      exact hplain (by simpa using hbreak) (@LineState.line [] nofun comment)
    | @blockComment body hmark =>
      by_cases hbreak : '\n' ∈ body
      · -- the comment begins its line, so that nothing but white space is before it there
        have hstarts := hcomments cs _ _ [] rfl (by simp [hbreak])
        rw [StartsLine, hsplit, List.getLast?_concat] at hstarts
        have hblank := hstarts last rfl
        obtain rfl : inside = false := by
          cases hstate with
          | closed hclosed =>
            exact absurd (hblank '/' (hclosed.subset (by decide))) (by decide)
          | _ => rfl
        have hlast : '\n' ∉ last :=
          Text.not_mem_of_mem_splitAt (hsplit ▸ List.mem_append_right _ List.mem_cons_self)
        obtain ⟨upper', last', hcomment, hopen, hclosed, -⟩ :=
          exists_lines_blockComment hblank hlast hbreak hmark
        refine ⟨upper ++ upper', last', true, ?_, ?_, hclosed⟩
        · have hstart : Text.splitWhere (· == '\n') last = [] ++ [last] :=
            Text.splitAt_of_not_mem hlast
          rw [Text.splitAt, Text.splitWhere_append hstart, List.nil_append] at hcomment
          rw [Text.splitAt, Text.splitWhere_append hsplit, hcomment, List.append_assoc]
        · rw [readLines_append, hread, Option.bind_some, hopen]
      · refine hplain (by simpa using hbreak) (@LineState.block [] _ nofun ?_)
        exact (List.suffix_append body _).isInfix

/-! ## The first token -/

/-- White space and comments only move a layout on by their lines when no statement may end. -/
theorem layout_gaps {cs : List Cut} (hgaps : ∀ cut ∈ cs, IsGap cut) (line : Nat)
    (ps : List Piece) :
    layout line false (cs.map Cut.piece ++ ps) =
      layout (line + lineFeeds (textOf cs)) false ps := by
  induction cs generalizing line with
  | nil => rfl
  | cons cut cs ih =>
    obtain ⟨hcut, hcs⟩ := List.forall_mem_cons.1 hgaps
    have hgap : cut.isToken = false := by cases hcut <;> rfl
    have htext : textOf (cut :: cs) = cut.text ++ textOf cs := List.flatMap_cons
    rw [List.map_cons, List.cons_append, layout_gap hgap, if_neg fun h => Bool.false_ne_true h.1,
      ih hcs, htext, lineFeeds_append, hcut.lineFeeds_eq, Nat.add_assoc]

/-- A first token stands behind the first gap of a text, on the line that this ends on. -/
theorem exists_of_head?_tokens {s : List Char} {t : Located}
    (h : (layout 1 false (pieces s).1).tokens.head? = some t) :
    ∃ breaks text rest, cuts s = leading (cuts s) ++ ⟨.token t.token breaks, text⟩ :: rest ∧
      t.line = 1 + lineFeeds (gapText (cuts s)) := by
  have hgaps : ∀ cut ∈ leading (cuts s), IsGap cut := fun cut hmem => isGap_of_mem_leading hmem
  have hsplit : cuts s = leading (cuts s) ++ (cuts s).dropWhile fun cut => !cut.isToken :=
    List.takeWhile_append_dropWhile.symm
  rw [← map_cuts, hsplit, List.map_append, layout_gaps hgaps] at h
  cases hrest : (cuts s).dropWhile fun cut => !cut.isToken with
  | nil =>
    rw [hrest] at h
    cases h
  | cons cut rest =>
    have htoken := List.head?_dropWhile_not (fun cut : Cut => !cut.isToken) (cuts s)
    rw [hrest] at h htoken hsplit
    obtain ⟨piece, text⟩ := cut
    cases piece with
    | token token breaks =>
      cases h
      exact ⟨breaks, text, rest, hsplit, rfl⟩
    | _ => cases htoken

/-- The text of a word is the word. -/
theorem text_of_mem_cuts_word {s : List Char} {w : String} {breaks : Nat} {text : List Char}
    (h : ⟨.token (.word w) breaks, text⟩ ∈ cuts s) : text = w.toList := by
  obtain ⟨c, t, rest, hstep, htext⟩ := exists_step_of_mem_cuts h
  obtain ⟨-, -, hword⟩ := eq_append_of_cutsOff_word (cutsOff_of_step hstep)
  rw [htext] at hword
  exact List.append_cancel_right hword

/-- The lines up to the `package` clause, as the reader of the header meets them. -/
theorem exists_headLines {s : List Char} {t : Located} (hfault : (pieces s).2 = none)
    (h : (layout 1 false (pieces s).1).tokens.head? = some t) (hword : t.token = .word "package") :
    ∃ rest more upper last, Text.splitAt '\n' (gapText (cuts s)) = upper ++ [last] ∧
      t.line = upper.length + 1 ∧
      Text.splitAt '\n' s = upper ++ (last ++ ("package".toList ++ rest)) :: more := by
  obtain ⟨breaks, text, behind, hcuts, hline⟩ := exists_of_head?_tokens h
  rw [hword] at hcuts
  obtain rfl := text_of_mem_cuts_word (hcuts ▸ List.mem_append_right _ List.mem_cons_self)
  have hs : gapText (cuts s) ++ ("package".toList ++ textOf behind) = s := by
    have hall := textOf_cuts hfault
    rwa [hcuts, textOf_append] at hall
  obtain ⟨upper, last, hgap⟩ := Text.exists_splitWhere_concat (· == '\n') (gapText (cuts s))
  obtain ⟨rest, more, hbehind⟩ :=
    List.exists_cons_of_ne_nil (Text.splitWhere_ne_nil (· == '\n') (textOf behind))
  refine ⟨rest, more, upper, last, hgap, ?_, ?_⟩
  · have hlength := Text.length_splitAt '\n' (gapText (cuts s))
    rw [Text.splitAt, hgap, List.length_append, List.length_singleton] at hlength
    rw [hline, lineFeeds, ← Nat.succ.inj hlength, Nat.add_comm]
  · have hpackage : Text.splitAt '\n' "package".toList = [] ++ ["package".toList] :=
      Text.splitAt_of_not_mem (by decide)
    have hclause := Text.splitWhere_append hpackage (textOf behind)
    rw [hbehind, List.modifyHead_cons, List.nil_append] at hclause
    have hwhole := Text.splitWhere_append hgap ("package".toList ++ textOf behind)
    rwa [hs, hclause, List.modifyHead_cons] at hwhole

/-! ## The first lines of a file -/

/-- The first lines of a source. -/
def firstLines (k : Nat) (source : String) : List (List Char) :=
  (Text.splitAt '\n' source.toList).take k

/-- The first lines of a source, without the byte-order mark that it may start with. -/
def headLines (k : Nat) (source : String) : List (List Char) :=
  (Text.splitAt '\n' (withoutMark source.toList)).take k

theorem headLines_eq (k : Nat) (source : String) :
    headLines k source = (firstLines k source).modifyHead withoutMark := by
  rw [headLines, firstLines, splitAt_withoutMark, List.take_modifyHead]

theorem headerDirectives_headLines (k : Nat) (source : String) :
    headerDirectives source = directives 1 false (headLines k source) ++
      match readLines false (headLines k source) with
      | some inside => directives (1 + (headLines k source).length) inside
          ((Text.splitAt '\n' (withoutMark source.toList)).drop k)
      | none => [] := by
  rw [headerDirectives_eq]
  refine (congrArg (directives 1 false) (List.take_append_drop k _).symm).trans ?_
  exact directives_append 1 false _ _

/-- The answer for a file is the same for every text that goes on in any way behind its first
lines. -/
def Platform.DecidedBy (p : Platform) (fileName source : String) (k : Nat) : Prop :=
  ∀ source', firstLines k source' = firstLines k source →
    p.includes fileName source' = p.includes fileName source

theorem exists_firstGoBuild? {ds : List Directive} {line : Nat} {expr : List Char}
    (h : .goBuild line expr ∈ ds) : ∃ found, ∀ more, firstGoBuild? (ds ++ more) = some found := by
  induction ds with
  | nil => cases h
  | cons d ds ih =>
    cases d with
    | goBuild first text => exact ⟨(first, text), fun _ => rfl⟩
    | plusBuild options => exact ih ((List.mem_cons.1 h).resolve_left nofun)

theorem firstGoBuild?_append_of_none {ds : List Directive}
    (h : ∀ line expr, .goBuild line expr ∉ ds) (more : List Directive) :
    firstGoBuild? (ds ++ more) = firstGoBuild? more := by
  induction ds with
  | nil => rfl
  | cons d ds ih =>
    cases d with
    | goBuild line expr => exact absurd List.mem_cons_self (h line expr)
    | plusBuild options =>
      exact ih fun line expr hmem => h line expr (List.mem_cons_of_mem _ hmem)

/-- Behind a `//go:build` line nothing counts. -/
theorem admits_append {ds : List Directive} {line : Nat} {expr : List Char}
    (h : .goBuild line expr ∈ ds) (value : String → Bool) (more : List Directive) :
    admits value (ds ++ more) = admits value ds := by
  obtain ⟨found, hfound⟩ := exists_firstGoBuild? h
  have hds := hfound []
  rw [List.append_nil] at hds
  unfold admits
  rw [hfound, hds]

/-! ## Lines that follow -/

/-- A source of some lines. -/
def sourceOf (raws : List (List Char)) : String :=
  String.ofList (['\n'].intercalate raws)

theorem splitAt_sourceOf {raws : List (List Char)} (hne : raws ≠ [])
    (h : ∀ raw ∈ raws, '\n' ∉ raw) : Text.splitAt '\n' (sourceOf raws).toList = raws := by
  rw [sourceOf, String.toList_ofList, Text.splitAt_intercalate hne h]

section

variable {k : Nat} {source : String} (hk : 0 < k)
  (hlength : k ≤ (Text.splitAt '\n' source.toList).length)
include hk hlength

theorem splitAt_goOn {more : List (List Char)} (hmore : ∀ raw ∈ more, '\n' ∉ raw) :
    Text.splitAt '\n' (sourceOf (firstLines k source ++ more)).toList =
      firstLines k source ++ more := by
  refine splitAt_sourceOf ?_ (List.forall_mem_append.2 ⟨fun raw hraw => ?_, hmore⟩)
  · have hfirst : (firstLines k source).length = k := List.length_take_of_le hlength
    exact fun hnil => by simp [(List.append_eq_nil_iff.1 hnil).1] at hfirst; omega
  · exact Text.not_mem_of_mem_splitAt (List.mem_of_mem_take hraw)

theorem firstLines_goOn {more : List (List Char)} (hmore : ∀ raw ∈ more, '\n' ∉ raw) :
    firstLines k (sourceOf (firstLines k source ++ more)) = firstLines k source := by
  rw [firstLines, splitAt_goOn hk hlength hmore]
  exact List.take_left' (List.length_take_of_le hlength)

/-- What lines add to a header that is still open. -/
theorem headerDirectives_goOn {more : List (List Char)} (hmore : ∀ raw ∈ more, '\n' ∉ raw)
    {inside : Bool} (hopen : readLines false (headLines k source) = some inside) :
    headerDirectives (sourceOf (firstLines k source ++ more)) =
      directives 1 false (headLines k source) ++
        directives (1 + (headLines k source).length) inside more := by
  have hhead : headLines k (sourceOf (firstLines k source ++ more)) = headLines k source := by
    rw [headLines_eq, headLines_eq, firstLines_goOn hk hlength hmore]
  have hdrop : (Text.splitAt '\n' (withoutMark
      (sourceOf (firstLines k source ++ more)).toList)).drop k = more := by
    rw [splitAt_withoutMark, splitAt_goOn hk hlength hmore, List.drop_modifyHead_of_pos hk]
    exact List.drop_left' (List.length_take_of_le hlength)
  rw [headerDirectives_headLines k, hhead, hopen, hdrop]

end

/-- If neither the name of a file nor a `//go:build` line in its first lines decides, the lines
behind them count, unless the header ends before them. -/
theorem Platform.decidedBy_iff (p : Platform) (fileName : String) {k : Nat} {source : String}
    (hk : 0 < k) (hlength : k ≤ (Text.splitAt '\n' source.toList).length) :
    p.DecidedBy fileName source k ↔ p.allowsName fileName = false ∨
      (∃ line expr, .goBuild line expr ∈ directives 1 false (headLines k source)) ∨
        readLines false (headLines k source) = none := by
  constructor
  · intro hdecided
    by_contra hnone
    simp only [not_or, not_exists, Bool.not_eq_false, ← ne_eq, Option.ne_none_iff_exists'] at hnone
    obtain ⟨hname, hplain, inside, hopen⟩ := hnone
    -- an expression is missing on the second line, whatever is open before the first one
    have hmore : ∀ raw ∈ ["/**/".toList, "//go:build".toList], '\n' ∉ raw := by decide
    have hdirectives : ∀ line, directives line inside ["/**/".toList, "//go:build".toList] =
        [.goBuild (line + 1) []] := by
      intro line
      cases inside <;> rfl
    have hfault : Constraint.ofText [] = .error .endOfExpression := by cbv
    have hok : ∃ b, p.includes fileName (sourceOf (firstLines k source ++ [])) = .ok b := by
      rw [includes, if_pos hname, headerDirectives_goOn hk hlength (List.forall_mem_nil _) hopen,
        admits, firstGoBuild?_append_of_none hplain]
      exact ⟨_, rfl⟩
    have herror : ∃ e, p.includes fileName
        (sourceOf (firstLines k source ++ ["/**/".toList, "//go:build".toList])) = .error e := by
      rw [includes, if_pos hname, headerDirectives_goOn hk hlength hmore hopen, admits,
        firstGoBuild?_append_of_none hplain, hdirectives, firstGoBuild?]
      dsimp only
      rw [hfault]
      exact ⟨_, rfl⟩
    obtain ⟨b, hok⟩ := hok
    obtain ⟨e, herror⟩ := herror
    rw [hdecided _ (firstLines_goOn hk hlength (List.forall_mem_nil _)),
      ← hdecided _ (firstLines_goOn hk hlength hmore), herror] at hok
    cases hok
  · rintro (hname | ⟨line, expr, hmem⟩ | hends) source' hsource
    · rw [includes, includes, if_neg (by simp [hname]), if_neg (by simp [hname])]
    all_goals
      have hhead : headLines k source' = headLines k source := by
        rw [headLines_eq, headLines_eq, hsource]
    · rw [includes, includes, headerDirectives_headLines k source',
        headerDirectives_headLines k source, hhead, admits_append hmem, admits_append hmem]
    · rw [includes, includes, headerDirectives_headLines k source',
        headerDirectives_headLines k source, hhead, hends]

/-! ## The line of the package clause -/

/-- If block comments of several lines begin their lines, reading the header ends on the line of
the `package` clause exactly when only white space stands before it there. -/
theorem readLines_eq_none_iff {s rest : List Char} {upper : List (List Char)} {last : List Char}
    (hcomments : CommentsStartLines (leading (cuts s)))
    (hgap : Text.splitAt '\n' (gapText (cuts s)) = upper ++ [last]) :
    readLines false (upper ++ [last ++ ("package".toList ++ rest)]) = none ↔
      StartsLine (gapText (cuts s)) := by
  obtain ⟨upper', last', inside, hsplit, hread, hstate⟩ :=
    exists_lineState (fun cut hmem => isGap_of_mem_leading hmem) hcomments
  obtain ⟨rfl, hlast⟩ := List.append_inj' (hgap.symm.trans hsplit) rfl
  cases hlast
  have hline : readLines inside [last ++ ("package".toList ++ rest)] =
      readLine inside (last ++ ("package".toList ++ rest)) := by
    rw [readLines, List.foldlM_cons]
    exact bind_pure _
  rw [readLines_append, hread, Option.bind_some, hline, hstate.readLine_package_iff, StartsLine,
    hgap, List.getLast?_concat]
  exact ⟨fun h line hline => Option.some.inj hline ▸ h, fun h => h last rfl⟩

/-- The lines of a file up to its `package` clause decide whether it takes part in a build exactly
if its name does, if one of them is a `//go:build` line, or if reading the header has ended there.
If block comments of several lines begin their lines, this is so exactly when nothing but white
space stands before the clause on its line. -/
theorem Platform.decidedBy_package_line (p : Platform) (fileName : String) {source : String}
    {list : TokenList} (h : tokenize source = .ok list) {t : Located}
    (hfirst : list.tokens.head? = some t) (hpackage : t.token = .word "package") :
    (p.DecidedBy fileName source t.line ↔ p.allowsName fileName = false ∨
      (∃ line expr, .goBuild line expr ∈ directives 1 false (headLines t.line source)) ∨
        readLines false (headLines t.line source) = none) ∧
    (CommentsStartLines (leading (cuts (withoutMark source.toList))) →
      (p.DecidedBy fileName source t.line ↔ p.allowsName fileName = false ∨
        (∃ line expr, .goBuild line expr ∈ directives 1 false (headLines t.line source)) ∨
          StartsLine (gapText (cuts (withoutMark source.toList))))) := by
  obtain ⟨hfault, rfl⟩ := pieces_of_tokenize h
  obtain ⟨rest, more, upper, last, hgap, hline, hlines⟩ :=
    exists_headLines hfault hfirst hpackage
  have hhead : headLines t.line source = upper ++ [last ++ ("package".toList ++ rest)] := by
    rw [headLines, hlines, List.append_cons]
    exact List.take_left' (by rw [hline, List.length_append, List.length_singleton])
  have hlength : t.line ≤ (Text.splitAt '\n' source.toList).length := by
    have hsame := congrArg List.length (splitAt_withoutMark source.toList)
    rw [hlines, List.length_modifyHead, List.length_append, List.length_cons] at hsame
    omega
  have hdecided := p.decidedBy_iff fileName (hline ▸ Nat.succ_pos _) hlength
  refine ⟨hdecided, fun hcomments => ?_⟩
  rw [hdecided, hhead, readLines_eq_none_iff hcomments hgap]

/-- A comment before the clause, and the answers for two texts that follow it. -/
theorem Platform.not_decidedBy_package_line :
    tokenize "/* x */ package p\n" =
        .ok ⟨[⟨1, .word "package"⟩, ⟨1, .word "p"⟩, ⟨1, .semicolon⟩], 2⟩ ∧
      ¬(Platform.mk "linux" "amd64" false).DecidedBy "x.go" "/* x */ package p\n" 1 := by
  have htokens : tokenize "/* x */ package p\n" =
      .ok ⟨[⟨1, .word "package"⟩, ⟨1, .word "p"⟩, ⟨1, .semicolon⟩], 2⟩ := by
    have hend : pieces [] = ([], none) := by rw [pieces]
    have hpieces : pieces (withoutMark "/* x */ package p\n".toList) =
        ([.comment 0, .blank, .token (.word "package") 0, .blank, .token (.word "p") 0,
          .lineBreak], none) :=
      pieces_step rfl (pieces_step rfl (pieces_step rfl (pieces_step rfl (pieces_step rfl
        (pieces_step rfl hend)))))
    rw [tokenize, hpieces]
    rfl
  refine ⟨htokens, ?_⟩
  rw [((Platform.mk "linux" "amd64" false).decidedBy_package_line "x.go" htokens rfl rfl).1]
  have hhead : headLines 1 "/* x */ package p\n" = ["/* x */ package p".toList] := by decide
  rw [hhead]
  rintro (hname | ⟨line, expr, hmem⟩ | hends)
  · revert hname
    decide
  · cases hmem
  · cases hends

end StructCopy.Go
