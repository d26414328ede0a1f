/-
  Proofs/Go/Skipping: declarations that are passed over.

  A declaration that is no type declaration is passed over up to the semicolon outside
  all brackets, and most semicolons come from line breaks.  `Place.next?` says what one
  piece does to the number of open brackets and to a statement that may end, and
  `Place.after?` what many pieces do.  Pieces that lead back outside all brackets, and
  end with a token that may end a statement, are passed over as one declaration when a
  line break follows them.
-/
import StructCopy.Go.Reader
import StructCopy.Proofs.Go.Plain

set_option autoImplicit false

namespace StructCopy.Go

/-! ## Places in a declaration -/

/-- A place in a declaration: the number of open brackets, and whether a line break would end a
statement there. -/
structure Place where
  depth : Nat
  pending : Bool
  deriving DecidableEq, Repr

namespace Place

/-- The place outside all brackets where nothing has been read. -/
def start : Place := ⟨0, false⟩

/-- The place behind a line break, unless it ends the declaration. -/
def nextLine? (p : Place) : Option Place :=
  if p.pending = true ∧ p.depth = 0 then none else some ⟨p.depth, false⟩

/-- The place behind a piece, unless the declaration ends before it or with it. -/
def next? (p : Place) : Piece → Option Place
  | .token t _ =>
    if p.depth = 0 ∧ (t = .semicolon ∨ t.closes = true) then none
    else some ⟨t.depthAfter p.depth, t.endsStatement⟩
  | .blank => some p
  | .lineBreak => p.nextLine?
  | .comment breaks => if breaks = 0 then some p else p.nextLine?

/-- The place behind some pieces, unless the declaration ends among them. -/
def after? (p : Place) (ps : List Piece) : Option Place :=
  ps.foldlM next? p

theorem after?_append {p q : Place} {ps more : List Piece} (h : p.after? ps = some q) :
    p.after? (ps ++ more) = q.after? more := by
  unfold after? at h ⊢
  rw [List.foldlM_append, h]
  rfl

theorem after?_cons {p q : Place} {piece : Piece} {ps : List Piece} :
    p.after? (piece :: ps) = some q ↔ ∃ mid, p.next? piece = some mid ∧ mid.after? ps = some q := by
  unfold after?
  rw [List.foldlM_cons]
  exact Option.bind_eq_some_iff

/-- Plain pieces leave the number of open brackets. -/
theorem after?_of_isPlain {ps : List Piece} (h : ∀ piece ∈ ps, piece.isPlain = true) (p : Place) :
    ∃ pending, p.after? ps = some ⟨p.depth, pending⟩ := by
  induction ps generalizing p with
  | nil => exact ⟨p.pending, rfl⟩
  | cons piece ps ih =>
    have hpiece := h piece List.mem_cons_self
    have hrest : ∀ piece ∈ ps, piece.isPlain = true :=
      fun piece hmem => h piece (List.mem_cons_of_mem _ hmem)
    cases piece with
    | blank =>
      obtain ⟨pending, hafter⟩ := ih hrest p
      exact ⟨pending, after?_cons.2 ⟨p, rfl, hafter⟩⟩
    | token t breaks =>
      simp only [Piece.isPlain, Bool.and_eq_true, Bool.not_eq_true', bne_iff_ne] at hpiece
      obtain ⟨⟨⟨-, hopens⟩, hcloses⟩, hsemicolon⟩ := hpiece
      obtain ⟨pending, hafter⟩ := ih hrest ⟨p.depth, t.endsStatement⟩
      refine ⟨pending, after?_cons.2 ⟨_, ?_, hafter⟩⟩
      have hdepth : t.depthAfter p.depth = p.depth := by
        rw [Token.depthAfter, hopens, hcloses, if_neg Bool.false_ne_true,
          if_neg Bool.false_ne_true]
      rw [next?, hdepth, if_neg]
      rintro ⟨-, h | h⟩
      · exact hsemicolon h
      · rw [hcloses] at h
        cases h
    | lineBreak => cases hpiece
    | comment => cases hpiece

end Place

/-! ## Passing over tokens -/

/-- The tokens behind a declaration that is passed over. -/
def skipped (start : List Located) (depth : Nat) (t : Located) (ts : List Located) :
    Except Stuck (List Located) :=
  (skipDecl start depth t ts).map Subtype.val

theorem skipped_semicolon (start : List Located) (line : Nat) (ts : List Located) :
    skipped start 0 ⟨line, .semicolon⟩ ts = .ok ts := by
  rw [skipped, skipDecl.eq_def, if_pos ⟨rfl, rfl⟩]
  rfl

theorem skipped_cons {start : List Located} {depth : Nat} {t : Located}
    (h : ¬(depth = 0 ∧ (t.token = .semicolon ∨ t.token.closes = true))) (t' : Located)
    (ts : List Located) :
    skipped start depth t (t' :: ts) = skipped start (t.token.depthAfter depth) t' ts := by
  have hsemicolon : ¬(t.token = .semicolon ∧ depth = 0) := fun hboth => h ⟨hboth.2, .inl hboth.1⟩
  have hcloses : ¬(t.token.closes = true ∧ depth = 0) := fun hboth => h ⟨hboth.2, .inr hboth.1⟩
  rw [skipped, skipDecl.eq_def, if_neg hsemicolon, if_neg hcloses]
  dsimp only
  unfold skipped
  cases skipDecl start (t.token.depthAfter depth) t' ts with
  | error e => rfl
  | ok rest => rfl

/-- A line break that does not end the declaration gives at most one token, and leads to the next
place. -/
theorem exists_skipped_nextLine {start : List Located} {p q : Place} (h : p.nextLine? = some q)
    (line : Nat) {t : Located} {ts rest : List Located}
    (hskipped : skipped start q.depth t ts = .ok rest) :
    ∃ t' ts', (if p.pending then ⟨line, .semicolon⟩ :: t :: ts else t :: ts) = t' :: ts' ∧
      skipped start p.depth t' ts' = .ok rest := by
  unfold Place.nextLine? at h
  split at h
  · cases h
  · next hopen =>
    cases h
    cases hpending : p.pending with
    | false =>
      rw [if_neg Bool.false_ne_true]
      exact ⟨t, ts, rfl, hskipped⟩
    | true =>
      have hdepth : ¬p.depth = 0 := fun hzero => hopen ⟨hpending, hzero⟩
      rw [if_pos rfl]
      refine ⟨_, _, rfl, ?_⟩
      rw [skipped_cons fun h => hdepth h.1]
      exact hskipped

theorem Place.pending_of_nextLine? {p q : Place} (h : p.nextLine? = some q) :
    q.pending = false := by
  unfold Place.nextLine? at h
  split at h
  · cases h
  · cases h
    rfl

/-- Where a line ends, and whether a semicolon is put there. -/
theorem layout_lineBreak (line : Nat) (pending : Bool) (ps : List Piece) :
    (layout line pending (.lineBreak :: ps)).tokens =
      if pending then ⟨line, .semicolon⟩ :: (layout (line + 1) false ps).tokens
      else (layout (line + 1) false ps).tokens := by
  cases pending <;> rfl

theorem layout_longComment {breaks : Nat} (hbreaks : breaks ≠ 0) (line : Nat) (pending : Bool)
    (ps : List Piece) :
    (layout line pending (.comment breaks :: ps)).tokens =
      if pending then ⟨line, .semicolon⟩ :: (layout (line + breaks) false ps).tokens
      else (layout (line + breaks) false ps).tokens := by
  have hne : (breaks != 0) = true := bne_iff_ne.2 hbreaks
  rw [layout, hne, Bool.and_true]
  cases pending <;> rfl

/-- Pieces that lead outside all brackets are passed over as one declaration when a line break ends
the statement behind them. -/
theorem Place.exists_skipped (start : List Located) {p : Place} {ps : List Piece}
    (h : p.after? ps = some ⟨0, true⟩) (line : Nat) (more : List Piece) :
    ∃ t ts line', (layout line p.pending (ps ++ .lineBreak :: more)).tokens = t :: ts ∧
      skipped start p.depth t ts = .ok (layout line' false more).tokens := by
  induction ps generalizing p line with
  | nil =>
    cases h
    exact ⟨⟨line, .semicolon⟩, _, line + 1, rfl, skipped_semicolon start line _⟩
  | cons piece ps ih =>
    obtain ⟨mid, hnext, hafter⟩ := Place.after?_cons.1 h
    -- behind a line break, the pieces go on at its place
    have hbreak : ∀ line', p.nextLine? = some mid → ∃ t ts line'',
        (if p.pending then
            ⟨line, .semicolon⟩ :: (layout line' false (ps ++ .lineBreak :: more)).tokens
          else (layout line' false (ps ++ .lineBreak :: more)).tokens) = t :: ts ∧
        skipped start p.depth t ts = .ok (layout line'' false more).tokens := by
      intro line' hline
      obtain ⟨t, ts, line'', htokens, hskipped⟩ := ih hafter line'
      rw [pending_of_nextLine? hline] at htokens
      obtain ⟨t', ts', htokens', hskipped'⟩ := exists_skipped_nextLine hline line hskipped
      rw [htokens]
      exact ⟨t', ts', line'', htokens', hskipped'⟩
    cases piece with
    | blank =>
      cases hnext
      exact ih hafter line
    | token t breaks =>
      rw [Place.next?] at hnext
      split at hnext
      · cases hnext
      · next hstays =>
        cases hnext
        obtain ⟨t', ts, line', htokens, hskipped⟩ := ih hafter (line + breaks)
        refine ⟨⟨line, t⟩, t' :: ts, line', congrArg (List.cons (Located.mk line t)) htokens, ?_⟩
        rw [skipped_cons hstays]
        exact hskipped
    | lineBreak =>
      rw [List.cons_append, layout_lineBreak]
      exact hbreak (line + 1) hnext
    | comment breaks =>
      rw [Place.next?] at hnext
      split at hnext
      · next hzero =>
        cases hnext
        subst hzero
        have hlayout : layout line p.pending (.comment 0 :: (ps ++ .lineBreak :: more)) =
            layout line p.pending (ps ++ .lineBreak :: more) := by
          rw [layout, bne_self_eq_false, Bool.and_false, if_neg Bool.false_ne_true]
          rfl
        rw [List.cons_append, hlayout]
        exact ih hafter line
      · next hbreaks =>
        rw [List.cons_append, layout_longComment hbreaks]
        exact hbreak (line + breaks) hnext

/-- A declaration that is passed over leaves the type declarations behind it. -/
theorem typeDecls_of_skipped {t : Located} {ts rest : List Located} (htype : t.token ≠ .word "type")
    (hsemicolon : t.token ≠ .semicolon) (h : skipped (t :: ts) 0 t ts = .ok rest) :
    typeDecls (t :: ts) = typeDecls rest := by
  obtain ⟨⟨rest', hle⟩, hskip, rfl⟩ := ok_of_map_eq_ok h
  rw [typeDecls_other htype hsemicolon, hskip]
  rfl

/-! ## Texts -/

/-- A text leads from one place of a declaration to another, whatever stands behind it, provided
that `clean` holds; otherwise it cannot be taken apart. -/
structure Leads (s : List Char) (clean : Prop) (p q : Place) : Prop where
  after : clean → ∃ ps, p.after? ps = some q ∧
    ∀ r, pieces (s ++ r) = (ps ++ (pieces r).1, (pieces r).2)
  fault : ¬clean → ∀ r, (pieces (s ++ r)).2 ≠ none

theorem leads_of_pieces {s : List Char} {ps : List Piece} {p q : Place}
    (h : ∀ r, pieces (s ++ r) = (ps ++ (pieces r).1, (pieces r).2)) (hq : p.after? ps = some q) :
    Leads s True p q :=
  ⟨fun _ => ⟨ps, hq, h⟩, fun hnot => absurd trivial hnot⟩

theorem leads_nil (p : Place) : Leads [] True p p :=
  @leads_of_pieces [] [] p p (fun _ => rfl) rfl

theorem Leads.trans {s s' : List Char} {clean clean' : Prop} {p mid q : Place}
    (h : Leads s clean p mid) (h' : Leads s' clean' mid q) :
    Leads (s ++ s') (clean ∧ clean') p q := by
  constructor
  · rintro ⟨hclean, hclean'⟩
    obtain ⟨ps, hmid, hpieces⟩ := h.after hclean
    obtain ⟨ps', hq, hpieces'⟩ := h'.after hclean'
    refine ⟨ps ++ ps', ?_, fun r => ?_⟩
    · rw [Place.after?_append hmid]
      exact hq
    · rw [List.append_assoc, hpieces, hpieces', List.append_assoc]
  · intro hnot r
    rw [List.append_assoc]
    by_cases hclean : clean
    · obtain ⟨ps, -, hpieces⟩ := h.after hclean
      rw [hpieces]
      exact h'.fault (fun hclean' => hnot ⟨hclean, hclean'⟩) r
    · exact h.fault hclean _

theorem Leads.congr {s : List Char} {clean clean' : Prop} {p q : Place} (h : Leads s clean p q)
    (hiff : clean ↔ clean') : Leads s clean' p q := by
  rwa [← hiff]

/-- Texts that can always be taken apart lead on one after another. -/
theorem Leads.append {s s' : List Char} {clean : Prop} {p mid q : Place} (h : Leads s clean p mid)
    (h' : Leads s' True mid q) : Leads (s ++ s') clean p q :=
  (h.trans h').congr (Iff.of_eq (and_true clean))

theorem Leads.prepend {s s' : List Char} {clean : Prop} {p mid q : Place} (h : Leads s True p mid)
    (h' : Leads s' clean mid q) : Leads (s ++ s') clean p q :=
  (h.trans h').congr (Iff.of_eq (true_and clean))

/-- A line comment is a piece of its own. -/
theorem pieces_comment {s : List Char} (hs : '\n' ∉ s) (r : List Char) :
    pieces ('/' :: '/' :: (s ++ ['\n']) ++ r) =
      ([Piece.comment 0, .lineBreak] ++ (pieces r).1, (pieces r).2) := by
  have hline : ('/' :: s).all (· != '\n') = true := by
    rw [List.all_eq_true]
    intro c hc
    rw [bne_iff_ne]
    rintro rfl
    rcases List.mem_cons.1 hc with h | h
    · cases h
    · exact hs h
  have hbreak : ∀ c ∈ ('\n' :: r).head?, (c != '\n') = false := by
    intro c hc
    cases hc
    rfl
  have hstep : step '/' ('/' :: s ++ '\n' :: r) = .ok (.comment 0, '\n' :: r) := by
    have hlead : lead '/' ('/' :: s ++ '\n' :: r) = .lineComment := rfl
    rw [step_eq_cut, hlead, Lead.cut, (takeWhile_dropWhile_append hline hbreak).2]
  have htext : '/' :: '/' :: (s ++ ['\n']) ++ r = '/' :: ('/' :: s ++ '\n' :: r) := by
    rw [List.cons_append, List.cons_append, List.append_assoc]
    rfl
  rw [htext]
  exact pieces_step hstep (pieces_of_step rfl)

/-- A line comment leads to the next line. -/
theorem leads_comment {s : List Char} (hs : '\n' ∉ s) {p q : Place} (hq : p.nextLine? = some q) :
    Leads ('/' :: '/' :: (s ++ ['\n'])) True p q :=
  leads_of_pieces (pieces_comment hs)
    (Place.after?_cons.2 ⟨p, rfl, Place.after?_cons.2 ⟨q, hq, rfl⟩⟩)

/-- A plain text leads on with what stands behind it, if that starts with a barrier and does not ask
whether the text ends a statement. -/
theorem leads_plain {s : List Char} (hs : s.all isPlain = true) {d : Char} {t : List Char}
    (hd : isBarrier d = true) {ps : List Piece}
    (hpieces : ∀ r, pieces (d :: t ++ r) = (ps ++ (pieces r).1, (pieces r).2)) {p q : Place}
    (hq : ∀ pending, Place.after? ⟨p.depth, pending⟩ ps = some q) :
    Leads (s ++ d :: t) ((pieces s).2 = none) p q := by
  constructor
  · intro hclean
    obtain ⟨pending, hplain⟩ := Place.after?_of_isPlain (isPlain_of_mem_pieces hs) p
    refine ⟨(pieces s).1 ++ ps, ?_, fun r => ?_⟩
    · rw [Place.after?_append hplain]
      exact hq pending
    · rw [List.append_assoc, List.cons_append, pieces_append_of_isPlain hd hs hclean,
        ← List.cons_append, hpieces, List.append_assoc]
  · intro hfault r
    rw [List.append_assoc]
    exact fault_append_of_isPlain hd hs hfault _

/-! ## Functions -/

/-- The text is a comment line and a function declaration, which is passed over as a whole provided
that `clean` holds; otherwise it cannot be taken apart. -/
def FunctionText (s : List Char) (clean : Prop) : Prop :=
  ∃ doc tail, s = '/' :: '/' :: (doc ++ ['\n']) ++ ("func ".toList ++ tail) ∧ '\n' ∉ doc ∧
    Leads tail clean .start ⟨0, true⟩

/-- The pieces of the comment line above a function and of its keyword. -/
def keywordPieces : List Piece :=
  [.comment 0, .lineBreak, .token (.word "func") 0, .blank]

theorem pieces_keyword {doc : List Char} (hdoc : '\n' ∉ doc) (r : List Char) :
    pieces ('/' :: '/' :: (doc ++ ['\n']) ++ ("func ".toList ++ r)) =
      (keywordPieces ++ (pieces r).1, (pieces r).2) := by
  have hfunc : pieces ("func ".toList ++ r) =
      ([Piece.token (.word "func") 0, .blank] ++ (pieces r).1, (pieces r).2) :=
    pieces_step rfl (pieces_step rfl rfl)
  rw [pieces_comment hdoc, hfunc]
  rfl

theorem FunctionText.pieces_eq {s : List Char} {clean : Prop} (h : FunctionText s clean)
    (hclean : clean) :
    ∃ ps, Place.start.after? ps = some ⟨0, true⟩ ∧
      ∀ r, pieces (s ++ r) = (keywordPieces ++ (ps ++ (pieces r).1), (pieces r).2) := by
  obtain ⟨doc, tail, rfl, hdoc, hleads⟩ := h
  obtain ⟨ps, hps, hpieces⟩ := hleads.after hclean
  refine ⟨ps, hps, fun r => ?_⟩
  rw [List.append_assoc, List.append_assoc, pieces_keyword hdoc, hpieces]

theorem FunctionText.fault {s : List Char} {clean : Prop} (h : FunctionText s clean)
    (hclean : ¬clean) (r : List Char) : (pieces (s ++ r)).2 ≠ none := by
  obtain ⟨doc, tail, rfl, hdoc, hleads⟩ := h
  rw [List.append_assoc, List.append_assoc, pieces_keyword hdoc]
  exact hleads.fault hclean r

/-- The first token of a function is its keyword, and the function is passed over as one
declaration. -/
theorem exists_typeDecls_of_function {ps : List Piece} (h : Place.start.after? ps = some ⟨0, true⟩)
    (line : Nat) (more : List Piece) :
    ∃ ts line', (layout line false (keywordPieces ++ (ps ++ .lineBreak :: more))).tokens =
        ⟨line + 1, .word "func"⟩ :: ts ∧
      typeDecls (⟨line + 1, .word "func"⟩ :: ts) = typeDecls (layout line' false more).tokens := by
  let keyword : Located := ⟨line + 1, .word "func"⟩
  let ts := (layout (line + 1) false (ps ++ .lineBreak :: more)).tokens
  have hlayout : (layout line false (keywordPieces ++ (ps ++ .lineBreak :: more))).tokens =
      keyword :: ts := rfl
  have hfront : Place.start.after? (keywordPieces ++ ps) = some ⟨0, true⟩ := by
    rw [Place.after?_append (q := .start) rfl]
    exact h
  obtain ⟨t, ts', line', htokens, hskipped⟩ :=
    Place.exists_skipped (keyword :: ts) hfront line more
  rw [List.append_assoc] at htokens
  cases hlayout.symm.trans htokens
  have htype : Token.word "func" ≠ Token.word "type" := by decide
  exact ⟨ts, line', hlayout, typeDecls_of_skipped htype nofun hskipped⟩

end StructCopy.Go
