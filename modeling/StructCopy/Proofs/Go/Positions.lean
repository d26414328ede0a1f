/-
  Proofs/Go/Positions: one type in the places where a type may stand.

  A text that is a type behind the equals sign of an alias is put behind the name of a
  parameter, of a result and of a struct member, and into an interface.  Struct members
  take every type.  A parameter or a result takes none that starts with a bracket,
  because the bracket is taken for type arguments of the name, and an interface none
  that starts with a word before a parenthesis, because this is taken for a method.
-/
import StructCopy.Proofs.Go.Declaration
import StructCopy.Proofs.Go.Extension
import StructCopy.Proofs.Go.Relocation
import StructCopy.Proofs.Go.RoundTrip

set_option autoImplicit false

namespace StructCopy.Go

/-! ## Texts of types -/

/-- The text of a type, without comments. -/
structure TypeText (text : String) (type : TypeExpr) : Prop where
  /-- the text can be taken apart to its end -/
  whole : (pieces text.toList).2 = none
  noComment : ∀ breaks, Piece.comment breaks ∉ (pieces text.toList).1
  /-- behind the equals sign of an alias, the tokens are read as the type, and only the semicolon
  that ends the statement is left -/
  reads : ∃ tokens endLine line,
    tokenize (aliasSource text) = .ok ⟨aliasTokens ++ tokens, endLine⟩ ∧
      outcome (typeExpr tokens) = some (type, [⟨line, .semicolon⟩])

/-- No line break stands before the first token. -/
def startsOnLine (ps : List Piece) : Bool :=
  ps.find? (· != .blank) != some .lineBreak

/-! ## The layout of a text inside another one -/

/-- The tokens of some pieces stay in front of others. -/
theorem layout_append (ps : List Piece) (line : Nat) (pending : Bool) :
    ∃ body line' pending', ∀ more, (layout line pending (ps ++ more)).tokens =
      body ++ (layout line' pending' more).tokens := by
  induction ps generalizing line pending with
  | nil => exact ⟨[], line, pending, fun _ => rfl⟩
  | cons piece ps ih =>
    cases piece with
    | token t breaks =>
      obtain ⟨body, line', pending', hbody⟩ := ih (line + breaks) t.endsStatement
      exact ⟨⟨line, t⟩ :: body, line', pending',
        fun more => congrArg (List.cons (Located.mk line t)) (hbody more)⟩
    | blank => exact ih line pending
    | lineBreak =>
      obtain ⟨body, line', pending', hbody⟩ := ih (line + 1) false
      cases pending with
      | false => exact ⟨body, line', pending', hbody⟩
      | true =>
        exact ⟨⟨line, .semicolon⟩ :: body, line', pending',
          fun more => congrArg (List.cons (Located.mk line .semicolon)) (hbody more)⟩
    | comment breaks =>
      by_cases hends : (pending && breaks != 0) = true
      · obtain ⟨body, line', pending', hbody⟩ := ih (line + breaks) false
        refine ⟨⟨line, .semicolon⟩ :: body, line', pending', fun more => ?_⟩
        rw [List.cons_append, layout, if_pos hends]
        exact congrArg (List.cons (Located.mk line .semicolon)) (hbody more)
      · obtain ⟨body, line', pending', hbody⟩ := ih (line + breaks) pending
        refine ⟨body, line', pending', fun more => ?_⟩
        rw [List.cons_append, layout, if_neg hends]
        exact hbody more

/-- Behind a token that may end a statement, the same tokens come out, with a semicolon before
them when they start on a later line. -/
theorem layout_append_pending {ps : List Piece} (hcomment : ∀ breaks, Piece.comment breaks ∉ ps)
    (line : Nat) :
    ∃ body line' pending', ∀ more,
      (layout line false (ps ++ more)).tokens = body ++ (layout line' pending' more).tokens ∧
        (body ≠ [] → (layout line true (ps ++ more)).tokens =
          (if startsOnLine ps then [] else [⟨line, .semicolon⟩]) ++
            (body ++ (layout line' pending' more).tokens)) := by
  induction ps with
  | nil => exact ⟨[], line, false, fun _ => ⟨rfl, fun hne => absurd rfl hne⟩⟩
  | cons piece ps ih =>
    cases piece with
    | token t breaks =>
      obtain ⟨body, line', pending', hbody⟩ := layout_append ps (line + breaks) t.endsStatement
      have htokens := fun more => congrArg (List.cons (Located.mk line t)) (hbody more)
      exact ⟨⟨line, t⟩ :: body, line', pending', fun more => ⟨htokens more, fun _ => htokens more⟩⟩
    | blank => exact ih fun breaks hmem => hcomment breaks (List.mem_cons_of_mem _ hmem)
    | lineBreak =>
      obtain ⟨body, line', pending', hbody⟩ := layout_append ps (line + 1) false
      exact ⟨body, line', pending', fun more =>
        ⟨hbody more, fun _ => congrArg (List.cons (Located.mk line .semicolon)) (hbody more)⟩⟩
    | comment breaks => exact absurd List.mem_cons_self (hcomment breaks)

/-! ## The tokens of a type -/

/-- The tokens of the text of a type are read as the type in front of whatever does not go on with
it, and the statement may have been ended behind them. -/
theorem TypeText.layout_eq {text : String} {type : TypeExpr} (h : TypeText text type) :
    ∃ ts tail line pending, (∀ after, Ended after → Reads (.type type) (ts ++ after) after) ∧
      AtEnd tail ∧ ∀ more,
        (layout 2 false ((pieces text.toList).1 ++ more)).tokens =
          ts ++ (tail ++ (layout line pending more).tokens) ∧
        (layout 2 true ((pieces text.toList).1 ++ more)).tokens =
          (if startsOnLine (pieces text.toList).1 then [] else [⟨2, .semicolon⟩]) ++
            (ts ++ (tail ++ (layout line pending more).tokens)) := by
  obtain ⟨tokens, endLine, endsAt, htokens, houtcome⟩ := h.reads
  have hpieces : pieces (text.toList ++ ['\n']) =
      ((pieces text.toList).1 ++ [Piece.lineBreak], none) := by
    rw [pieces_append (by decide) h.whole h.noComment, pieces_lineBreak]
  rw [tokenize_aliasSource hpieces] at htokens
  have hread : Reads (.type type) tokens [⟨endsAt, .semicolon⟩] := reads_of_outcome houtcome
  have hended : Ended [⟨endsAt, .semicolon⟩] := ended_cons rfl nofun
  obtain ⟨ts, rfl, hreads⟩ := hread.before_ended hended
  have hne : ts ≠ [] := @ne_nil_of_length_lt ts [] _ (hreads _ hended).length_lt
  obtain ⟨body, line, pending, hbody⟩ := layout_append_pending h.noComment 2
  have heq : body ++ (layout line pending [.lineBreak]).tokens = ts ++ [⟨endsAt, .semicolon⟩] := by
    rw [← (hbody [.lineBreak]).1]
    exact List.append_cancel_left (congrArg TokenList.tokens (Except.ok.inj htokens))
  -- the semicolon that is left is put at the line break behind the text, or stands in the text
  cases pending with
  | true =>
    obtain ⟨rfl, -⟩ := List.append_inj' heq rfl
    exact ⟨body, [], line, true, hreads, .inl rfl, fun more =>
      ⟨(hbody more).1, (hbody more).2 hne⟩⟩
  | false =>
    obtain rfl : body = ts ++ [⟨endsAt, .semicolon⟩] := by
      rw [← heq]
      exact (List.append_nil body).symm
    refine ⟨ts, [⟨endsAt, .semicolon⟩], line, false, hreads, .inr ⟨endsAt, rfl⟩, fun more => ?_⟩
    rw [← List.append_assoc]
    exact ⟨(hbody more).1, (hbody more).2 (List.append_ne_nil_of_left_ne_nil hne _)⟩

/-! ## Behind the name of a parameter -/

section

variable {line : Nat} {name : String} {type : TypeExpr} {ts rest : List Located}

/-- A type that does not start with a bracket is read behind the name of a parameter. -/
theorem reads_namedParam (hname : isKeyword name = false) {after : List Located}
    (h : Reads (.type type) ts after) (htype : type.isBracketed = false)
    (hparams : Reads (.params []) (skipComma after).val rest) :
    Reads (.params [.mk (some name) type]) (⟨line, .word name⟩ :: ts) rest := by
  have hbracket : next ts ≠ some .leftBracket := by
    intro hnext
    rw [h.isBracketed_of_bracket hnext] at htype
    cases htype
  have hdot : next ts ≠ some .dot := next_ne_of_startsType h.startsType rfl
  exact .namedParam (.name (.named hname hdot) hbracket) h hparams

/-- What is read behind the name of the only parameter does not start with a bracket. -/
theorem reads_of_namedParam {w : String}
    (h : Reads (.params [.mk (some name) type]) (⟨line, .word w⟩ :: ts) rest)
    (hellipsis : next ts ≠ some .ellipsis) :
    next ts ≠ some .leftBracket ∧ ∃ mid, Reads (.type type) ts mid := by
  have hnamed : ∀ {mid}, Reads (.type (.named name)) (⟨line, .word w⟩ :: ts) mid →
      mid = ts ∧ next ts ≠ some .leftBracket := by
    intro mid hname
    cases hname with
    | name h hbracket =>
      cases h with
      | named => exact ⟨rfl, hbracket⟩
  cases h with
  | namedEllipsis hname =>
    obtain ⟨rfl, -⟩ := hnamed hname
    exact absurd rfl hellipsis
  | namedParam hname h =>
    obtain ⟨rfl, hbracket⟩ := hnamed hname
    exact ⟨hbracket, _, h⟩

/-- When a type is read behind the name of the only parameter, the name is not the last word of
its line, and the type does not start with a bracket. -/
theorem entry_of_reads {w : String} {after : List Located} {onLine : Bool} {line' : Nat}
    (h : Reads (.params [.mk (some name) type])
      (⟨line, .word w⟩ :: ((if onLine then [] else [⟨line', .semicolon⟩]) ++ ts)) rest)
    (hread : Reads (.type type) ts after) : onLine = true ∧ type.isBracketed = false := by
  cases onLine with
  | false =>
    obtain ⟨-, mid, hread'⟩ := reads_of_namedParam h nofun
    cases hread'.startsType
  | true =>
    have hellipsis : next ts ≠ some .ellipsis := next_ne_of_startsType hread.startsType rfl
    obtain ⟨hbracket, -⟩ := reads_of_namedParam h hellipsis
    refine ⟨rfl, Bool.eq_false_iff.2 fun htype => ?_⟩
    exact hbracket (hread.bracket_of_isBracketed htype)

/-! ## Behind the name of a struct member -/

/-- Every type is read behind the name of a struct member, up to the end of the member. -/
theorem reads_namedMember (hname : isKeyword name = false) {after : List Located}
    (h : Reads (.type type) ts after) (hend : atMemberEnd after = true) :
    Reads (.member [name] type) (⟨line, .word name⟩ :: ts) after := by
  have hne : ∀ {token : Token}, token.startsType = false → next ts ≠ some token :=
    fun htoken => next_ne_of_startsType h.startsType htoken
  by_cases hbracket : next ts = some .leftBracket
  · exact .arrayMember hbracket h hend
  · have hopen : atMemberEnd ts = false := by
      unfold atMemberEnd
      split
      · next hnext => exact absurd hnext (hne rfl)
      · next hnext => exact absurd hnext (hne rfl)
      · next hnext => exact absurd hnext (hne rfl)
      · rfl
    exact .namedMember (hne rfl) hopen hbracket (.last hname (hne rfl)) h

/-- The last word of a line is no name of a struct member. -/
theorem not_reads_namedMember {w : String} {line' place : Nat} {tag : Option String} :
    ¬ Reads (.fields [.mk place [name] type tag])
      (⟨line, .word w⟩ :: ⟨line', .semicolon⟩ :: ts) rest := by
  intro h
  cases h with
  | field h =>
    cases h with
    | arrayMember hnext => cases hnext
    | namedMember _ hend => cases hend

/-! ## Inside an interface -/

/-- A type that does not start like a method is read as an element of an interface. -/
theorem reads_term {after : List Located} (h : Reads (.type type) ts after)
    (htype : type.isMethodLike = false) (hafter : Ended after)
    (hbar : next after ≠ some (.operator "|")) {mid : List Located} (hends : Ends after mid)
    (helems : Reads (.elems []) mid rest) :
    Reads (.elems [.union [.mk false type]]) ts rest := by
  have hmethod : ∀ line w more, ts = ⟨line, .word w⟩ :: more → next more ≠ some .leftParen := by
    rintro line w more rfl hparen
    rw [h.isMethodLike_of_paren hparen (hafter.next_ne rfl)] at htype
    cases htype
  exact .union hmethod (.lastTerm (.exact h) hbar) hends helems

/-- What is read as types, and not as a method, does not start with a word before a parenthesis. -/
theorem next_ne_of_union {w : String} {terms : List UnionTerm} {elems : List InterfaceElem}
    (h : Reads (.elems (.union terms :: elems)) (⟨line, .word w⟩ :: ts) rest) :
    next ts ≠ some .leftParen := by
  cases h with
  | union hmethod => exact hmethod _ _ _ rfl

end

/-! ## What closes a position -/

section

variable {tail : List Located} {line : Nat} {rest : List Located}

theorem AtEnd.ended_append (h : AtEnd tail) {token : Token} (hstarts : token.startsType = false)
    (hdot : token ≠ .dot) : Ended (tail ++ ⟨line, token⟩ :: rest) := by
  rcases h with rfl | ⟨line', rfl⟩
  · exact ended_cons hstarts hdot
  · exact ended_cons rfl nofun

theorem AtEnd.reads_noParam (h : AtEnd tail) :
    Reads (.params []) (skipComma (tail ++ ⟨line, .rightParen⟩ :: rest)).val rest := by
  rcases h with rfl | ⟨line', rfl⟩
  · exact .noParam
  · exact .paramSemicolon .noParam

theorem AtEnd.atMemberEnd (h : AtEnd tail) :
    Go.atMemberEnd (tail ++ ⟨line, .rightBrace⟩ :: rest) = true := by
  rcases h with rfl | ⟨line', rfl⟩
  · rfl
  · rfl

theorem AtEnd.ends (h : AtEnd tail) :
    Ends (tail ++ ⟨line, .rightBrace⟩ :: rest) (⟨line, .rightBrace⟩ :: rest) := by
  rcases h with rfl | ⟨line', rfl⟩
  · exact .before (.inr (.inl rfl))
  · exact .semicolon

theorem AtEnd.next_ne (h : AtEnd tail) {token : Token} (hsemicolon : token ≠ .semicolon)
    (hbrace : token ≠ .rightBrace) : next (tail ++ ⟨line, .rightBrace⟩ :: rest) ≠ some token := by
  rcases h with rfl | ⟨line', rfl⟩
  · exact fun heq => hbrace (Option.some.inj heq).symm
  · exact fun heq => hsemicolon (Option.some.inj heq).symm

end

/-! ## Files with the type in another position -/

theorem pieces_name {name : String} (hname : Identifier name) (s : List Char) :
    pieces (name.toList ++ ' ' :: s) =
      (.token (.word name) 0 :: .blank :: (pieces s).1, (pieces s).2) := by
  have hblank : step ' ' s = .ok (.blank, s) := rfl
  rw [pieces_word hname.1 (boundary_cons rfl), pieces_of_step hblank]

theorem layout_name {name : String} (hname : Identifier name) (line : Nat) (pending : Bool)
    (ps : List Piece) :
    (layout line pending (.token (.word name) 0 :: .blank :: ps)).tokens =
      ⟨line, .word name⟩ :: (layout line true ps).tokens := by
  have hends : (Token.word name).endsStatement = true := by
    rw [Token.endsStatement, hname.2]
    rfl
  change ⟨line, .word name⟩ :: (layout line (Token.word name).endsStatement ps).tokens = _
  rw [hends]

theorem TypeText.tokenize_between {text : String} {type : TypeExpr} (h : TypeText text type)
    (front back : String) {lead trail : List Piece} {d : Char} {r : List Char}
    (hfront : ∀ s, pieces (front.toList ++ s) = (lead ++ (pieces s).1, (pieces s).2))
    (hback : back.toList ++ ['\n'] = d :: r) (hd : isBarrier d = true)
    (htrail : pieces (d :: r) = (trail, none)) :
    ∃ endLine, tokenize (aliasSource (front ++ text ++ back)) = .ok
      ⟨aliasTokens ++ (layout 2 false (lead ++ ((pieces text.toList).1 ++ trail))).tokens,
        endLine⟩ := by
  have hpieces : pieces ((front ++ text ++ back).toList ++ ['\n']) =
      (lead ++ ((pieces text.toList).1 ++ trail), none) := by
    rw [String.toList_append, String.toList_append, List.append_assoc, List.append_assoc, hback,
      hfront, pieces_append hd h.whole h.noComment, htrail]
  exact ⟨_, tokenize_aliasSource hpieces⟩

/-- The tokens of a type behind a name, which may end a statement. -/
theorem TypeText.tokenize_named {text : String} {type : TypeExpr} (h : TypeText text type)
    {name : String} (hname : Identifier name) (front back : String) (lead : List Piece)
    (leadTokens : List Located) {trail : List Piece} {pending : Bool} {d : Char} {r : List Char}
    (hfront : ∀ s, pieces (front.toList ++ s) = (lead ++ (pieces s).1, (pieces s).2))
    (hlead : ∀ ps,
      (layout 2 false (lead ++ ps)).tokens = leadTokens ++ (layout 2 pending ps).tokens)
    (hback : back.toList ++ ['\n'] = d :: r) (hd : isBarrier d = true)
    (htrail : pieces (d :: r) = (trail, none)) :
    ∃ endLine, tokenize (aliasSource (front ++ name ++ " " ++ text ++ back)) = .ok
      ⟨aliasTokens ++ (leadTokens ++ ⟨2, .word name⟩ ::
        (layout 2 true ((pieces text.toList).1 ++ trail)).tokens), endLine⟩ := by
  have hfront' : ∀ s, pieces ((front ++ name ++ " ").toList ++ s) =
      (lead ++ [Piece.token (.word name) 0, .blank] ++ (pieces s).1, (pieces s).2) := by
    intro s
    rw [String.toList_append, String.toList_append, List.append_assoc, List.append_assoc, hfront]
    change (lead ++ (pieces (name.toList ++ ' ' :: s)).1, (pieces (name.toList ++ ' ' :: s)).2) = _
    rw [pieces_name hname, List.append_assoc]
    rfl
  obtain ⟨endLine, htokens⟩ := h.tokenize_between _ _ hfront' hback hd htrail
  refine ⟨endLine, ?_⟩
  rw [htokens, List.append_assoc, hlead, List.cons_append, List.cons_append, List.nil_append,
    layout_name hname]

theorem ofText_of_reads {source : String} {endLine : Nat} {type : TypeExpr}
    {ts rest : List Located} (htokens : tokenize source = .ok ⟨aliasTokens ++ ts, endLine⟩)
    (h : Reads (.type type) ts rest) (hrest : AtEnd rest) (name : String) :
    SourceFile.ofText name source = .ok (aliasFile name type) := by
  rw [SourceFile.ofText, htokens]
  dsimp only
  rw [ofTokens_alias name h hrest]

theorem reads_of_ofText {source name : String} {endLine : Nat} {type : TypeExpr}
    {ts : List Located} (htokens : tokenize source = .ok ⟨aliasTokens ++ ts, endLine⟩)
    (h : SourceFile.ofText name source = .ok (aliasFile name type)) :
    ∃ rest, Reads (.type type) ts rest := by
  rw [SourceFile.ofText, htokens] at h
  dsimp only at h
  split at h
  · cases h
  · next hok =>
    cases h
    exact reads_of_ofTokens_alias hok

section

variable {text : String} {type : TypeExpr} {name : String}

/-- The type is read behind the name of the only entry of a parenthesised list when it starts on
the line of the name, and with no bracket. `outer` is the type with the list. -/
theorem TypeText.ofText_entry_iff (h : TypeText text type) (hname : Identifier name)
    (file front : String) (lead : List Piece) (leadTokens : List Located) {outer : TypeExpr}
    (hfront : ∀ s, pieces (front.toList ++ s) = (lead ++ (pieces s).1, (pieces s).2))
    (hlead : ∀ ps,
      (layout 2 false (lead ++ ps)).tokens = leadTokens ++ (layout 2 false ps).tokens)
    (hin : ∀ {ts rest}, Reads (.type outer) (leadTokens ++ ts) rest →
      Reads (.params [.mk (some name) type]) ts rest)
    (hout : ∀ {ts rest}, Reads (.params [.mk (some name) type]) ts rest → NoType rest →
      Reads (.type outer) (leadTokens ++ ts) rest) :
    SourceFile.ofText file (aliasSource (front ++ name ++ " " ++ text ++ ")")) =
        .ok (aliasFile file outer) ↔
      startsOnLine (pieces text.toList).1 = true ∧ type.isBracketed = false := by
  obtain ⟨ts, tail, line, pending, hreads, htail, hlayout⟩ := h.layout_eq
  obtain ⟨endLine, htokens⟩ := h.tokenize_named hname front ")" lead leadTokens hfront hlead rfl
    (by decide) (pieces_step rfl pieces_lineBreak)
  rw [(hlayout _).2] at htokens
  have hread : Reads (.type type) (ts ++ (tail ++ [⟨line, .rightParen⟩, ⟨line, .semicolon⟩]))
      (tail ++ [⟨line, .rightParen⟩, ⟨line, .semicolon⟩]) :=
    hreads _ (htail.ended_append rfl nofun)
  constructor
  · intro hfile
    obtain ⟨rest, houter⟩ := reads_of_ofText htokens hfile
    exact entry_of_reads (hin houter) hread
  · rintro ⟨hline, htype⟩
    rw [if_pos hline] at htokens
    have hrest : NoType [⟨line, .semicolon⟩] := rfl
    refine ofText_of_reads htokens (hout ?_ hrest) (.inr ⟨line, rfl⟩) file
    exact reads_namedParam hname.2 hread htype htail.reads_noParam

/-- The type is read behind the name of a parameter when it starts on the line of the name, and
with no bracket. -/
theorem TypeText.ofText_param_iff (h : TypeText text type) (hname : Identifier name)
    (file : String) :
    SourceFile.ofText file (aliasSource ("func(" ++ name ++ " " ++ text ++ ")")) =
        .ok (aliasFile file (.func (.mk [.mk (some name) type] [] false))) ↔
      startsOnLine (pieces text.toList).1 = true ∧ type.isBracketed = false := by
  refine h.ofText_entry_iff hname file "func(" [.token (.word "func") 0, .token .leftParen 0]
    [⟨2, .word "func"⟩, ⟨2, .leftParen⟩] (fun s => pieces_step rfl (pieces_step rfl rfl))
    (fun ps => rfl) ?_ fun hparams hrest => .func (.noResult hparams hrest)
  intro ts rest hfunc
  cases hfunc with
  | name h => cases h
  | func h =>
    cases h with
    | noResult hparams => exact hparams

/-- The type is read behind the name of a result when it starts on the line of the name, and with
no bracket. -/
theorem TypeText.ofText_result_iff (h : TypeText text type) (hname : Identifier name)
    (file : String) :
    SourceFile.ofText file (aliasSource ("func() (" ++ name ++ " " ++ text ++ ")")) =
        .ok (aliasFile file (.func (.mk [] [.mk (some name) type] true))) ↔
      startsOnLine (pieces text.toList).1 = true ∧ type.isBracketed = false := by
  refine h.ofText_entry_iff hname file "func() ("
    [.token (.word "func") 0, .token .leftParen 0, .token .rightParen 0, .blank,
      .token .leftParen 0]
    [⟨2, .word "func"⟩, ⟨2, .leftParen⟩, ⟨2, .rightParen⟩, ⟨2, .leftParen⟩]
    (fun s => pieces_step rfl (pieces_step rfl (pieces_step rfl (pieces_step rfl
      (pieces_step rfl rfl)))))
    (fun ps => rfl) ?_ fun hresults _ => .func (.results .noParam hresults)
  intro ts rest hfunc
  cases hfunc with
  | name h => cases h
  | func h =>
    cases h with
    | results hparams hresults =>
      cases hparams with
      | noParam => exact hresults

/-- The type is read behind the name of a struct member when it starts on the line of the name. -/
theorem TypeText.ofText_member_iff (h : TypeText text type) (hname : Identifier name)
    (file : String) :
    SourceFile.ofText file (aliasSource ("struct\x7b " ++ name ++ " " ++ text ++ " \x7d")) =
        .ok (aliasFile file (.struct [.mk 2 [name] type none])) ↔
      startsOnLine (pieces text.toList).1 = true := by
  obtain ⟨ts, tail, line, pending, hreads, htail, hlayout⟩ := h.layout_eq
  obtain ⟨endLine, htokens⟩ := h.tokenize_named hname "struct\x7b " " \x7d"
    [.token (.word "struct") 0, .token .leftBrace 0, .blank]
    [⟨2, .word "struct"⟩, ⟨2, .leftBrace⟩]
    (fun s => pieces_step rfl (pieces_step rfl (pieces_step rfl rfl))) (fun ps => rfl) rfl
    (by decide) (pieces_step rfl (pieces_step rfl pieces_lineBreak))
  rw [(hlayout _).2] at htokens
  have hread : Reads (.type type) (ts ++ (tail ++ [⟨line, .rightBrace⟩, ⟨line, .semicolon⟩]))
      (tail ++ [⟨line, .rightBrace⟩, ⟨line, .semicolon⟩]) :=
    hreads _ (htail.ended_append rfl nofun)
  constructor
  · intro hfile
    obtain ⟨rest, hstruct⟩ := reads_of_ofText htokens hfile
    cases hline : startsOnLine (pieces text.toList).1 with
    | true => rfl
    | false =>
      -- the semicolon behind the name makes it an embedded type
      rw [hline] at hstruct
      cases hstruct with
      | name h => cases h
      | struct h => exact absurd h not_reads_namedMember
  · intro hline
    rw [if_pos hline] at htokens
    refine ofText_of_reads htokens (.struct ?_) (.inr ⟨line, rfl⟩) file
    exact .field (reads_namedMember hname.2 hread htail.atMemberEnd)
      (.none fun _ => htail.next_ne nofun nofun) htail.ends .noField

/-- The type is read as an element of an interface when it does not start like a method. -/
theorem TypeText.ofText_element_iff (h : TypeText text type) (file : String) :
    SourceFile.ofText file (aliasSource ("interface\x7b " ++ text ++ " \x7d")) =
        .ok (aliasFile file (.interface [.union [.mk false type]])) ↔
      type.isMethodLike = false := by
  obtain ⟨ts, tail, line, pending, hreads, htail, hlayout⟩ := h.layout_eq
  have hfront : ∀ s, pieces ("interface\x7b ".toList ++ s) =
      ([Piece.token (.word "interface") 0, .token .leftBrace 0, .blank] ++ (pieces s).1,
        (pieces s).2) :=
    fun s => pieces_step rfl (pieces_step rfl (pieces_step rfl rfl))
  obtain ⟨endLine, htokens⟩ := h.tokenize_between _ " \x7d" hfront rfl (by decide)
    (pieces_step rfl (pieces_step rfl pieces_lineBreak))
  have hlead : ∀ ps, (layout 2 false
      ([Piece.token (.word "interface") 0, .token .leftBrace 0, .blank] ++ ps)).tokens =
        [⟨2, .word "interface"⟩, ⟨2, .leftBrace⟩] ++ (layout 2 false ps).tokens :=
    fun _ => rfl
  rw [hlead, (hlayout _).1] at htokens
  have hended : Ended (tail ++ [⟨line, .rightBrace⟩, ⟨line, .semicolon⟩]) :=
    htail.ended_append rfl nofun
  have hread := hreads _ hended
  constructor
  · intro hfile
    obtain ⟨rest, hinterface⟩ := reads_of_ofText htokens hfile
    cases hinterface with
    | name h => cases h
    | interface h =>
      refine Bool.eq_false_iff.2 fun htype => ?_
      obtain ⟨line', w, more, hts, hparen⟩ := hread.paren_of_isMethodLike htype
      change Reads _ (ts ++ (tail ++ [⟨line, .rightBrace⟩, ⟨line, .semicolon⟩])) _ at h
      rw [hts] at h
      exact next_ne_of_union h hparen
  · intro htype
    refine ofText_of_reads htokens (.interface ?_) (.inr ⟨line, rfl⟩) file
    exact reads_term hread htype hended (htail.next_ne nofun nofun) htail.ends .noElem

/-- What is a type behind the equals sign of an alias is the same type behind the name of a
parameter and of a result exactly when it starts on the line of the name and with no bracket,
behind the name of a struct member exactly when it starts on the line of the name, and as the
only term of an interface element exactly when it does not start like a method. -/
theorem TypeText.ofText_positions_iff (h : TypeText text type) (hname : Identifier name)
    (file : String) :
    (SourceFile.ofText file (aliasSource ("func(" ++ name ++ " " ++ text ++ ")")) =
        .ok (aliasFile file (.func (.mk [.mk (some name) type] [] false))) ↔
      startsOnLine (pieces text.toList).1 = true ∧ type.isBracketed = false) ∧
    (SourceFile.ofText file (aliasSource ("func() (" ++ name ++ " " ++ text ++ ")")) =
        .ok (aliasFile file (.func (.mk [] [.mk (some name) type] true))) ↔
      startsOnLine (pieces text.toList).1 = true ∧ type.isBracketed = false) ∧
    (SourceFile.ofText file (aliasSource ("struct\x7b " ++ name ++ " " ++ text ++ " \x7d")) =
        .ok (aliasFile file (.struct [.mk 2 [name] type none])) ↔
      startsOnLine (pieces text.toList).1 = true) ∧
    (SourceFile.ofText file (aliasSource ("interface\x7b " ++ text ++ " \x7d")) =
        .ok (aliasFile file (.interface [.union [.mk false type]])) ↔
      type.isMethodLike = false) :=
  ⟨h.ofText_param_iff hname file, h.ofText_result_iff hname file, h.ofText_member_iff hname file,
    h.ofText_element_iff file⟩

end

theorem typeText_slice : TypeText "[]int" (.slice (.named "int")) := by
  have hnil : pieces [] = ([], none) := by rw [pieces]
  have hpieces : pieces "[]int".toList =
      ([.token .leftBracket 0, .token .rightBracket 0, .token (.word "int") 0], none) :=
    pieces_step rfl (pieces_step rfl (pieces_step rfl hnil))
  have hline : pieces ("[]int".toList ++ ['\n']) = ([.token .leftBracket 0,
      .token .rightBracket 0, .token (.word "int") 0, .lineBreak], none) :=
    pieces_step rfl (pieces_step rfl (pieces_step rfl pieces_lineBreak))
  have hread : Reads (.type (.slice (.named "int")))
      [⟨2, .leftBracket⟩, ⟨2, .rightBracket⟩, ⟨2, .word "int"⟩, ⟨2, .semicolon⟩]
      [⟨2, .semicolon⟩] :=
    .slice (.name (.named (by decide) (by decide)) (by decide))
  refine ⟨congrArg Prod.snd hpieces, ?_, _, _, 2, tokenize_aliasSource hline, hread.outcome_eq⟩
  rw [hpieces]
  intro breaks hmem
  simp at hmem

/-- What `TypeText.ofText_positions_iff` says of `[]int` behind the name `xs`: it is read in a
struct and in an interface, but neither as a parameter nor as a result. -/
theorem TypeText.ofText_positions_slice :
    TypeText "[]int" (.slice (.named "int")) ∧ Identifier "xs" ∧
      SourceFile.ofText "t.go" (aliasSource "func(xs []int)") ≠
        .ok (aliasFile "t.go" (.func (.mk [.mk (some "xs") (.slice (.named "int"))] [] false))) ∧
      SourceFile.ofText "t.go" (aliasSource "func() (xs []int)") ≠
        .ok (aliasFile "t.go" (.func (.mk [] [.mk (some "xs") (.slice (.named "int"))] true))) ∧
      SourceFile.ofText "t.go" (aliasSource "struct\x7b xs []int \x7d") =
        .ok (aliasFile "t.go" (.struct [.mk 2 ["xs"] (.slice (.named "int")) none])) ∧
      SourceFile.ofText "t.go" (aliasSource "interface\x7b []int \x7d") =
        .ok (aliasFile "t.go" (.interface [.union [.mk false (.slice (.named "int"))]])) := by
  have hname : Identifier "xs" := ⟨by decide, by decide⟩
  have hline : startsOnLine (pieces "[]int".toList).1 = true := by
    have hfirst : pieces "[]int".toList = (.token .leftBracket 0 ::
      (pieces "]int".toList).1, (pieces "]int".toList).2) := pieces_of_step rfl
    rw [hfirst]
    rfl
  obtain ⟨hparam, hresult, hmember, helement⟩ :=
    typeText_slice.ofText_positions_iff hname "t.go"
  have hbracket : ¬ (startsOnLine (pieces "[]int".toList).1 = true ∧
      (TypeExpr.slice (.named "int")).isBracketed = false) := fun h => by cases h.2
  exact ⟨typeText_slice, hname, mt hparam.1 hbracket, mt hresult.1 hbracket, hmember.2 hline,
    helement.2 rfl⟩

end StructCopy.Go
