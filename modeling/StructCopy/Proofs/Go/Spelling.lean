/-
  Proofs/Go/Spelling: what a printed phrase is taken apart into, and what is read from it.

  `Spelling phrase ts` says that the text of a phrase is taken apart into the tokens
  `ts`, and that the reader takes these tokens for the phrase, lines aside, wherever
  the phrase may stand.  Each way to build a phrase has a lemma that gives its
  spelling from the spellings of its parts.
-/
import StructCopy.Go.TypeExpr.Printer
import StructCopy.Proofs.Go.LengthText
import StructCopy.Proofs.Go.Lexing
import StructCopy.Proofs.Go.WellFormed

set_option autoImplicit false

namespace StructCopy.Go

/-! ## Texts -/

/-- The text of a phrase, without the bracket that closes it. -/
def Phrase.text : Phrase → String
  | .type t => t.render id
  | .args ts => String.intercalate ", " (renderTypes id ts)
  | .signature s => s.render id
  | .params ps => String.intercalate ", " (renderParams id ps)
  | .fields fs => String.intercalate "; " (renderFields id fs)
  | .member names t => namesBefore names ++ t.render id
  | .elems es => String.intercalate "; " (renderElems id es)
  | .terms ts => String.intercalate " | " (renderTerms id ts)
  | .term t => t.render id

/-! ## What follows a phrase -/

/-- The tokens `after` may stand behind the tokens of a phrase, and the reader of the phrase leaves
`rest` of them. -/
def Phrase.Before : Phrase → (after rest : List Located) → Prop
  | .args _, after, rest => ∃ line, after = ⟨line, .rightBracket⟩ :: rest
  | .params _, after, rest => ∃ line, after = ⟨line, .rightParen⟩ :: rest
  | .fields _, after, rest | .elems _, after, rest => ∃ line, after = ⟨line, .rightBrace⟩ :: rest
  | .member _ _, after, rest => after = rest ∧ atMemberEnd rest = true
  | .terms _, after, rest =>
    after = rest ∧ (next rest = some .semicolon ∨ next rest = some .rightBrace)
  | .type _, after, rest | .signature _, after, rest | .term _, after, rest =>
    after = rest ∧ Ended rest

/-- The phrase is read, lines aside, and `rest` is left. -/
def Phrase.ReadBack : Phrase → (ts rest : List Located) → Prop
  | .type t, ts, rest => ∃ t', Reads (.type t') ts rest ∧ t'.eraseLines = t.eraseLines
  | .args as, ts, rest => ∃ as', Reads (.args as') ts rest ∧ eraseTypes as' = eraseTypes as
  | .signature s, ts, rest => ∃ s', Reads (.signature s') ts rest ∧ s'.eraseLines = s.eraseLines
  | .params ps, ts, rest => ∃ ps', Reads (.params ps') ts rest ∧ eraseParams ps' = eraseParams ps
  | .fields fs, ts, rest => ∃ fs', Reads (.fields fs') ts rest ∧ eraseFields fs' = eraseFields fs
  | .member names t, ts, rest =>
    ∃ t', Reads (.member names t') ts rest ∧ t'.eraseLines = t.eraseLines
  | .elems es, ts, rest => ∃ es', Reads (.elems es') ts rest ∧ eraseElems es' = eraseElems es
  | .terms us, ts, rest => ∃ us', Reads (.terms us') ts rest ∧ eraseTerms us' = eraseTerms us
  | .term u, ts, rest => ∃ u', Reads (.term u') ts rest ∧ u'.eraseLines = u.eraseLines

/-! ## Spellings -/

/-- The text of the phrase is taken apart into the tokens, and they are read as the phrase. -/
structure Spelling (phrase : Phrase) (ts : List Token) : Prop where
  scans : ∀ {rest : List Char}, Boundary rest → Scans (phrase.text.toList ++ rest) ts rest
  balanced : Balanced ts
  reads : ∀ {q after rest : List Located}, q.map Located.token = ts → phrase.Before after rest →
    phrase.ReadBack (q ++ after) rest

/-- Located tokens that begin with a certain token. -/
theorem cons_of_map_token {q : List Located} {token : Token} {ts : List Token}
    (h : q.map Located.token = token :: ts) :
    ∃ line q', q = ⟨line, token⟩ :: q' ∧ q'.map Located.token = ts := by
  obtain ⟨⟨line, token'⟩, q', rfl, htoken, hq'⟩ := List.map_eq_cons_iff.1 h
  cases htoken
  exact ⟨line, q', rfl, hq'⟩

/-- A type is spelled with at least one token, and it is one that a type may start with. -/
theorem Spelling.cons_of_type {type : TypeExpr} {ts : List Token} (h : Spelling (.type type) ts) :
    ∃ token more, ts = token :: more ∧ token.startsType = true := by
  have hq : (ts.map (Located.mk 0)).map Located.token = ts := by
    rw [List.map_map]
    exact List.map_id ts
  have hafter : (Phrase.type type).Before [] [] := ⟨rfl, rfl, nofun⟩
  obtain ⟨found, hread, -⟩ := h.reads hq hafter
  have hstarts := hread.startsType
  cases ts with
  | nil => cases hstarts
  | cons token more => exact ⟨token, more, rfl, hstarts⟩

/-- No type starts with an equals sign, so that a star before it stays a star. -/
theorem Spelling.head_ne {type : TypeExpr} {ts : List Token} (h : Spelling (.type type) ts)
    {rest : List Char} (hrest : Boundary rest) :
    ((Phrase.type type).text.toList ++ rest).head? ≠ some '=' := by
  intro hhead
  have hscans := h.scans hrest
  obtain ⟨token, more, rfl, hstarts⟩ := h.cons_of_type
  obtain ⟨s, hs⟩ := List.head?_eq_some_iff.1 hhead
  rw [hs] at hscans
  cases hscans with
  | blank hstep =>
    obtain ⟨token, heq, -⟩ := piece_of_step_assign hstep
    cases heq
  | token hstep =>
    obtain ⟨token', heq, hfalse⟩ := piece_of_step_assign hstep
    cases heq
    rw [hstarts] at hfalse
    cases hfalse

/-! ## Types -/

theorem Spelling.pointer {elem : TypeExpr} {ts : List Token} (h : Spelling (.type elem) ts) :
    Spelling (.type (.pointer elem)) (.star :: ts) where
  scans {rest} hrest := by
    have htext : (Phrase.type (.pointer elem)).text.toList ++ rest =
        '*' :: ((Phrase.type elem).text.toList ++ rest) := by
      simp only [Phrase.text, TypeExpr.render, String.toList_append, List.append_assoc]
      rfl
    rw [htext]
    exact (scans_star (h.head_ne hrest)).trans (h.scans hrest)
  balanced := .cons (fun _ => rfl) nofun h.balanced
  reads hq hafter := by
    obtain ⟨line, q, rfl, hq'⟩ := cons_of_map_token hq
    obtain ⟨rfl, hended⟩ := hafter
    obtain ⟨elem', hread, herase⟩ := h.reads hq' ⟨rfl, hended⟩
    exact ⟨.pointer elem', .pointer hread, congrArg TypeExpr.pointer herase⟩

theorem Spelling.slice {elem : TypeExpr} {ts : List Token} (h : Spelling (.type elem) ts) :
    Spelling (.type (.slice elem)) (.leftBracket :: .rightBracket :: ts) where
  scans {rest} hrest := by
    have htext : (Phrase.type (.slice elem)).text.toList ++ rest =
        "[]".toList ++ ((Phrase.type elem).text.toList ++ rest) := by
      simp only [Phrase.text, TypeExpr.render, String.toList_append, List.append_assoc]
    rw [htext]
    exact .token rfl (.token rfl (h.scans hrest))
  balanced := .pair .brackets .nil h.balanced
  reads hq hafter := by
    obtain ⟨line, q, rfl, hq'⟩ := cons_of_map_token hq
    obtain ⟨line', q, rfl, hq''⟩ := cons_of_map_token hq'
    obtain ⟨rfl, hended⟩ := hafter
    obtain ⟨elem', hread, herase⟩ := h.reads hq'' ⟨rfl, hended⟩
    exact ⟨.slice elem', .slice hread, congrArg TypeExpr.slice herase⟩

theorem Spelling.paren {inner : TypeExpr} {ts : List Token} (h : Spelling (.type inner) ts) :
    Spelling (.type (.paren inner)) (.leftParen :: (ts ++ [Token.rightParen])) where
  scans {rest} hrest := by
    have htext : (Phrase.type (.paren inner)).text.toList ++ rest =
        "(".toList ++ ((Phrase.type inner).text.toList ++ (")".toList ++ rest)) := by
      simp only [Phrase.text, TypeExpr.render, String.toList_append, List.append_assoc]
    rw [htext]
    exact .token rfl ((h.scans (boundary_cons rfl)).trans (.one rfl))
  balanced := .pair .parens h.balanced .nil
  reads {q after rest} hq hafter := by
    obtain ⟨line, q, rfl, hq'⟩ := cons_of_map_token hq
    obtain ⟨q₁, q₂, rfl, hq₁, hq₂⟩ := List.map_eq_append_iff.1 hq'
    obtain ⟨line', q₃, rfl, hq₃⟩ := cons_of_map_token hq₂
    obtain rfl := List.map_eq_nil_iff.1 hq₃
    obtain ⟨rfl, hended⟩ := hafter
    have hclose : Ended (⟨line', .rightParen⟩ :: after) := ended_cons rfl Token.noConfusion
    obtain ⟨inner', hread, herase⟩ := h.reads hq₁ ⟨rfl, hclose⟩
    rw [List.cons_append, List.append_assoc]
    exact ⟨.paren inner', .paren hread, congrArg TypeExpr.paren herase⟩

theorem Spelling.map {key value : TypeExpr} {ts ts' : List Token}
    (hkey : Spelling (.type key) ts) (hvalue : Spelling (.type value) ts') :
    Spelling (.type (.map key value))
      (.word "map" :: .leftBracket :: (ts ++ .rightBracket :: ts')) where
  scans {rest} hrest := by
    have htext : (Phrase.type (.map key value)).text.toList ++ rest =
        "map[".toList ++ ((Phrase.type key).text.toList ++
          ("]".toList ++ ((Phrase.type value).text.toList ++ rest))) := by
      simp only [Phrase.text, TypeExpr.render, String.toList_append, List.append_assoc]
    rw [htext]
    have hclose : Scans ("]".toList ++ ((Phrase.type value).text.toList ++ rest))
        (.rightBracket :: ts') rest := .token rfl (hvalue.scans hrest)
    exact .token rfl (.token rfl ((hkey.scans (boundary_cons rfl)).trans hclose))
  balanced := .cons (fun _ => rfl) Token.noConfusion (.pair .brackets hkey.balanced hvalue.balanced)
  reads {q after rest} hq hafter := by
    obtain ⟨line, q, rfl, hq'⟩ := cons_of_map_token hq
    obtain ⟨line', q, rfl, hq''⟩ := cons_of_map_token hq'
    obtain ⟨q₁, q₂, rfl, hq₁, hq₂⟩ := List.map_eq_append_iff.1 hq''
    obtain ⟨line'', q₃, rfl, hq₃⟩ := cons_of_map_token hq₂
    obtain ⟨rfl, hended⟩ := hafter
    have hclose : Ended (⟨line'', .rightBracket⟩ :: (q₃ ++ after)) :=
      ended_cons rfl Token.noConfusion
    obtain ⟨key', hkey', hkeyErase⟩ := hkey.reads hq₁ ⟨rfl, hclose⟩
    obtain ⟨value', hvalue', hvalueErase⟩ := hvalue.reads hq₃ ⟨rfl, hended⟩
    rw [List.cons_append, List.cons_append, List.append_assoc]
    refine ⟨.map key' value', .map hkey' hvalue', ?_⟩
    rw [TypeExpr.eraseLines, hkeyErase, hvalueErase]
    rfl

theorem Spelling.chan {dir : ChanDir} {elem : TypeExpr} {ts : List Token}
    (hdir : dir = .both → elem.isReceive = false) (h : Spelling (.type elem) ts) :
    ∃ ts', Spelling (.type (.chan dir elem)) ts' := by
  cases dir with
  | both =>
    refine ⟨.word "chan" :: ts, ⟨?_, .cons (fun _ => rfl) Token.noConfusion h.balanced, ?_⟩⟩
    · intro rest hrest
      have htext : (Phrase.type (.chan .both elem)).text.toList ++ rest =
          "chan ".toList ++ ((Phrase.type elem).text.toList ++ rest) := by
        simp only [Phrase.text, TypeExpr.render, String.toList_append, List.append_assoc]
      rw [htext]
      exact .token rfl (.blank rfl (h.scans hrest))
    · intro q after rest hq hafter
      obtain ⟨line, q, rfl, hq'⟩ := cons_of_map_token hq
      obtain ⟨rfl, hended⟩ := hafter
      obtain ⟨elem', hread, herase⟩ := h.reads hq' ⟨rfl, hended⟩
      have harrow : next (q ++ after) ≠ some .arrow := by
        intro hnext
        have hreceive := hread.isReceive_of_arrow hnext
        rw [← TypeExpr.isReceive_eraseLines, herase, TypeExpr.isReceive_eraseLines, hdir rfl]
          at hreceive
        cases hreceive
      exact ⟨.chan .both elem', .chan harrow hread, congrArg (TypeExpr.chan .both) herase⟩
  | send =>
    refine ⟨.word "chan" :: .arrow :: ts,
      ⟨?_, .cons (fun _ => rfl) Token.noConfusion
        (.cons (fun _ => rfl) Token.noConfusion h.balanced), ?_⟩⟩
    · intro rest hrest
      have htext : (Phrase.type (.chan .send elem)).text.toList ++ rest =
          "chan<- ".toList ++ ((Phrase.type elem).text.toList ++ rest) := by
        simp only [Phrase.text, TypeExpr.render, String.toList_append, List.append_assoc]
      rw [htext]
      exact .token rfl (.token rfl (.blank rfl (h.scans hrest)))
    · intro q after rest hq hafter
      obtain ⟨line, q, rfl, hq'⟩ := cons_of_map_token hq
      obtain ⟨line', q, rfl, hq''⟩ := cons_of_map_token hq'
      obtain ⟨rfl, hended⟩ := hafter
      obtain ⟨elem', hread, herase⟩ := h.reads hq'' ⟨rfl, hended⟩
      exact ⟨.chan .send elem', .send hread, congrArg (TypeExpr.chan .send) herase⟩
  | receive =>
    refine ⟨.arrow :: .word "chan" :: ts,
      ⟨?_, .cons (fun _ => rfl) Token.noConfusion
        (.cons (fun _ => rfl) Token.noConfusion h.balanced), ?_⟩⟩
    · intro rest hrest
      have htext : (Phrase.type (.chan .receive elem)).text.toList ++ rest =
          "<-chan ".toList ++ ((Phrase.type elem).text.toList ++ rest) := by
        simp only [Phrase.text, TypeExpr.render, String.toList_append, List.append_assoc]
      rw [htext]
      exact .token rfl (.token rfl (.blank rfl (h.scans hrest)))
    · intro q after rest hq hafter
      obtain ⟨line, q, rfl, hq'⟩ := cons_of_map_token hq
      obtain ⟨line', q, rfl, hq''⟩ := cons_of_map_token hq'
      obtain ⟨rfl, hended⟩ := hafter
      obtain ⟨elem', hread, herase⟩ := h.reads hq'' ⟨rfl, hended⟩
      exact ⟨.chan .receive elem', .receive hread, congrArg (TypeExpr.chan .receive) herase⟩

/-! ## Names -/

/-- The name of a type and its tokens. -/
inductive NameSpelling : TypeExpr → List Token → Prop where
  | named {w : String} (hw : Identifier w) : NameSpelling (.named w) [.word w]
  | qualified {qualifier w : String} (hqualifier : Identifier qualifier) (hw : Identifier w) :
      NameSpelling (.qualified qualifier w) [.word qualifier, .dot, .word w]

theorem TypeName.spelling {type : TypeExpr} (h : TypeName type) :
    ∃ ts, NameSpelling type ts := by
  cases h with
  | named hw => exact ⟨_, .named hw⟩
  | qualified hqualifier hw => exact ⟨_, .qualified hqualifier hw⟩

theorem scans_identifier {w : String} (hw : Identifier w) {rest : List Char}
    (hrest : Boundary rest) : Scans (w.toList ++ rest) [.word w] rest :=
  scans_word hw.1 hrest

/-- A name behind a package. -/
theorem scans_qualified {qualifier w : String} (hqualifier : Identifier qualifier)
    (hw : Identifier w) {rest : List Char} (hrest : Boundary rest) :
    Scans (qualifier.toList ++ '.' :: (w.toList ++ rest)) [.word qualifier, .dot, .word w] rest :=
  (scans_identifier hqualifier (boundary_cons rfl)).trans
    ((scans_dot hw.1 rest).trans (scans_identifier hw hrest))

theorem NameSpelling.scans {type : TypeExpr} {ts : List Token} (h : NameSpelling type ts)
    {rest : List Char} (hrest : Boundary rest) :
    Scans ((type.render id).toList ++ rest) ts rest := by
  cases h with
  | named hw => exact scans_identifier hw hrest
  | @qualified qualifier w hqualifier hw =>
    have htext : ((TypeExpr.qualified qualifier w).render id).toList ++ rest =
        qualifier.toList ++ '.' :: (w.toList ++ rest) := by
      simp only [TypeExpr.render, id_eq, String.toList_append, List.append_assoc]
      rfl
    rw [htext]
    exact scans_qualified hqualifier hw hrest

theorem NameSpelling.balanced {type : TypeExpr} {ts : List Token} (h : NameSpelling type ts) :
    Balanced ts := by
  cases h with
  | named => exact balanced_word _
  | qualified => exact .cons (fun _ => rfl) nofun (.cons (fun _ => rfl) nofun (balanced_word _))

theorem NameSpelling.reads {type : TypeExpr} {ts : List Token} (h : NameSpelling type ts)
    {q rest : List Located} (hq : q.map Located.token = ts) (hrest : next rest ≠ some .dot) :
    ReadsName type (q ++ rest) rest := by
  cases h with
  | named hw =>
    obtain ⟨line, q, rfl, hq'⟩ := cons_of_map_token hq
    obtain rfl := List.map_eq_nil_iff.1 hq'
    exact .named hw.2 hrest
  | qualified hqualifier hw =>
    obtain ⟨line, q, rfl, hq₁⟩ := cons_of_map_token hq
    obtain ⟨line', q, rfl, hq₂⟩ := cons_of_map_token hq₁
    obtain ⟨line'', q, rfl, hq₃⟩ := cons_of_map_token hq₂
    obtain rfl := List.map_eq_nil_iff.1 hq₃
    exact .qualified hqualifier.2 hw.2

theorem NameSpelling.spelling {type : TypeExpr} {ts : List Token} (h : NameSpelling type ts) :
    Spelling (.type type) ts where
  scans hrest := h.scans hrest
  balanced := h.balanced
  reads hq hafter := by
    obtain ⟨rfl, hended⟩ := hafter
    exact ⟨type, .name (h.reads hq hended.2) (hended.next_ne rfl), rfl⟩

/-! ## Arrays -/

/-- The text of an array length other than `...`, and its tokens. -/
inductive LengthSpelling : String → List Token → Prop where
  | number {digits : String} (hne : digits ≠ "") (hdigits : digits.toList.all Char.isDigit = true) :
      LengthSpelling digits [.number digits]
  | named {w : String} (hw : Identifier w) : LengthSpelling w [.word w]
  | qualified {qualifier w : String} (hqualifier : Identifier qualifier) (hw : Identifier w) :
      LengthSpelling (qualifier ++ "." ++ w) [.word qualifier, .dot, .word w]

theorem LengthSpelling.scans {length : String} {ts : List Token} (h : LengthSpelling length ts)
    (rest : List Char) : Scans (length.toList ++ ']' :: rest) ts (']' :: rest) := by
  cases h with
  | number hne hdigits => exact scans_number hne hdigits rest
  | named hw => exact scans_identifier hw (boundary_cons rfl)
  | @qualified qualifier w hqualifier hw =>
    have htext : (qualifier ++ "." ++ w).toList ++ ']' :: rest =
        qualifier.toList ++ '.' :: (w.toList ++ ']' :: rest) := by
      simp only [String.toList_append, List.append_assoc]
      rfl
    rw [htext]
    exact scans_qualified hqualifier hw (boundary_cons rfl)

theorem LengthSpelling.balanced {length : String} {ts : List Token}
    (h : LengthSpelling length ts) : Balanced ts := by
  cases h with
  | number => exact .cons (fun _ => rfl) nofun .nil
  | named => exact balanced_word _
  | qualified => exact .cons (fun _ => rfl) nofun (.cons (fun _ => rfl) nofun (balanced_word _))

/-- The text of the length is read back, and neither a slice nor an open array starts here. -/
theorem LengthSpelling.reads {length : String} {ts : List Token} (h : LengthSpelling length ts)
    {q : List Located} (hq : q.map Located.token = ts) (line : Nat) (rest : List Located) :
    outcome (arrayLength 0 (q ++ ⟨line, .rightBracket⟩ :: rest)) = some (length, rest) ∧
      ∃ token, next (q ++ ⟨line, .rightBracket⟩ :: rest) = some token ∧
        token ≠ .rightBracket ∧ token ≠ .ellipsis := by
  have hend := outcome_arrayLength_end line rest
  have hplain : ∀ line' (token : Token) {text ts}, token ≠ .rightBracket →
      lengthDepth token 0 = 0 → outcome (arrayLength 0 ts) = some (text, rest) →
      outcome (arrayLength 0 (⟨line', token⟩ :: ts)) = some (token.spelling ++ text, rest) := by
    intro line' token text ts htoken hdepth hts
    rw [← hdepth] at hts
    exact outcome_arrayLength_cons (fun heq => htoken heq.1) hts
  cases h with
  | number =>
    obtain ⟨line', q, rfl, hq₁⟩ := cons_of_map_token hq
    obtain rfl := List.map_eq_nil_iff.1 hq₁
    refine ⟨(hplain line' (.number length) nofun rfl hend).trans ?_, _, rfl, nofun, nofun⟩
    rw [Token.spelling, String.append_empty]
  | named =>
    obtain ⟨line', q, rfl, hq₁⟩ := cons_of_map_token hq
    obtain rfl := List.map_eq_nil_iff.1 hq₁
    refine ⟨(hplain line' (.word length) nofun rfl hend).trans ?_, _, rfl, nofun, nofun⟩
    rw [Token.spelling, String.append_empty]
  | @qualified qualifier w =>
    obtain ⟨line₁, q, rfl, hq₁⟩ := cons_of_map_token hq
    obtain ⟨line₂, q, rfl, hq₂⟩ := cons_of_map_token hq₁
    obtain ⟨line₃, q, rfl, hq₃⟩ := cons_of_map_token hq₂
    obtain rfl := List.map_eq_nil_iff.1 hq₃
    have hdot := hplain line₂ .dot nofun rfl (hplain line₃ (.word w) nofun rfl hend)
    refine ⟨(hplain line₁ (.word qualifier) nofun rfl hdot).trans ?_, _, rfl, nofun, nofun⟩
    simp only [Token.spelling, String.append_empty, String.append_assoc]

theorem Spelling.openArray {elem : TypeExpr} {ts : List Token} (h : Spelling (.type elem) ts) :
    Spelling (.type (.array "..." elem)) (.leftBracket :: .ellipsis :: .rightBracket :: ts) where
  scans {rest} hrest := by
    have htext : (Phrase.type (.array "..." elem)).text.toList ++ rest =
        "[...]".toList ++ ((Phrase.type elem).text.toList ++ rest) := by
      simp only [Phrase.text, TypeExpr.render, String.toList_append, List.append_assoc]
      rfl
    rw [htext]
    exact .token rfl (.token rfl (.token rfl (h.scans hrest)))
  balanced := by
    have hinner : Balanced [.ellipsis] := .cons (fun _ => rfl) Token.noConfusion .nil
    exact .pair .brackets hinner h.balanced
  reads hq hafter := by
    obtain ⟨line, q, rfl, hq₁⟩ := cons_of_map_token hq
    obtain ⟨line', q, rfl, hq₂⟩ := cons_of_map_token hq₁
    obtain ⟨line'', q, rfl, hq₃⟩ := cons_of_map_token hq₂
    obtain ⟨rfl, hended⟩ := hafter
    obtain ⟨elem', hread, herase⟩ := h.reads hq₃ ⟨rfl, hended⟩
    exact ⟨.array "..." elem', .openArray hread, congrArg (TypeExpr.array "...") herase⟩

theorem Spelling.array {length : String} {elem : TypeExpr} {ts ts' : List Token}
    (hlength : LengthSpelling length ts) (h : Spelling (.type elem) ts') :
    Spelling (.type (.array length elem)) (.leftBracket :: (ts ++ .rightBracket :: ts')) where
  scans {rest} hrest := by
    have htext : (Phrase.type (.array length elem)).text.toList ++ rest =
        '[' :: (length.toList ++ ']' :: ((Phrase.type elem).text.toList ++ rest)) := by
      simp only [Phrase.text, TypeExpr.render, String.toList_append, List.append_assoc]
      rfl
    rw [htext]
    have hclose : Scans (']' :: ((Phrase.type elem).text.toList ++ rest)) (.rightBracket :: ts')
        rest := .token rfl (h.scans hrest)
    exact .token rfl ((hlength.scans _).trans hclose)
  balanced := .pair .brackets hlength.balanced h.balanced
  reads {q after rest} hq hafter := by
    obtain ⟨line, q, rfl, hq'⟩ := cons_of_map_token hq
    obtain ⟨q₁, q₂, rfl, hq₁, hq₂⟩ := List.map_eq_append_iff.1 hq'
    obtain ⟨line', q₃, rfl, hq₃⟩ := cons_of_map_token hq₂
    obtain ⟨rfl, hended⟩ := hafter
    obtain ⟨elem', hread, herase⟩ := h.reads hq₃ ⟨rfl, hended⟩
    obtain ⟨houtcome, token, hnext, hslice, hopen⟩ := hlength.reads hq₁ line' (q₃ ++ after)
    rw [List.cons_append, List.append_assoc]
    refine ⟨.array length elem', .array ?_ ?_ houtcome hread,
      congrArg (TypeExpr.array length) herase⟩
    · intro heq
      exact hslice (Option.some.inj (hnext.symm.trans heq))
    · intro heq
      exact hopen (Option.some.inj (hnext.symm.trans heq))

theorem Spelling.anyArray {length : String} {elem : TypeExpr} {ts : List Token}
    (hlength : ArrayLength length) (h : Spelling (.type elem) ts) :
    ∃ ts', Spelling (.type (.array length elem)) ts' := by
  cases hlength with
  | ellipsis => exact ⟨_, h.openArray⟩
  | number hne hdigits => exact ⟨_, h.array (.number hne hdigits)⟩
  | named hw => exact ⟨_, h.array (.named hw)⟩
  | qualified hqualifier hw => exact ⟨_, h.array (.qualified hqualifier hw)⟩

/-! ## Type arguments -/

theorem Spelling.lastArg {arg : TypeExpr} {ts : List Token} (h : Spelling (.type arg) ts) :
    Spelling (.args [arg]) ts where
  scans hrest := by
    have htext : (Phrase.args [arg]).text = (Phrase.type arg).text := by
      simp only [Phrase.text, renderTypes, String.intercalate_singleton]
    rw [htext]
    exact h.scans hrest
  balanced := h.balanced
  reads {q after rest} hq hafter := by
    obtain ⟨line, rfl⟩ := hafter
    have hclose : Ended (⟨line, .rightBracket⟩ :: rest) := ended_cons rfl Token.noConfusion
    obtain ⟨arg', hread, herase⟩ := h.reads hq ⟨rfl, hclose⟩
    exact ⟨[arg'], .lastArg hread, by rw [eraseTypes, herase, eraseTypes]; rfl⟩

theorem Spelling.nextArg {arg : TypeExpr} {args : List TypeExpr} {ts ts' : List Token}
    (h : Spelling (.type arg) ts) (hne : args ≠ []) (hargs : Spelling (.args args) ts') :
    Spelling (.args (arg :: args)) (ts ++ .comma :: ts') where
  scans {rest} hrest := by
    have hne' : renderTypes id args ≠ [] := by
      cases args with
      | nil => exact absurd rfl hne
      | cons => exact List.cons_ne_nil _ _
    have htext : (Phrase.args (arg :: args)).text.toList ++ rest =
        (Phrase.type arg).text.toList ++
          (", ".toList ++ ((Phrase.args args).text.toList ++ rest)) := by
      simp only [Phrase.text, renderTypes, String.intercalate_cons_of_ne_nil hne',
        String.toList_append, List.append_assoc]
    rw [htext]
    have hcomma : Scans (", ".toList ++ ((Phrase.args args).text.toList ++ rest))
        (.comma :: ts') rest := .token rfl (.blank rfl (hargs.scans hrest))
    exact (h.scans (boundary_cons rfl)).trans hcomma
  balanced := h.balanced.append (.cons (fun _ => rfl) Token.noConfusion hargs.balanced)
  reads {q after rest} hq hafter := by
    obtain ⟨q₁, q₂, rfl, hq₁, hq₂⟩ := List.map_eq_append_iff.1 hq
    obtain ⟨line, q₃, rfl, hq₃⟩ := cons_of_map_token hq₂
    have hcomma : Ended (⟨line, .comma⟩ :: (q₃ ++ after)) := ended_cons rfl Token.noConfusion
    obtain ⟨arg', hread, herase⟩ := h.reads hq₁ ⟨rfl, hcomma⟩
    obtain ⟨args', hargs', hargsErase⟩ := hargs.reads hq₃ hafter
    have hmid : next (q₃ ++ after) ≠ some .rightBracket :=
      next_ne_of_startsType hargs'.startsType_of_args rfl
    rw [List.append_assoc]
    refine ⟨arg' :: args', .nextArg hread hmid hargs', ?_⟩
    rw [eraseTypes, herase, hargsErase]
    rfl

/-- Located tokens of arguments in brackets. -/
theorem bracketed_of_map_token {q : List Located} {ts : List Token}
    (h : q.map Located.token = Token.leftBracket :: (ts ++ [Token.rightBracket])) :
    ∃ (line line' : Nat) (q' : List Located),
      q = ⟨line, .leftBracket⟩ :: (q' ++ [⟨line', .rightBracket⟩]) ∧ q'.map Located.token = ts := by
  obtain ⟨line, q, rfl, hq⟩ := cons_of_map_token h
  obtain ⟨q₁, q₂, rfl, hq₁, hq₂⟩ := List.map_eq_append_iff.1 hq
  obtain ⟨line', q₃, rfl, hq₃⟩ := cons_of_map_token hq₂
  obtain rfl := List.map_eq_nil_iff.1 hq₃
  exact ⟨line, line', q₁, rfl, hq₁⟩

theorem scans_generic {base : TypeExpr} {args : List TypeExpr} {ts ts' : List Token}
    (hbase : NameSpelling base ts) (hargs : Spelling (.args args) ts') (rest : List Char) :
    Scans (((TypeExpr.generic base args).render id).toList ++ rest)
      (ts ++ .leftBracket :: (ts' ++ [Token.rightBracket])) rest := by
  have htext : ((TypeExpr.generic base args).render id).toList ++ rest =
      (base.render id).toList ++ ("[".toList ++ ((Phrase.args args).text.toList ++
        ("]".toList ++ rest))) := by
    simp only [Phrase.text, TypeExpr.render, String.toList_append, List.append_assoc]
  rw [htext]
  have hopen : Scans ("[".toList ++ ((Phrase.args args).text.toList ++ ("]".toList ++ rest)))
      (.leftBracket :: (ts' ++ [Token.rightBracket])) rest :=
    .token rfl ((hargs.scans (boundary_cons rfl)).trans (.one rfl))
  exact (hbase.scans (boundary_cons rfl)).trans hopen

theorem Spelling.generic {base : TypeExpr} {args : List TypeExpr} {ts ts' : List Token}
    (hbase : NameSpelling base ts) (hargs : Spelling (.args args) ts') :
    Spelling (.type (.generic base args))
      (ts ++ .leftBracket :: (ts' ++ [Token.rightBracket])) where
  scans _ := scans_generic hbase hargs _
  balanced := hbase.balanced.append (.pair .brackets hargs.balanced .nil)
  reads {q after rest} hq hafter := by
    obtain ⟨q₁, q₂, rfl, hq₁, hq₂⟩ := List.map_eq_append_iff.1 hq
    obtain ⟨line, line', q₃, rfl, hq₃⟩ := bracketed_of_map_token hq₂
    obtain ⟨rfl, -⟩ := hafter
    obtain ⟨args', hread, herase⟩ := hargs.reads hq₃ ⟨line', rfl⟩
    rw [List.append_assoc, List.cons_append, List.append_assoc]
    refine ⟨.generic base args', .generic (hbase.reads hq₁ nofun) hread, ?_⟩
    rw [TypeExpr.eraseLines, herase]
    rfl

/-! ## Lists behind their first entry -/

/-- The texts behind the first one of a list, each with the separator before it. -/
def separated (sep : String) (parts : List String) : String :=
  if parts.isEmpty then "" else sep ++ String.intercalate sep parts

/-- The tokens of `separated`, given those of the list. -/
def separatedTokens (sep : Token) (parts : List String) (ts : List Token) : List Token :=
  if parts.isEmpty then [] else sep :: ts

theorem intercalate_cons (sep part : String) (parts : List String) :
    String.intercalate sep (part :: parts) = part ++ separated sep parts := by
  cases parts with
  | nil => rw [String.intercalate_singleton, separated, List.isEmpty_nil, if_pos rfl,
      String.append_empty]
  | cons part' parts =>
    rw [String.intercalate_cons_cons, separated, List.isEmpty_cons, if_neg Bool.false_ne_true,
      String.append_assoc]

/-- The rest of a list is scanned when the separator is, and when the list itself is. -/
theorem scans_separated (sep : String) (token : Token) {parts : List String} {ts : List Token}
    {rest : List Char} (hsep : ∀ s, Scans (sep.toList ++ s) [token] s)
    (hparts : Scans ((String.intercalate sep parts).toList ++ rest) ts rest) :
    Scans ((separated sep parts).toList ++ rest) (separatedTokens token parts ts) rest := by
  unfold separated separatedTokens
  split
  · exact .nil
  · rw [String.toList_append, List.append_assoc]
    exact (hsep _).trans hparts

theorem boundary_separated {sep : String} {parts : List String} {rest : List Char}
    (hsep : ∀ s, Boundary (sep.toList ++ s)) (hrest : Boundary rest) :
    Boundary ((separated sep parts).toList ++ rest) := by
  unfold separated
  split
  · exact hrest
  · rw [String.toList_append, List.append_assoc]
    exact hsep _

theorem balanced_separatedTokens {token : Token} {parts : List String} {ts : List Token}
    (hsame : ∀ depth, lengthDepth token depth = depth) (hend : token ≠ .rightBracket)
    (h : Balanced ts) : Balanced (separatedTokens token parts ts) := by
  unfold separatedTokens
  split
  · exact .nil
  · exact .cons hsame hend h

/-! ## Parameters -/

theorem Spelling.noParam : Spelling (.params []) [] where
  scans _ := by
    have htext : (Phrase.params []).text = "" := by
      simp only [Phrase.text, renderParams, String.intercalate_nil]
    rw [htext]
    exact .nil
  balanced := .nil
  reads hq hafter := by
    obtain rfl := List.map_eq_nil_iff.1 hq
    obtain ⟨line, rfl⟩ := hafter
    exact ⟨[], .noParam, rfl⟩

/-- The parameters behind the first entry of a list: a comma and the other entries, or the closing
parenthesis. -/
theorem Spelling.moreParams {params : List Param} {ts : List Token}
    (h : Spelling (.params params) ts) {q after rest : List Located}
    (hq : q.map Located.token = separatedTokens .comma (renderParams id params) ts)
    (hafter : (Phrase.params params).Before after rest) :
    ∃ params', eraseParams params' = eraseParams params ∧
      ((∃ line mid, q ++ after = ⟨line, .comma⟩ :: mid ∧ Reads (.params params') mid rest) ∨
        ∃ line mid, q ++ after = ⟨line, .rightParen⟩ :: mid ∧
          Reads (.params params') (⟨line, .rightParen⟩ :: mid) rest) := by
  cases params with
  | nil =>
    obtain rfl := List.map_eq_nil_iff.1 hq
    obtain ⟨line, rfl⟩ := hafter
    exact ⟨[], rfl, .inr ⟨line, rest, rfl, .noParam⟩⟩
  | cons param params =>
    obtain ⟨line, q, rfl, hq'⟩ := cons_of_map_token hq
    obtain ⟨params', hread, herase⟩ := h.reads hq' hafter
    exact ⟨params', herase, .inl ⟨line, q ++ after, rfl, hread⟩⟩

theorem scans_params {param : Param} {params : List Param} {ts ts' : List Token}
    (hparam : ∀ {s : List Char}, Boundary s → Scans ((param.render id).toList ++ s) ts s)
    (hparams : Spelling (.params params) ts') {rest : List Char} (hrest : Boundary rest) :
    Scans ((Phrase.params (param :: params)).text.toList ++ rest)
      (ts ++ separatedTokens .comma (renderParams id params) ts') rest := by
  have htext : (Phrase.params (param :: params)).text.toList ++ rest =
      (param.render id).toList ++ ((separated ", " (renderParams id params)).toList ++ rest) := by
    simp only [Phrase.text, renderParams, intercalate_cons, String.toList_append,
      List.append_assoc]
  rw [htext]
  have hboundary : Boundary ((separated ", " (renderParams id params)).toList ++ rest) :=
    boundary_separated (fun _ => boundary_cons rfl) hrest
  have hmore := scans_separated ", " .comma (fun _ => .token rfl (.blank rfl .nil))
    (hparams.scans hrest)
  exact (hparam hboundary).trans hmore

theorem Spelling.param {type : TypeExpr} {params : List Param} {ts ts' : List Token}
    (h : Spelling (.type type) ts) (hparams : Spelling (.params params) ts') :
    Spelling (.params (.mk none type :: params))
      (ts ++ separatedTokens .comma (renderParams id params) ts') where
  scans hrest := by
    have htype : ∀ {s : List Char}, Boundary s →
        Scans (((Param.mk none type).render id).toList ++ s) ts s := by
      intro s hs
      rw [Param.render]
      exact h.scans hs
    exact scans_params htype hparams hrest
  balanced := by
    have hcomma : Token.comma ≠ .rightBracket := Token.noConfusion
    exact h.balanced.append (balanced_separatedTokens (fun _ => rfl) hcomma hparams.balanced)
  reads {q after rest} hq hafter := by
    obtain ⟨q₁, q₂, rfl, hq₁, hq₂⟩ := List.map_eq_append_iff.1 hq
    obtain ⟨params', hparamsErase, hmore⟩ := hparams.moreParams hq₂ hafter
    rw [List.append_assoc]
    rcases hmore with ⟨line, mid, hmid, hmore⟩ | ⟨line, mid, hmid, hmore⟩
    · have hcomma : Ended (⟨line, .comma⟩ :: mid) := ended_cons rfl Token.noConfusion
      obtain ⟨type', hread, herase⟩ := h.reads hq₁ ⟨rfl, hcomma⟩
      rw [hmid]
      refine ⟨.mk none type' :: params', .typeParam hread hmore, ?_⟩
      rw [eraseParams, Param.eraseLines, herase, hparamsErase]
      rfl
    · have hclose : Ended (⟨line, .rightParen⟩ :: mid) := ended_cons rfl Token.noConfusion
      obtain ⟨type', hread, herase⟩ := h.reads hq₁ ⟨rfl, hclose⟩
      rw [hmid]
      refine ⟨.mk none type' :: params', .lastTypeParam hread hmore, ?_⟩
      rw [eraseParams, Param.eraseLines, herase, hparamsErase]
      rfl

/-- Behind an entry that is not read as a type alone, a comma is passed over. -/
theorem Spelling.moreParams_skipComma {params : List Param} {ts : List Token}
    (h : Spelling (.params params) ts) {q after rest : List Located}
    (hq : q.map Located.token = separatedTokens .comma (renderParams id params) ts)
    (hafter : (Phrase.params params).Before after rest) :
    Ended (q ++ after) ∧ ∃ params', eraseParams params' = eraseParams params ∧
      Reads (.params params') (skipComma (q ++ after)).val rest := by
  obtain ⟨params', herase, hmore⟩ := h.moreParams hq hafter
  rcases hmore with ⟨line, mid, hmid, hmore⟩ | ⟨line, mid, hmid, hmore⟩
  · rw [hmid]
    exact ⟨ended_cons rfl nofun, params', herase, hmore⟩
  · rw [hmid]
    exact ⟨ended_cons rfl nofun, params', herase, hmore⟩

theorem Spelling.variadic {elem : TypeExpr} {params : List Param} {ts ts' : List Token}
    (h : Spelling (.type elem) ts) (hparams : Spelling (.params params) ts') :
    Spelling (.params (.mk none (.variadic elem) :: params))
      (.ellipsis :: ts ++ separatedTokens .comma (renderParams id params) ts') where
  scans hrest := by
    refine scans_params (fun {s} hs => ?_) hparams hrest
    have htext : ((Param.mk none (.variadic elem)).render id).toList ++ s =
        "...".toList ++ ((Phrase.type elem).text.toList ++ s) := by
      simp only [Phrase.text, Param.render, TypeExpr.render, String.toList_append,
        List.append_assoc]
    rw [htext]
    exact .token rfl (h.scans hs)
  balanced := .cons (fun _ => rfl) nofun
    (h.balanced.append (balanced_separatedTokens (fun _ => rfl) nofun hparams.balanced))
  reads {q after rest} hq hafter := by
    obtain ⟨line, q, rfl, hq'⟩ := cons_of_map_token hq
    obtain ⟨q₁, q₂, rfl, hq₁, hq₂⟩ := List.map_eq_append_iff.1 hq'
    obtain ⟨hended, params', hparamsErase, hmore⟩ := hparams.moreParams_skipComma hq₂ hafter
    obtain ⟨elem', hread, herase⟩ := h.reads hq₁ ⟨rfl, hended⟩
    rw [List.cons_append, List.append_assoc]
    refine ⟨.mk none (.variadic elem') :: params', .ellipsisParam hread hmore, ?_⟩
    rw [eraseParams, Param.eraseLines, TypeExpr.eraseLines, herase, hparamsErase]
    rfl

/-- A parameter name before a token that does not go on with a type name. -/
theorem reads_paramName {line : Nat} {name : String} (hname : Identifier name) {ts : List Located}
    (hdot : next ts ≠ some .dot) (hbracket : next ts ≠ some .leftBracket) :
    Reads (.type (.named name)) (⟨line, .word name⟩ :: ts) ts :=
  .name (.named hname.2 hdot) hbracket

theorem scans_namedParam {name : String} {type : TypeExpr} {ts : List Token} {s : List Char}
    (hname : Identifier name) (h : Scans ((type.render id).toList ++ s) ts s) :
    Scans (((Param.mk (some name) type).render id).toList ++ s) (.word name :: ts) s := by
  have htext : ((Param.mk (some name) type).render id).toList ++ s =
      name.toList ++ (" ".toList ++ ((type.render id).toList ++ s)) := by
    simp only [Param.render, String.toList_append, List.append_assoc]
  rw [htext]
  have hspace : Scans (" ".toList ++ ((type.render id).toList ++ s)) ts s := .blank rfl h
  exact (scans_identifier hname (boundary_cons rfl)).trans hspace

theorem Spelling.namedParam {name : String} {type : TypeExpr} {params : List Param}
    {ts ts' : List Token} (hname : Identifier name) (hbracket : type.isBracketed = false)
    (h : Spelling (.type type) ts) (hparams : Spelling (.params params) ts') :
    Spelling (.params (.mk (some name) type :: params))
      (.word name :: ts ++ separatedTokens .comma (renderParams id params) ts') where
  scans hrest := scans_params (fun hs => scans_namedParam hname (h.scans hs)) hparams hrest
  balanced := .cons (fun _ => rfl) nofun
    (h.balanced.append (balanced_separatedTokens (fun _ => rfl) nofun hparams.balanced))
  reads {q after rest} hq hafter := by
    obtain ⟨line, q, rfl, hq'⟩ := cons_of_map_token hq
    obtain ⟨q₁, q₂, rfl, hq₁, hq₂⟩ := List.map_eq_append_iff.1 hq'
    obtain ⟨hended, params', hparamsErase, hmore⟩ := hparams.moreParams_skipComma hq₂ hafter
    obtain ⟨type', hread, herase⟩ := h.reads hq₁ ⟨rfl, hended⟩
    have hnext : next (q₁ ++ (q₂ ++ after)) ≠ some .leftBracket := by
      intro hnext
      have hbracketed := hread.isBracketed_of_bracket hnext
      rw [← TypeExpr.isBracketed_eraseLines, herase, TypeExpr.isBracketed_eraseLines, hbracket]
        at hbracketed
      cases hbracketed
    have hdot : next (q₁ ++ (q₂ ++ after)) ≠ some .dot :=
      next_ne_of_startsType hread.startsType rfl
    rw [List.cons_append, List.append_assoc]
    refine ⟨.mk (some name) type' :: params',
      .namedParam (reads_paramName hname hdot hnext) hread hmore, ?_⟩
    rw [eraseParams, Param.eraseLines, herase, hparamsErase]
    rfl

theorem Spelling.namedVariadic {name : String} {elem : TypeExpr} {params : List Param}
    {ts ts' : List Token} (hname : Identifier name) (h : Spelling (.type elem) ts)
    (hparams : Spelling (.params params) ts') :
    Spelling (.params (.mk (some name) (.variadic elem) :: params))
      (.word name :: .ellipsis :: ts ++
        separatedTokens .comma (renderParams id params) ts') where
  scans hrest := by
    refine scans_params (fun {s} hs => scans_namedParam hname ?_) hparams hrest
    have htext : ((TypeExpr.variadic elem).render id).toList ++ s =
        "...".toList ++ ((Phrase.type elem).text.toList ++ s) := by
      simp only [Phrase.text, TypeExpr.render, String.toList_append, List.append_assoc]
    rw [htext]
    exact .token rfl (h.scans hs)
  balanced := by
    have hcomma : Token.comma ≠ .rightBracket := Token.noConfusion
    exact .cons (fun _ => rfl) Token.noConfusion (.cons (fun _ => rfl) Token.noConfusion
      (h.balanced.append (balanced_separatedTokens (fun _ => rfl) hcomma hparams.balanced)))
  reads {q after rest} hq hafter := by
    obtain ⟨line, q, rfl, hq'⟩ := cons_of_map_token hq
    obtain ⟨line', q, rfl, hq''⟩ := cons_of_map_token hq'
    obtain ⟨q₁, q₂, rfl, hq₁, hq₂⟩ := List.map_eq_append_iff.1 hq''
    obtain ⟨hended, params', hparamsErase, hmore⟩ := hparams.moreParams_skipComma hq₂ hafter
    obtain ⟨elem', hread, herase⟩ := h.reads hq₁ ⟨rfl, hended⟩
    rw [List.cons_append, List.cons_append, List.append_assoc]
    have hnext : ∀ {token : Token}, token ≠ .ellipsis →
        next (⟨line', .ellipsis⟩ :: (q₁ ++ (q₂ ++ after))) ≠ some token :=
      fun hne h => hne (Option.some.inj h).symm
    refine ⟨.mk (some name) (.variadic elem') :: params', .namedEllipsis
      (reads_paramName hname (hnext Token.noConfusion) (hnext Token.noConfusion)) hread hmore, ?_⟩
    rw [eraseParams, Param.eraseLines, TypeExpr.eraseLines, herase, hparamsErase]
    rfl

/-! ## Signatures -/

/-- Located tokens of parameters in parentheses, and what is behind them. -/
theorem parenthesized_of_map_token {q : List Located} {ts ts' : List Token}
    (h : q.map Located.token = Token.leftParen :: (ts ++ .rightParen :: ts')) :
    ∃ (line line' : Nat) (q₁ q₂ : List Located),
      q = ⟨line, .leftParen⟩ :: (q₁ ++ ⟨line', .rightParen⟩ :: q₂) ∧
      q₁.map Located.token = ts ∧ q₂.map Located.token = ts' := by
  obtain ⟨line, q, rfl, hq⟩ := cons_of_map_token h
  obtain ⟨q₁, q₂, rfl, hq₁, hq₂⟩ := List.map_eq_append_iff.1 hq
  obtain ⟨line', q₃, rfl, hq₃⟩ := cons_of_map_token hq₂
  exact ⟨line, line', q₁, q₃, rfl, hq₁, hq₃⟩

theorem scans_parenthesized {params : List Param} {ts ts' : List Token} {s rest : List Char}
    (hparams : Spelling (.params params) ts) (hs : Scans s ts' rest) :
    Scans ("(".toList ++ ((Phrase.params params).text.toList ++ (")".toList ++ s)))
      (.leftParen :: (ts ++ .rightParen :: ts')) rest := by
  have hclose : Scans (")".toList ++ s) (.rightParen :: ts') rest := .token rfl hs
  exact .token rfl ((hparams.scans (boundary_cons rfl)).trans hclose)

theorem Spelling.noResult {params : List Param} {ts : List Token}
    (hparams : Spelling (.params params) ts) :
    Spelling (.signature (.mk params [] false)) (.leftParen :: (ts ++ [Token.rightParen])) where
  scans {rest} hrest := by
    have htext : (Phrase.signature (.mk params [] false)).text.toList ++ rest =
        "(".toList ++ ((Phrase.params params).text.toList ++ (")".toList ++ rest)) := by
      simp only [Phrase.text, Signature.render, String.toList_append, List.append_assoc]
    rw [htext]
    exact scans_parenthesized hparams .nil
  balanced := .pair .parens hparams.balanced .nil
  reads {q after rest} hq hafter := by
    obtain ⟨line, line', q₁, q₂, rfl, hq₁, hq₂⟩ := parenthesized_of_map_token hq
    obtain rfl := List.map_eq_nil_iff.1 hq₂
    obtain ⟨rfl, hended⟩ := hafter
    obtain ⟨params', hread, herase⟩ := hparams.reads hq₁ ⟨line', rfl⟩
    rw [List.cons_append, List.append_assoc]
    refine ⟨.mk params' [] false, .noResult hread hended.1, ?_⟩
    rw [Signature.eraseLines, herase]
    rfl

theorem Spelling.result {params : List Param} {type : TypeExpr} {ts ts' : List Token}
    (hparams : Spelling (.params params) ts) (hparen : type.isParen = false)
    (h : Spelling (.type type) ts') :
    Spelling (.signature (.mk params [.mk none type] false))
      (.leftParen :: (ts ++ .rightParen :: ts')) where
  scans {rest} hrest := by
    have htext : (Phrase.signature (.mk params [.mk none type] false)).text.toList ++ rest =
        "(".toList ++ ((Phrase.params params).text.toList ++ (")".toList ++
          (" ".toList ++ ((Phrase.type type).text.toList ++ rest)))) := by
      simp only [Phrase.text, Signature.render, String.toList_append, List.append_assoc,
        Bool.false_eq_true, if_false]
    rw [htext]
    exact scans_parenthesized hparams (.blank rfl (h.scans hrest))
  balanced := .pair .parens hparams.balanced h.balanced
  reads {q after rest} hq hafter := by
    obtain ⟨line, line', q₁, q₂, rfl, hq₁, hq₂⟩ := parenthesized_of_map_token hq
    obtain ⟨rfl, hended⟩ := hafter
    obtain ⟨params', hparams', hparamsErase⟩ := hparams.reads hq₁ ⟨line', rfl⟩
    obtain ⟨type', hread, herase⟩ := h.reads hq₂ ⟨rfl, hended⟩
    have hnext : next (q₂ ++ after) ≠ some .leftParen := by
      intro hnext
      have hparen' := hread.isParen_of_paren hnext
      rw [← TypeExpr.isParen_eraseLines, herase, TypeExpr.isParen_eraseLines, hparen] at hparen'
      cases hparen'
    rw [List.cons_append, List.append_assoc]
    refine ⟨.mk params' [.mk none type'] false,
      .result hparams' hnext hread.startsType hread, ?_⟩
    simp only [Signature.eraseLines, eraseParams, Param.eraseLines, hparamsErase, herase]

/-- Results in parentheses are written as the parameters are. -/
theorem text_results {params results : List Param} (hne : results ≠ []) :
    (Phrase.signature (.mk params results true)).text =
      "(" ++ (Phrase.params params).text ++ ") (" ++ (Phrase.params results).text ++ ")" := by
  have happend : ∀ s : String, s ++ ")" ++ " (" = s ++ ") (" := by
    intro s
    rw [String.append_assoc]
    rfl
  cases results with
  | nil => exact absurd rfl hne
  | cons result results =>
    obtain ⟨name, type⟩ := result
    cases results with
    | nil =>
      cases name with
      | none =>
        simp only [Phrase.text, Signature.render, renderParams, Param.render,
          String.intercalate_singleton, if_true, happend]
      | some name => simp only [Phrase.text, Signature.render, happend]
    | cons result' results =>
      cases name with
      | none => simp only [Phrase.text, Signature.render, happend]
      | some name => simp only [Phrase.text, Signature.render, happend]

theorem Spelling.results {params results : List Param} {ts ts' : List Token}
    (hparams : Spelling (.params params) ts) (hne : results ≠ [])
    (hresults : Spelling (.params results) ts') :
    Spelling (.signature (.mk params results true))
      (.leftParen :: (ts ++ .rightParen :: .leftParen :: (ts' ++ [Token.rightParen]))) where
  scans {rest} hrest := by
    have htext : (Phrase.signature (.mk params results true)).text.toList ++ rest =
        "(".toList ++ ((Phrase.params params).text.toList ++ (")".toList ++
          (" ".toList ++ ("(".toList ++ ((Phrase.params results).text.toList ++
            (")".toList ++ rest)))))) := by
      simp only [text_results hne, String.toList_append, List.append_assoc]
      rfl
    rw [htext]
    exact scans_parenthesized hparams (.blank rfl (scans_parenthesized hresults .nil))
  balanced := .pair .parens hparams.balanced (.pair .parens hresults.balanced .nil)
  reads {q after rest} hq hafter := by
    obtain ⟨line₁, line₂, q₁, q₂, rfl, hq₁, hq₂⟩ := parenthesized_of_map_token hq
    obtain ⟨line₃, line₄, q₃, q₄, rfl, hq₃, hq₄⟩ := parenthesized_of_map_token hq₂
    obtain rfl := List.map_eq_nil_iff.1 hq₄
    obtain ⟨rfl, -⟩ := hafter
    obtain ⟨params', hparams', hparamsErase⟩ := hparams.reads hq₁ ⟨line₂, rfl⟩
    obtain ⟨results', hresults', hresultsErase⟩ := hresults.reads hq₃ ⟨line₄, rfl⟩
    rw [List.cons_append, List.append_assoc, List.cons_append, List.cons_append,
      List.append_assoc]
    refine ⟨.mk params' results' true, .results hparams' hresults', ?_⟩
    rw [Signature.eraseLines, hparamsErase, hresultsErase]
    rfl

/-- The text of a signature starts with a parenthesis. -/
theorem boundary_signature (signature : Signature) (rest : List Char) :
    Boundary ((Phrase.signature signature).text.toList ++ rest) := by
  obtain ⟨params, results, parenResults⟩ := signature
  have hopen : ∀ s : String, Boundary (("(" ++ s).toList ++ rest) := by
    intro s
    rw [String.toList_append, List.append_assoc]
    exact boundary_cons rfl
  cases results with
  | nil =>
    simp only [Phrase.text, Signature.render, String.append_assoc]
    exact hopen _
  | cons result results =>
    obtain ⟨name, type⟩ := result
    cases results with
    | nil =>
      cases name with
      | none =>
        cases parenResults <;> simp only [Phrase.text, Signature.render, String.append_assoc]
        · exact hopen _
        · exact hopen _
      | some name =>
        simp only [Phrase.text, Signature.render, String.append_assoc]
        exact hopen _
    | cons result' results =>
      cases name <;> simp only [Phrase.text, Signature.render, String.append_assoc]
      · exact hopen _
      · exact hopen _

theorem Spelling.func {signature : Signature} {ts : List Token}
    (h : Spelling (.signature signature) ts) :
    Spelling (.type (.func signature)) (.word "func" :: ts) where
  scans {rest} hrest := by
    have htext : (Phrase.type (.func signature)).text.toList ++ rest =
        "func".toList ++ ((Phrase.signature signature).text.toList ++ rest) := by
      simp only [Phrase.text, TypeExpr.render, String.toList_append, List.append_assoc]
    rw [htext]
    exact (scans_word (w := "func") rfl (boundary_signature signature rest)).trans
      (h.scans hrest)
  balanced := .cons (fun _ => rfl) nofun h.balanced
  reads hq hafter := by
    obtain ⟨line, q, rfl, hq'⟩ := cons_of_map_token hq
    obtain ⟨signature', hread, herase⟩ := h.reads hq' hafter
    exact ⟨.func signature', .func hread, congrArg TypeExpr.func herase⟩

/-! ## Struct members -/

/-- The tokens of names with commas between them. -/
def nameTokens : List String → List Token
  | [] => []
  | name :: names => .word name :: separatedTokens .comma names (nameTokens names)

theorem balanced_nameTokens (names : List String) : Balanced (nameTokens names) := by
  induction names with
  | nil => exact .nil
  | cons name names ih =>
    exact .cons (fun _ => rfl) nofun (balanced_separatedTokens (fun _ => rfl) nofun ih)

theorem scans_names {names : List String} (hnames : ∀ name ∈ names, Identifier name)
    {rest : List Char} (hrest : Boundary rest) :
    Scans ((String.intercalate ", " names).toList ++ rest) (nameTokens names) rest := by
  induction names with
  | nil =>
    rw [String.intercalate_nil]
    exact .nil
  | cons name names ih =>
    have hname : Identifier name := hnames name List.mem_cons_self
    have hmore := ih fun name' hname' => hnames name' (List.mem_cons_of_mem name hname')
    have hboundary : Boundary ((separated ", " names).toList ++ rest) :=
      boundary_separated (fun _ => boundary_cons rfl) hrest
    rw [intercalate_cons, String.toList_append, List.append_assoc]
    exact (scans_identifier hname hboundary).trans
      (scans_separated ", " .comma (fun _ => .token rfl (.blank rfl .nil)) hmore)

theorem reads_names {names : List String} (hne : names ≠ [])
    (hnames : ∀ name ∈ names, Identifier name) {q rest : List Located}
    (hq : q.map Located.token = nameTokens names) (hcomma : next rest ≠ some .comma) :
    ReadsNames names (q ++ rest) rest := by
  induction names generalizing q with
  | nil => exact absurd rfl hne
  | cons name names ih =>
    have hname : Identifier name := hnames name List.mem_cons_self
    obtain ⟨line, q, rfl, hq'⟩ := cons_of_map_token hq
    cases names with
    | nil =>
      obtain rfl := List.map_eq_nil_iff.1 hq'
      exact .last hname.2 hcomma
    | cons name' names =>
      obtain ⟨line', q, rfl, hq''⟩ := cons_of_map_token hq'
      have hmore : ReadsNames (name' :: names) (q ++ rest) rest :=
        ih nofun (fun n hn => hnames n (List.mem_cons_of_mem name hn)) hq''
      exact .cons hname.2 hmore

theorem text_member {names : List String} (hne : names ≠ []) (type : TypeExpr) :
    (Phrase.member names type).text =
      String.intercalate ", " names ++ " " ++ (Phrase.type type).text := by
  cases names with
  | nil => exact absurd rfl hne
  | cons name names => rfl

theorem Spelling.namedMember {names : List String} {type : TypeExpr} {ts : List Token}
    (hne : names ≠ []) (hnames : ∀ name ∈ names, Identifier name)
    (h : Spelling (.type type) ts) : Spelling (.member names type) (nameTokens names ++ ts) where
  scans {rest} hrest := by
    have htext : (Phrase.member names type).text.toList ++ rest =
        (String.intercalate ", " names).toList ++
          (" ".toList ++ ((Phrase.type type).text.toList ++ rest)) := by
      simp only [text_member hne, String.toList_append, List.append_assoc]
    rw [htext]
    have hspace : Scans (" ".toList ++ ((Phrase.type type).text.toList ++ rest)) ts rest :=
      .blank rfl (h.scans hrest)
    exact (scans_names hnames (boundary_cons rfl)).trans hspace
  balanced := (balanced_nameTokens names).append h.balanced
  reads {q after rest} hq hafter := by
    obtain ⟨q₁, q₂, rfl, hq₁, hq₂⟩ := List.map_eq_append_iff.1 hq
    obtain ⟨rfl, hend⟩ := hafter
    obtain ⟨type', hread, herase⟩ := h.reads hq₂ ⟨rfl, ended_of_atMemberEnd hend⟩
    have hstarts := hread.startsType
    have hread_names : ReadsNames names (q₁ ++ (q₂ ++ after)) (q₂ ++ after) :=
      reads_names hne hnames hq₁ (next_ne_of_startsType hstarts rfl)
    rw [List.append_assoc]
    cases names with
    | nil => exact absurd rfl hne
    | cons name names =>
      obtain ⟨line, q₃, rfl, hq₃⟩ := cons_of_map_token hq₁
      cases names with
      | cons name' names =>
        -- a comma behind the first name
        obtain ⟨line', q₄, rfl, -⟩ := cons_of_map_token hq₃
        exact ⟨type', .namedMember nofun rfl nofun hread_names hread, herase⟩
      | nil =>
        obtain rfl := List.map_eq_nil_iff.1 hq₃
        by_cases hbracket : next (q₂ ++ after) = some .leftBracket
        · exact ⟨type', .arrayMember hbracket hread hend, herase⟩
        · have hgoes : atMemberEnd (q₂ ++ after) = false := by
            rw [Bool.eq_false_iff]
            intro hmember
            have hended := (ended_of_atMemberEnd hmember).1
            exact Bool.noConfusion (hstarts.symm.trans hended)
          exact ⟨type', .namedMember (next_ne_of_startsType hstarts rfl) hgoes hbracket hread_names
            hread, herase⟩

theorem Spelling.embeddedPointer {elem : TypeExpr} {ts : List Token}
    (h : Spelling (.type elem) ts) : Spelling (.member [] (.pointer elem)) (.star :: ts) where
  scans hrest := h.pointer.scans hrest
  balanced := h.pointer.balanced
  reads hq hafter := by
    obtain ⟨line, q, rfl, hq'⟩ := cons_of_map_token hq
    obtain ⟨rfl, hend⟩ := hafter
    obtain ⟨type', hread, herase⟩ := h.pointer.reads hq ⟨rfl, ended_of_atMemberEnd hend⟩
    exact ⟨type', .embeddedPointer rfl hread, herase⟩

theorem Spelling.embeddedName {type : TypeExpr} {ts : List Token} (h : NameSpelling type ts) :
    Spelling (.member [] type) ts where
  scans hrest := h.spelling.scans hrest
  balanced := h.balanced
  reads hq hafter := by
    obtain ⟨rfl, hend⟩ := hafter
    obtain ⟨type', hread, herase⟩ := h.spelling.reads hq ⟨rfl, ended_of_atMemberEnd hend⟩
    cases h with
    | named =>
      obtain ⟨line, q, rfl, hq₁⟩ := cons_of_map_token hq
      obtain rfl := List.map_eq_nil_iff.1 hq₁
      exact ⟨type', .embeddedName (.inr hend) hread, herase⟩
    | qualified =>
      obtain ⟨line, q, rfl, hq₁⟩ := cons_of_map_token hq
      obtain ⟨line', q, rfl, hq₂⟩ := cons_of_map_token hq₁
      exact ⟨type', .embeddedName (.inl rfl) hread, herase⟩

/-- Type arguments in brackets at the end of a member are no array type: behind the length, which
they would be, the member ends, and nothing is left for the element. -/
theorem atMemberEnd_of_arguments {args found : List TypeExpr} {ts : List Token}
    (hargs : Spelling (.args args) ts) {line line' : Nat} {q after mid : List Located}
    {other : TypeExpr} (hq : q.map Located.token = ts) (hend : atMemberEnd after = true)
    (hread : Reads (.args found) (q ++ ⟨line', .rightBracket⟩ :: after) after) :
    ¬Reads (.type other) (⟨line, .leftBracket⟩ :: (q ++ ⟨line', .rightBracket⟩ :: after)) mid := by
  intro htrial
  have hstarts := hread.startsType_of_args
  obtain ⟨text, hlength⟩ :=
    hargs.balanced.outcome_arrayLength hq (outcome_arrayLength_end line' after)
  generalize q ++ ⟨line', .rightBracket⟩ :: after = inside at htrial hstarts hlength
  cases htrial with
  | slice => cases hstarts
  | openArray => cases hstarts
  | array _ _ hlength' h =>
    rw [hlength] at hlength'
    cases hlength'
    have hended := (ended_of_atMemberEnd hend).1
    exact Bool.noConfusion (h.startsType.symm.trans hended)
  | name h | generic h =>
    obtain ⟨w, hw⟩ := h.next_eq
    cases hw

theorem Spelling.embeddedGeneric {base : TypeExpr} {args : List TypeExpr} {ts ts' : List Token}
    (hbase : NameSpelling base ts) (hargs : Spelling (.args args) ts') :
    Spelling (.member [] (.generic base args))
      (ts ++ .leftBracket :: (ts' ++ [Token.rightBracket])) where
  scans _ := scans_generic hbase hargs _
  balanced := (Spelling.generic hbase hargs).balanced
  reads {q after rest} hq hafter := by
    obtain ⟨rfl, hend⟩ := hafter
    obtain ⟨type', hread, herase⟩ :=
      (Spelling.generic hbase hargs).reads hq ⟨rfl, ended_of_atMemberEnd hend⟩
    obtain ⟨q₁, q₂, rfl, hq₁, hq₂⟩ := List.map_eq_append_iff.1 hq
    obtain ⟨line, line', q₃, rfl, hq₃⟩ := bracketed_of_map_token hq₂
    obtain ⟨args', hargs', -⟩ := hargs.reads hq₃ ⟨line', rfl⟩
    rw [List.append_assoc, List.cons_append, List.append_assoc] at hread ⊢
    cases hbase with
    | named =>
      obtain ⟨line₁, q, rfl, hq₄⟩ := cons_of_map_token hq₁
      obtain rfl := List.map_eq_nil_iff.1 hq₄
      refine ⟨type', .embeddedGeneric rfl ?_ hread, herase⟩
      intro other mid htrial
      have hother : Reads (.type other) _ mid := reads_of_outcome htrial
      exact absurd hother (atMemberEnd_of_arguments hargs hq₃ hend hargs')
    | qualified =>
      obtain ⟨line₁, q, rfl, hq₄⟩ := cons_of_map_token hq₁
      obtain ⟨line₂, q, rfl, hq₅⟩ := cons_of_map_token hq₄
      exact ⟨type', .embeddedName (.inl rfl) hread, herase⟩

/-- The tokens of a tag. -/
def tagTokens : Option String → List Token
  | some tag => [.str tag]
  | none => []

theorem scans_tag {tag : Option String} (htag : ∀ s ∈ tag, RawTag s) (rest : List Char) :
    Scans ((tagSuffix tag).toList ++ rest) (tagTokens tag) rest := by
  cases tag with
  | none => exact .nil
  | some tag =>
    have hraw : RawTag tag := htag tag rfl
    have htext : (tagSuffix (some tag)).toList ++ rest =
        " \x60".toList ++ (tag.toList ++ "\x60".toList ++ rest) := by
      simp only [tagSuffix, String.toList_append, List.append_assoc]
    rw [htext, List.append_assoc]
    exact .blank rfl (scans_rawString hraw.1 hraw.2 rest)

theorem boundary_tag {tag : Option String} {rest : List Char} (hrest : Boundary rest) :
    Boundary ((tagSuffix tag).toList ++ rest) := by
  cases tag with
  | none => exact hrest
  | some tag =>
    rw [tagSuffix, String.append_assoc, String.toList_append, List.append_assoc]
    exact boundary_cons rfl

theorem balanced_tagTokens (tag : Option String) : Balanced (tagTokens tag) := by
  cases tag with
  | none => exact .nil
  | some tag => exact .cons (fun _ => rfl) nofun .nil

theorem Spelling.noField : Spelling (.fields []) [] where
  scans _ := by
    have htext : (Phrase.fields []).text = "" := by
      simp only [Phrase.text, renderFields, String.intercalate_nil]
    rw [htext]
    exact .nil
  balanced := .nil
  reads hq hafter := by
    obtain rfl := List.map_eq_nil_iff.1 hq
    obtain ⟨line, rfl⟩ := hafter
    exact ⟨[], .noField, rfl⟩

/-- The members behind the first of a list: a semicolon and the other members, or the closing
brace. -/
theorem Spelling.moreFields {fields : List Field} {ts : List Token}
    (h : Spelling (.fields fields) ts) {q after rest : List Located}
    (hq : q.map Located.token = separatedTokens .semicolon (renderFields id fields) ts)
    (hafter : (Phrase.fields fields).Before after rest) :
    atMemberEnd (q ++ after) = true ∧ (∀ s, next (q ++ after) ≠ some (.str s)) ∧
      ∃ mid fields', Ends (q ++ after) mid ∧ Reads (.fields fields') mid rest ∧
        eraseFields fields' = eraseFields fields := by
  cases fields with
  | nil =>
    obtain rfl := List.map_eq_nil_iff.1 hq
    obtain ⟨line, rfl⟩ := hafter
    exact ⟨rfl, nofun, _, [], .before (.inr (.inl rfl)), .noField, rfl⟩
  | cons field fields =>
    obtain ⟨line, q, rfl, hq'⟩ := cons_of_map_token hq
    obtain ⟨fields', hread, herase⟩ := h.reads hq' hafter
    exact ⟨rfl, nofun, _, fields', .semicolon, hread, herase⟩

theorem Spelling.field {line : Nat} {names : List String} {type : TypeExpr} {tag : Option String}
    {fields : List Field} {ts ts' : List Token} (h : Spelling (.member names type) ts)
    (htag : ∀ s ∈ tag, RawTag s) (hfields : Spelling (.fields fields) ts') :
    Spelling (.fields (.mk line names type tag :: fields))
      (ts ++ (tagTokens tag ++ separatedTokens .semicolon (renderFields id fields) ts')) where
  scans {rest} hrest := by
    have htext : (Phrase.fields (.mk line names type tag :: fields)).text.toList ++ rest =
        (Phrase.member names type).text.toList ++ ((tagSuffix tag).toList ++
          ((separated "; " (renderFields id fields)).toList ++ rest)) := by
      simp only [Phrase.text, renderFields, Field.render, intercalate_cons, String.toList_append,
        List.append_assoc]
    have hmore := scans_separated "; " .semicolon (fun _ => .token rfl (.blank rfl .nil))
      (hfields.scans hrest)
    have hboundary : Boundary ((separated "; " (renderFields id fields)).toList ++ rest) :=
      boundary_separated (fun _ => boundary_cons rfl) hrest
    rw [htext]
    exact (h.scans (boundary_tag hboundary)).trans ((scans_tag htag _).trans hmore)
  balanced := h.balanced.append ((balanced_tagTokens tag).append
    (balanced_separatedTokens (fun _ => rfl) nofun hfields.balanced))
  reads {q after rest} hq hafter := by
    obtain ⟨q₁, q', rfl, hq₁, hq'⟩ := List.map_eq_append_iff.1 hq
    obtain ⟨q₂, q₃, rfl, hq₂, hq₃⟩ := List.map_eq_append_iff.1 hq'
    obtain ⟨hend, hstr, mid, fields', hends, hmore, hfieldsErase⟩ := hfields.moreFields hq₃ hafter
    obtain ⟨hend', htag'⟩ : atMemberEnd (q₂ ++ (q₃ ++ after)) = true ∧
        ReadsTag tag (q₂ ++ (q₃ ++ after)) (q₃ ++ after) := by
      cases tag with
      | none =>
        obtain rfl := List.map_eq_nil_iff.1 hq₂
        exact ⟨hend, .none hstr⟩
      | some tag =>
        obtain ⟨line', q₄, rfl, hq₄⟩ := cons_of_map_token hq₂
        obtain rfl := List.map_eq_nil_iff.1 hq₄
        exact ⟨rfl, .tag⟩
    obtain ⟨type', hread, herase⟩ := h.reads hq₁ ⟨rfl, hend'⟩
    rw [List.append_assoc, List.append_assoc]
    refine ⟨_, .field hread htag' hends hmore, ?_⟩
    rw [eraseFields, Field.eraseLines, herase, hfieldsErase]
    rfl

/-! ## Braces -/

/-- Entries in braces behind a keyword; without entries there are no blanks either. -/
theorem scans_inBraces (keyword : String) (hword : Text.isIdentifier keyword.toList = true)
    {parts : List String} {ts : List Token}
    (h : ∀ {s}, Boundary s → Scans ((String.intercalate "; " parts).toList ++ s) ts s)
    (rest : List Char) :
    Scans ((inBraces keyword parts).toList ++ rest)
      (.word keyword :: .leftBrace :: (ts ++ [Token.rightBrace])) rest := by
  cases parts with
  | nil =>
    obtain rfl : ts = [] := by
      have hempty := h boundary_nil
      rw [String.intercalate_nil] at hempty
      cases hempty
      rfl
    have htext : (inBraces keyword []).toList ++ rest =
        keyword.toList ++ ("\x7b\x7d".toList ++ rest) := by
      simp only [inBraces, List.isEmpty_nil, if_true, String.toList_append, List.append_assoc]
    rw [htext]
    exact (scans_word hword (boundary_cons rfl)).trans (.token rfl (.one rfl))
  | cons part parts =>
    have htext : (inBraces keyword (part :: parts)).toList ++ rest =
        keyword.toList ++ ("\x7b ".toList ++
          ((String.intercalate "; " (part :: parts)).toList ++ (" \x7d".toList ++ rest))) := by
      simp only [inBraces, List.isEmpty_cons, Bool.false_eq_true, if_false, String.toList_append,
        List.append_assoc]
    rw [htext]
    have hclose : Scans (" \x7d".toList ++ rest) [.rightBrace] rest := .blank rfl (.one rfl)
    have hopen : Scans ("\x7b ".toList ++
          ((String.intercalate "; " (part :: parts)).toList ++ (" \x7d".toList ++ rest)))
        (.leftBrace :: (ts ++ [Token.rightBrace])) rest :=
      .token rfl (.blank rfl ((h (boundary_cons rfl)).trans hclose))
    exact (scans_word hword (boundary_cons rfl)).trans hopen

/-- Located tokens of entries in braces behind a keyword. -/
theorem braced_of_map_token {keyword : String} {q : List Located} {ts : List Token}
    (h : q.map Located.token = Token.word keyword :: .leftBrace :: (ts ++ [Token.rightBrace])) :
    ∃ (line line' line'' : Nat) (q' : List Located), q = ⟨line, .word keyword⟩ ::
      ⟨line', .leftBrace⟩ :: (q' ++ [⟨line'', .rightBrace⟩]) ∧ q'.map Located.token = ts := by
  obtain ⟨line, q, rfl, hq⟩ := cons_of_map_token h
  obtain ⟨line', q, rfl, hq'⟩ := cons_of_map_token hq
  obtain ⟨q₁, q₂, rfl, hq₁, hq₂⟩ := List.map_eq_append_iff.1 hq'
  obtain ⟨line'', q₃, rfl, hq₃⟩ := cons_of_map_token hq₂
  obtain rfl := List.map_eq_nil_iff.1 hq₃
  exact ⟨line, line', line'', q₁, rfl, hq₁⟩

theorem balanced_braced {keyword : String} {ts : List Token} (h : Balanced ts) :
    Balanced (.word keyword :: .leftBrace :: (ts ++ [Token.rightBrace])) :=
  .cons (fun _ => rfl) nofun (.cons (fun _ => rfl) nofun
    (h.append (.cons (fun _ => rfl) nofun .nil)))

theorem Spelling.struct {fields : List Field} {ts : List Token}
    (h : Spelling (.fields fields) ts) :
    Spelling (.type (.struct fields))
      (.word "struct" :: .leftBrace :: (ts ++ [Token.rightBrace])) where
  scans _ := scans_inBraces "struct" rfl h.scans _
  balanced := balanced_braced h.balanced
  reads {q after rest} hq hafter := by
    obtain ⟨line, line', line'', q', rfl, hq'⟩ := braced_of_map_token hq
    obtain ⟨rfl, -⟩ := hafter
    obtain ⟨fields', hread, herase⟩ := h.reads hq' ⟨line'', rfl⟩
    rw [List.cons_append, List.cons_append, List.append_assoc]
    exact ⟨.struct fields', .struct hread, congrArg TypeExpr.struct herase⟩

theorem Spelling.interface {elems : List InterfaceElem} {ts : List Token}
    (h : Spelling (.elems elems) ts) :
    Spelling (.type (.interface elems))
      (.word "interface" :: .leftBrace :: (ts ++ [Token.rightBrace])) where
  scans _ := scans_inBraces "interface" rfl h.scans _
  balanced := balanced_braced h.balanced
  reads {q after rest} hq hafter := by
    obtain ⟨line, line', line'', q', rfl, hq'⟩ := braced_of_map_token hq
    obtain ⟨rfl, -⟩ := hafter
    obtain ⟨elems', hread, herase⟩ := h.reads hq' ⟨line'', rfl⟩
    rw [List.cons_append, List.cons_append, List.append_assoc]
    exact ⟨.interface elems', .interface hread, congrArg TypeExpr.interface herase⟩

/-! ## Interface elements -/

theorem Spelling.term {approximate : Bool} {type : TypeExpr} {ts : List Token}
    (h : Spelling (.type type) ts) :
    ∃ ts', Spelling (.term (.mk approximate type)) ts' := by
  cases approximate with
  | true =>
    refine ⟨.tilde :: ts, ⟨?_, .cons (fun _ => rfl) nofun h.balanced, ?_⟩⟩
    · intro rest hrest
      have htext : (Phrase.term (.mk true type)).text.toList ++ rest =
          "~".toList ++ ((Phrase.type type).text.toList ++ rest) := by
        simp only [Phrase.text, UnionTerm.render, String.toList_append, List.append_assoc]
      rw [htext]
      exact .token rfl (h.scans hrest)
    · intro q after rest hq hafter
      obtain ⟨line, q, rfl, hq'⟩ := cons_of_map_token hq
      obtain ⟨type', hread, herase⟩ := h.reads hq' hafter
      exact ⟨.mk true type', .approximate hread, congrArg (UnionTerm.mk true) herase⟩
  | false =>
    refine ⟨ts, ⟨h.scans, h.balanced, ?_⟩⟩
    intro q after rest hq hafter
    obtain ⟨type', hread, herase⟩ := h.reads hq hafter
    exact ⟨.mk false type', .exact hread, congrArg (UnionTerm.mk false) herase⟩

theorem Spelling.lastTerm {term : UnionTerm} {ts : List Token} (h : Spelling (.term term) ts) :
    Spelling (.terms [term]) ts where
  scans hrest := by
    have htext : (Phrase.terms [term]).text = (Phrase.term term).text := by
      simp only [Phrase.text, renderTerms, String.intercalate_singleton]
    rw [htext]
    exact h.scans hrest
  balanced := h.balanced
  reads {q after rest} hq hafter := by
    obtain ⟨rfl, hend⟩ := hafter
    obtain ⟨hended, hbar⟩ : Ended after ∧ next after ≠ some (.operator "|") := by
      unfold Ended NoType
      rcases hend with hend | hend
      · rw [hend]
        exact ⟨⟨rfl, by decide⟩, by decide⟩
      · rw [hend]
        exact ⟨⟨rfl, by decide⟩, by decide⟩
    obtain ⟨term', hread, herase⟩ := h.reads hq ⟨rfl, hended⟩
    exact ⟨[term'], .lastTerm hread hbar, by rw [eraseTerms, herase, eraseTerms]; rfl⟩

theorem Spelling.nextTerm {term : UnionTerm} {terms : List UnionTerm} {ts ts' : List Token}
    (h : Spelling (.term term) ts) (hne : terms ≠ []) (hterms : Spelling (.terms terms) ts') :
    Spelling (.terms (term :: terms)) (ts ++ .operator "|" :: ts') where
  scans {rest} hrest := by
    have hne' : renderTerms id terms ≠ [] := by
      cases terms with
      | nil => exact absurd rfl hne
      | cons => exact List.cons_ne_nil _ _
    have htext : (Phrase.terms (term :: terms)).text.toList ++ rest =
        (Phrase.term term).text.toList ++
          (" | ".toList ++ ((Phrase.terms terms).text.toList ++ rest)) := by
      simp only [Phrase.text, renderTerms, String.intercalate_cons_of_ne_nil hne',
        String.toList_append, List.append_assoc]
    rw [htext]
    have hbar : Scans (" | ".toList ++ ((Phrase.terms terms).text.toList ++ rest))
        (.operator "|" :: ts') rest := .blank rfl (.token rfl (.blank rfl (hterms.scans hrest)))
    exact (h.scans (boundary_cons rfl)).trans hbar
  balanced := h.balanced.append (.cons (fun _ => rfl) Token.noConfusion hterms.balanced)
  reads {q after rest} hq hafter := by
    obtain ⟨q₁, q₂, rfl, hq₁, hq₂⟩ := List.map_eq_append_iff.1 hq
    obtain ⟨line, q₃, rfl, hq₃⟩ := cons_of_map_token hq₂
    have hbar : Ended (⟨line, .operator "|"⟩ :: (q₃ ++ after)) := ended_cons rfl Token.noConfusion
    obtain ⟨term', hread, herase⟩ := h.reads hq₁ ⟨rfl, hbar⟩
    obtain ⟨terms', hterms', htermsErase⟩ := hterms.reads hq₃ hafter
    rw [List.append_assoc]
    refine ⟨term' :: terms', .nextTerm hread hterms', ?_⟩
    rw [eraseTerms, herase, htermsErase]
    rfl

theorem Spelling.noElem : Spelling (.elems []) [] where
  scans _ := by
    have htext : (Phrase.elems []).text = "" := by
      simp only [Phrase.text, renderElems, String.intercalate_nil]
    rw [htext]
    exact .nil
  balanced := .nil
  reads hq hafter := by
    obtain rfl := List.map_eq_nil_iff.1 hq
    obtain ⟨line, rfl⟩ := hafter
    exact ⟨[], .noElem, rfl⟩

/-- The elements behind the first of a list: a semicolon and the other elements, or the closing
brace. -/
theorem Spelling.moreElems {elems : List InterfaceElem} {ts : List Token}
    (h : Spelling (.elems elems) ts) {q after rest : List Located}
    (hq : q.map Located.token = separatedTokens .semicolon (renderElems id elems) ts)
    (hafter : (Phrase.elems elems).Before after rest) :
    (next (q ++ after) = some .semicolon ∨ next (q ++ after) = some .rightBrace) ∧
      ∃ mid elems', Ends (q ++ after) mid ∧ Reads (.elems elems') mid rest ∧
        eraseElems elems' = eraseElems elems := by
  cases elems with
  | nil =>
    obtain rfl := List.map_eq_nil_iff.1 hq
    obtain ⟨line, rfl⟩ := hafter
    exact ⟨.inr rfl, _, [], .before (.inr (.inl rfl)), .noElem, rfl⟩
  | cons elem elems =>
    obtain ⟨line, q, rfl, hq'⟩ := cons_of_map_token hq
    obtain ⟨elems', hread, herase⟩ := h.reads hq' hafter
    exact ⟨.inl rfl, _, elems', .semicolon, hread, herase⟩

theorem scans_elems {elem : InterfaceElem} {elems : List InterfaceElem} {ts ts' : List Token}
    (helem : ∀ {s : List Char}, Boundary s → Scans ((elem.render id).toList ++ s) ts s)
    (helems : Spelling (.elems elems) ts') {rest : List Char} (hrest : Boundary rest) :
    Scans ((Phrase.elems (elem :: elems)).text.toList ++ rest)
      (ts ++ separatedTokens .semicolon (renderElems id elems) ts') rest := by
  have htext : (Phrase.elems (elem :: elems)).text.toList ++ rest =
      (elem.render id).toList ++ ((separated "; " (renderElems id elems)).toList ++ rest) := by
    simp only [Phrase.text, renderElems, intercalate_cons, String.toList_append,
      List.append_assoc]
  rw [htext]
  have hboundary : Boundary ((separated "; " (renderElems id elems)).toList ++ rest) :=
    boundary_separated (fun _ => boundary_cons rfl) hrest
  have hmore := scans_separated "; " .semicolon (fun _ => .token rfl (.blank rfl .nil))
    (helems.scans hrest)
  exact (helem hboundary).trans hmore

theorem Reads.next_of_signature {signature : Signature} {ts rest : List Located}
    (h : Reads (.signature signature) ts rest) : next ts = some .leftParen := by
  cases h with
  | results => rfl
  | result => rfl
  | noResult => rfl

theorem Spelling.method {name : String} {signature : Signature} {elems : List InterfaceElem}
    {ts ts' : List Token} (hname : Identifier name) (h : Spelling (.signature signature) ts)
    (helems : Spelling (.elems elems) ts') :
    Spelling (.elems (.method name signature :: elems))
      (.word name :: ts ++ separatedTokens .semicolon (renderElems id elems) ts') where
  scans hrest := by
    refine scans_elems (fun {s} hs => ?_) helems hrest
    have htext : ((InterfaceElem.method name signature).render id).toList ++ s =
        name.toList ++ ((Phrase.signature signature).text.toList ++ s) := by
      simp only [Phrase.text, InterfaceElem.render, String.toList_append, List.append_assoc]
    rw [htext]
    exact (scans_identifier hname (boundary_signature signature s)).trans (h.scans hs)
  balanced := .cons (fun _ => rfl) Token.noConfusion
    (h.balanced.append (balanced_separatedTokens (fun _ => rfl) Token.noConfusion helems.balanced))
  reads {q after rest} hq hafter := by
    obtain ⟨line, q, rfl, hq'⟩ := cons_of_map_token hq
    obtain ⟨q₁, q₂, rfl, hq₁, hq₂⟩ := List.map_eq_append_iff.1 hq'
    obtain ⟨hnext, mid, elems', hends, hmore, helemsErase⟩ := helems.moreElems hq₂ hafter
    have hended : Ended (q₂ ++ after) := by
      unfold Ended NoType
      rcases hnext with hnext | hnext
      · rw [hnext]
        exact ⟨rfl, by decide⟩
      · rw [hnext]
        exact ⟨rfl, by decide⟩
    obtain ⟨signature', hread, herase⟩ := h.reads hq₁ ⟨rfl, hended⟩
    rw [List.cons_append, List.append_assoc]
    refine ⟨.method name signature' :: elems',
      .method hname.2 hread.next_of_signature hread hends hmore, ?_⟩
    rw [eraseElems, InterfaceElem.eraseLines, herase, helemsErase]
    rfl

/-- A union starts with a word before a parenthesis only if its first term is like a method. -/
theorem Reads.isMethodLike_of_terms {terms : List UnionTerm} {line : Nat} {w : String}
    {ts rest : List Located} (h : Reads (.terms terms) (⟨line, .word w⟩ :: ts) rest)
    (hnext : next ts = some .leftParen) (hrest : next rest ≠ some .leftParen) :
    ∃ type, terms.head? = some (.mk false type) ∧ type.isMethodLike = true := by
  have hterm : ∀ {term mid}, Reads (.term term) (⟨line, .word w⟩ :: ts) mid →
      next mid ≠ some .leftParen →
      ∃ type, some term = some (.mk false type) ∧ type.isMethodLike = true := by
    intro term mid hterm hmid
    cases hterm with
    | exact h => exact ⟨_, rfl, h.isMethodLike_of_paren hnext hmid⟩
  cases h with
  | lastTerm h => exact hterm h hrest
  | nextTerm h => exact hterm h nofun

theorem Spelling.union {terms : List UnionTerm} {elems : List InterfaceElem} {ts ts' : List Token}
    (hfirst : ∀ type, terms.head? = some (.mk false type) → type.isMethodLike = false)
    (h : Spelling (.terms terms) ts) (helems : Spelling (.elems elems) ts') :
    Spelling (.elems (.union terms :: elems))
      (ts ++ separatedTokens .semicolon (renderElems id elems) ts') where
  scans hrest := @scans_elems (.union terms) elems ts ts' h.scans helems _ hrest
  balanced := h.balanced.append (balanced_separatedTokens (fun _ => rfl) nofun helems.balanced)
  reads {q after rest} hq hafter := by
    obtain ⟨q₁, q₂, rfl, hq₁, hq₂⟩ := List.map_eq_append_iff.1 hq
    obtain ⟨hnext, mid, elems', hends, hmore, helemsErase⟩ := helems.moreElems hq₂ hafter
    obtain ⟨terms', hread, herase⟩ := h.reads hq₁ ⟨rfl, hnext⟩
    have hmethod : ∀ line w more, q₁ ++ (q₂ ++ after) = ⟨line, .word w⟩ :: more →
        next more ≠ some .leftParen := by
      intro line w more hmore hparen
      rw [hmore] at hread
      have hrest : next (q₂ ++ after) ≠ some .leftParen := by
        rcases hnext with hnext | hnext
        · rw [hnext]
          exact nofun
        · rw [hnext]
          exact nofun
      obtain ⟨type', hhead, hlike⟩ := hread.isMethodLike_of_terms hparen hrest
      cases terms' with
      | nil => cases hhead
      | cons term' terms' =>
        cases hhead
        cases terms with
        | nil => cases herase
        | cons term terms =>
          obtain ⟨approximate, type⟩ := term
          simp only [eraseTerms, UnionTerm.eraseLines, List.cons.injEq, UnionTerm.mk.injEq]
            at herase
          obtain ⟨⟨rfl, htype⟩, -⟩ := herase
          rw [← TypeExpr.isMethodLike_eraseLines, htype, TypeExpr.isMethodLike_eraseLines,
            hfirst type rfl] at hlike
          cases hlike
    rw [List.append_assoc]
    refine ⟨.union terms' :: elems', .union hmethod hread hends hmore, ?_⟩
    rw [eraseElems, InterfaceElem.eraseLines, herase, helemsErase]
    rfl

/-! ## Well-formed phrases -/

theorem WellFormed.args_ne_nil {args : List TypeExpr} (h : WellFormed (.args args)) :
    args ≠ [] := by
  cases h with
  | lastArg => exact nofun
  | nextArg => exact nofun

theorem WellFormed.terms_ne_nil {terms : List UnionTerm} (h : WellFormed (.terms terms)) :
    terms ≠ [] := by
  cases h with
  | lastTerm => exact nofun
  | nextTerm => exact nofun

/-- Every well-formed phrase has a spelling. -/
theorem WellFormed.spelling {phrase : Phrase} (h : WellFormed phrase) :
    ∃ ts, Spelling phrase ts := by
  induction h with
  | name h =>
    obtain ⟨ts, hname⟩ := h.spelling
    exact ⟨ts, hname.spelling⟩
  | pointer _ ih =>
    obtain ⟨ts, h⟩ := ih
    exact ⟨_, h.pointer⟩
  | slice _ ih =>
    obtain ⟨ts, h⟩ := ih
    exact ⟨_, h.slice⟩
  | array hlength _ ih =>
    obtain ⟨ts, h⟩ := ih
    exact Spelling.anyArray hlength h
  | map _ _ ihkey ihvalue =>
    obtain ⟨ts, hkey⟩ := ihkey
    obtain ⟨ts', hvalue⟩ := ihvalue
    exact ⟨_, hkey.map hvalue⟩
  | chan hdir _ ih =>
    obtain ⟨ts, h⟩ := ih
    exact Spelling.chan hdir h
  | func _ ih =>
    obtain ⟨ts, h⟩ := ih
    exact ⟨_, h.func⟩
  | struct _ ih =>
    obtain ⟨ts, h⟩ := ih
    exact ⟨_, h.struct⟩
  | interface _ ih =>
    obtain ⟨ts, h⟩ := ih
    exact ⟨_, h.interface⟩
  | generic hbase _ ih =>
    obtain ⟨ts, hname⟩ := hbase.spelling
    obtain ⟨ts', hargs⟩ := ih
    exact ⟨_, .generic hname hargs⟩
  | paren _ ih =>
    obtain ⟨ts, h⟩ := ih
    exact ⟨_, h.paren⟩
  | lastArg _ ih =>
    obtain ⟨ts, h⟩ := ih
    exact ⟨_, h.lastArg⟩
  | nextArg _ hargs ih ihargs =>
    obtain ⟨ts, h⟩ := ih
    obtain ⟨ts', h'⟩ := ihargs
    exact ⟨_, h.nextArg hargs.args_ne_nil h'⟩
  | noResult _ ih =>
    obtain ⟨ts, h⟩ := ih
    exact ⟨_, h.noResult⟩
  | result _ hparen _ ihparams ih =>
    obtain ⟨ts, hparams⟩ := ihparams
    obtain ⟨ts', h⟩ := ih
    exact ⟨_, hparams.result hparen h⟩
  | results _ hne _ ihparams ihresults =>
    obtain ⟨ts, hparams⟩ := ihparams
    obtain ⟨ts', hresults⟩ := ihresults
    exact ⟨_, hparams.results hne hresults⟩
  | noParam => exact ⟨_, .noParam⟩
  | param _ _ ih ihparams =>
    obtain ⟨ts, h⟩ := ih
    obtain ⟨ts', hparams⟩ := ihparams
    exact ⟨_, h.param hparams⟩
  | namedParam hname hbracket _ _ ih ihparams =>
    obtain ⟨ts, h⟩ := ih
    obtain ⟨ts', hparams⟩ := ihparams
    exact ⟨_, h.namedParam hname hbracket hparams⟩
  | variadic _ _ ih ihparams =>
    obtain ⟨ts, h⟩ := ih
    obtain ⟨ts', hparams⟩ := ihparams
    exact ⟨_, h.variadic hparams⟩
  | namedVariadic hname _ _ ih ihparams =>
    obtain ⟨ts, h⟩ := ih
    obtain ⟨ts', hparams⟩ := ihparams
    exact ⟨_, h.namedVariadic hname hparams⟩
  | noField => exact ⟨_, .noField⟩
  | field _ htag _ ih ihfields =>
    obtain ⟨ts, h⟩ := ih
    obtain ⟨ts', hfields⟩ := ihfields
    exact ⟨_, h.field htag hfields⟩
  | namedMember hne hnames _ ih =>
    obtain ⟨ts, h⟩ := ih
    exact ⟨_, h.namedMember hne hnames⟩
  | embeddedName h =>
    obtain ⟨ts, hname⟩ := h.spelling
    exact ⟨ts, .embeddedName hname⟩
  | embeddedPointer _ ih =>
    obtain ⟨ts, h⟩ := ih
    exact ⟨_, h.embeddedPointer⟩
  | embeddedGeneric hbase _ ih =>
    obtain ⟨ts, hname⟩ := hbase.spelling
    obtain ⟨ts', hargs⟩ := ih
    exact ⟨_, .embeddedGeneric hname hargs⟩
  | noElem => exact ⟨_, .noElem⟩
  | method hname _ _ ih ihelems =>
    obtain ⟨ts, h⟩ := ih
    obtain ⟨ts', helems⟩ := ihelems
    exact ⟨_, h.method hname helems⟩
  | union hfirst _ _ ih ihelems =>
    obtain ⟨ts, h⟩ := ih
    obtain ⟨ts', helems⟩ := ihelems
    exact ⟨_, h.union hfirst helems⟩
  | lastTerm _ ih =>
    obtain ⟨ts, h⟩ := ih
    exact ⟨_, h.lastTerm⟩
  | nextTerm _ hterms ih ihterms =>
    obtain ⟨ts, h⟩ := ih
    obtain ⟨ts', h'⟩ := ihterms
    exact ⟨_, h.nextTerm hterms.terms_ne_nil h'⟩
  | term _ ih =>
    obtain ⟨ts, h⟩ := ih
    exact h.term

end StructCopy.Go
