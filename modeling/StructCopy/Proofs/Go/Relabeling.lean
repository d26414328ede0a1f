/-
  Proofs/Go/Relabeling: what is read does not depend on the lines of the tokens.

  Tokens that stay the same while their lines change are read alike: the same phrases
  stand at the same places, and only the lines kept in struct members, imports and type
  declarations differ.  The trial in a struct member is the one place where it matters
  that this holds in both directions, so that phrases are taken by their length.
-/
import StructCopy.Proofs.Go.FileGrammar
import StructCopy.Proofs.Go.Relocation
import StructCopy.Proofs.Go.Spelling

set_option autoImplicit false

namespace StructCopy.Go

/-! ## Tokens without lines -/

/-- The tokens are the same, on whatever lines they stand. -/
def SameTokens (ts ts' : List Located) : Prop :=
  ts.map Located.token = ts'.map Located.token

theorem SameTokens.symm {ts ts' : List Located} (h : SameTokens ts ts') : SameTokens ts' ts :=
  Eq.symm h

theorem SameTokens.of_cons {t : Located} {ts list : List Located}
    (h : SameTokens (t :: ts) list) :
    ∃ line ts', list = ⟨line, t.token⟩ :: ts' ∧ SameTokens ts ts' := by
  obtain ⟨line, ts', hlist, hts⟩ := cons_of_map_token h.symm
  exact ⟨line, ts', hlist, hts.symm⟩

theorem SameTokens.of_nil {list : List Located} (h : SameTokens [] list) : list = [] :=
  List.map_eq_nil_iff.1 h.symm

theorem SameTokens.next_eq {ts ts' : List Located} (h : SameTokens ts ts') :
    next ts = next ts' := by
  cases ts with
  | nil => rw [h.of_nil]
  | cons t ts =>
    obtain ⟨line, ts', rfl, -⟩ := h.of_cons
    rfl

theorem SameTokens.length_eq {ts ts' : List Located} (h : SameTokens ts ts') :
    ts.length = ts'.length := by
  have hlength := congrArg List.length h
  rwa [List.length_map, List.length_map] at hlength

/-! ## Small phrases -/

variable {ts ts' rest : List Located}

theorem ReadsName.relabel {type : TypeExpr} (h : ReadsName type ts rest)
    (hsame : SameTokens ts ts') : ∃ rest', SameTokens rest rest' ∧ ReadsName type ts' rest' := by
  cases h with
  | named hw hdot =>
    obtain ⟨_, rest', rfl, hrest⟩ := hsame.of_cons
    rw [hrest.next_eq] at hdot
    exact ⟨rest', hrest, .named hw hdot⟩
  | qualified hw hw' =>
    obtain ⟨_, _, rfl, hdot⟩ := hsame.of_cons
    obtain ⟨_, _, rfl, hword⟩ := hdot.of_cons
    obtain ⟨_, rest', rfl, hrest⟩ := hword.of_cons
    exact ⟨rest', hrest, .qualified hw hw'⟩

theorem ReadsNames.relabel {names : List String} (h : ReadsNames names ts rest)
    (hsame : SameTokens ts ts') :
    ∃ rest', SameTokens rest rest' ∧ ReadsNames names ts' rest' := by
  induction h generalizing ts' with
  | last hw hcomma =>
    obtain ⟨_, rest', rfl, hrest⟩ := hsame.of_cons
    rw [hrest.next_eq] at hcomma
    exact ⟨rest', hrest, .last hw hcomma⟩
  | cons hw _ ih =>
    obtain ⟨_, _, rfl, hcomma⟩ := hsame.of_cons
    obtain ⟨_, _, rfl, hts⟩ := hcomma.of_cons
    obtain ⟨rest', hrest, hread⟩ := ih hts
    exact ⟨rest', hrest, .cons hw hread⟩

theorem ReadsTag.relabel {tag : Option String} (h : ReadsTag tag ts rest)
    (hsame : SameTokens ts ts') : ∃ rest', SameTokens rest rest' ∧ ReadsTag tag ts' rest' := by
  cases h with
  | tag =>
    obtain ⟨_, rest', rfl, hrest⟩ := hsame.of_cons
    exact ⟨rest', hrest, .tag⟩
  | none h => exact ⟨ts', hsame, .none fun s => hsame.next_eq ▸ h s⟩

theorem Ends.relabel (h : Ends ts rest) (hsame : SameTokens ts ts') :
    ∃ rest', SameTokens rest rest' ∧ Ends ts' rest' := by
  cases h with
  | semicolon =>
    obtain ⟨_, rest', rfl, hrest⟩ := hsame.of_cons
    exact ⟨rest', hrest, .semicolon⟩
  | before h =>
    refine ⟨ts', hsame, .before ?_⟩
    rw [hsame.next_eq] at h
    exact h.imp_right (Or.imp_right fun hnil => (hnil ▸ hsame).of_nil)

theorem SameTokens.skipComma (h : SameTokens ts ts') :
    SameTokens (skipComma ts).val (skipComma ts').val := by
  by_cases hcomma : next ts = some .comma
  · cases ts with
    | nil => cases hcomma
    | cons t ts =>
      obtain ⟨line, token⟩ := t
      cases hcomma
      obtain ⟨_, ts', rfl, hts⟩ := h.of_cons
      exact hts
  · have hcomma' := hcomma
    rw [h.next_eq] at hcomma'
    rw [skipComma_of_next_ne hcomma, skipComma_of_next_ne hcomma']
    exact h

theorem outcome_arrayLength_relabel {depth : Nat} {text : String}
    (h : outcome (arrayLength depth ts) = some (text, rest)) (hsame : SameTokens ts ts') :
    ∃ rest', SameTokens rest rest' ∧ outcome (arrayLength depth ts') = some (text, rest') := by
  induction ts generalizing depth text ts' with
  | nil => cases h
  | cons t ts ih =>
    obtain ⟨line, token⟩ := t
    obtain ⟨line', ts', rfl, hts⟩ := hsame.of_cons
    by_cases hclose : token = .rightBracket ∧ depth = 0
    · obtain ⟨rfl, rfl⟩ := hclose
      rw [outcome_arrayLength_end] at h
      cases h
      exact ⟨ts', hts, outcome_arrayLength_end line' ts'⟩
    · obtain ⟨more, rfl, hmore⟩ := exists_of_outcome_arrayLength_cons hclose h
      obtain ⟨rest', hrest, hread⟩ := ih hmore hts
      exact ⟨rest', hrest, outcome_arrayLength_cons hclose hread⟩

theorem eq_named_of_eraseLines {type : TypeExpr} {name : String}
    (h : type.eraseLines = (TypeExpr.named name).eraseLines) : type = .named name := by
  cases type <;> cases h
  rfl

/-! ## Phrases -/

/-- Phrases with at most `bound` tokens are read alike on other lines. -/
def Relabels (bound : Nat) : Prop :=
  ∀ {phrase : Phrase} {ts rest ts' : List Located}, Reads phrase ts rest → SameTokens ts ts' →
    ts.length ≤ bound → ∃ rest', SameTokens rest rest' ∧ phrase.ReadBack ts' rest'

/-- The trial of an array type in a struct member comes to the same end on other lines. -/
theorem Relabels.trial {bound : Nat} (hbounded : Relabels bound) (hsame : SameTokens ts ts')
    (hbound : ts.length ≤ bound)
    (htrial : ∀ other mid, outcome (typeExpr ts) = some (other, mid) → atMemberEnd mid = false)
    {other : TypeExpr} {mid : List Located} (h : outcome (typeExpr ts') = some (other, mid)) :
    atMemberEnd mid = false := by
  have hread : Reads (.type other) ts' mid := reads_of_outcome h
  rw [hsame.length_eq] at hbound
  obtain ⟨mid', hmid, other', hread', -⟩ := hbounded hread hsame.symm hbound
  rw [atMemberEnd_congr hmid.next_eq]
  exact htrial other' mid' hread'.outcome_eq

/-- From the phrases with at most `bound` tokens to those with one more. -/
theorem Relabels.succ {bound : Nat} (hbounded : Relabels bound) : Relabels (bound + 1) := by
  intro phrase ts rest ts' h hsame hbound
  generalize hlimit : bound + 1 = limit at hbound
  induction h generalizing ts' with
  -- types
  | pointer _ ih =>
    obtain ⟨_, _, rfl, hts⟩ := hsame.of_cons
    obtain ⟨rest', hrest, elem, hread, herase⟩ := ih hts (Nat.le_of_succ_le hbound)
    exact ⟨rest', hrest, .pointer elem, .pointer hread, congrArg TypeExpr.pointer herase⟩
  | slice _ ih =>
    obtain ⟨_, _, rfl, hclose⟩ := hsame.of_cons
    obtain ⟨_, _, rfl, hts⟩ := hclose.of_cons
    obtain ⟨rest', hrest, elem, hread, herase⟩ :=
      ih hts (Nat.le_of_succ_le (Nat.le_of_succ_le hbound))
    exact ⟨rest', hrest, .slice elem, .slice hread, congrArg TypeExpr.slice herase⟩
  | openArray _ ih =>
    obtain ⟨_, _, rfl, hdots⟩ := hsame.of_cons
    obtain ⟨_, _, rfl, hclose⟩ := hdots.of_cons
    obtain ⟨_, _, rfl, hts⟩ := hclose.of_cons
    obtain ⟨rest', hrest, elem, hread, herase⟩ :=
      ih hts (Nat.le_of_succ_le (Nat.le_of_succ_le (Nat.le_of_succ_le hbound)))
    exact ⟨rest', hrest, .array "..." elem, .openArray hread,
      congrArg (TypeExpr.array "...") herase⟩
  | array hslice hopen hlength _ ih =>
    obtain ⟨_, _, rfl, hts⟩ := hsame.of_cons
    have hlt := length_lt_of_outcome hlength
    rw [hts.next_eq] at hslice hopen
    obtain ⟨mid, hmid, hlength'⟩ := outcome_arrayLength_relabel hlength hts
    obtain ⟨rest', hrest, elem, hread, herase⟩ :=
      ih hmid (Nat.le_trans (Nat.le_of_lt hlt) (Nat.le_of_succ_le hbound))
    exact ⟨rest', hrest, .array _ elem, .array hslice hopen hlength' hread,
      congrArg (TypeExpr.array _) herase⟩
  | paren _ ih =>
    obtain ⟨_, _, rfl, hts⟩ := hsame.of_cons
    obtain ⟨_, hclose, inner, hread, herase⟩ := ih hts (Nat.le_of_succ_le hbound)
    obtain ⟨_, rest', rfl, hrest⟩ := hclose.of_cons
    exact ⟨rest', hrest, .paren inner, .paren hread, congrArg TypeExpr.paren herase⟩
  | receive _ ih =>
    obtain ⟨_, _, rfl, hword⟩ := hsame.of_cons
    obtain ⟨_, _, rfl, hts⟩ := hword.of_cons
    obtain ⟨rest', hrest, elem, hread, herase⟩ :=
      ih hts (Nat.le_of_succ_le (Nat.le_of_succ_le hbound))
    exact ⟨rest', hrest, .chan .receive elem, .receive hread,
      congrArg (TypeExpr.chan .receive) herase⟩
  | map hkey _ ihkey ihvalue =>
    have hshort := Nat.le_of_succ_le (Nat.le_of_succ_le hbound)
    obtain ⟨_, _, rfl, hopen⟩ := hsame.of_cons
    obtain ⟨_, _, rfl, hts⟩ := hopen.of_cons
    obtain ⟨_, hclose, key, hkey', hkeyErase⟩ := ihkey hts hshort
    obtain ⟨_, mid, rfl, hmid⟩ := hclose.of_cons
    obtain ⟨rest', hrest, value, hvalue', hvalueErase⟩ :=
      ihvalue hmid (Nat.le_of_succ_le (hkey.length_le_of_le hshort))
    refine ⟨rest', hrest, .map key value, .map hkey' hvalue', ?_⟩
    rw [TypeExpr.eraseLines, hkeyErase, hvalueErase]
    rfl
  | send _ ih =>
    obtain ⟨_, _, rfl, harrow⟩ := hsame.of_cons
    obtain ⟨_, _, rfl, hts⟩ := harrow.of_cons
    obtain ⟨rest', hrest, elem, hread, herase⟩ :=
      ih hts (Nat.le_of_succ_le (Nat.le_of_succ_le hbound))
    exact ⟨rest', hrest, .chan .send elem, .send hread, congrArg (TypeExpr.chan .send) herase⟩
  | chan harrow _ ih =>
    obtain ⟨_, _, rfl, hts⟩ := hsame.of_cons
    rw [hts.next_eq] at harrow
    obtain ⟨rest', hrest, elem, hread, herase⟩ := ih hts (Nat.le_of_succ_le hbound)
    exact ⟨rest', hrest, .chan .both elem, .chan harrow hread,
      congrArg (TypeExpr.chan .both) herase⟩
  | func _ ih =>
    obtain ⟨_, _, rfl, hts⟩ := hsame.of_cons
    obtain ⟨rest', hrest, signature, hread, herase⟩ := ih hts (Nat.le_of_succ_le hbound)
    exact ⟨rest', hrest, .func signature, .func hread, congrArg TypeExpr.func herase⟩
  | struct _ ih =>
    obtain ⟨_, _, rfl, hopen⟩ := hsame.of_cons
    obtain ⟨_, _, rfl, hts⟩ := hopen.of_cons
    obtain ⟨rest', hrest, fields, hread, herase⟩ :=
      ih hts (Nat.le_of_succ_le (Nat.le_of_succ_le hbound))
    exact ⟨rest', hrest, .struct fields, .struct hread, congrArg TypeExpr.struct herase⟩
  | interface _ ih =>
    obtain ⟨_, _, rfl, hopen⟩ := hsame.of_cons
    obtain ⟨_, _, rfl, hts⟩ := hopen.of_cons
    obtain ⟨rest', hrest, elems, hread, herase⟩ :=
      ih hts (Nat.le_of_succ_le (Nat.le_of_succ_le hbound))
    exact ⟨rest', hrest, .interface elems, .interface hread, congrArg TypeExpr.interface herase⟩
  | name h hbracket =>
    obtain ⟨rest', hrest, hname⟩ := h.relabel hsame
    rw [hrest.next_eq] at hbracket
    exact ⟨rest', hrest, _, .name hname hbracket, rfl⟩
  | generic hbase _ ih =>
    have hlt := length_lt_of_outcome hbase.outcome_eq
    obtain ⟨_, hopen, hbase'⟩ := hbase.relabel hsame
    obtain ⟨_, mid, rfl, hmid⟩ := hopen.of_cons
    obtain ⟨rest', hrest, args, hread, herase⟩ :=
      ih hmid (Nat.le_of_succ_le (Nat.le_trans (Nat.le_of_lt hlt) hbound))
    exact ⟨rest', hrest, .generic _ args, .generic hbase' hread,
      congrArg (TypeExpr.generic _) herase⟩
  -- type arguments
  | lastArg _ ih =>
    obtain ⟨_, hclose, arg, hread, herase⟩ := ih hsame hbound
    obtain ⟨_, rest', rfl, hrest⟩ := hclose.of_cons
    exact ⟨rest', hrest, [arg], .lastArg hread, congrArg (· :: []) herase⟩
  | lastArgComma _ ih =>
    obtain ⟨_, hcomma, arg, hread, herase⟩ := ih hsame hbound
    obtain ⟨_, _, rfl, hclose⟩ := hcomma.of_cons
    obtain ⟨_, rest', rfl, hrest⟩ := hclose.of_cons
    exact ⟨rest', hrest, [arg], .lastArgComma hread, congrArg (· :: []) herase⟩
  | nextArg h hmid _ ih ihargs =>
    obtain ⟨_, hcomma, arg, hread, herase⟩ := ih hsame hbound
    obtain ⟨_, _, rfl, hargs⟩ := hcomma.of_cons
    rw [hargs.next_eq] at hmid
    obtain ⟨rest', hrest, args, hread', herase'⟩ :=
      ihargs hargs (Nat.le_of_succ_le (h.length_le_of_le hbound))
    refine ⟨rest', hrest, arg :: args, .nextArg hread hmid hread', ?_⟩
    rw [eraseTypes, herase, herase']
    rfl
  -- signatures
  | results hparams _ ihparams ihresults =>
    have hshort := Nat.le_of_succ_le hbound
    obtain ⟨_, _, rfl, hts⟩ := hsame.of_cons
    obtain ⟨_, hopen, params, hread, herase⟩ := ihparams hts hshort
    obtain ⟨_, _, rfl, hmid⟩ := hopen.of_cons
    obtain ⟨rest', hrest, results, hread', herase'⟩ :=
      ihresults hmid (Nat.le_of_succ_le (hparams.length_le_of_le hshort))
    refine ⟨rest', hrest, .mk params results true, .results hread hread', ?_⟩
    rw [Signature.eraseLines, herase, herase']
    rfl
  | result hparams hparen hstarts _ ihparams ihresult =>
    have hshort := Nat.le_of_succ_le hbound
    obtain ⟨_, _, rfl, hts⟩ := hsame.of_cons
    obtain ⟨_, hmid, params, hread, herase⟩ := ihparams hts hshort
    rw [hmid.next_eq] at hparen hstarts
    obtain ⟨rest', hrest, result, hread', herase'⟩ :=
      ihresult hmid (hparams.length_le_of_le hshort)
    refine ⟨rest', hrest, .mk params [.mk none result] false,
      .result hread hparen hstarts hread', ?_⟩
    rw [Signature.eraseLines, herase, eraseParams, Param.eraseLines, herase']
    rfl
  | noResult _ hstarts ih =>
    obtain ⟨_, _, rfl, hts⟩ := hsame.of_cons
    obtain ⟨rest', hrest, params, hread, herase⟩ := ih hts (Nat.le_of_succ_le hbound)
    rw [hrest.next_eq] at hstarts
    refine ⟨rest', hrest, .mk params [] false, .noResult hread hstarts, ?_⟩
    rw [Signature.eraseLines, herase]
    rfl
  -- parameters
  | paramSemicolon _ ih =>
    obtain ⟨_, _, rfl, hts⟩ := hsame.of_cons
    obtain ⟨rest', hrest, params, hread, herase⟩ := ih hts (Nat.le_of_succ_le hbound)
    exact ⟨rest', hrest, params, .paramSemicolon hread, herase⟩
  | noParam =>
    obtain ⟨_, rest', rfl, hrest⟩ := hsame.of_cons
    exact ⟨rest', hrest, [], .noParam, rfl⟩
  | ellipsisParam h _ ih ihparams =>
    have hshort := Nat.le_of_succ_le hbound
    obtain ⟨_, _, rfl, hts⟩ := hsame.of_cons
    obtain ⟨_, hmid, elem, hread, herase⟩ := ih hts hshort
    obtain ⟨rest', hrest, params, hread', herase'⟩ := ihparams hmid.skipComma
      (Nat.le_trans (skipComma _).property (h.length_le_of_le hshort))
    refine ⟨rest', hrest, .mk none (.variadic elem) :: params, .ellipsisParam hread hread', ?_⟩
    rw [eraseParams, Param.eraseLines, TypeExpr.eraseLines, herase, herase']
    rfl
  | typeParam h _ ih ihparams =>
    obtain ⟨_, hcomma, type, hread, herase⟩ := ih hsame hbound
    obtain ⟨_, _, rfl, hmid⟩ := hcomma.of_cons
    obtain ⟨rest', hrest, params, hread', herase'⟩ :=
      ihparams hmid (Nat.le_of_succ_le (h.length_le_of_le hbound))
    refine ⟨rest', hrest, .mk none type :: params, .typeParam hread hread', ?_⟩
    rw [eraseParams, Param.eraseLines, herase, herase']
    rfl
  | lastTypeParam h _ ih ihparams =>
    obtain ⟨_, hclose, type, hread, herase⟩ := ih hsame hbound
    obtain ⟨rest', hrest, params, hread', herase'⟩ :=
      ihparams hclose (h.length_le_of_le hbound)
    obtain ⟨_, _, rfl, -⟩ := hclose.of_cons
    refine ⟨rest', hrest, .mk none type :: params, .lastTypeParam hread hread', ?_⟩
    rw [eraseParams, Param.eraseLines, herase, herase']
    rfl
  | namedEllipsis hname h _ ihname ih ihparams =>
    have hshort := Nat.le_of_succ_le (hname.length_le_of_le hbound)
    obtain ⟨_, hdots, type, hname', hnameErase⟩ := ihname hsame hbound
    obtain rfl := eq_named_of_eraseLines hnameErase
    obtain ⟨_, _, rfl, hmid⟩ := hdots.of_cons
    obtain ⟨_, hmid', elem, hread, herase⟩ := ih hmid hshort
    obtain ⟨rest', hrest, params, hread', herase'⟩ := ihparams hmid'.skipComma
      (Nat.le_trans (skipComma _).property (h.length_le_of_le hshort))
    refine ⟨rest', hrest, .mk (some _) (.variadic elem) :: params,
      .namedEllipsis hname' hread hread', ?_⟩
    rw [eraseParams, Param.eraseLines, TypeExpr.eraseLines, herase, herase']
    rfl
  | namedParam hname h _ ihname ih ihparams =>
    have hshort := hname.length_le_of_le hbound
    obtain ⟨_, hmid, type, hname', hnameErase⟩ := ihname hsame hbound
    obtain rfl := eq_named_of_eraseLines hnameErase
    obtain ⟨_, hmid', type, hread, herase⟩ := ih hmid hshort
    obtain ⟨rest', hrest, params, hread', herase'⟩ := ihparams hmid'.skipComma
      (Nat.le_trans (skipComma _).property (h.length_le_of_le hshort))
    refine ⟨rest', hrest, .mk (some _) type :: params, .namedParam hname' hread hread', ?_⟩
    rw [eraseParams, Param.eraseLines, herase, herase']
    rfl
  -- struct members
  | fieldSemicolon _ ih =>
    obtain ⟨_, _, rfl, hts⟩ := hsame.of_cons
    obtain ⟨rest', hrest, fields, hread, herase⟩ := ih hts (Nat.le_of_succ_le hbound)
    exact ⟨rest', hrest, fields, .fieldSemicolon hread, herase⟩
  | noField =>
    obtain ⟨_, rest', rfl, hrest⟩ := hsame.of_cons
    exact ⟨rest', hrest, [], .noField, rfl⟩
  | field h htag hends _ ih ihfields =>
    obtain ⟨_, hmid, type, hread, herase⟩ := ih hsame hbound
    obtain ⟨_, hmid', htag'⟩ := htag.relabel hmid
    obtain ⟨_, hmid'', hends'⟩ := hends.relabel hmid'
    obtain ⟨rest', hrest, fields, hread', herase'⟩ := ihfields hmid'' (Nat.le_trans hends.length_le
      (Nat.le_trans htag.length_le (h.length_le_of_le hbound)))
    refine ⟨rest', hrest, .mk _ _ type _ :: fields, .field hread htag' hends' hread', ?_⟩
    rw [eraseFields, Field.eraseLines, herase, herase']
    rfl
  | embeddedPointer hstar _ ih =>
    rw [hsame.next_eq] at hstar
    obtain ⟨rest', hrest, type, hread, herase⟩ := ih hsame hbound
    exact ⟨rest', hrest, type, .embeddedPointer hstar hread, herase⟩
  | embeddedName hnext _ ih =>
    obtain ⟨rest', hrest, type, hread, herase⟩ := ih hsame hbound
    obtain ⟨_, _, rfl, hts⟩ := hsame.of_cons
    rw [hts.next_eq, atMemberEnd_congr hts.next_eq] at hnext
    exact ⟨rest', hrest, type, .embeddedName hnext hread, herase⟩
  | arrayMember hnext _ hend ih =>
    obtain ⟨_, _, rfl, hts⟩ := hsame.of_cons
    obtain ⟨rest', hrest, type, hread, herase⟩ := ih hts (Nat.le_of_succ_le hbound)
    rw [hts.next_eq] at hnext
    rw [atMemberEnd_congr hrest.next_eq] at hend
    exact ⟨rest', hrest, type, .arrayMember hnext hread hend, herase⟩
  | embeddedGeneric hnext htrial _ ih =>
    obtain ⟨rest', hrest, type, hread, herase⟩ := ih hsame hbound
    obtain ⟨_, _, rfl, hts⟩ := hsame.of_cons
    rw [hts.next_eq] at hnext
    have hshort := Nat.le_of_succ_le_succ (Nat.le_trans hbound (Nat.le_of_eq hlimit.symm))
    exact ⟨rest', hrest, type, .embeddedGeneric hnext
      (fun _ _ h => hbounded.trial hts hshort htrial h) hread, herase⟩
  | namedMember hdot hend hbracket hnames _ ih =>
    have hlt := length_lt_of_outcome hnames.outcome_eq
    obtain ⟨_, hmid, hnames'⟩ := hnames.relabel hsame
    obtain ⟨rest', hrest, type, hread, herase⟩ :=
      ih hmid (Nat.le_trans (Nat.le_of_lt hlt) hbound)
    obtain ⟨_, _, rfl, hts⟩ := hsame.of_cons
    rw [hts.next_eq] at hdot hbracket
    rw [atMemberEnd_congr hts.next_eq] at hend
    exact ⟨rest', hrest, type, .namedMember hdot hend hbracket hnames' hread, herase⟩
  -- interface elements
  | elemSemicolon _ ih =>
    obtain ⟨_, _, rfl, hts⟩ := hsame.of_cons
    obtain ⟨rest', hrest, elems, hread, herase⟩ := ih hts (Nat.le_of_succ_le hbound)
    exact ⟨rest', hrest, elems, .elemSemicolon hread, herase⟩
  | noElem =>
    obtain ⟨_, rest', rfl, hrest⟩ := hsame.of_cons
    exact ⟨rest', hrest, [], .noElem, rfl⟩
  | method hw hparen h hends _ ih ihelems =>
    have hshort := Nat.le_of_succ_le hbound
    obtain ⟨_, _, rfl, hts⟩ := hsame.of_cons
    rw [hts.next_eq] at hparen
    obtain ⟨_, hmid, signature, hread, herase⟩ := ih hts hshort
    obtain ⟨_, hmid', hends'⟩ := hends.relabel hmid
    obtain ⟨rest', hrest, elems, hread', herase'⟩ :=
      ihelems hmid' (Nat.le_trans hends.length_le (h.length_le_of_le hshort))
    refine ⟨rest', hrest, .method _ signature :: elems, .method hw hparen hread hends' hread', ?_⟩
    rw [eraseElems, InterfaceElem.eraseLines, herase, herase']
    rfl
  | union hmethod h hends _ ih ihelems =>
    obtain ⟨_, hmid, terms, hread, herase⟩ := ih hsame hbound
    obtain ⟨_, hmid', hends'⟩ := hends.relabel hmid
    obtain ⟨rest', hrest, elems, hread', herase'⟩ :=
      ihelems hmid' (Nat.le_trans hends.length_le (h.length_le_of_le hbound))
    refine ⟨rest', hrest, .union terms :: elems,
      .union (fun line w more hmore => ?_) hread hends' hread', ?_⟩
    · obtain ⟨line', more', hts, hsame'⟩ := (hmore ▸ hsame).symm.of_cons
      rw [hsame'.next_eq]
      exact hmethod line' w more' hts
    · rw [eraseElems, InterfaceElem.eraseLines, herase, herase']
      rfl
  | lastTerm _ hbar ih =>
    obtain ⟨rest', hrest, term, hread, herase⟩ := ih hsame hbound
    rw [hrest.next_eq] at hbar
    exact ⟨rest', hrest, [term], .lastTerm hread hbar, congrArg (· :: []) herase⟩
  | nextTerm h _ ih ihterms =>
    obtain ⟨_, hbar, term, hread, herase⟩ := ih hsame hbound
    obtain ⟨_, _, rfl, hmid⟩ := hbar.of_cons
    obtain ⟨rest', hrest, terms, hread', herase'⟩ :=
      ihterms hmid (Nat.le_of_succ_le (h.length_le_of_le hbound))
    refine ⟨rest', hrest, term :: terms, .nextTerm hread hread', ?_⟩
    rw [eraseTerms, herase, herase']
    rfl
  | approximate _ ih =>
    obtain ⟨_, _, rfl, hts⟩ := hsame.of_cons
    obtain ⟨rest', hrest, type, hread, herase⟩ := ih hts (Nat.le_of_succ_le hbound)
    exact ⟨rest', hrest, .mk true type, .approximate hread, congrArg (UnionTerm.mk true) herase⟩
  | exact _ ih =>
    obtain ⟨rest', hrest, type, hread, herase⟩ := ih hsame hbound
    exact ⟨rest', hrest, .mk false type, .exact hread, congrArg (UnionTerm.mk false) herase⟩

theorem relabels (bound : Nat) : Relabels bound := by
  induction bound with
  | succ bound ih => exact ih.succ
  | zero =>
    intro phrase ts rest ts' h _ hbound
    exact absurd (Nat.lt_of_lt_of_le h.length_lt hbound) (Nat.not_lt_zero _)

/-- A phrase is read alike from the same tokens on other lines, up to the lines of members. -/
theorem Reads.relabel {phrase : Phrase} (h : Reads phrase ts rest) (hsame : SameTokens ts ts') :
    ∃ rest', SameTokens rest rest' ∧ phrase.ReadBack ts' rest' :=
  relabels ts.length h hsame (Nat.le_refl _)

/-! ## Values without lines -/

/-- The import on line zero. -/
def Import.eraseLine (i : Import) : Import :=
  { i with line := 0 }

/-- The declaration, and every member of its type, on line zero. -/
def TypeDecl.eraseLines (d : TypeDecl) : TypeDecl :=
  { d with line := 0, type := d.type.eraseLines }

/-- The file with everything in it on line zero. -/
def SourceFile.eraseLines (f : SourceFile) : SourceFile :=
  { f with imports := f.imports.map Import.eraseLine, types := f.types.map TypeDecl.eraseLines }

/-- What is read from the same tokens on other lines agrees once its lines are erased. -/
def LineBlind {α β : Type} (erase : α → β) (R : α → List Located → List Located → Prop) : Prop :=
  ∀ {a : α} {ts rest ts' : List Located}, R a ts rest → SameTokens ts ts' →
    ∃ a' rest', SameTokens rest rest' ∧ R a' ts' rest' ∧ erase a' = erase a

/-! ## Clauses -/

theorem lineBlind_import : LineBlind Import.eraseLine ReadsImport := by
  intro spec ts rest ts' h hsame
  cases h with
  | plain =>
    obtain ⟨_, rest', rfl, hrest⟩ := hsame.of_cons
    exact ⟨_, rest', hrest, .plain, rfl⟩
  | named =>
    obtain ⟨_, _, rfl, hpath⟩ := hsame.of_cons
    obtain ⟨_, rest', rfl, hrest⟩ := hpath.of_cons
    exact ⟨_, rest', hrest, .named, rfl⟩
  | dot =>
    obtain ⟨_, _, rfl, hpath⟩ := hsame.of_cons
    obtain ⟨_, rest', rfl, hrest⟩ := hpath.of_cons
    exact ⟨_, rest', hrest, .dot, rfl⟩

theorem SameTokens.atTypeParams_eq (h : SameTokens ts ts') :
    atTypeParams ts = atTypeParams ts' := by
  cases ts with
  | nil => rw [h.of_nil]
  | cons t ts =>
    obtain ⟨_, ts', rfl, hts⟩ := h.of_cons
    cases ts with
    | nil =>
      rw [hts.of_nil]
      obtain ⟨line, token⟩ := t
      cases token <;> rfl
    | cons t' ts =>
      obtain ⟨_, ts', rfl, hmore⟩ := hts.of_cons
      obtain ⟨line, token⟩ := t
      obtain ⟨line', token'⟩ := t'
      cases token <;> try rfl
      cases token' <;> try rfl
      unfold atTypeParams
      dsimp only
      rw [hmore.next_eq]

theorem ReadsParamNames.relabel {depth : Nat} {atName : Bool} {names : List String}
    (h : ReadsParamNames depth atName names ts rest) (hsame : SameTokens ts ts') :
    ∃ rest', SameTokens rest rest' ∧ ReadsParamNames depth atName names ts' rest' := by
  induction h generalizing ts' with
  | close hclose =>
    obtain ⟨_, rest', rfl, hrest⟩ := hsame.of_cons
    exact ⟨rest', hrest, .close hclose⟩
  | name _ ih =>
    obtain ⟨_, _, rfl, hts⟩ := hsame.of_cons
    obtain ⟨rest', hrest, hread⟩ := ih hts
    exact ⟨rest', hrest, .name hread⟩
  | other hclose hname _ ih =>
    obtain ⟨_, _, rfl, hts⟩ := hsame.of_cons
    obtain ⟨rest', hrest, hread⟩ := ih hts
    exact ⟨rest', hrest, .other hclose hname hread⟩

theorem ReadsParams.relabel {names : List String} (h : ReadsParams names ts rest)
    (hsame : SameTokens ts ts') :
    ∃ rest', SameTokens rest rest' ∧ ReadsParams names ts' rest' := by
  have hat' := hsame.atTypeParams_eq
  cases h with
  | list hat h =>
    obtain ⟨_, _, rfl, hts⟩ := hsame.of_cons
    obtain ⟨rest', hrest, hread⟩ := h.relabel hts
    exact ⟨rest', hrest, .list (hat' ▸ hat) hread⟩
  | none hat => exact ⟨ts', hsame, .none (hat' ▸ hat)⟩

theorem ReadsAliasMark.relabel {isAlias : Bool} (h : ReadsAliasMark isAlias ts rest)
    (hsame : SameTokens ts ts') :
    ∃ rest', SameTokens rest rest' ∧ ReadsAliasMark isAlias ts' rest' := by
  cases h with
  | mark =>
    obtain ⟨_, rest', rfl, hrest⟩ := hsame.of_cons
    exact ⟨rest', hrest, .mark⟩
  | none h => exact ⟨ts', hsame, .none (hsame.next_eq ▸ h)⟩

theorem lineBlind_decl : LineBlind TypeDecl.eraseLines ReadsDecl := by
  rintro _ _ rest ts' ⟨hw, hparams, halias, htype⟩ hsame
  obtain ⟨line, _, rfl, hts⟩ := hsame.of_cons
  obtain ⟨_, hmid, hparams'⟩ := hparams.relabel hts
  obtain ⟨_, hmid', halias'⟩ := halias.relabel hmid
  obtain ⟨rest', hrest, type, htype', herase⟩ := htype.relabel hmid'
  refine ⟨⟨line, _, _, _, type⟩, rest', hrest, .decl hw hparams' halias' htype', ?_⟩
  rw [TypeDecl.eraseLines, herase]
  rfl

section

variable {α β : Type} {erase : α → β} {Spec : α → List Located → List Located → Prop}

theorem LineBlind.group (hspec : LineBlind erase Spec) :
    LineBlind (List.map erase) (ReadsGroup Spec) := by
  intro specs ts rest ts' h hsame
  induction h generalizing ts' with
  | semicolon _ ih =>
    obtain ⟨_, _, rfl, hts⟩ := hsame.of_cons
    obtain ⟨specs, rest', hrest, hread, herase⟩ := ih hts
    exact ⟨specs, rest', hrest, .semicolon hread, herase⟩
  | done =>
    obtain ⟨_, rest', rfl, hrest⟩ := hsame.of_cons
    exact ⟨[], rest', hrest, .done, rfl⟩
  | spec h hends _ ih =>
    obtain ⟨spec, _, hmid, hread, herase⟩ := hspec h hsame
    obtain ⟨_, hmid', hends'⟩ := hends.relabel hmid
    obtain ⟨specs, rest', hrest, hread', herase'⟩ := ih hmid'
    refine ⟨spec :: specs, rest', hrest, .spec hread hends' hread', ?_⟩
    rw [List.map_cons, List.map_cons, herase, herase']

theorem LineBlind.clause (hspec : LineBlind erase Spec) (keyword : String) :
    LineBlind (List.map erase) (ReadsClause Spec keyword) := by
  intro specs ts rest ts' h hsame
  cases h with
  | group h hends =>
    obtain ⟨_, _, rfl, hopen⟩ := hsame.of_cons
    obtain ⟨_, _, rfl, hts⟩ := hopen.of_cons
    obtain ⟨specs', _, hmid, hread, herase⟩ := hspec.group h hts
    obtain ⟨rest', hrest, hends'⟩ := hends.relabel hmid
    exact ⟨specs', rest', hrest, .group hread hends', herase⟩
  | single h hends =>
    obtain ⟨_, _, rfl, hts⟩ := hsame.of_cons
    obtain ⟨spec, _, hmid, hread, herase⟩ := hspec h hts
    obtain ⟨rest', hrest, hends'⟩ := hends.relabel hmid
    exact ⟨[spec], rest', hrest, .single hread hends', congrArg (· :: []) herase⟩

theorem LineBlind.rounds {Round : List α → List Located → List Located → Prop}
    (hround : LineBlind (List.map erase) Round) :
    LineBlind (List.map erase) (Rounds Round) := by
  intro all ts rest ts' h hsame
  induction h generalizing ts' with
  | refl => exact ⟨[], ts', hsame, .refl ts', rfl⟩
  | round h _ ih =>
    obtain ⟨new, _, hmid, hread, herase⟩ := hround h hsame
    obtain ⟨more, rest', hrest, hread', herase'⟩ := ih hmid
    refine ⟨new ++ more, rest', hrest, .round hread hread', ?_⟩
    rw [List.map_append, List.map_append, herase, herase']

end

/-! ## Rounds -/

theorem Skips.relabel {depth : Nat} (h : Skips depth ts rest) (hsame : SameTokens ts ts') :
    ∃ rest', SameTokens rest rest' ∧ Skips depth ts' rest' := by
  induction h generalizing ts' with
  | semicolon =>
    obtain ⟨_, rest', rfl, hrest⟩ := hsame.of_cons
    exact ⟨rest', hrest, .semicolon⟩
  | last hinside hdepth =>
    obtain ⟨_, _, rfl, hnil⟩ := hsame.of_cons
    obtain rfl := hnil.of_nil
    exact ⟨[], rfl, .last hinside hdepth⟩
  | next hinside _ ih =>
    obtain ⟨_, _, rfl, hts⟩ := hsame.of_cons
    obtain ⟨rest', hrest, hskips⟩ := ih hts
    exact ⟨rest', hrest, .next hinside hskips⟩

theorem lineBlind_importRound : LineBlind (List.map Import.eraseLine) ImportRound := by
  intro imports ts rest ts' h hsame
  cases h with
  | semicolon =>
    obtain ⟨_, rest', rfl, hrest⟩ := hsame.of_cons
    exact ⟨[], rest', hrest, .semicolon, rfl⟩
  | clause h =>
    obtain ⟨imports', rest', hrest, hread, herase⟩ := lineBlind_import.clause _ h hsame
    exact ⟨imports', rest', hrest, .clause hread, herase⟩

theorem lineBlind_declRound : LineBlind (List.map TypeDecl.eraseLines) DeclRound := by
  intro decls ts rest ts' h hsame
  cases h with
  | semicolon =>
    obtain ⟨_, rest', rfl, hrest⟩ := hsame.of_cons
    exact ⟨[], rest', hrest, .semicolon, rfl⟩
  | clause h =>
    obtain ⟨decls', rest', hrest, hread, herase⟩ := lineBlind_decl.clause _ h hsame
    exact ⟨decls', rest', hrest, .clause hread, herase⟩
  | other htype hsemicolon h =>
    obtain ⟨rest', hrest, hskips⟩ := h.relabel hsame
    obtain ⟨_, _, rfl, -⟩ := hsame.of_cons
    exact ⟨[], rest', hrest, .other htype hsemicolon hskips, rfl⟩

/-! ## Files -/

theorem ReadsPackage.relabel {package : String} (h : ReadsPackage package ts rest)
    (hsame : SameTokens ts ts') :
    ∃ rest', SameTokens rest rest' ∧ ReadsPackage package ts' rest' := by
  induction h generalizing ts' with
  | semicolon _ ih =>
    obtain ⟨_, _, rfl, hts⟩ := hsame.of_cons
    obtain ⟨rest', hrest, hread⟩ := ih hts
    exact ⟨rest', hrest, .semicolon hread⟩
  | clause hw hends =>
    obtain ⟨_, _, rfl, hword⟩ := hsame.of_cons
    obtain ⟨_, _, rfl, hmid⟩ := hword.of_cons
    obtain ⟨rest', hrest, hends'⟩ := hends.relabel hmid
    exact ⟨rest', hrest, .clause hw hends'⟩

theorem SameTokens.skipSemicolons (h : SameTokens ts ts') :
    SameTokens (skipSemicolons ts) (skipSemicolons ts') := by
  induction ts generalizing ts' with
  | nil =>
    rw [h.of_nil]
    rfl
  | cons t ts ih =>
    by_cases hsemicolon : next (t :: ts) = some .semicolon
    · obtain ⟨line, token⟩ := t
      cases hsemicolon
      obtain ⟨_, _, rfl, hts⟩ := h.of_cons
      have hskip := ih hts
      exact hskip
    · have hsemicolon' := hsemicolon
      rw [h.next_eq] at hsemicolon'
      rw [skipSemicolons_of_next_ne hsemicolon, skipSemicolons_of_next_ne hsemicolon']
      exact h

theorem NoImport.relabel (h : NoImport ts) (hsame : SameTokens ts ts') : NoImport ts' := by
  unfold NoImport at h ⊢
  rwa [← hsame.skipSemicolons.next_eq]

theorem lineBlind_front : LineBlind SourceFile.eraseLines ReadsFront := by
  rintro _ ts rest ts' @⟨name, package, _, _, _, _, _, _, hpackage, himports, hnone, hdecls⟩ hsame
  obtain ⟨_, hstart, hpackage'⟩ := hpackage.relabel hsame
  obtain ⟨imports, _, hmid, himports', herase⟩ := lineBlind_importRound.rounds himports hstart
  obtain ⟨decls, rest', hrest, hdecls', herase'⟩ := lineBlind_declRound.rounds hdecls hmid
  refine ⟨⟨name, package, imports, decls⟩, rest', hrest,
    .front hpackage' himports' (hnone.relabel hmid) hdecls', ?_⟩
  rw [SourceFile.eraseLines, herase, herase']
  rfl

/-- A file is read alike from the same tokens on other lines: its package, its imports and its
types are the same once their lines are erased. -/
theorem ofTokens_relabel {name : String} {file : SourceFile}
    (h : SourceFile.ofTokens name ts = .ok file) (hsame : SameTokens ts ts') :
    ∃ file', SourceFile.ofTokens name ts' = .ok file' ∧ file'.eraseLines = file.eraseLines := by
  obtain ⟨rfl, hfront⟩ := readsFront_iff.1 h
  obtain ⟨file', rest', hrest, hfront', herase⟩ := lineBlind_front hfront hsame
  obtain rfl := hrest.of_nil
  have hname := congrArg SourceFile.name herase
  change file'.name = file.name at hname
  exact ⟨file', readsFront_iff.2 ⟨hname, hfront'⟩, herase⟩

end StructCopy.Go
