/-
  Proofs/Go/Relocation: a phrase is read the same way whatever follows it.

  The reader looks at most at the token behind a phrase, with one exception: the trial
  of an array type in a struct member may run over the member.  It never runs over the
  whole phrase, so that the tokens behind a phrase may be replaced by others as long
  as they do not go on with it.
-/
import StructCopy.Proofs.Go.Containment

set_option autoImplicit false

namespace StructCopy.Go

/-! ## Tokens that are replaced -/

theorem next_append {body : List Located} (h : body ≠ []) (r r' : List Located) :
    next (body ++ r) = next (body ++ r') := by
  cases body with
  | nil => exact absurd rfl h
  | cons => rfl

theorem lineAt_append {body : List Located} (h : body ≠ []) (r r' : List Located) :
    lineAt 0 (body ++ r) = lineAt 0 (body ++ r') := by
  cases body with
  | nil => exact absurd rfl h
  | cons => rfl

theorem ne_nil_of_length_lt {body mid r : List Located}
    (h : (mid ++ r).length < (body ++ r).length) : body ≠ [] := by
  rintro rfl
  simp only [List.length_append, List.nil_append] at h
  omega

theorem atMemberEnd_congr {ts ts' : List Located} (h : next ts = next ts') :
    atMemberEnd ts = atMemberEnd ts' := by
  unfold atMemberEnd
  rw [h]

theorem NoType.congr {ts ts' : List Located} (h : NoType ts) (heq : next ts = next ts') :
    NoType ts' := by
  unfold NoType at h ⊢
  rw [← heq]
  exact h

/-- The tokens behind a phrase that is read may be replaced: either the next one stays, or neither
goes on with a type. -/
def Phrase.Follows : Phrase → List Located → List Located → Prop
  | .type _, after, after' | .signature _, after, after' =>
    next after = next after' ∨ Ended after ∧ Ended after'
  | .member _ _, after, after' => next after = next after' ∧ NoType after
  | .terms _, after, after' | .term _, after, after' => next after = next after'
  | _, _, _ => True

theorem Phrase.Follows.next_ne {type : TypeExpr} {after after' : List Located}
    (h : (Phrase.type type).Follows after after') {token : Token}
    (htoken : token = .dot ∨ token.startsType = true) (hne : next after ≠ some token) :
    next after' ≠ some token := by
  rcases h with heq | ⟨-, hended⟩
  · rw [← heq]
    exact hne
  · rcases htoken with rfl | hstarts
    · exact hended.2
    · exact hended.next_ne hstarts

/-! ## Small phrases -/

variable {mid r : List Located} (r' : List Located)

theorem ReadsName.relocate {type : TypeExpr} {ts : List Located} (h : ReadsName type ts (mid ++ r))
    (hdot : next (mid ++ r) ≠ some .dot → next (mid ++ r') ≠ some .dot) :
    ∃ body, ts = body ++ r ∧ ReadsName type (body ++ r') (mid ++ r') := by
  cases h with
  | named hw hnext => exact ⟨_ :: mid, rfl, .named hw (hdot hnext)⟩
  | qualified hw hw' => exact ⟨_ :: _ :: _ :: mid, rfl, .qualified hw hw'⟩

theorem ReadsNames.relocate {names : List String} {ts rest : List Located}
    (h : ReadsNames names ts rest) (hrest : rest = mid ++ r) (hmid : mid ≠ []) :
    ∃ body, ts = body ++ r ∧ ReadsNames names (body ++ r') (mid ++ r') := by
  induction h with
  | last hw hcomma =>
    subst hrest
    rw [next_append hmid r r'] at hcomma
    exact ⟨_ :: mid, rfl, .last hw hcomma⟩
  | cons hw _ ih =>
    obtain ⟨body, rfl, hread⟩ := ih hrest
    exact ⟨_ :: _ :: body, rfl, .cons hw hread⟩

theorem ReadsTag.relocate {tag : Option String} {ts : List Located}
    (h : ReadsTag tag ts (mid ++ r)) (hmid : mid ≠ []) :
    ∃ body, ts = body ++ r ∧ body ≠ [] ∧ ReadsTag tag (body ++ r') (mid ++ r') := by
  cases h with
  | tag => exact ⟨_ :: mid, rfl, List.cons_ne_nil _ _, .tag⟩
  | none h =>
    refine ⟨mid, rfl, hmid, .none fun s => ?_⟩
    rw [← next_append hmid r r']
    exact h s

theorem Ends.relocate {ts : List Located} (h : Ends ts (mid ++ r)) (hmid : mid ≠ []) :
    ∃ body, ts = body ++ r ∧ body ≠ [] ∧ Ends (body ++ r') (mid ++ r') := by
  cases h with
  | semicolon => exact ⟨_ :: mid, rfl, List.cons_ne_nil _ _, .semicolon⟩
  | before h =>
    refine ⟨mid, rfl, hmid, .before ?_⟩
    rw [next_append hmid r r'] at h
    rcases h with h | h | h
    · exact .inl h
    · exact .inr (.inl h)
    · exact absurd (List.append_eq_nil_iff.1 h).1 hmid

theorem skipComma_of_next_ne {ts : List Located} (h : next ts ≠ some .comma) :
    (skipComma ts).val = ts := by
  unfold skipComma
  split
  · exact absurd rfl h
  · rfl

theorem skipComma_relocate {ts : List Located} (h : (skipComma ts).val = mid ++ r)
    (hmid : mid ≠ []) :
    ∃ body, ts = body ++ r ∧ body ≠ [] ∧ (skipComma (body ++ r')).val = mid ++ r' := by
  unfold skipComma at h
  split at h
  · subst h
    exact ⟨_ :: mid, rfl, List.cons_ne_nil _ _, rfl⟩
  · next hcomma =>
    dsimp only at h
    subst h
    have hnext : next (mid ++ r) ≠ some .comma := next_ne_of_not_cons hcomma
    rw [next_append hmid r r'] at hnext
    exact ⟨mid, rfl, hmid, skipComma_of_next_ne hnext⟩

theorem outcome_arrayLength_relocate {depth : Nat} {ts : List Located} {text : String}
    (h : outcome (arrayLength depth ts) = some (text, mid ++ r)) :
    ∃ body, ts = body ++ r ∧ body ≠ [] ∧
      outcome (arrayLength depth (body ++ r')) = some (text, mid ++ r') := by
  induction ts generalizing depth text with
  | nil => cases h
  | cons t ts ih =>
    obtain ⟨line, token⟩ := t
    by_cases hclose : token = .rightBracket ∧ depth = 0
    · obtain ⟨rfl, rfl⟩ := hclose
      rw [outcome_arrayLength_end] at h
      cases h
      exact ⟨⟨line, .rightBracket⟩ :: mid, rfl, List.cons_ne_nil _ _,
        outcome_arrayLength_end line _⟩
    · obtain ⟨more, rfl, hmore⟩ := exists_of_outcome_arrayLength_cons hclose h
      obtain ⟨body, rfl, -, hread⟩ := ih hmore
      exact ⟨⟨line, token⟩ :: body, rfl, List.cons_ne_nil _ _,
        outcome_arrayLength_cons hclose hread⟩

/-! ## The trial -/

/-- Phrases with at most `bound` tokens, and as many behind them as one likes, may be followed by
other tokens. -/
def Relocates (bound : Nat) : Prop :=
  ∀ {phrase : Phrase} {ts rest mid r r' : List Located}, Reads phrase ts rest → rest = mid ++ r →
    ts.length ≤ bound + r.length → phrase.Follows (mid ++ r) (mid ++ r') →
    ∃ body, ts = body ++ r ∧ Reads phrase (body ++ r') (mid ++ r')

/-- What is left behind a type stands at the end of the tokens. -/
theorem Relocates.suffix {bound : Nat} (h : Relocates bound) {type : TypeExpr}
    {ts rest : List Located} (hread : Reads (.type type) ts rest)
    (hbound : ts.length ≤ bound + rest.length) : rest <:+ ts := by
  have hfollows : (Phrase.type type).Follows ([] ++ rest) ([] ++ rest) := .inl rfl
  obtain ⟨body, heq, -⟩ := h hread (List.nil_append rest).symm hbound hfollows
  exact ⟨body, heq.symm⟩

/-- An array type that is tried behind the first word of a member is also read with the other
tokens behind the member, and ends alike. -/
theorem Relocates.trial {bound line : Nat} {w : String} {type other : TypeExpr}
    {body mid r r' stop : List Located} (hbounded : Relocates bound)
    (h : Reads (.type type) (⟨line, .word w⟩ :: (body ++ r')) (mid ++ r'))
    (hbracket : next (body ++ r') = some .leftBracket) (hbound : body.length ≤ bound)
    (hnext : next (mid ++ r') = next (mid ++ r)) (hend : NoType (mid ++ r'))
    (htrial : Reads (.type other) (body ++ r') stop) :
    ∃ stop', Reads (.type other) (body ++ r) stop' ∧ next stop' = next stop := by
  have hle : (mid ++ r').length ≤ stop.length := h.trial_stays hbracket hend htrial
  rw [List.length_append] at hle
  -- the trial does not run over the member, so that its end can be placed in it
  have hsuffix : stop <:+ body ++ r' := by
    refine hbounded.suffix htrial ?_
    rw [List.length_append]
    omega
  have hshort : r' <:+ stop :=
    List.suffix_of_suffix_length_le (List.suffix_append body r') hsuffix (by omega)
  obtain ⟨x, rfl⟩ := hshort
  have hsame : next (x ++ r') = next (x ++ r) := by
    cases x with
    | cons => rfl
    | nil =>
      have hmid : mid = [] := by
        rw [List.nil_append] at hle
        exact List.eq_nil_of_length_eq_zero (by omega)
      subst hmid
      exact hnext
  have hfollows : (Phrase.type other).Follows (x ++ r') (x ++ r) := .inl hsame
  obtain ⟨body', heq, hread⟩ := hbounded htrial rfl (by rw [List.length_append]; omega) hfollows
  rw [List.append_cancel_right heq]
  exact ⟨x ++ r, hread, hsame.symm⟩

/-! ## All phrases -/

theorem Reads.ne_nil {phrase : Phrase} {body mid r : List Located}
    (h : Reads phrase (body ++ r) (mid ++ r)) : body ≠ [] :=
  ne_nil_of_length_lt h.length_lt

theorem Reads.length_le_of_le {phrase : Phrase} {ts rest : List Located}
    (h : Reads phrase ts rest) {n : Nat} (hbound : ts.length ≤ n) : rest.length ≤ n :=
  Nat.le_trans (Nat.le_of_lt h.length_lt) hbound

theorem exists_of_cons_eq_append {t : Located} {ts body r : List Located}
    (h : t :: ts = body ++ r) (hne : body ≠ []) : ∃ more, body = t :: more ∧ ts = more ++ r := by
  cases body with
  | nil => exact absurd rfl hne
  | cons t' more =>
    cases h
    exact ⟨more, rfl, rfl⟩

/-- The second token of something that is read stays when the one behind it stays. -/
theorem next_behind {t : Located} {more mid r r' : List Located}
    (hlt : (mid ++ r').length < (t :: more ++ r').length)
    (hnext : next (mid ++ r) = next (mid ++ r')) : next (more ++ r) = next (more ++ r') := by
  cases more with
  | cons => rfl
  | nil =>
    rw [List.cons_append, List.length_cons, List.length_append, List.nil_append] at hlt
    obtain rfl : mid = [] := List.eq_nil_of_length_eq_zero (by omega)
    exact hnext

/-- Parameters behind an entry that need not be followed by a comma. -/
theorem Reads.behind_entry {params : List Param} {ts body mid r r' : List Located}
    (h : Reads (.params params) (body ++ r') (mid ++ r')) (hbody : (skipComma ts).val = body ++ r) :
    ∃ body', ts = body' ++ r ∧ body' ≠ [] ∧
      Reads (.params params) (skipComma (body' ++ r')).val (mid ++ r') := by
  obtain ⟨body', hts, hne, hskip⟩ := skipComma_relocate r' hbody h.ne_nil
  rw [← hskip] at h
  exact ⟨body', hts, hne, h⟩

/-- Names of a struct member, with the first of them told apart. -/
theorem ReadsNames.relocate_cons {t : Located} {names : List String} {ts mid r : List Located}
    (r' : List Located) (h : ReadsNames names (t :: ts) (mid ++ r)) (hmid : mid ≠ []) :
    ∃ more, ts = more ++ r ∧ ReadsNames names (t :: more ++ r') (mid ++ r') := by
  obtain ⟨body, hbody, hnames⟩ := h.relocate r' rfl hmid
  have hlt := length_lt_of_outcome hnames.outcome_eq
  obtain ⟨more, rfl, hts⟩ := exists_of_cons_eq_append hbody (ne_nil_of_length_lt hlt)
  exact ⟨more, hts, hnames⟩

/-- An embedded generic type stays one with other tokens behind the member, because the trial of
an array type comes to the same end. -/
theorem Relocates.embeddedGeneric {bound line : Nat} {w : String} {type : TypeExpr}
    {more mid r r' : List Located} (hbounded : Relocates bound)
    (hnext : next (more ++ r) = some .leftBracket)
    (htrial : ∀ other stop, outcome (typeExpr (more ++ r)) = some (other, stop) →
      atMemberEnd stop = false)
    (h : Reads (.type type) (⟨line, .word w⟩ :: more ++ r') (mid ++ r'))
    (hbound : more.length ≤ bound)
    (hfollows : (Phrase.member [] type).Follows (mid ++ r) (mid ++ r')) :
    Reads (.member [] type) (⟨line, .word w⟩ :: more ++ r') (mid ++ r') := by
  rw [next_behind h.length_lt hfollows.1] at hnext
  refine .embeddedGeneric hnext ?_ h
  intro other stop hstop
  obtain ⟨stop', hread, hsame⟩ := hbounded.trial h hnext hbound hfollows.1.symm
    (hfollows.2.congr hfollows.1) (reads_of_outcome hstop)
  rw [← atMemberEnd_congr hsame]
  exact htrial other stop' hread.outcome_eq

/-- From the phrases with at most `bound` tokens to those with one more: only the trial in a struct
member asks for phrases that are no part of the one that is read, and these are shorter. -/
theorem Relocates.succ {bound : Nat} (hbounded : Relocates bound) : Relocates (bound + 1) := by
  intro phrase ts rest mid r r' h hrest hbound hfollows
  generalize hlimit : bound + 1 + r.length = limit at hbound
  induction h generalizing mid with
  -- types
  | pointer _ ih =>
    obtain ⟨body, rfl, hread⟩ := ih hrest hfollows (Nat.le_of_succ_le hbound)
    exact ⟨_ :: body, rfl, .pointer hread⟩
  | slice _ ih =>
    obtain ⟨body, rfl, hread⟩ :=
      ih hrest hfollows (Nat.le_of_succ_le (Nat.le_of_succ_le hbound))
    exact ⟨_ :: _ :: body, rfl, .slice hread⟩
  | openArray _ ih =>
    obtain ⟨body, rfl, hread⟩ :=
      ih hrest hfollows (Nat.le_of_succ_le (Nat.le_of_succ_le (Nat.le_of_succ_le hbound)))
    exact ⟨_ :: _ :: _ :: body, rfl, .openArray hread⟩
  | array hslice hopen hlength _ ih =>
    have hlt := length_lt_of_outcome hlength
    obtain ⟨body, rfl, hread⟩ := ih hrest hfollows
      (Nat.le_trans (Nat.le_of_lt hlt) (Nat.le_of_succ_le hbound))
    obtain ⟨body', rfl, hne, hlength'⟩ := outcome_arrayLength_relocate r' hlength
    rw [next_append hne r r'] at hslice hopen
    exact ⟨_ :: body', rfl, .array hslice hopen hlength' hread⟩
  | paren _ ih =>
    obtain ⟨body, rfl, hread⟩ := @ih (_ :: mid) (congrArg (_ :: ·) hrest) (.inl rfl)
      (Nat.le_of_succ_le hbound)
    exact ⟨_ :: body, rfl, .paren hread⟩
  | receive _ ih =>
    obtain ⟨body, rfl, hread⟩ :=
      ih hrest hfollows (Nat.le_of_succ_le (Nat.le_of_succ_le hbound))
    exact ⟨_ :: _ :: body, rfl, .receive hread⟩
  | map hkey _ ihkey ihvalue =>
    have hshort := Nat.le_of_succ_le (Nat.le_of_succ_le hbound)
    obtain ⟨body, rfl, hread⟩ :=
      ihvalue hrest hfollows (Nat.le_of_succ_le (hkey.length_le_of_le hshort))
    obtain ⟨body', rfl, hread'⟩ := @ihkey (_ :: body) rfl (.inl rfl) hshort
    exact ⟨_ :: _ :: body', rfl, .map hread' hread⟩
  | send _ ih =>
    obtain ⟨body, rfl, hread⟩ :=
      ih hrest hfollows (Nat.le_of_succ_le (Nat.le_of_succ_le hbound))
    exact ⟨_ :: _ :: body, rfl, .send hread⟩
  | chan harrow _ ih =>
    obtain ⟨body, rfl, hread⟩ := ih hrest hfollows (Nat.le_of_succ_le hbound)
    rw [next_append hread.ne_nil r r'] at harrow
    exact ⟨_ :: body, rfl, .chan harrow hread⟩
  | func _ ih =>
    obtain ⟨body, rfl, hread⟩ := ih hrest hfollows (Nat.le_of_succ_le hbound)
    exact ⟨_ :: body, rfl, .func hread⟩
  | struct _ ih =>
    obtain ⟨body, rfl, hread⟩ := ih hrest trivial (Nat.le_of_succ_le (Nat.le_of_succ_le hbound))
    exact ⟨_ :: _ :: body, rfl, .struct hread⟩
  | interface _ ih =>
    obtain ⟨body, rfl, hread⟩ := ih hrest trivial (Nat.le_of_succ_le (Nat.le_of_succ_le hbound))
    exact ⟨_ :: _ :: body, rfl, .interface hread⟩
  | name h hbracket =>
    subst hrest
    obtain ⟨body, rfl, hname⟩ := h.relocate r' fun hdot => hfollows.next_ne (.inl rfl) hdot
    exact ⟨body, rfl, .name hname (hfollows.next_ne (.inr rfl) hbracket)⟩
  | generic hbase _ ih =>
    have hlt := length_lt_of_outcome hbase.outcome_eq
    obtain ⟨body, rfl, hread⟩ :=
      ih hrest trivial (Nat.le_of_succ_le (Nat.le_trans (Nat.le_of_lt hlt) hbound))
    change ReadsName _ _ ((_ :: body) ++ r) at hbase
    obtain ⟨body', rfl, hbase'⟩ := hbase.relocate r' id
    exact ⟨body', rfl, .generic hbase' hread⟩
  -- type arguments
  | lastArg _ ih =>
    obtain ⟨body, rfl, hread⟩ :=
      @ih (_ :: mid) (congrArg (_ :: ·) hrest) (.inl rfl) hbound
    exact ⟨body, rfl, .lastArg hread⟩
  | lastArgComma _ ih =>
    obtain ⟨body, rfl, hread⟩ :=
      @ih (_ :: _ :: mid) (congrArg (_ :: _ :: ·) hrest) (.inl rfl) hbound
    exact ⟨body, rfl, .lastArgComma hread⟩
  | nextArg h hmid _ ih ihargs =>
    obtain ⟨body, rfl, hread⟩ :=
      ihargs hrest trivial (Nat.le_of_succ_le (h.length_le_of_le hbound))
    rw [next_append hread.ne_nil r r'] at hmid
    obtain ⟨body', rfl, hread'⟩ := @ih (_ :: body) rfl (.inl rfl) hbound
    exact ⟨body', rfl, .nextArg hread' hmid hread⟩
  -- signatures
  | results hparams _ ihparams ihresults =>
    have hshort := Nat.le_of_succ_le hbound
    obtain ⟨body, rfl, hread⟩ :=
      ihresults hrest trivial (Nat.le_of_succ_le (hparams.length_le_of_le hshort))
    obtain ⟨body', rfl, hread'⟩ := @ihparams (_ :: body) rfl trivial hshort
    exact ⟨_ :: body', rfl, .results hread' hread⟩
  | result hparams hparen hstarts _ ihparams ihresult =>
    have hshort := Nat.le_of_succ_le hbound
    obtain ⟨body, rfl, hread⟩ := ihresult hrest hfollows (hparams.length_le_of_le hshort)
    rw [next_append hread.ne_nil r r'] at hparen hstarts
    obtain ⟨body', rfl, hread'⟩ := ihparams rfl trivial hshort
    exact ⟨_ :: body', rfl, .result hread' hparen hstarts hread⟩
  | noResult _ hstarts ih =>
    subst hrest
    have hnone : NoType (mid ++ r') := by
      rcases hfollows with heq | ⟨-, hended⟩
      · exact NoType.congr hstarts heq
      · exact hended.1
    obtain ⟨body, rfl, hread⟩ := ih rfl trivial (Nat.le_of_succ_le hbound)
    exact ⟨_ :: body, rfl, .noResult hread hnone⟩
  -- parameters
  | paramSemicolon _ ih =>
    obtain ⟨body, rfl, hread⟩ := ih hrest trivial (Nat.le_of_succ_le hbound)
    exact ⟨_ :: body, rfl, .paramSemicolon hread⟩
  | noParam =>
    subst hrest
    exact ⟨_ :: mid, rfl, .noParam⟩
  | ellipsisParam h hparams ih ihparams =>
    have hshort := Nat.le_of_succ_le hbound
    obtain ⟨body, hbody, hread⟩ := ihparams hrest trivial
      (Nat.le_trans (skipComma _).property (h.length_le_of_le hshort))
    obtain ⟨body', rfl, hne, hparams'⟩ := hread.behind_entry hbody
    obtain ⟨body'', rfl, hread'⟩ := ih rfl (.inl (next_append hne r r')) hshort
    exact ⟨_ :: body'', rfl, .ellipsisParam hread' hparams'⟩
  | typeParam h _ ih ihparams =>
    obtain ⟨body, rfl, hread⟩ :=
      ihparams hrest trivial (Nat.le_of_succ_le (h.length_le_of_le hbound))
    obtain ⟨body', rfl, hread'⟩ := @ih (_ :: body) rfl (.inl rfl) hbound
    exact ⟨body', rfl, .typeParam hread' hread⟩
  | lastTypeParam h _ ih ihparams =>
    obtain ⟨body, hbody, hread⟩ := ihparams hrest trivial (h.length_le_of_le hbound)
    obtain ⟨more, rfl, rfl⟩ := exists_of_cons_eq_append hbody hread.ne_nil
    obtain ⟨body', rfl, hread'⟩ := @ih (_ :: more) rfl (.inl rfl) hbound
    exact ⟨body', rfl, .lastTypeParam hread' hread⟩
  | namedEllipsis hname h hparams ihname ih ihparams =>
    have hshort := Nat.le_of_succ_le (hname.length_le_of_le hbound)
    obtain ⟨body, hbody, hread⟩ := ihparams hrest trivial
      (Nat.le_trans (skipComma _).property (h.length_le_of_le hshort))
    obtain ⟨body', rfl, hne, hparams'⟩ := hread.behind_entry hbody
    obtain ⟨body'', rfl, hread'⟩ := ih rfl (.inl (next_append hne r r')) hshort
    obtain ⟨before, rfl, hname'⟩ := @ihname (_ :: body'') rfl (.inl rfl) hbound
    exact ⟨before, rfl, .namedEllipsis hname' hread' hparams'⟩
  | namedParam hname h hparams ihname ih ihparams =>
    have hshort := hname.length_le_of_le hbound
    obtain ⟨body, hbody, hread⟩ := ihparams hrest trivial
      (Nat.le_trans (skipComma _).property (h.length_le_of_le hshort))
    obtain ⟨body', rfl, hne, hparams'⟩ := hread.behind_entry hbody
    obtain ⟨body'', rfl, hread'⟩ := ih rfl (.inl (next_append hne r r')) hshort
    obtain ⟨before, rfl, hname'⟩ :=
      ihname rfl (.inl (next_append hread'.ne_nil r r')) hbound
    exact ⟨before, rfl, .namedParam hname' hread' hparams'⟩
  -- struct members
  | fieldSemicolon _ ih =>
    obtain ⟨body, rfl, hread⟩ := ih hrest trivial (Nat.le_of_succ_le hbound)
    exact ⟨_ :: body, rfl, .fieldSemicolon hread⟩
  | noField =>
    subst hrest
    exact ⟨_ :: mid, rfl, .noField⟩
  | field h htag hends _ ih ihfields =>
    obtain ⟨body, rfl, hread⟩ := ihfields hrest trivial (Nat.le_trans hends.length_le
      (Nat.le_trans htag.length_le (h.length_le_of_le hbound)))
    have hnone := htag.noType hends
    obtain ⟨body₁, rfl, hne₁, hends'⟩ := hends.relocate r' hread.ne_nil
    obtain ⟨body₂, rfl, hne₂, htag'⟩ := htag.relocate r' hne₁
    obtain ⟨body₃, rfl, hread'⟩ := ih rfl ⟨next_append hne₂ r r', hnone⟩ hbound
    rw [lineAt_append hread'.ne_nil r r']
    exact ⟨body₃, rfl, .field hread' htag' hends' hread⟩
  | embeddedPointer hstar _ ih =>
    subst hrest
    obtain ⟨body, rfl, hread⟩ := ih rfl (.inl hfollows.1) hbound
    rw [next_append hread.ne_nil r r'] at hstar
    exact ⟨body, rfl, .embeddedPointer hstar hread⟩
  | embeddedName hnext _ ih =>
    subst hrest
    obtain ⟨body, hbody, hread⟩ := ih rfl (.inl hfollows.1) hbound
    obtain ⟨more, rfl, rfl⟩ := exists_of_cons_eq_append hbody hread.ne_nil
    have hsame := next_behind hread.length_lt hfollows.1
    rw [hsame, atMemberEnd_congr hsame] at hnext
    exact ⟨_ :: more, rfl, .embeddedName hnext hread⟩
  | arrayMember hnext _ hend ih =>
    subst hrest
    obtain ⟨body, rfl, hread⟩ := ih rfl (.inl hfollows.1) (Nat.le_of_succ_le hbound)
    rw [next_append hread.ne_nil r r'] at hnext
    rw [atMemberEnd_congr hfollows.1] at hend
    exact ⟨_ :: body, rfl, .arrayMember hnext hread hend⟩
  | embeddedGeneric hnext htrial _ ih =>
    subst hrest
    obtain ⟨body, hbody, hread⟩ := ih rfl (.inl hfollows.1) hbound
    obtain ⟨more, rfl, rfl⟩ := exists_of_cons_eq_append hbody hread.ne_nil
    have hshort : more.length ≤ bound := by
      rw [List.length_cons, List.length_append] at hbound
      omega
    exact ⟨_ :: more, rfl, hbounded.embeddedGeneric hnext htrial hread hshort hfollows⟩
  | namedMember hdot hend hbracket hnames h ih =>
    subst hrest
    have hlt := length_lt_of_outcome hnames.outcome_eq
    obtain ⟨body, rfl, hread⟩ :=
      ih rfl (.inl hfollows.1) (Nat.le_trans (Nat.le_of_lt hlt) hbound)
    obtain ⟨more, rfl, hnames'⟩ := hnames.relocate_cons r' hread.ne_nil
    have hlt' := length_lt_of_outcome hnames'.outcome_eq
    have hsame := next_behind hlt' (next_append hread.ne_nil r r')
    rw [hsame] at hdot hbracket
    rw [atMemberEnd_congr hsame] at hend
    exact ⟨_ :: more, rfl, .namedMember hdot hend hbracket hnames' hread⟩
  -- interface elements
  | elemSemicolon _ ih =>
    obtain ⟨body, rfl, hread⟩ := ih hrest trivial (Nat.le_of_succ_le hbound)
    exact ⟨_ :: body, rfl, .elemSemicolon hread⟩
  | noElem =>
    subst hrest
    exact ⟨_ :: mid, rfl, .noElem⟩
  | method hw hparen h hends _ ih ihelems =>
    have hshort := Nat.le_of_succ_le hbound
    obtain ⟨body, rfl, hread⟩ :=
      ihelems hrest trivial (Nat.le_trans hends.length_le (h.length_le_of_le hshort))
    obtain ⟨body', rfl, hne, hends'⟩ := hends.relocate r' hread.ne_nil
    obtain ⟨body'', rfl, hread'⟩ := ih rfl (.inl (next_append hne r r')) hshort
    rw [next_append hread'.ne_nil r r'] at hparen
    exact ⟨_ :: body'', rfl, .method hw hparen hread' hends' hread⟩
  | union hmethod h hends _ ih ihelems =>
    obtain ⟨body, rfl, hread⟩ :=
      ihelems hrest trivial (Nat.le_trans hends.length_le (h.length_le_of_le hbound))
    obtain ⟨body', rfl, hne, hends'⟩ := hends.relocate r' hread.ne_nil
    obtain ⟨body'', rfl, hread'⟩ := ih rfl (next_append hne r r') hbound
    refine ⟨body'', rfl, .union (fun line w more hmore => ?_) hread' hends' hread⟩
    obtain ⟨more, rfl, rfl⟩ := exists_of_cons_eq_append hmore.symm hread'.ne_nil
    rw [← next_behind hread'.length_lt (next_append hne r r')]
    exact hmethod line w _ rfl
  | lastTerm _ hbar ih =>
    subst hrest
    obtain ⟨body, rfl, hread⟩ := ih rfl hfollows hbound
    change next (mid ++ r) = next (mid ++ r') at hfollows
    rw [hfollows] at hbar
    exact ⟨body, rfl, .lastTerm hread hbar⟩
  | nextTerm h _ ih ihterms =>
    obtain ⟨body, rfl, hread⟩ :=
      ihterms hrest hfollows (Nat.le_of_succ_le (h.length_le_of_le hbound))
    obtain ⟨body', rfl, hread'⟩ := @ih (_ :: body) rfl rfl hbound
    exact ⟨body', rfl, .nextTerm hread' hread⟩
  | approximate _ ih =>
    obtain ⟨body, rfl, hread⟩ := ih hrest (.inl hfollows) (Nat.le_of_succ_le hbound)
    exact ⟨_ :: body, rfl, .approximate hread⟩
  | exact _ ih =>
    obtain ⟨body, rfl, hread⟩ := ih hrest (.inl hfollows) hbound
    exact ⟨body, rfl, .exact hread⟩

theorem relocates (bound : Nat) : Relocates bound := by
  induction bound with
  | succ bound ih => exact ih.succ
  | zero =>
    intro phrase ts rest mid r r' h hrest hbound _
    subst hrest
    have hlt := h.length_lt
    rw [List.length_append] at hlt
    omega

/-- A phrase is read alike whatever follows it, as long as that does not go on with it. -/
theorem Reads.relocate {phrase : Phrase} {ts mid r r' : List Located}
    (h : Reads phrase ts (mid ++ r)) (hfollows : phrase.Follows (mid ++ r) (mid ++ r')) :
    ∃ body, ts = body ++ r ∧ Reads phrase (body ++ r') (mid ++ r') :=
  relocates ts.length h rfl (Nat.le_add_right _ _) hfollows

/-- The tokens of a type are read alike before whatever does not go on with it. -/
theorem Reads.before_ended {type : TypeExpr} {ts r : List Located} (h : Reads (.type type) ts r)
    (hr : Ended r) :
    ∃ body, ts = body ++ r ∧ ∀ after, Ended after → Reads (.type type) (body ++ after) after := by
  have hstays : ∀ after, Ended after →
      ∃ body, ts = body ++ r ∧ Reads (.type type) (body ++ after) after :=
    fun after hafter => @Reads.relocate (.type type) ts [] r after h (.inr ⟨hr, hafter⟩)
  obtain ⟨body, rfl, -⟩ := hstays r hr
  refine ⟨body, rfl, fun after hafter => ?_⟩
  obtain ⟨body', heq, hread⟩ := hstays after hafter
  rw [List.append_cancel_right heq]
  exact hread

end StructCopy.Go
