/-
  Proofs/Go/Resumption: what is read up to a semicolon does not depend on what follows it.

  The loops that read a file start each round at a place between two declarations.  A
  round never asks what stands behind its last token, if that is a semicolon, and no
  specification ends with a semicolon of its own.  The tokens behind a semicolon at
  which a loop stands may therefore be replaced by others, and the rounds up to it stay.
-/
import StructCopy.Proofs.Go.FileGrammar
import StructCopy.Proofs.Go.Names

set_option autoImplicit false

namespace StructCopy.Go

/-! ## Last tokens -/

/-- The token before `rest` is no semicolon. -/
def Unfinished (ts rest : List Located) : Prop :=
  ∃ t, t :: rest <:+ ts ∧ t.token ≠ .semicolon

theorem Unfinished.mono {ts mid rest : List Located} (h : Unfinished mid rest)
    (hsuffix : mid <:+ ts) : Unfinished ts rest := by
  obtain ⟨t, ht, hne⟩ := h
  exact ⟨t, ht.trans hsuffix, hne⟩

theorem Unfinished.cons {ts rest : List Located} (h : Unfinished ts rest) (t : Located) :
    Unfinished (t :: ts) rest :=
  h.mono (List.suffix_cons t ts)

theorem Unfinished.suffix {ts rest : List Located} (h : Unfinished ts rest) : rest <:+ ts := by
  obtain ⟨t, ht, -⟩ := h
  exact (List.suffix_cons t rest).trans ht

theorem Unfinished.ne_nil {body mid r : List Located} (h : Unfinished (body ++ r) (mid ++ r)) :
    body ≠ [] := by
  obtain ⟨t, ht, -⟩ := h
  exact ne_nil_of_length_lt (Nat.lt_of_succ_le ht.length_le)

theorem unfinished_of_suffix {line : Nat} {token : Token} {ts rest : List Located}
    (h : ⟨line, token⟩ :: rest <:+ ts) (hne : token ≠ .semicolon) : Unfinished ts rest :=
  ⟨⟨line, token⟩, h, hne⟩

theorem unfinished_cons {line : Nat} {token : Token} {rest : List Located}
    (hne : token ≠ .semicolon) : Unfinished (⟨line, token⟩ :: rest) rest :=
  unfinished_of_suffix List.suffix_rfl hne

/-- Tokens that end with a semicolon are finished there. -/
theorem not_unfinished {line : Nat} (before point : List Located) :
    ¬Unfinished (before ++ ⟨line, .semicolon⟩ :: point) point := by
  rintro ⟨t, ht, hne⟩
  have hsemicolon : ⟨line, .semicolon⟩ :: point <:+ before ++ ⟨line, .semicolon⟩ :: point :=
    List.suffix_append _ _
  have heq := (List.suffix_of_suffix_length_le ht hsemicolon (Nat.le_refl _)).eq_of_length rfl
  cases heq
  exact hne rfl

theorem ReadsName.unfinished {type : TypeExpr} {ts rest : List Located}
    (h : ReadsName type ts rest) : Unfinished ts rest := by
  cases h with
  | named => exact unfinished_cons nofun
  | @qualified _ _ line _ w' =>
    have hlast : Unfinished (⟨line, .word w'⟩ :: rest) rest := unfinished_cons nofun
    exact (hlast.cons _).cons _

/-- No phrase ends with a semicolon. -/
theorem Reads.unfinished {phrase : Phrase} {ts rest : List Located} (h : Reads phrase ts rest) :
    Unfinished ts rest := by
  induction h with
  -- types
  | pointer _ ih => exact ih.cons _
  | slice _ ih => exact (ih.cons _).cons _
  | openArray _ ih => exact ((ih.cons _).cons _).cons _
  | array _ _ hlength _ ih => exact (ih.mono (suffix_of_arrayLength hlength)).cons _
  | paren h => exact (unfinished_of_suffix h.suffix nofun).cons _
  | receive _ ih => exact (ih.cons _).cons _
  | map hkey _ _ ih =>
    exact ((ih.mono ((List.suffix_cons _ _).trans hkey.suffix)).cons _).cons _
  | send _ ih => exact (ih.cons _).cons _
  | chan _ _ ih => exact ih.cons _
  | func _ ih => exact ih.cons _
  | struct _ ih => exact (ih.cons _).cons _
  | interface _ ih => exact (ih.cons _).cons _
  | name h => exact h.unfinished
  | generic hbase _ ih => exact ih.mono ((List.suffix_cons _ _).trans hbase.unfinished.suffix)
  -- type arguments
  | lastArg h => exact unfinished_of_suffix h.suffix nofun
  | lastArgComma h =>
    exact unfinished_of_suffix ((List.suffix_cons _ _).trans h.suffix) nofun
  | nextArg h _ _ _ ih => exact ih.mono ((List.suffix_cons _ _).trans h.suffix)
  -- signatures
  | results hparams _ _ ih =>
    exact (ih.mono ((List.suffix_cons _ _).trans hparams.suffix)).cons _
  | result hparams _ _ _ _ ih => exact (ih.mono hparams.suffix).cons _
  | noResult _ _ ih => exact ih.cons _
  -- parameters
  | paramSemicolon _ ih => exact ih.cons _
  | noParam => exact unfinished_cons nofun
  | ellipsisParam h _ _ ih =>
    exact (ih.mono ((skipComma_suffix _).trans h.suffix)).cons _
  | typeParam h _ _ ih => exact ih.mono ((List.suffix_cons _ _).trans h.suffix)
  | lastTypeParam h _ _ ih => exact ih.mono h.suffix
  | namedEllipsis hname h _ _ _ ih =>
    exact ih.mono ((skipComma_suffix _).trans (h.suffix.trans
      ((List.suffix_cons _ _).trans hname.suffix)))
  | namedParam hname h _ _ _ ih =>
    exact ih.mono ((skipComma_suffix _).trans (h.suffix.trans hname.suffix))
  -- struct members
  | fieldSemicolon _ ih => exact ih.cons _
  | noField => exact unfinished_cons nofun
  | field h htag hends _ _ ih =>
    exact ih.mono ((hends.suffix.trans htag.suffix).trans h.suffix)
  | embeddedPointer _ _ ih => exact ih
  | embeddedName _ _ ih => exact ih
  | arrayMember _ _ _ ih => exact ih.cons _
  | embeddedGeneric _ _ _ ih => exact ih
  | namedMember _ _ _ hnames _ ih => exact ih.mono hnames.takes.suffix
  -- interface elements
  | elemSemicolon _ ih => exact ih.cons _
  | noElem => exact unfinished_cons nofun
  | method _ _ h hends _ _ ih =>
    exact (ih.mono (hends.suffix.trans h.suffix)).cons _
  | union _ h hends _ _ ih => exact ih.mono (hends.suffix.trans h.suffix)
  | lastTerm _ _ ih => exact ih
  | nextTerm h _ _ ih => exact ih.mono ((List.suffix_cons _ _).trans h.suffix)
  | approximate _ ih => exact ih.cons _
  | exact _ ih => exact ih

/-! ## Specifications -/

/-- What `R` reads ends with a token that is no semicolon, and is read alike when the tokens behind
the next one are replaced. -/
structure Specifies (R : List Located → List Located → Prop) : Prop where
  unfinished : ∀ {ts rest : List Located}, R ts rest → Unfinished ts rest
  relocate : ∀ {ts mid r : List Located} (r' : List Located), mid ≠ [] → R ts (mid ++ r) →
    ∃ body, ts = body ++ r ∧ R (body ++ r') (mid ++ r')

/-- What `R` reads up to a semicolon is read alike when the tokens behind it are replaced. -/
structure Resumes (R : List Located → List Located → Prop) : Prop where
  relocate : ∀ {ts mid r : List Located} (r' : List Located), R ts (mid ++ r) →
    (mid = [] → ¬Unfinished ts r) → ∃ body, ts = body ++ r ∧ R (body ++ r') (mid ++ r')

theorem Resumes.suffix {R : List Located → List Located → Prop} (hR : Resumes R)
    {ts rest : List Located} (h : R ts rest) : rest <:+ ts := by
  by_cases hunfinished : Unfinished ts rest
  · exact hunfinished.suffix
  · obtain ⟨body, rfl, -⟩ := @Resumes.relocate R hR ts [] rest rest h fun _ => hunfinished
    exact List.suffix_append _ _

/-- A specification with the end of its statement. -/
theorem Specifies.ended {R : List Located → List Located → Prop} (hR : Specifies R)
    {ts behind mid r : List Located} (r' : List Located) (h : R ts behind)
    (hends : Ends behind (mid ++ r)) (hlast : mid = [] → ¬Unfinished ts r) :
    ∃ body behind', body ≠ [] ∧ ts = body ++ r ∧ R (body ++ r') behind' ∧
      Ends behind' (mid ++ r') := by
  by_cases hmid : mid = []
  · subst hmid
    cases hends with
    | @semicolon line =>
      obtain ⟨body, rfl, hread⟩ := @Specifies.relocate R hR ts [⟨line, .semicolon⟩] r r'
        (List.cons_ne_nil _ _) h
      exact ⟨body, _, (hR.unfinished hread).ne_nil, rfl, hread, .semicolon⟩
    | before => exact absurd (hR.unfinished h) (hlast rfl)
  · obtain ⟨behind', rfl, hne, hends'⟩ := hends.relocate r' hmid
    obtain ⟨body, rfl, hread⟩ := hR.relocate r' hne h
    exact ⟨body, _, (hR.unfinished hread).ne_nil, rfl, hread, hends'⟩

theorem specifies_word (w : String) :
    Specifies fun ts rest => ∃ line, ts = ⟨line, .word w⟩ :: rest where
  unfinished := by
    rintro _ rest ⟨line, rfl⟩
    exact unfinished_cons nofun
  relocate := by
    rintro _ mid r r' - ⟨line, rfl⟩
    exact ⟨⟨line, .word w⟩ :: mid, rfl, line, rfl⟩

theorem specifies_import (spec : Import) : Specifies (ReadsImport spec) where
  unfinished := by
    intro ts rest h
    have hpath : ∀ (line : Nat) (path : String), Unfinished (⟨line, .str path⟩ :: rest) rest :=
      fun line path => unfinished_cons nofun
    cases h with
    | plain => exact hpath _ _
    | named => exact (hpath _ _).cons _
    | dot => exact (hpath _ _).cons _
  relocate := by
    intro ts mid r r' _ h
    cases h with
    | plain => exact ⟨_ :: mid, rfl, .plain⟩
    | named => exact ⟨_ :: _ :: mid, rfl, .named⟩
    | dot => exact ⟨_ :: _ :: mid, rfl, .dot⟩

/-! ## Type declarations -/

theorem ReadsParamNames.relocate {depth : Nat} {atName : Bool} {names : List String}
    {ts mid r : List Located} (r' : List Located)
    (h : ReadsParamNames depth atName names ts (mid ++ r)) :
    ∃ body, ts = body ++ r ∧ ReadsParamNames depth atName names (body ++ r') (mid ++ r') := by
  generalize hrest : mid ++ r = rest at h
  induction h with
  | @close _ t _ hclose =>
    subst hrest
    exact ⟨t :: mid, rfl, .close hclose⟩
  | name _ ih =>
    obtain ⟨body, rfl, hread⟩ := ih hrest
    exact ⟨_ :: body, rfl, .name hread⟩
  | @other _ _ t _ _ _ hclose hname _ ih =>
    obtain ⟨body, rfl, hread⟩ := ih hrest
    exact ⟨t :: body, rfl, .other hclose hname hread⟩

/-- A type that starts with a bracket has at least three tokens. -/
theorem Reads.length_of_bracket {type : TypeExpr} {ts rest : List Located}
    (h : Reads (.type type) ts rest) (hbracket : next ts = some .leftBracket) :
    rest.length + 3 ≤ ts.length := by
  cases h with
  | slice h => exact Nat.add_le_add_right h.length_lt 2
  | openArray h => exact Nat.add_le_add_right (Nat.le_of_lt h.length_lt) 3
  | array _ _ hlength h =>
    have hlt := length_lt_of_outcome hlength
    have hlt' := h.length_lt
    rw [List.length_cons]
    omega
  | name h => cases h <;> cases hbracket
  | generic hbase => cases hbase <;> cases hbracket
  | _ => cases hbracket

/-- Whether type parameters start is seen from three tokens. -/
theorem atTypeParams_append {body : List Located} (hne : body ≠ [])
    (hbracket : next body = some .leftBracket → 3 ≤ body.length) (r r' : List Located) :
    atTypeParams (body ++ r) = atTypeParams (body ++ r') := by
  match body with
  | [] => exact absurd rfl hne
  | ⟨line, token⟩ :: body =>
    cases token with
    | leftBracket =>
      match body, hbracket rfl with
      | ⟨_, token'⟩ :: _ :: _, _ => cases token' <;> rfl
    | _ => rfl

theorem ReadsParams.relocate {names : List String} {ts mid r : List Located} (r' : List Located)
    (h : ReadsParams names ts (mid ++ r)) (hmid : mid ≠ [])
    (hbracket : next mid = some .leftBracket → 3 ≤ mid.length) :
    ∃ body, ts = body ++ r ∧ ReadsParams names (body ++ r') (mid ++ r') := by
  generalize hrest : mid ++ r = rest at h
  cases h with
  | @list t _ _ _ hat h =>
    subst hrest
    obtain ⟨body, rfl, hread⟩ := h.relocate r'
    have hlt := length_lt_of_outcome hread.outcome_eq
    have hlength : 3 ≤ (t :: body).length := by
      have hpos := List.length_pos_iff.2 hmid
      rw [List.length_append, List.length_append] at hlt
      rw [List.length_cons]
      omega
    change atTypeParams (t :: body ++ r) = true at hat
    rw [atTypeParams_append (List.cons_ne_nil _ _) (fun _ => hlength) r r'] at hat
    exact ⟨t :: body, rfl, .list hat hread⟩
  | none hat =>
    subst hrest
    rw [atTypeParams_append hmid hbracket r r'] at hat
    exact ⟨mid, rfl, .none hat⟩

theorem specifies_decl (decl : TypeDecl) : Specifies (ReadsDecl decl) where
  unfinished := by
    rintro _ rest ⟨-, hparams, halias, htype⟩
    exact (htype.unfinished.mono (halias.suffix.trans hparams.suffix)).cons _
  relocate := by
    rintro _ mid r r' hmid @⟨line, w, params, isAlias, type, _, _, _, _, hw, hparams, halias, htype⟩
    have hfollows : (Phrase.type type).Follows (mid ++ r) (mid ++ r') :=
      .inl (next_append hmid r r')
    obtain ⟨body, rfl, htype'⟩ := htype.relocate hfollows
    generalize hrest : body ++ r = rest at halias
    cases halias with
    | @mark line' =>
      subst hrest
      obtain ⟨body', rfl, hparams'⟩ := @ReadsParams.relocate params _ (⟨line', .assign⟩ :: body) r
        r' hparams (List.cons_ne_nil _ _) nofun
      exact ⟨⟨line, .word w⟩ :: body', rfl, .decl hw hparams' .mark htype'⟩
    | none hassign =>
      subst hrest
      have hne := htype'.ne_nil
      have hbracket : next body = some .leftBracket → 3 ≤ body.length := by
        intro hnext
        rw [← List.append_nil body, next_append hne [] r'] at hnext
        have hlength := htype'.length_of_bracket hnext
        rw [List.length_append, List.length_append] at hlength
        omega
      obtain ⟨body', rfl, hparams'⟩ := hparams.relocate r' hne hbracket
      rw [next_append hne r r'] at hassign
      exact ⟨⟨line, .word w⟩ :: body', rfl, .decl hw hparams' (.none hassign) htype'⟩

/-! ## Clauses -/

section

variable {α : Type} {Spec : α → List Located → List Located → Prop}

theorem ReadsGroup.unfinished (hspec : ∀ spec, Specifies (Spec spec)) {specs : List α}
    {ts rest : List Located} (h : ReadsGroup Spec specs ts rest) : Unfinished ts rest := by
  induction h with
  | semicolon _ ih => exact ih.cons _
  | done => exact unfinished_cons nofun
  | spec h hends _ ih => exact ih.mono (hends.suffix.trans ((hspec _).unfinished h).suffix)

theorem specifies_group (hspec : ∀ spec, Specifies (Spec spec)) (specs : List α) :
    Specifies (ReadsGroup Spec specs) where
  unfinished := ReadsGroup.unfinished hspec
  relocate := by
    intro ts mid r r' _ h
    generalize hrest : mid ++ r = rest at h
    induction h with
    | semicolon _ ih =>
      obtain ⟨body, rfl, hread⟩ := ih hrest
      exact ⟨_ :: body, rfl, .semicolon hread⟩
    | done =>
      subst hrest
      exact ⟨_ :: mid, rfl, .done⟩
    | spec h hends hmore ih =>
      subst hrest
      obtain ⟨body, rfl, hread⟩ := ih rfl
      have hne := (hread.unfinished hspec).ne_nil
      obtain ⟨body', behind, -, rfl, hspec', hends'⟩ :=
        (hspec _).ended r' h hends fun hnil => absurd hnil hne
      exact ⟨body', rfl, .spec hspec' hends' hread⟩

theorem resumes_clause (hspec : ∀ spec, Specifies (Spec spec)) (keyword : String)
    (specs : List α) : Resumes (ReadsClause Spec keyword specs) where
  relocate := by
    intro ts mid r r' h hlast
    cases h with
    | group h hends =>
      obtain ⟨body, behind, -, rfl, hread, hends'⟩ := (specifies_group hspec specs).ended r' h hends
        fun hmid hts => hlast hmid ((hts.cons _).cons _)
      exact ⟨_ :: _ :: body, rfl, .group hread hends'⟩
    | single h hends =>
      obtain ⟨body, behind, -, rfl, hread, hends'⟩ := (hspec _).ended r' h hends
        fun hmid hts => hlast hmid (hts.cons _)
      exact ⟨_ :: body, rfl, .single hread hends'⟩

theorem Rounds.suffix {Round : List α → List Located → List Located → Prop}
    (hround : ∀ new, Resumes (Round new)) {all : List α} {ts rest : List Located}
    (h : Rounds Round all ts rest) : rest <:+ ts := by
  induction h with
  | refl => exact List.suffix_rfl
  | round h _ ih => exact ih.trans ((hround _).suffix h)

theorem resumes_rounds {Round : List α → List Located → List Located → Prop}
    (hround : ∀ new, Resumes (Round new)) (all : List α) : Resumes (Rounds Round all) where
  relocate := by
    intro ts mid r r' h hlast
    generalize hrest : mid ++ r = rest at h
    induction h with
    | refl =>
      subst hrest
      exact ⟨mid, rfl, .refl _⟩
    | round h hmore ih =>
      subst hrest
      obtain ⟨body, rfl, hmore'⟩ := ih (fun hmid hunfinished =>
        hlast hmid (hunfinished.mono ((hround _).suffix h))) rfl
      have hbody : body = [] → mid = [] := by
        rintro rfl
        have hle := (hmore.suffix hround).length_le
        rw [List.length_append, List.nil_append] at hle
        exact List.eq_nil_of_length_eq_zero (by omega)
      obtain ⟨body', rfl, hread⟩ := (hround _).relocate r' h fun hnil => hlast (hbody hnil)
      exact ⟨body', rfl, .round hread hmore'⟩

end

/-! ## Rounds -/

theorem Skips.length_lt {depth : Nat} {ts rest : List Located} (h : Skips depth ts rest) :
    rest.length < ts.length := by
  induction h with
  | semicolon => exact Nat.lt_succ_self _
  | last => exact Nat.zero_lt_succ _
  | next _ _ ih => exact Nat.lt_succ_of_lt ih

theorem resumes_skips (depth : Nat) : Resumes (Skips depth) where
  relocate := by
    intro ts mid r r' h hlast
    generalize hrest : mid ++ r = rest at h
    induction h with
    | @semicolon line =>
      subst hrest
      exact ⟨⟨line, .semicolon⟩ :: mid, rfl, .semicolon⟩
    | @last depth t hinside hdepth =>
      obtain ⟨rfl, rfl⟩ := List.append_eq_nil_iff.1 hrest
      refine absurd ⟨t, List.suffix_rfl, fun hsemicolon => hinside ?_⟩ (hlast rfl)
      rw [hsemicolon] at hdepth
      exact ⟨hdepth, .inl hsemicolon⟩
    | @next _ t _ _ hinside _ ih =>
      obtain ⟨body, rfl, hskips⟩ :=
        ih (fun hmid hunfinished => hlast hmid (hunfinished.cons t)) hrest
      exact ⟨t :: body, rfl, .next hinside hskips⟩

theorem resumes_importRound (imports : List Import) : Resumes (ImportRound imports) where
  relocate := by
    intro ts mid r r' h hlast
    cases h with
    | @semicolon line => exact ⟨⟨line, .semicolon⟩ :: mid, rfl, .semicolon⟩
    | clause h =>
      obtain ⟨body, rfl, hclause⟩ := (resumes_clause specifies_import _ _).relocate r' h hlast
      exact ⟨body, rfl, .clause hclause⟩

theorem resumes_declRound (decls : List TypeDecl) : Resumes (DeclRound decls) where
  relocate := by
    intro ts mid r r' h hlast
    cases h with
    | @semicolon line => exact ⟨⟨line, .semicolon⟩ :: mid, rfl, .semicolon⟩
    | clause h =>
      obtain ⟨body, rfl, hclause⟩ := (resumes_clause specifies_decl _ _).relocate r' h hlast
      exact ⟨body, rfl, .clause hclause⟩
    | @other t _ _ htype hsemicolon h =>
      obtain ⟨body, hbody, hskips⟩ := (resumes_skips 0).relocate r' h hlast
      obtain ⟨more, rfl, rfl⟩ :=
        exists_of_cons_eq_append hbody (ne_nil_of_length_lt hskips.length_lt)
      exact ⟨t :: more, rfl, .other htype hsemicolon hskips⟩

theorem resumes_package (package : String) : Resumes (ReadsPackage package) where
  relocate := by
    intro ts mid r r' h hlast
    generalize hrest : mid ++ r = rest at h
    induction h with
    | semicolon _ ih =>
      obtain ⟨body, rfl, hread⟩ :=
        ih (fun hmid hunfinished => hlast hmid (hunfinished.cons _)) hrest
      exact ⟨_ :: body, rfl, .semicolon hread⟩
    | @clause _ line w _ _ hw hends =>
      subst hrest
      obtain ⟨body, behind, -, hbody, ⟨line', hbehind⟩, hends'⟩ :=
        (specifies_word w).ended r' ⟨line, rfl⟩ hends
          fun hmid hunfinished => hlast hmid (hunfinished.cons _)
      rw [hbody]
      refine ⟨_ :: body, rfl, ?_⟩
      rw [List.cons_append, hbehind]
      exact .clause hw hends'

end StructCopy.Go
