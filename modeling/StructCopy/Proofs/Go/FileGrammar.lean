/-
  Proofs/Go/FileGrammar: what the reader of files accepts, as a relation.

  A file is its package clause, then rounds of the loop that reads imports, then rounds
  of the loop that reads type declarations.  A round of a loop takes one clause, a
  declaration that is passed over, or a stray semicolon; `Rounds` puts rounds one after
  another, so that a place between two declarations is the end of some rounds and the
  start of others.
-/
import StructCopy.Proofs.Go.Grammar
import StructCopy.Proofs.Go.Skipping

set_option autoImplicit false

namespace StructCopy.Go

/-! ## Imports and type declarations -/

/-- One import, with the name that may stand before its path. -/
inductive ReadsImport : Import → List Located → List Located → Prop where
  | plain {line : Nat} {path : String} {rest : List Located} :
      ReadsImport ⟨line, none, path⟩ (⟨line, .str path⟩ :: rest) rest
  | named {line line' : Nat} {w path : String} {rest : List Located} :
      ReadsImport ⟨line, some w, path⟩ (⟨line, .word w⟩ :: ⟨line', .str path⟩ :: rest) rest
  | dot {line line' : Nat} {path : String} {rest : List Located} :
      ReadsImport ⟨line, some ".", path⟩ (⟨line, .dot⟩ :: ⟨line', .str path⟩ :: rest) rest

/-- The names of type parameters up to the bracket that closes their list, with it; `depth` more
brackets are open, and `atName` says that a word would be a name. -/
inductive ReadsParamNames : Nat → Bool → List String → List Located → List Located → Prop where
  | close {atName : Bool} {t : Located} {rest : List Located} (hclose : t.token.closes = true) :
      ReadsParamNames 0 atName [] (t :: rest) rest
  | name {depth line : Nat} {w : String} {names : List String} {ts rest : List Located}
      (h : ReadsParamNames depth false names ts rest) :
      ReadsParamNames depth true (w :: names) (⟨line, .word w⟩ :: ts) rest
  | other {depth : Nat} {atName : Bool} {t : Located} {names : List String} {ts rest : List Located}
      (hclose : ¬(t.token.closes = true ∧ depth = 0))
      (hname : atName = true → ∀ w, t.token ≠ .word w)
      (h : ReadsParamNames (t.token.depthAfter depth) (t.token == .comma && depth == 0) names ts
        rest) : ReadsParamNames depth atName names (t :: ts) rest

/-- The type parameters of a declaration, if it has any. -/
inductive ReadsParams : List String → List Located → List Located → Prop where
  | list {t : Located} {names : List String} {ts rest : List Located}
      (hat : atTypeParams (t :: ts) = true) (h : ReadsParamNames 0 true names ts rest) :
      ReadsParams names (t :: ts) rest
  | none {rest : List Located} (hat : atTypeParams rest = false) : ReadsParams [] rest rest

/-- The mark of an alias, if there is one. -/
inductive ReadsAliasMark : Bool → List Located → List Located → Prop where
  | mark {line : Nat} {rest : List Located} :
      ReadsAliasMark true (⟨line, .assign⟩ :: rest) rest
  | none {rest : List Located} (h : next rest ≠ some .assign) : ReadsAliasMark false rest rest

/-- One type declaration from behind its keyword. -/
inductive ReadsDecl : TypeDecl → List Located → List Located → Prop where
  | decl {line : Nat} {w : String} {params : List String} {isAlias : Bool} {type : TypeExpr}
      {ts mid mid' rest : List Located} (hw : isKeyword w = false)
      (hparams : ReadsParams params ts mid) (halias : ReadsAliasMark isAlias mid mid')
      (htype : Reads (.type type) mid' rest) :
      ReadsDecl ⟨line, w, params, isAlias, type⟩ (⟨line, .word w⟩ :: ts) rest

/-! ## Clauses -/

section

variable {α : Type} (Spec : α → List Located → List Located → Prop)

/-- Specifications from behind an opening parenthesis, with the closing one. -/
inductive ReadsGroup : List α → List Located → List Located → Prop where
  | semicolon {line : Nat} {specs : List α} {ts rest : List Located}
      (h : ReadsGroup specs ts rest) : ReadsGroup specs (⟨line, .semicolon⟩ :: ts) rest
  | done {line : Nat} {rest : List Located} : ReadsGroup [] (⟨line, .rightParen⟩ :: rest) rest
  | spec {spec : α} {specs : List α} {ts mid mid' rest : List Located} (h : Spec spec ts mid)
      (hends : Ends mid mid') (hmore : ReadsGroup specs mid' rest) :
      ReadsGroup (spec :: specs) ts rest

/-- A keyword with one specification, or with a group of them, and the end of the statement. -/
inductive ReadsClause (keyword : String) : List α → List Located → List Located → Prop where
  | group {line line' : Nat} {specs : List α} {ts mid rest : List Located}
      (h : ReadsGroup Spec specs ts mid) (hends : Ends mid rest) :
      ReadsClause keyword specs (⟨line, .word keyword⟩ :: ⟨line', .leftParen⟩ :: ts) rest
  | single {line : Nat} {spec : α} {ts mid rest : List Located} (h : Spec spec ts mid)
      (hends : Ends mid rest) : ReadsClause keyword [spec] (⟨line, .word keyword⟩ :: ts) rest

end

/-! ## Rounds -/

/-- What is left when a declaration is passed over, with `depth` brackets open before it. -/
inductive Skips : Nat → List Located → List Located → Prop where
  | semicolon {line : Nat} {rest : List Located} : Skips 0 (⟨line, .semicolon⟩ :: rest) rest
  | last {depth : Nat} {t : Located}
      (hinside : ¬(depth = 0 ∧ (t.token = .semicolon ∨ t.token.closes = true)))
      (hdepth : t.token.depthAfter depth = 0) : Skips depth [t] []
  | next {depth : Nat} {t : Located} {ts rest : List Located}
      (hinside : ¬(depth = 0 ∧ (t.token = .semicolon ∨ t.token.closes = true)))
      (h : Skips (t.token.depthAfter depth) ts rest) : Skips depth (t :: ts) rest

/-- One round of the loop that reads imports, with the imports it adds. -/
inductive ImportRound : List Import → List Located → List Located → Prop where
  | semicolon {line : Nat} {rest : List Located} :
      ImportRound [] (⟨line, .semicolon⟩ :: rest) rest
  | clause {imports : List Import} {ts rest : List Located}
      (h : ReadsClause ReadsImport "import" imports ts rest) : ImportRound imports ts rest

/-- One round of the loop that reads type declarations, with the declarations it adds. -/
inductive DeclRound : List TypeDecl → List Located → List Located → Prop where
  | semicolon {line : Nat} {rest : List Located} :
      DeclRound [] (⟨line, .semicolon⟩ :: rest) rest
  | clause {decls : List TypeDecl} {ts rest : List Located}
      (h : ReadsClause ReadsDecl "type" decls ts rest) : DeclRound decls ts rest
  | other {t : Located} {ts rest : List Located} (htype : t.token ≠ .word "type")
      (hsemicolon : t.token ≠ .semicolon) (h : Skips 0 (t :: ts) rest) :
      DeclRound [] (t :: ts) rest

/-- Rounds of a loop one after another, with all that they add. -/
inductive Rounds {α : Type} (Round : List α → List Located → List Located → Prop) :
    List α → List Located → List Located → Prop where
  | refl (ts : List Located) : Rounds Round [] ts ts
  | round {new more : List α} {ts mid rest : List Located} (h : Round new ts mid)
      (hmore : Rounds Round more mid rest) : Rounds Round (new ++ more) ts rest

/-! ## Files -/

/-- The package clause, behind any semicolons, with the end of its statement. -/
inductive ReadsPackage : String → List Located → List Located → Prop where
  | semicolon {line : Nat} {package : String} {ts rest : List Located}
      (h : ReadsPackage package ts rest) :
      ReadsPackage package (⟨line, .semicolon⟩ :: ts) rest
  | clause {line line' : Nat} {w : String} {mid rest : List Located} (hw : isKeyword w = false)
      (hends : Ends mid rest) :
      ReadsPackage w (⟨line, .word "package"⟩ :: ⟨line', .word w⟩ :: mid) rest

/-- No import follows, semicolons aside. -/
def NoImport (ts : List Located) : Prop :=
  next (skipSemicolons ts) ≠ some (.word "import")

/-- The front of a file up to a place where the next type declaration is read, with what has been
read by then. -/
inductive ReadsFront : SourceFile → List Located → List Located → Prop where
  | front {name package : String} {imports : List Import} {decls : List TypeDecl}
      {ts start mid rest : List Located} (hpackage : ReadsPackage package ts start)
      (himports : Rounds ImportRound imports start mid) (hnone : NoImport mid)
      (hdecls : Rounds DeclRound decls mid rest) :
      ReadsFront ⟨name, package, imports, decls⟩ ts rest


/-! ## Everything in the grammar is read -/

theorem ReadsImport.outcome_eq {spec : Import} {ts rest : List Located}
    (h : ReadsImport spec ts rest) : outcome (importSpec ts) = some (spec, rest) := by
  cases h <;> rfl

/-- A word that is the name of a type parameter. -/
theorem outcome_typeParams_name {depth line : Nat} {w : String} {names : List String}
    {ts rest : List Located} (h : outcome (typeParams depth false ts) = some (names, rest)) :
    outcome (typeParams depth true (⟨line, .word w⟩ :: ts)) = some (w :: names, rest) := by
  rw [typeParams, if_neg (fun hclose => Bool.false_ne_true hclose.1)]
  dsimp only
  change outcome (typeParams depth false ts >>= _) = _
  rw [outcome_bind h]
  rfl

/-- Any other token among type parameters. -/
theorem outcome_typeParams_other {depth : Nat} {atName : Bool} {t : Located} {names : List String}
    {ts rest : List Located} (hclose : ¬(t.token.closes = true ∧ depth = 0))
    (hname : atName = true → ∀ w, t.token ≠ .word w)
    (h : outcome (typeParams (t.token.depthAfter depth) (t.token == .comma && depth == 0) ts) =
      some (names, rest)) :
    outcome (typeParams depth atName (t :: ts)) = some (names, rest) := by
  obtain ⟨line, token⟩ := t
  rw [typeParams, if_neg hclose, outcome_bind h]
  dsimp only
  split
  · cases atName with
    | false => rfl
    | true => exact absurd rfl (hname rfl _)
  · rfl

theorem ReadsParamNames.outcome_eq {depth : Nat} {atName : Bool} {names : List String}
    {ts rest : List Located} (h : ReadsParamNames depth atName names ts rest) :
    outcome (typeParams depth atName ts) = some (names, rest) := by
  induction h with
  | close hclose =>
    rw [typeParams, if_pos ⟨hclose, rfl⟩]
    rfl
  | name _ ih => exact outcome_typeParams_name ih
  | other hclose hname _ ih => exact outcome_typeParams_other hclose hname ih

theorem ReadsParams.optionalTypeParams_eq {names : List String} {ts rest : List Located}
    (h : ReadsParams names ts rest) :
    ∃ hle, optionalTypeParams ts = .ok (names, ⟨rest, hle⟩) := by
  cases h with
  | @list t _ ts rest hat h =>
    obtain ⟨hlt, hok⟩ := ok_of_outcome h.outcome_eq
    refine ⟨Nat.le_succ_of_le (Nat.le_of_lt hlt), ?_⟩
    rw [optionalTypeParams, if_pos hat]
    change typeParams 0 true ts >>= _ = _
    rw [hok]
    rfl
  | none hat =>
    refine ⟨Nat.le_refl _, ?_⟩
    rw [optionalTypeParams, if_neg (Bool.eq_false_iff.1 hat)]
    rfl

theorem ReadsAliasMark.aliasMark_eq {isAlias : Bool} {ts rest : List Located}
    (h : ReadsAliasMark isAlias ts rest) : ∃ hle, aliasMark ts = (isAlias, ⟨rest, hle⟩) := by
  cases h with
  | mark => exact ⟨Nat.le_succ _, rfl⟩
  | none h =>
    refine ⟨Nat.le_refl _, ?_⟩
    unfold aliasMark
    split
    · exact absurd rfl h
    · rfl

theorem ReadsDecl.outcome_eq {decl : TypeDecl} {ts rest : List Located}
    (h : ReadsDecl decl ts rest) : outcome (typeSpec ts) = some (decl, rest) := by
  obtain ⟨hw, hparams, halias, htype⟩ := h
  obtain ⟨hle, hparams⟩ := hparams.optionalTypeParams_eq
  obtain ⟨hle', halias⟩ := halias.aliasMark_eq
  obtain ⟨hlt, htype⟩ := ok_of_outcome htype.outcome_eq
  rw [typeSpec, readers_eq, round, declRound, identifier_cons hw]
  dsimp only [bind, Except.bind]
  rw [hparams]
  dsimp only
  rw [halias]
  dsimp only
  unfold typeExpr at htype
  rw [htype]
  rfl

/-- An import starts neither with a semicolon nor with a parenthesis. -/
theorem ReadsImport.next_ne {spec : Import} {ts rest : List Located}
    (h : ReadsImport spec ts rest) :
    next ts ≠ some .semicolon ∧ next ts ≠ some .leftParen ∧ next ts ≠ some .rightParen := by
  cases h <;> exact ⟨nofun, nofun, nofun⟩

theorem ReadsDecl.next_ne {decl : TypeDecl} {ts rest : List Located}
    (h : ReadsDecl decl ts rest) :
    next ts ≠ some .semicolon ∧ next ts ≠ some .leftParen ∧ next ts ≠ some .rightParen := by
  cases h
  exact ⟨nofun, nofun, nofun⟩

theorem outcome_importGroup {imports : List Import} {ts rest : List Located}
    (h : ReadsGroup ReadsImport imports ts rest) :
    outcome (importGroup ts) = some (imports, rest) := by
  induction h with
  | semicolon _ ih =>
    rw [importGroup, outcome_bind ih]
    rfl
  | done =>
    rw [importGroup]
    rfl
  | spec h hends _ ih =>
    obtain ⟨hsemicolon, -, hclose⟩ := h.next_ne
    obtain ⟨hle, hend⟩ := hends.terminator_eq
    rw [importGroup, outcome_bind h.outcome_eq]
    · dsimp only
      rw [hend]
      change outcome (importGroup _ >>= _) = _
      rw [outcome_bind ih]
      rfl
    · rintro line more rfl
      exact hsemicolon rfl
    · rintro line more rfl
      exact hclose rfl

theorem outcome_typeGroup {decls : List TypeDecl} {ts rest : List Located}
    (h : ReadsGroup ReadsDecl decls ts rest) :
    outcome (typeGroup ts) = some (decls, rest) := by
  induction h with
  | semicolon _ ih =>
    rw [typeGroup_semicolon, outcome_bind ih]
    rfl
  | done =>
    rw [typeGroup_rightParen]
    rfl
  | spec h hends _ ih =>
    obtain ⟨hsemicolon, -, hclose⟩ := h.next_ne
    obtain ⟨hle, hend⟩ := hends.terminator_eq
    rw [typeGroup_spec hsemicolon hclose, outcome_bind h.outcome_eq]
    dsimp only
    rw [hend]
    change outcome (typeGroup _ >>= _) = _
    rw [outcome_bind ih]
    rfl

/-- The imports of some tokens, with the tokens behind them. -/
def importsRead (ts : List Located) : Except Stuck (List Import × List Located) :=
  (importDecls ts).map fun found => (found.1, found.2.val)

theorem importsRead_semicolon (line : Nat) (ts : List Located) :
    importsRead (⟨line, .semicolon⟩ :: ts) = importsRead ts := by
  unfold importsRead
  rw [importDecls.eq_def]
  dsimp only
  cases importDecls ts <;> rfl

theorem skipSemicolons_of_next_ne {ts : List Located} (h : next ts ≠ some .semicolon) :
    skipSemicolons ts = ts := by
  cases ts with
  | nil => rfl
  | cons t ts =>
    have htoken : (t.token == .semicolon) = false :=
      beq_eq_false_iff_ne.2 fun heq => h (congrArg some heq)
    exact List.dropWhile_cons_of_neg (Bool.eq_false_iff.1 htoken)

theorem importDecls_of_next_ne {ts : List Located} (hsemicolon : next ts ≠ some .semicolon)
    (hnone : next ts ≠ some (.word "import")) :
    importDecls ts = .ok ([], ⟨ts, Nat.le_refl _⟩) := by
  rw [importDecls.eq_def]
  split
  · exact absurd rfl hsemicolon
  · next w _ =>
    rw [if_neg fun hw : w = "import" => hnone (congrArg (fun w => some (Token.word w)) hw)]
    rfl
  · rfl

/-- No import is read where none follows. -/
theorem importsRead_of_noImport {ts : List Located} (h : NoImport ts) :
    importsRead ts = .ok ([], skipSemicolons ts) := by
  induction ts with
  | nil =>
    have hnil : ∀ token, next [] ≠ some token := fun _ heq => by cases heq
    rw [importsRead, importDecls_of_next_ne (hnil _) (hnil _)]
    rfl
  | cons t ts ih =>
    by_cases hsemicolon : next (t :: ts) = some .semicolon
    · obtain ⟨line, token⟩ := t
      cases hsemicolon
      rw [importsRead_semicolon, ih h]
      rfl
    · unfold NoImport at h
      rw [skipSemicolons_of_next_ne hsemicolon] at h ⊢
      rw [importsRead, importDecls_of_next_ne hsemicolon h]
      rfl

theorem ReadsClause.importsRead_eq {new : List Import} {ts rest : List Located}
    (h : ReadsClause ReadsImport "import" new ts rest) :
    importsRead ts = (importsRead rest).map fun found => (new ++ found.1, found.2) := by
  unfold importsRead
  cases h with
  | group h hends =>
    obtain ⟨hlt, hgroup⟩ := ok_of_outcome (outcome_importGroup h)
    obtain ⟨hle, hend⟩ := hends.terminator_eq
    rw [importDecls.eq_def]
    dsimp only
    rw [if_pos rfl, hgroup]
    dsimp only [bind, Except.bind]
    rw [hend]
    dsimp only
    cases importDecls rest <;> rfl
  | single h hends =>
    obtain ⟨-, hopen, -⟩ := h.next_ne
    obtain ⟨hlt, hspec⟩ := ok_of_outcome h.outcome_eq
    obtain ⟨hle, hend⟩ := hends.terminator_eq
    rw [importDecls.eq_def]
    dsimp only
    rw [if_pos rfl]
    split
    · exact absurd rfl hopen
    · rw [hspec]
      dsimp only [bind, Except.bind]
      rw [hend]
      dsimp only
      cases importDecls rest <;> rfl

theorem ReadsClause.typeDecls_eq {new : List TypeDecl} {ts rest : List Located}
    (h : ReadsClause ReadsDecl "type" new ts rest) :
    typeDecls ts = (typeDecls rest).map (new ++ ·) := by
  cases h with
  | group h hends =>
    obtain ⟨hlt, hgroup⟩ := ok_of_outcome (outcome_typeGroup h)
    obtain ⟨hle, hend⟩ := hends.terminator_eq
    rw [typeDecls_group, hgroup]
    dsimp only [bind, Except.bind]
    rw [hend]
    dsimp only
    cases typeDecls rest <;> rfl
  | single h hends =>
    obtain ⟨-, hopen, -⟩ := h.next_ne
    obtain ⟨hlt, hspec⟩ := ok_of_outcome h.outcome_eq
    obtain ⟨hle, hend⟩ := hends.terminator_eq
    rw [typeDecls_spec _ hopen, hspec]
    dsimp only [bind, Except.bind]
    rw [hend]
    dsimp only
    cases typeDecls rest <;> rfl

theorem Skips.cons {depth : Nat} {ts rest : List Located} (h : Skips depth ts rest) :
    ∃ t more, ts = t :: more := by
  cases h <;> exact ⟨_, _, rfl⟩

theorem skipped_last {start : List Located} {depth : Nat} {t : Located}
    (hinside : ¬(depth = 0 ∧ (t.token = .semicolon ∨ t.token.closes = true))) :
    skipped start depth t [] =
      if t.token.depthAfter depth = 0 then .ok [] else .error ⟨.unbalanced, start⟩ := by
  have hsemicolon : ¬(t.token = .semicolon ∧ depth = 0) :=
    fun hboth => hinside ⟨hboth.2, .inl hboth.1⟩
  have hcloses : ¬(t.token.closes = true ∧ depth = 0) :=
    fun hboth => hinside ⟨hboth.2, .inr hboth.1⟩
  rw [skipped, skipDecl.eq_def, if_neg hsemicolon, if_neg hcloses]
  dsimp only
  split <;> rfl

theorem Skips.skipped_eq (start : List Located) {depth : Nat} {t : Located}
    {ts rest : List Located} (h : Skips depth (t :: ts) rest) :
    skipped start depth t ts = .ok rest := by
  generalize hlist : t :: ts = list at h
  induction h generalizing t ts with
  | semicolon =>
    cases hlist
    exact skipped_semicolon start _ _
  | last hinside hdepth =>
    cases hlist
    rw [skipped_last hinside, if_pos hdepth]
  | next hinside h ih =>
    cases hlist
    obtain ⟨t', more, rfl⟩ := h.cons
    rw [skipped_cons hinside]
    exact ih rfl

theorem DeclRound.typeDecls_eq {new : List TypeDecl} {ts rest : List Located}
    (h : DeclRound new ts rest) : typeDecls ts = (typeDecls rest).map (new ++ ·) := by
  cases h with
  | semicolon =>
    rw [typeDecls_semicolon]
    cases typeDecls rest <;> rfl
  | clause h => exact h.typeDecls_eq
  | other htype hsemicolon h =>
    rw [typeDecls_of_skipped htype hsemicolon (h.skipped_eq _)]
    cases typeDecls rest <;> rfl

theorem ImportRound.importsRead_eq {new : List Import} {ts rest : List Located}
    (h : ImportRound new ts rest) :
    importsRead ts = (importsRead rest).map fun found => (new ++ found.1, found.2) := by
  cases h with
  | semicolon =>
    rw [importsRead_semicolon]
    cases importsRead rest <;> rfl
  | clause h => exact h.importsRead_eq

/-! ## Everything that is read is in the grammar -/

theorem eq_cons_of_stringLiteral {ts : List Located} {found : String × Rest ts}
    (h : stringLiteral ts = .ok found) : ∃ line, ts = ⟨line, .str found.1⟩ :: found.2.val := by
  unfold stringLiteral at h
  split at h
  · cases h
    exact ⟨_, rfl⟩
  · cases h

theorem reads_importSpec {ts : List Located} {found : Import × Rest ts}
    (h : importSpec ts = .ok found) : ReadsImport found.1 ts found.2.val := by
  obtain ⟨⟨path, ⟨rest, hlt⟩⟩, hpath, h⟩ := bind_eq_ok h
  obtain ⟨line, hrest⟩ := eq_cons_of_stringLiteral hpath
  cases h
  dsimp only at hrest ⊢
  split at hrest
  · subst hrest
    exact .named
  · subst hrest
    exact .dot
  · subst hrest
    exact .plain

theorem reads_typeParams {depth : Nat} {atName : Bool} {ts : List Located}
    {found : List String × Rest ts} (h : typeParams depth atName ts = .ok found) :
    ReadsParamNames depth atName found.1 ts found.2.val := by
  induction ts generalizing depth atName with
  | nil => cases h
  | cons t ts ih =>
    obtain ⟨line, token⟩ := t
    rw [typeParams] at h
    split at h
    · next hclose =>
      obtain ⟨hclose, rfl⟩ := hclose
      cases h
      exact .close hclose
    · next hclose =>
      obtain ⟨⟨names, rest⟩, hmore, h⟩ := bind_eq_ok h
      have hread := ih hmore
      dsimp only at h
      split at h
      · next w =>
        cases h
        cases atName with
        | true => exact .name hread
        | false => exact .other hclose nofun hread
      · next hword =>
        cases h
        exact .other hclose (fun _ w hw => hword w hw) hread

theorem reads_optionalTypeParams {ts : List Located} {found : List String × RestOrAll ts}
    (h : optionalTypeParams ts = .ok found) : ReadsParams found.1 ts found.2.val := by
  unfold optionalTypeParams at h
  split at h
  · next hat =>
    obtain ⟨⟨names, rest⟩, hnames, h⟩ := bind_eq_ok h
    cases h
    cases ts with
    | nil => cases hat
    | cons t ts => exact .list hat (reads_typeParams hnames)
  · next hat =>
    cases h
    exact .none (Bool.eq_false_iff.2 hat)

theorem reads_aliasMark (ts : List Located) :
    ReadsAliasMark (aliasMark ts).1 ts (aliasMark ts).2.val := by
  unfold aliasMark
  split
  · exact .mark
  · next hassign => exact .none (next_ne_of_not_cons hassign)

theorem reads_typeSpec {ts : List Located} {found : TypeDecl × Rest ts}
    (h : typeSpec ts = .ok found) : ReadsDecl found.1 ts found.2.val := by
  rw [typeSpec, readers_eq] at h
  obtain ⟨⟨w, ⟨rest, hlt⟩⟩, hname, h⟩ := bind_eq_ok h
  obtain ⟨⟨params, ⟨rest', hle⟩⟩, hparams, h⟩ := bind_eq_ok h
  obtain ⟨⟨type, ⟨rest'', hlt'⟩⟩, htype, h⟩ := bind_eq_ok h
  obtain ⟨line, hts, hw⟩ := eq_cons_of_identifier hname
  have houtcome : (Phrase.type type).Outcome _ rest'' := congrArg outcome htype
  dsimp only at hts
  subst hts
  cases h
  exact .decl hw (reads_optionalTypeParams hparams) (reads_aliasMark _)
    (reads_of_outcome houtcome)

theorem reads_importGroup {ts : List Located} {found : List Import × Rest ts}
    (h : importGroup ts = .ok found) : ReadsGroup ReadsImport found.1 ts found.2.val := by
  rw [importGroup.eq_def] at h
  split at h
  · obtain ⟨⟨imports, rest⟩, hmore, h⟩ := bind_eq_ok h
    cases h
    exact .semicolon (reads_importGroup hmore)
  · cases h
    exact .done
  · obtain ⟨⟨spec, rest⟩, hspec, h⟩ := bind_eq_ok h
    obtain ⟨rest', hend, h⟩ := bind_eq_ok h
    obtain ⟨⟨imports, rest''⟩, hmore, h⟩ := bind_eq_ok h
    cases h
    exact .spec (reads_importSpec hspec) (ends_of_terminator hend) (reads_importGroup hmore)
termination_by ts.length
decreasing_by all_goals grind

theorem eq_cons_of_next {ts : List Located} {token : Token} (h : next ts = some token) :
    ∃ line more, ts = ⟨line, token⟩ :: more := by
  cases ts with
  | nil => cases h
  | cons t more =>
    obtain ⟨line, token'⟩ := t
    cases h
    exact ⟨line, more, rfl⟩

theorem reads_typeGroup {ts : List Located} {found : List TypeDecl × Rest ts}
    (h : typeGroup ts = .ok found) : ReadsGroup ReadsDecl found.1 ts found.2.val := by
  by_cases hsemicolon : next ts = some .semicolon
  · obtain ⟨line, more, rfl⟩ := eq_cons_of_next hsemicolon
    rw [typeGroup_semicolon] at h
    obtain ⟨⟨decls, rest⟩, hmore, h⟩ := bind_eq_ok h
    cases h
    exact .semicolon (reads_typeGroup hmore)
  by_cases hclose : next ts = some .rightParen
  · obtain ⟨line, more, rfl⟩ := eq_cons_of_next hclose
    rw [typeGroup_rightParen] at h
    cases h
    exact .done
  rw [typeGroup_spec hsemicolon hclose] at h
  obtain ⟨⟨decl, rest⟩, hspec, h⟩ := bind_eq_ok h
  obtain ⟨rest', hend, h⟩ := bind_eq_ok h
  obtain ⟨⟨decls, rest''⟩, hmore, h⟩ := bind_eq_ok h
  cases h
  exact .spec (reads_typeSpec hspec) (ends_of_terminator hend) (reads_typeGroup hmore)
termination_by ts.length
decreasing_by all_goals grind

theorem rounds_of_importDecls {ts : List Located} {found : List Import × RestOrAll ts}
    (h : importDecls ts = .ok found) :
    Rounds ImportRound found.1 ts found.2.val ∧ NoImport found.2.val := by
  rw [importDecls.eq_def] at h
  split at h
  · obtain ⟨⟨imports, rest⟩, hmore, h⟩ := bind_eq_ok h
    cases h
    obtain ⟨hrounds, hnone⟩ := rounds_of_importDecls hmore
    have hround := @ImportRound.semicolon
    exact ⟨.round hround hrounds, hnone⟩
  · next line w ts =>
    split at h
    · next hw =>
      subst hw
      split at h
      · obtain ⟨⟨group, rest⟩, hgroup, h⟩ := bind_eq_ok h
        obtain ⟨rest', hend, h⟩ := bind_eq_ok h
        obtain ⟨⟨imports, rest''⟩, hmore, h⟩ := bind_eq_ok h
        cases h
        obtain ⟨hrounds, hnone⟩ := rounds_of_importDecls hmore
        exact ⟨.round (.clause (.group (reads_importGroup hgroup) (ends_of_terminator hend)))
          hrounds, hnone⟩
      · obtain ⟨⟨spec, rest⟩, hspec, h⟩ := bind_eq_ok h
        obtain ⟨rest', hend, h⟩ := bind_eq_ok h
        obtain ⟨⟨imports, rest''⟩, hmore, h⟩ := bind_eq_ok h
        cases h
        obtain ⟨hrounds, hnone⟩ := rounds_of_importDecls hmore
        exact ⟨.round (.clause (.single (reads_importSpec hspec) (ends_of_terminator hend)))
          hrounds, hnone⟩
    · next hw =>
      cases h
      exact ⟨.refl _, fun heq => hw (Token.word.inj (Option.some.inj heq))⟩
  · next hsemicolon hword =>
    cases h
    refine ⟨.refl _, ?_⟩
    unfold NoImport
    rw [skipSemicolons_of_next_ne (next_ne_of_not_cons hsemicolon)]
    exact next_ne_of_not_cons fun line more heq => hword line _ more heq
termination_by ts.length
decreasing_by all_goals grind

/-- A token inside a declaration that is passed over, or behind it, neither ends it nor closes a
bracket that is not open. -/
theorem inside_of_skipped {start : List Located} {depth : Nat} {t : Located}
    {ts rest : List Located} (h : skipped start depth t ts = .ok rest)
    (hsemicolon : ¬(t.token = .semicolon ∧ depth = 0)) :
    ¬(depth = 0 ∧ (t.token = .semicolon ∨ t.token.closes = true)) := by
  rintro ⟨hdepth, htoken | hcloses⟩
  · exact hsemicolon ⟨htoken, hdepth⟩
  · rw [skipped, skipDecl.eq_def, if_neg hsemicolon, if_pos ⟨hcloses, hdepth⟩] at h
    cases h

theorem skips_of_skipped {start : List Located} {depth : Nat} {t : Located}
    {ts rest : List Located} (h : skipped start depth t ts = .ok rest) :
    Skips depth (t :: ts) rest := by
  induction ts generalizing depth t with
  | nil =>
    by_cases hsemicolon : t.token = .semicolon ∧ depth = 0
    · obtain ⟨line, token⟩ := t
      obtain ⟨rfl, rfl⟩ := hsemicolon
      rw [skipped_semicolon] at h
      cases h
      exact .semicolon
    · have hinside := inside_of_skipped h hsemicolon
      rw [skipped_last hinside] at h
      split at h
      · next hdepth =>
        cases h
        exact .last hinside hdepth
      · cases h
  | cons t' ts ih =>
    by_cases hsemicolon : t.token = .semicolon ∧ depth = 0
    · obtain ⟨line, token⟩ := t
      obtain ⟨rfl, rfl⟩ := hsemicolon
      rw [skipped_semicolon] at h
      cases h
      exact .semicolon
    · have hinside := inside_of_skipped h hsemicolon
      rw [skipped_cons hinside] at h
      exact .next hinside (ih h)

/-- A clause of type declarations is a round. -/
theorem rounds_of_typeDecls_type {line : Nat} {ts : List Located} {decls : List TypeDecl}
    (h : typeDecls (⟨line, .word "type"⟩ :: ts) = .ok decls)
    (hlater : ∀ {us more}, us.length ≤ ts.length → typeDecls us = .ok more →
      Rounds DeclRound more us []) :
    Rounds DeclRound decls (⟨line, .word "type"⟩ :: ts) [] := by
  by_cases hopen : next ts = some .leftParen
  · obtain ⟨line', us, rfl⟩ := eq_cons_of_next hopen
    rw [typeDecls_group] at h
    obtain ⟨⟨group, rest⟩, hgroup, h⟩ := bind_eq_ok h
    obtain ⟨rest', hend, h⟩ := bind_eq_ok h
    obtain ⟨more, hmore, h⟩ := bind_eq_ok h
    cases h
    exact .round (.clause (.group (reads_typeGroup hgroup) (ends_of_terminator hend)))
      (hlater (by grind) hmore)
  · rw [typeDecls_spec line hopen] at h
    obtain ⟨⟨decl, rest⟩, hspec, h⟩ := bind_eq_ok h
    obtain ⟨rest', hend, h⟩ := bind_eq_ok h
    obtain ⟨more, hmore, h⟩ := bind_eq_ok h
    cases h
    exact .round (.clause (.single (reads_typeSpec hspec) (ends_of_terminator hend)))
      (hlater (by grind) hmore)

theorem rounds_of_typeDecls {ts : List Located} {decls : List TypeDecl}
    (h : typeDecls ts = .ok decls) : Rounds DeclRound decls ts [] := by
  match ts with
  | [] =>
    rw [typeDecls_nil] at h
    cases h
    exact .refl []
  | ⟨line, token⟩ :: ts =>
    by_cases hsemicolon : token = .semicolon
    · subst hsemicolon
      rw [typeDecls_semicolon] at h
      exact .round .semicolon (rounds_of_typeDecls h)
    by_cases htype : token = .word "type"
    · subst htype
      exact rounds_of_typeDecls_type h fun hle hmore => rounds_of_typeDecls hmore
    rw [typeDecls_other htype hsemicolon] at h
    obtain ⟨rest, hskip, h⟩ := bind_eq_ok h
    have hskipped : skipped (⟨line, token⟩ :: ts) 0 ⟨line, token⟩ ts = .ok rest.val := by
      rw [skipped, hskip]
      rfl
    exact .round (.other htype hsemicolon (skips_of_skipped hskipped)) (rounds_of_typeDecls h)
termination_by ts.length
decreasing_by all_goals grind

/-! ## Files -/

theorem Rounds.importsRead_eq {imports : List Import} {ts rest : List Located}
    (h : Rounds ImportRound imports ts rest) :
    importsRead ts = (importsRead rest).map fun found => (imports ++ found.1, found.2) := by
  induction h with
  | refl ts => cases importsRead ts <;> rfl
  | @round new more _ _ rest h _ ih =>
    rw [h.importsRead_eq, ih]
    cases importsRead rest with
    | error stuck => rfl
    | ok found => exact congrArg (fun l => Except.ok (l, found.2)) (List.append_assoc _ _ _).symm

theorem Rounds.typeDecls_eq {decls : List TypeDecl} {ts rest : List Located}
    (h : Rounds DeclRound decls ts rest) : typeDecls ts = (typeDecls rest).map (decls ++ ·) := by
  induction h with
  | refl ts => cases typeDecls ts <;> rfl
  | @round new more _ _ rest h _ ih =>
    rw [h.typeDecls_eq, ih]
    cases typeDecls rest with
    | error stuck => rfl
    | ok found => exact congrArg Except.ok (List.append_assoc _ _ _).symm

theorem typeDecls_skipSemicolons (ts : List Located) :
    typeDecls (skipSemicolons ts) = typeDecls ts := by
  induction ts with
  | nil => rfl
  | cons t ts ih =>
    by_cases hsemicolon : next (t :: ts) = some .semicolon
    · obtain ⟨line, token⟩ := t
      cases hsemicolon
      rw [typeDecls_semicolon]
      exact ih
    · rw [skipSemicolons_of_next_ne hsemicolon]

theorem ReadsPackage.skipSemicolons_eq {package : String} {ts rest : List Located}
    (h : ReadsPackage package ts rest) :
    ∃ line line' mid, skipSemicolons ts =
        ⟨line, .word "package"⟩ :: ⟨line', .word package⟩ :: mid ∧
      isKeyword package = false ∧ Ends mid rest := by
  induction h with
  | semicolon _ ih => exact ih
  | clause hw hends => exact ⟨_, _, _, rfl, hw, hends⟩

theorem readsPackage_of_skipSemicolons {package : String} {ts front rest : List Located}
    (h : ReadsPackage package front rest) (heq : skipSemicolons ts = front) :
    ReadsPackage package ts rest := by
  induction ts with
  | nil =>
    subst heq
    exact h
  | cons t ts ih =>
    by_cases hsemicolon : next (t :: ts) = some .semicolon
    · obtain ⟨line, token⟩ := t
      cases hsemicolon
      exact .semicolon (ih heq)
    · rw [skipSemicolons_of_next_ne hsemicolon] at heq
      subst heq
      exact h

/-- From a place between declarations on, a file is read as its type declarations. -/
theorem ReadsFront.ofTokens_eq {front : SourceFile} {ts rest : List Located}
    (h : ReadsFront front ts rest) :
    SourceFile.ofTokens front.name ts =
      (typeDecls rest).map fun more => { front with types := front.types ++ more } := by
  obtain @⟨name, package, imports, decls, _, start, mid, _, hpackage, himports, hnone, hdecls⟩ := h
  obtain ⟨line, line', behind, hfront, hw, hends⟩ := hpackage.skipSemicolons_eq
  obtain ⟨hle, hend⟩ := hends.terminator_eq
  have hread : importsRead start = .ok (imports, skipSemicolons mid) := by
    rw [himports.importsRead_eq, importsRead_of_noImport hnone]
    exact congrArg (fun l => Except.ok (l, skipSemicolons mid)) (List.append_nil imports)
  obtain ⟨⟨found, ⟨left, hle'⟩⟩, hok, heq⟩ := ok_of_map_eq_ok hread
  obtain ⟨rfl, rfl⟩ := Prod.mk.inj heq
  obtain ⟨hlt, hkeyword⟩ : ∃ hlt, exactly (.word "package") (skipSemicolons ts) =
      .ok ((), ⟨⟨line', .word package⟩ :: behind, hlt⟩) := by
    rw [hfront]
    exact ⟨Nat.lt_succ_self _, exactly_cons _ _ _⟩
  unfold SourceFile.ofTokens SourceFile.ofTokensBy
  rw [hkeyword]
  dsimp only [bind, Except.bind]
  rw [identifier_cons hw]
  dsimp only
  rw [hend]
  dsimp only
  rw [hok]
  dsimp only
  rw [typeDecls_skipSemicolons, hdecls.typeDecls_eq]
  cases typeDecls rest <;> rfl

theorem readsFront_of_ofTokens {name : String} {file : SourceFile} {ts : List Located}
    (h : SourceFile.ofTokens name ts = .ok file) : file.name = name ∧ ReadsFront file ts [] := by
  obtain ⟨⟨_, ⟨rest, hlt⟩⟩, hkeyword, h⟩ := bind_eq_ok h
  obtain ⟨⟨package, ⟨rest', hlt'⟩⟩, hname, h⟩ := bind_eq_ok h
  obtain ⟨rest'', hend, h⟩ := bind_eq_ok h
  obtain ⟨⟨imports, left⟩, himports, h⟩ := bind_eq_ok h
  obtain ⟨decls, hdecls, h⟩ := bind_eq_ok h
  obtain ⟨line, hfront⟩ := eq_cons_of_exactly hkeyword
  obtain ⟨line', hrest, hw⟩ := eq_cons_of_identifier hname
  dsimp only at hfront hrest hw
  cases h
  have hpackage : ReadsPackage package (skipSemicolons ts) rest''.val := by
    rw [hfront, hrest]
    exact .clause hw (ends_of_terminator hend)
  obtain ⟨hrounds, hnone⟩ := rounds_of_importDecls himports
  exact ⟨rfl, .front (readsPackage_of_skipSemicolons hpackage rfl) hrounds hnone
    (rounds_of_typeDecls hdecls)⟩

/-- A file is read exactly as the grammar says. -/
theorem readsFront_iff {name : String} {file : SourceFile} {ts : List Located} :
    SourceFile.ofTokens name ts = .ok file ↔ file.name = name ∧ ReadsFront file ts [] := by
  constructor
  · exact readsFront_of_ofTokens
  · rintro ⟨rfl, h⟩
    rw [h.ofTokens_eq, typeDecls_nil]
    change Except.ok { file with types := file.types ++ [] } = _
    rw [List.append_nil]

end StructCopy.Go
