/-
  Proofs/Go/Grammar: what the reader of types accepts, as a relation.

  `Reads phrase ts rest` says that a phrase stands at the front of the tokens `ts` and
  that `rest` follows it.  Lookahead appears as conditions on the tokens that follow.
  The one place where the reader tries twice keeps the trial as a condition on the
  reader itself.
-/
import StructCopy.Go.Reader

set_option autoImplicit false

namespace StructCopy.Go

/-! ## Outcomes -/

/-- What a reader yields, without the proof of its progress and without its fault. -/
def outcome {α : Type} {ts : List Located} : Reading α ts → Option (α × List Located)
  | .ok (a, rest) => some (a, rest.val)
  | .error _ => none

theorem ok_of_outcome {α : Type} {ts rest : List Located} {x : Reading α ts} {a : α}
    (h : outcome x = some (a, rest)) : ∃ hlt, x = .ok (a, ⟨rest, hlt⟩) := by
  cases x with
  | error e => cases h
  | ok found =>
    cases h
    exact ⟨found.2.property, rfl⟩

theorem ok_of_outcome_bind {α β : Type} {ts rest : List Located} {x : Except Stuck β}
    {f : β → Reading α ts} {a : α} (h : outcome (x >>= f) = some (a, rest)) :
    ∃ b, x = .ok b ∧ outcome (f b) = some (a, rest) := by
  cases x with
  | error e => cases h
  | ok b => exact ⟨b, rfl, h⟩

theorem length_lt_of_outcome {α : Type} {ts rest : List Located} {x : Reading α ts} {a : α}
    (h : outcome x = some (a, rest)) : rest.length < ts.length := by
  obtain ⟨hlt, -⟩ := ok_of_outcome h
  exact hlt

/-- What is read behind a phrase that has been read. -/
theorem outcome_bind {α β : Type} {ts ts' rest : List Located} {x : Reading β ts'} {b : β}
    (h : outcome x = some (b, rest)) (f : β × Rest ts' → Reading α ts) :
    outcome (x >>= f) = outcome (f (b, ⟨rest, length_lt_of_outcome h⟩)) := by
  obtain ⟨hlt, rfl⟩ := ok_of_outcome h
  rfl

/-! ## Rounds on the readers -/

/-- Reads the names and the type of a member. -/
abbrev namesAndType (ts : List Located) : Reading (List String × TypeExpr) ts :=
  namesAndTypeRound ts fun c us _ => readers c us

/-- Reads one term of a union. -/
abbrev unionTerm (ts : List Located) : Reading UnionTerm ts :=
  termRound ts fun c us _ => readers c us

theorem typeRound_readers (ts : List Located) :
    typeRound ts (fun c us _ => readers c us) = typeExpr ts :=
  (readers_eq .type ts).symm

theorem memberRound_readers (ts : List Located) :
    memberRound ts (fun c us _ => readers c us) = member ts :=
  (readers_eq .member ts).symm

theorem termsRound_readers (ts : List Located) :
    termsRound ts (fun c us _ => readers c us) = unionTerms ts :=
  (readers_eq .terms ts).symm

/-! ## Small phrases -/

/-- The name of a type, alone or behind a package. -/
inductive ReadsName : TypeExpr → List Located → List Located → Prop where
  | named {line : Nat} {w : String} {rest : List Located} (hw : isKeyword w = false)
      (hdot : next rest ≠ some .dot) : ReadsName (.named w) (⟨line, .word w⟩ :: rest) rest
  | qualified {line line' line'' : Nat} {w w' : String} {rest : List Located}
      (hw : isKeyword w = false) (hw' : isKeyword w' = false) :
      ReadsName (.qualified w w')
        (⟨line, .word w⟩ :: ⟨line', .dot⟩ :: ⟨line'', .word w'⟩ :: rest) rest

/-- Names separated by commas. -/
inductive ReadsNames : List String → List Located → List Located → Prop where
  | last {line : Nat} {w : String} {rest : List Located} (hw : isKeyword w = false)
      (hcomma : next rest ≠ some .comma) : ReadsNames [w] (⟨line, .word w⟩ :: rest) rest
  | cons {line line' : Nat} {w : String} {ws : List String} {ts rest : List Located}
      (hw : isKeyword w = false) (h : ReadsNames ws ts rest) :
      ReadsNames (w :: ws) (⟨line, .word w⟩ :: ⟨line', .comma⟩ :: ts) rest

/-- The tag of a member, if there is one. -/
inductive ReadsTag : Option String → List Located → List Located → Prop where
  | tag {line : Nat} {s : String} {rest : List Located} :
      ReadsTag (some s) (⟨line, .str s⟩ :: rest) rest
  | none {rest : List Located} (h : ∀ s, next rest ≠ some (.str s)) : ReadsTag none rest rest

/-- The end of a statement or list entry. -/
inductive Ends : List Located → List Located → Prop where
  | semicolon {line : Nat} {rest : List Located} : Ends (⟨line, .semicolon⟩ :: rest) rest
  | before {rest : List Located}
      (h : next rest = some .rightParen ∨ next rest = some .rightBrace ∨ rest = []) :
      Ends rest rest

/-! ## The grammar -/

/-- A phrase of the grammar of types, with its value. -/
inductive Phrase where
  | type (type : TypeExpr)
  /-- type arguments from behind the opening bracket, with the closing one -/
  | args (args : List TypeExpr)
  | signature (signature : Signature)
  /-- parameters from behind the opening parenthesis, with the closing one -/
  | params (params : List Param)
  /-- struct members from behind the opening brace, with the closing one -/
  | fields (fields : List Field)
  /-- the names and the type of a struct member -/
  | member (names : List String) (type : TypeExpr)
  /-- interface elements from behind the opening brace, with the closing one -/
  | elems (elems : List InterfaceElem)
  /-- the terms of a union -/
  | terms (terms : List UnionTerm)
  | term (term : UnionTerm)

/-- A phrase stands at the front of some tokens, and the second list follows it. -/
inductive Reads : Phrase → List Located → List Located → Prop where
  -- types
  | pointer {line : Nat} {elem : TypeExpr} {ts rest : List Located}
      (h : Reads (.type elem) ts rest) :
      Reads (.type (.pointer elem)) (⟨line, .star⟩ :: ts) rest
  | slice {line line' : Nat} {elem : TypeExpr} {ts rest : List Located}
      (h : Reads (.type elem) ts rest) :
      Reads (.type (.slice elem)) (⟨line, .leftBracket⟩ :: ⟨line', .rightBracket⟩ :: ts) rest
  | openArray {line line' line'' : Nat} {elem : TypeExpr} {ts rest : List Located}
      (h : Reads (.type elem) ts rest) :
      Reads (.type (.array "..." elem))
        (⟨line, .leftBracket⟩ :: ⟨line', .ellipsis⟩ :: ⟨line'', .rightBracket⟩ :: ts) rest
  | array {line : Nat} {length : String} {elem : TypeExpr} {ts mid rest : List Located}
      (hslice : next ts ≠ some .rightBracket) (hopen : next ts ≠ some .ellipsis)
      (hlength : outcome (arrayLength 0 ts) = some (length, mid))
      (h : Reads (.type elem) mid rest) :
      Reads (.type (.array length elem)) (⟨line, .leftBracket⟩ :: ts) rest
  | paren {line line' : Nat} {inner : TypeExpr} {ts rest : List Located}
      (h : Reads (.type inner) ts (⟨line', .rightParen⟩ :: rest)) :
      Reads (.type (.paren inner)) (⟨line, .leftParen⟩ :: ts) rest
  | receive {line line' : Nat} {elem : TypeExpr} {ts rest : List Located}
      (h : Reads (.type elem) ts rest) :
      Reads (.type (.chan .receive elem)) (⟨line, .arrow⟩ :: ⟨line', .word "chan"⟩ :: ts) rest
  | map {line line' line'' : Nat} {key value : TypeExpr} {ts mid rest : List Located}
      (hkey : Reads (.type key) ts (⟨line'', .rightBracket⟩ :: mid))
      (hvalue : Reads (.type value) mid rest) :
      Reads (.type (.map key value)) (⟨line, .word "map"⟩ :: ⟨line', .leftBracket⟩ :: ts) rest
  | send {line line' : Nat} {elem : TypeExpr} {ts rest : List Located}
      (h : Reads (.type elem) ts rest) :
      Reads (.type (.chan .send elem)) (⟨line, .word "chan"⟩ :: ⟨line', .arrow⟩ :: ts) rest
  | chan {line : Nat} {elem : TypeExpr} {ts rest : List Located}
      (harrow : next ts ≠ some .arrow) (h : Reads (.type elem) ts rest) :
      Reads (.type (.chan .both elem)) (⟨line, .word "chan"⟩ :: ts) rest
  | func {line : Nat} {signature : Signature} {ts rest : List Located}
      (h : Reads (.signature signature) ts rest) :
      Reads (.type (.func signature)) (⟨line, .word "func"⟩ :: ts) rest
  | struct {line line' : Nat} {fields : List Field} {ts rest : List Located}
      (h : Reads (.fields fields) ts rest) :
      Reads (.type (.struct fields)) (⟨line, .word "struct"⟩ :: ⟨line', .leftBrace⟩ :: ts) rest
  | interface {line line' : Nat} {elems : List InterfaceElem} {ts rest : List Located}
      (h : Reads (.elems elems) ts rest) :
      Reads (.type (.interface elems))
        (⟨line, .word "interface"⟩ :: ⟨line', .leftBrace⟩ :: ts) rest
  | name {type : TypeExpr} {ts rest : List Located} (h : ReadsName type ts rest)
      (hbracket : next rest ≠ some .leftBracket) : Reads (.type type) ts rest
  | generic {line : Nat} {base : TypeExpr} {args : List TypeExpr} {ts mid rest : List Located}
      (hbase : ReadsName base ts (⟨line, .leftBracket⟩ :: mid))
      (hargs : Reads (.args args) mid rest) : Reads (.type (.generic base args)) ts rest
  -- type arguments
  | lastArg {line : Nat} {arg : TypeExpr} {ts rest : List Located}
      (h : Reads (.type arg) ts (⟨line, .rightBracket⟩ :: rest)) : Reads (.args [arg]) ts rest
  | lastArgComma {line line' : Nat} {arg : TypeExpr} {ts rest : List Located}
      (h : Reads (.type arg) ts (⟨line, .comma⟩ :: ⟨line', .rightBracket⟩ :: rest)) :
      Reads (.args [arg]) ts rest
  | nextArg {line : Nat} {arg : TypeExpr} {args : List TypeExpr} {ts mid rest : List Located}
      (h : Reads (.type arg) ts (⟨line, .comma⟩ :: mid)) (hmid : next mid ≠ some .rightBracket)
      (hargs : Reads (.args args) mid rest) : Reads (.args (arg :: args)) ts rest
  -- signatures
  | results {line line' : Nat} {params results : List Param} {ts mid rest : List Located}
      (hparams : Reads (.params params) ts (⟨line', .leftParen⟩ :: mid))
      (hresults : Reads (.params results) mid rest) :
      Reads (.signature (.mk params results true)) (⟨line, .leftParen⟩ :: ts) rest
  | result {line : Nat} {params : List Param} {result : TypeExpr} {ts mid rest : List Located}
      (hparams : Reads (.params params) ts mid) (hparen : next mid ≠ some .leftParen)
      (hstarts : ((next mid).map Token.startsType).getD false = true)
      (hresult : Reads (.type result) mid rest) :
      Reads (.signature (.mk params [.mk none result] false)) (⟨line, .leftParen⟩ :: ts) rest
  | noResult {line : Nat} {params : List Param} {ts rest : List Located}
      (hparams : Reads (.params params) ts rest)
      (hstarts : ((next rest).map Token.startsType).getD false = false) :
      Reads (.signature (.mk params [] false)) (⟨line, .leftParen⟩ :: ts) rest
  -- parameters
  | paramSemicolon {line : Nat} {params : List Param} {ts rest : List Located}
      (h : Reads (.params params) ts rest) :
      Reads (.params params) (⟨line, .semicolon⟩ :: ts) rest
  | noParam {line : Nat} {rest : List Located} :
      Reads (.params []) (⟨line, .rightParen⟩ :: rest) rest
  | ellipsisParam {line : Nat} {elem : TypeExpr} {params : List Param} {ts mid rest : List Located}
      (h : Reads (.type elem) ts mid) (hparams : Reads (.params params) (skipComma mid).val rest) :
      Reads (.params (.mk none (.variadic elem) :: params)) (⟨line, .ellipsis⟩ :: ts) rest
  | typeParam {line : Nat} {type : TypeExpr} {params : List Param} {ts mid rest : List Located}
      (h : Reads (.type type) ts (⟨line, .comma⟩ :: mid))
      (hparams : Reads (.params params) mid rest) :
      Reads (.params (.mk none type :: params)) ts rest
  | lastTypeParam {line : Nat} {type : TypeExpr} {params : List Param} {ts mid rest : List Located}
      (h : Reads (.type type) ts (⟨line, .rightParen⟩ :: mid))
      (hparams : Reads (.params params) (⟨line, .rightParen⟩ :: mid) rest) :
      Reads (.params (.mk none type :: params)) ts rest
  | namedEllipsis {line : Nat} {name : String} {elem : TypeExpr} {params : List Param}
      {ts mid mid' rest : List Located}
      (hname : Reads (.type (.named name)) ts (⟨line, .ellipsis⟩ :: mid))
      (h : Reads (.type elem) mid mid')
      (hparams : Reads (.params params) (skipComma mid').val rest) :
      Reads (.params (.mk (some name) (.variadic elem) :: params)) ts rest
  | namedParam {name : String} {type : TypeExpr} {params : List Param}
      {ts mid mid' rest : List Located} (hname : Reads (.type (.named name)) ts mid)
      (h : Reads (.type type) mid mid')
      (hparams : Reads (.params params) (skipComma mid').val rest) :
      Reads (.params (.mk (some name) type :: params)) ts rest
  -- struct members
  | fieldSemicolon {line : Nat} {fields : List Field} {ts rest : List Located}
      (h : Reads (.fields fields) ts rest) :
      Reads (.fields fields) (⟨line, .semicolon⟩ :: ts) rest
  | noField {line : Nat} {rest : List Located} :
      Reads (.fields []) (⟨line, .rightBrace⟩ :: rest) rest
  | field {names : List String} {type : TypeExpr} {tag : Option String} {fields : List Field}
      {ts mid mid' mid'' rest : List Located} (h : Reads (.member names type) ts mid)
      (htag : ReadsTag tag mid mid') (hends : Ends mid' mid'')
      (hfields : Reads (.fields fields) mid'' rest) :
      Reads (.fields (.mk (lineAt 0 ts) names type tag :: fields)) ts rest
  | embeddedPointer {type : TypeExpr} {ts rest : List Located} (hstar : next ts = some .star)
      (h : Reads (.type type) ts rest) : Reads (.member [] type) ts rest
  | embeddedName {line : Nat} {w : String} {type : TypeExpr} {ts rest : List Located}
      (hnext : next ts = some .dot ∨ atMemberEnd ts = true)
      (h : Reads (.type type) (⟨line, .word w⟩ :: ts) rest) :
      Reads (.member [] type) (⟨line, .word w⟩ :: ts) rest
  | arrayMember {line : Nat} {w : String} {type : TypeExpr} {ts rest : List Located}
      (hnext : next ts = some .leftBracket) (h : Reads (.type type) ts rest)
      (hend : atMemberEnd rest = true) : Reads (.member [w] type) (⟨line, .word w⟩ :: ts) rest
  | embeddedGeneric {line : Nat} {w : String} {type : TypeExpr} {ts rest : List Located}
      (hnext : next ts = some .leftBracket)
      (htrial : ∀ other mid, outcome (typeExpr ts) = some (other, mid) → atMemberEnd mid = false)
      (h : Reads (.type type) (⟨line, .word w⟩ :: ts) rest) :
      Reads (.member [] type) (⟨line, .word w⟩ :: ts) rest
  | namedMember {line : Nat} {w : String} {names : List String} {type : TypeExpr}
      {ts mid rest : List Located} (hdot : next ts ≠ some .dot) (hend : atMemberEnd ts = false)
      (hbracket : next ts ≠ some .leftBracket)
      (hnames : ReadsNames names (⟨line, .word w⟩ :: ts) mid) (h : Reads (.type type) mid rest) :
      Reads (.member names type) (⟨line, .word w⟩ :: ts) rest
  -- interface elements
  | elemSemicolon {line : Nat} {elems : List InterfaceElem} {ts rest : List Located}
      (h : Reads (.elems elems) ts rest) :
      Reads (.elems elems) (⟨line, .semicolon⟩ :: ts) rest
  | noElem {line : Nat} {rest : List Located} :
      Reads (.elems []) (⟨line, .rightBrace⟩ :: rest) rest
  | method {line : Nat} {w : String} {signature : Signature} {elems : List InterfaceElem}
      {ts mid mid' rest : List Located} (hw : isKeyword w = false)
      (hparen : next ts = some .leftParen) (h : Reads (.signature signature) ts mid)
      (hends : Ends mid mid') (helems : Reads (.elems elems) mid' rest) :
      Reads (.elems (.method w signature :: elems)) (⟨line, .word w⟩ :: ts) rest
  | union {terms : List UnionTerm} {elems : List InterfaceElem} {ts mid mid' rest : List Located}
      (hmethod : ∀ line w more, ts = ⟨line, .word w⟩ :: more → next more ≠ some .leftParen)
      (h : Reads (.terms terms) ts mid) (hends : Ends mid mid')
      (helems : Reads (.elems elems) mid' rest) :
      Reads (.elems (.union terms :: elems)) ts rest
  | lastTerm {term : UnionTerm} {ts rest : List Located} (h : Reads (.term term) ts rest)
      (hbar : next rest ≠ some (.operator "|")) : Reads (.terms [term]) ts rest
  | nextTerm {line : Nat} {term : UnionTerm} {terms : List UnionTerm} {ts mid rest : List Located}
      (h : Reads (.term term) ts (⟨line, .operator "|"⟩ :: mid))
      (hterms : Reads (.terms terms) mid rest) : Reads (.terms (term :: terms)) ts rest
  | approximate {line : Nat} {type : TypeExpr} {ts rest : List Located}
      (h : Reads (.type type) ts rest) :
      Reads (.term (.mk true type)) (⟨line, .tilde⟩ :: ts) rest
  | exact {type : TypeExpr} {ts rest : List Located} (h : Reads (.type type) ts rest) :
      Reads (.term (.mk false type)) ts rest

/-- What the reader of a phrase yields. -/
def Phrase.Outcome : Phrase → List Located → List Located → Prop
  | .type t, ts, rest => outcome (typeExpr ts) = some (t, rest)
  | .args found, ts, rest => outcome (typeArgs ts) = some (found, rest)
  | .signature found, ts, rest => outcome (Go.signature ts) = some (found, rest)
  | .params found, ts, rest => outcome (parameters ts) = some (found, rest)
  | .fields found, ts, rest => outcome (members ts) = some (found, rest)
  | .member names t, ts, rest => outcome (namesAndType ts) = some ((names, t), rest)
  | .elems found, ts, rest => outcome (elements ts) = some (found, rest)
  | .terms found, ts, rest => outcome (unionTerms ts) = some (found, rest)
  | .term found, ts, rest => outcome (unionTerm ts) = some (found, rest)

/-! ## Everything in the grammar is read -/

theorem exactly_cons (token : Token) (line : Nat) (ts : List Located) :
    exactly token (⟨line, token⟩ :: ts) = .ok ((), ⟨ts, Nat.lt_succ_self _⟩) := by
  unfold exactly
  exact if_pos rfl

theorem outcome_exactly (token : Token) (line : Nat) (ts : List Located) :
    outcome (exactly token (⟨line, token⟩ :: ts)) = some ((), ts) := by
  rw [exactly_cons]
  rfl

theorem identifier_cons {line : Nat} {w : String} (hw : isKeyword w = false)
    (ts : List Located) :
    identifier (⟨line, .word w⟩ :: ts) = .ok (w, ⟨ts, Nat.lt_succ_self _⟩) := by
  unfold identifier
  dsimp only
  rw [hw]
  rfl

theorem ReadsName.outcome_eq {type : TypeExpr} {ts rest : List Located}
    (h : ReadsName type ts rest) : outcome (typeName ts) = some (type, rest) := by
  cases h with
  | @named line w _ hw hdot =>
    unfold typeName
    rw [identifier_cons hw]
    dsimp only [bind, Except.bind]
    split
    · exact absurd rfl hdot
    · rfl
  | qualified hw hw' =>
    unfold typeName
    rw [identifier_cons hw]
    dsimp only [bind, Except.bind]
    rw [identifier_cons hw']
    rfl

theorem ReadsNames.outcome_eq {names : List String} {ts rest : List Located}
    (h : ReadsNames names ts rest) : outcome (nameList ts) = some (names, rest) := by
  induction h with
  | @last line w rest hw hcomma =>
    rw [nameList, identifier_cons hw]
    dsimp only [bind, Except.bind]
    split
    · exact absurd rfl hcomma
    · rfl
  | cons hw _ ih =>
    obtain ⟨hlt, hok⟩ := ok_of_outcome ih
    rw [nameList, identifier_cons hw]
    dsimp only [bind, Except.bind]
    rw [hok]
    rfl

theorem ReadsTag.optionalTag_eq {tag : Option String} {ts rest : List Located}
    (h : ReadsTag tag ts rest) : ∃ hle, optionalTag ts = (tag, ⟨rest, hle⟩) := by
  cases h with
  | tag => exact ⟨Nat.le_succ _, rfl⟩
  | none h =>
    refine ⟨Nat.le_refl _, ?_⟩
    unfold optionalTag
    split
    · exact absurd rfl (h _)
    · rfl

theorem Ends.terminator_eq {ts rest : List Located} (h : Ends ts rest) :
    ∃ hle, terminator ts = .ok ⟨rest, hle⟩ := by
  cases h with
  | semicolon => exact ⟨Nat.le_succ _, rfl⟩
  | before h =>
    refine ⟨Nat.le_refl _, ?_⟩
    cases ts with
    | nil => rfl
    | cons t ts =>
      obtain ⟨line, token⟩ := t
      have htoken : token = .rightParen ∨ token = .rightBrace := by
        simpa [next] using h
      rcases htoken with rfl | rfl
      · rfl
      · rfl

theorem ne_of_isKeyword {w k : String} (hw : isKeyword w = false) (hk : isKeyword k = true) :
    w ≠ k := by
  rintro rfl
  rw [hw] at hk
  cases hk

/-- A type starts with a token that a type may start with. -/
theorem Reads.startsType {type : TypeExpr} {ts rest : List Located}
    (h : Reads (.type type) ts rest) : ((next ts).map Token.startsType).getD false = true := by
  cases h with
  | name h | generic h =>
    cases h with
    | named hw | qualified hw => simp [next, Token.startsType, hw]
  | _ => rfl

/-- A type that is read starts with a token of a type. -/
theorem Reads.cons_of_type {type : TypeExpr} {ts rest : List Located}
    (h : Reads (.type type) ts rest) :
    ∃ line token more, ts = ⟨line, token⟩ :: more ∧ token.startsType = true := by
  have hstarts := h.startsType
  cases ts with
  | nil => cases hstarts
  | cons t more => exact ⟨t.line, t.token, more, rfl, hstarts⟩

/-- The name of a type starts with a word that is no keyword. -/
theorem ReadsName.cons {type : TypeExpr} {ts rest : List Located} (h : ReadsName type ts rest) :
    ∃ line w more, ts = ⟨line, .word w⟩ :: more ∧ isKeyword w = false := by
  cases h with
  | named hw => exact ⟨_, _, _, rfl, hw⟩
  | qualified hw => exact ⟨_, _, _, rfl, hw⟩

theorem outcome_typeExpr_name {type : TypeExpr} {ts rest : List Located}
    (h : ReadsName type ts rest) (hbracket : next rest ≠ some .leftBracket) :
    outcome (typeExpr ts) = some (type, rest) := by
  obtain ⟨line, w, more, rfl, hw⟩ := h.cons
  rw [typeExpr, readers_eq, round, typeRound.eq_def]
  dsimp only
  rw [if_neg (ne_of_isKeyword hw (by decide)), if_neg (ne_of_isKeyword hw (by decide)),
    if_neg (ne_of_isKeyword hw (by decide)), if_neg (ne_of_isKeyword hw (by decide)),
    if_neg (ne_of_isKeyword hw (by decide)), outcome_bind h.outcome_eq]
  dsimp only
  split
  · exact absurd rfl hbracket
  · rfl

theorem outcome_typeExpr_generic {line : Nat} {base : TypeExpr} {args : List TypeExpr}
    {ts mid rest : List Located} (h : ReadsName base ts (⟨line, .leftBracket⟩ :: mid))
    (hargs : outcome (typeArgs mid) = some (args, rest)) :
    outcome (typeExpr ts) = some (.generic base args, rest) := by
  obtain ⟨line, w, more, rfl, hw⟩ := h.cons
  rw [typeExpr, readers_eq, round, typeRound.eq_def]
  dsimp only
  rw [if_neg (ne_of_isKeyword hw (by decide)), if_neg (ne_of_isKeyword hw (by decide)),
    if_neg (ne_of_isKeyword hw (by decide)), if_neg (ne_of_isKeyword hw (by decide)),
    if_neg (ne_of_isKeyword hw (by decide)), outcome_bind h.outcome_eq]
  dsimp only
  rw [outcome_bind hargs]
  rfl

theorem outcome_typeArgs_cons {line : Nat} {arg : TypeExpr} {args : List TypeExpr}
    {ts mid rest : List Located} (h : outcome (typeExpr ts) = some (arg, ⟨line, .comma⟩ :: mid))
    (hmid : next mid ≠ some .rightBracket) (hargs : outcome (typeArgs mid) = some (args, rest)) :
    outcome (typeArgs ts) = some (arg :: args, rest) := by
  rw [typeArgs, readers_eq, round, argsRound, typeRound_readers, outcome_bind h]
  dsimp only
  split
  · next heq _ => cases heq
  · next heq _ =>
    cases heq
    exact absurd rfl hmid
  · next heq _ =>
    cases heq
    rw [outcome_bind hargs]
    rfl
  · next hother => exact (hother _ _ _ rfl HEq.rfl).elim

theorem outcome_signature_result {line : Nat} {params : List Param} {result : TypeExpr}
    {ts mid rest : List Located} (hparams : outcome (parameters ts) = some (params, mid))
    (hparen : next mid ≠ some .leftParen)
    (hstarts : ((next mid).map Token.startsType).getD false = true)
    (hresult : outcome (typeExpr mid) = some (result, rest)) :
    outcome (signature (⟨line, .leftParen⟩ :: ts)) =
      some (.mk params [.mk none result] false, rest) := by
  rw [signature, readers_eq, round, signatureRound, outcome_bind (outcome_exactly _ _ _)]
  dsimp only
  rw [outcome_bind hparams]
  dsimp only
  split
  · exact absurd rfl hparen
  · rw [if_pos hstarts, outcome_bind hresult]
    rfl

theorem outcome_signature_noResult {line : Nat} {params : List Param} {ts rest : List Located}
    (hparams : outcome (parameters ts) = some (params, rest))
    (hstarts : ((next rest).map Token.startsType).getD false = false) :
    outcome (signature (⟨line, .leftParen⟩ :: ts)) = some (.mk params [] false, rest) := by
  rw [signature, readers_eq, round, signatureRound, outcome_bind (outcome_exactly _ _ _)]
  dsimp only
  rw [outcome_bind hparams]
  dsimp only
  split
  · cases hstarts
  · rw [hstarts]
    rfl

/-- A parameter with a name: no type starts with what would make the name a type of its own. -/
theorem outcome_parameters_named {name : String} {type : TypeExpr} {params : List Param}
    {ts mid mid' rest : List Located}
    (hstarts : ((next ts).map Token.startsType).getD false = true)
    (hnext : ((next mid).map Token.startsType).getD false = true)
    (hname : outcome (typeExpr ts) = some (.named name, mid))
    (h : outcome (typeExpr mid) = some (type, mid'))
    (hparams : outcome (parameters (skipComma mid').val) = some (params, rest)) :
    outcome (parameters ts) = some (.mk (some name) type :: params, rest) := by
  rw [parameters, readers_eq, round, paramsRound, typeRound_readers, outcome_bind hname]
  · dsimp only
    split
    · cases hnext
    · cases hnext
    · cases hnext
    · next heq =>
      cases heq
      rw [outcome_bind h]
      dsimp only
      rw [outcome_bind hparams]
      rfl
    · next hnamed _ => exact (hnamed _ rfl).elim
  all_goals
    rintro line' ts' inner rfl -
    cases hstarts

/-- A struct member starts with a star or a word. -/
theorem Reads.cons_of_member {names : List String} {type : TypeExpr} {ts rest : List Located}
    (h : Reads (.member names type) ts rest) :
    ∃ line token more, ts = ⟨line, token⟩ :: more ∧
      (token = .star ∨ ∃ w, token = .word w) := by
  cases h with
  | embeddedPointer hstar h =>
    obtain ⟨line, token, more, rfl, -⟩ := h.cons_of_type
    exact ⟨line, token, more, rfl, .inl (Option.some.inj hstar)⟩
  | embeddedName => exact ⟨_, _, _, rfl, .inr ⟨_, rfl⟩⟩
  | arrayMember => exact ⟨_, _, _, rfl, .inr ⟨_, rfl⟩⟩
  | embeddedGeneric => exact ⟨_, _, _, rfl, .inr ⟨_, rfl⟩⟩
  | namedMember => exact ⟨_, _, _, rfl, .inr ⟨_, rfl⟩⟩

/-- The terms of a union start with a tilde or a type. -/
theorem Reads.cons_of_terms {terms : List UnionTerm} {ts rest : List Located}
    (h : Reads (.terms terms) ts rest) :
    ∃ line token more, ts = ⟨line, token⟩ :: more ∧
      (token == .tilde || token.startsType) = true := by
  have hterm : ∀ {term mid}, Reads (.term term) ts mid →
      ∃ line token more, ts = ⟨line, token⟩ :: more ∧
        (token == .tilde || token.startsType) = true := by
    intro term mid h
    cases h with
    | approximate => exact ⟨_, _, _, rfl, rfl⟩
    | exact h =>
      obtain ⟨line, token, more, rfl, hstarts⟩ := h.cons_of_type
      exact ⟨line, token, more, rfl, by rw [hstarts, Bool.or_true]⟩
  cases h with
  | lastTerm h => exact hterm h
  | nextTerm h => exact hterm h

theorem next_of_embedded {ts : List Located}
    (h : next ts = some .dot ∨ atMemberEnd ts = true) :
    next ts = some .dot ∨ next ts = some .semicolon ∨ next ts = some .rightBrace ∨
      ∃ s, next ts = some (.str s) := by
  rcases h with h | h
  · exact .inl h
  · unfold atMemberEnd at h
    split at h
    · next heq => exact .inr (.inl heq)
    · next heq => exact .inr (.inr (.inl heq))
    · next s heq => exact .inr (.inr (.inr ⟨s, heq⟩))
    · cases h

theorem atMemberEnd_of_next {ts : List Located} {token : Token} (h : next ts = some token)
    (hend : atMemberEnd [⟨0, token⟩] = true) : atMemberEnd ts = true := by
  unfold atMemberEnd at hend ⊢
  rw [h]
  exact hend

theorem outcome_members_cons {names : List String} {type : TypeExpr} {tag : Option String}
    {fields : List Field} {ts mid mid' mid'' rest : List Located}
    (hcons : ∃ line token more, ts = ⟨line, token⟩ :: more ∧
      (token = .star ∨ ∃ w, token = .word w))
    (h : outcome (namesAndType ts) = some ((names, type), mid)) (htag : ReadsTag tag mid mid')
    (hends : Ends mid' mid'') (hfields : outcome (members mid'') = some (fields, rest)) :
    outcome (members ts) = some (.mk (lineAt 0 ts) names type tag :: fields, rest) := by
  obtain ⟨hle, htagged⟩ := htag.optionalTag_eq
  obtain ⟨hle', hended⟩ := hends.terminator_eq
  have hmember : outcome (member ts) = some (.mk (lineAt 0 ts) names type tag, mid') := by
    rw [member, readers_eq, round, memberRound, outcome_bind h]
    dsimp only
    rw [htagged]
    rfl
  obtain ⟨line, token, more, rfl, htoken⟩ := hcons
  rw [members, readers_eq, round, membersRound, memberRound_readers, outcome_bind hmember]
  · dsimp only
    rw [hended]
    change outcome (members mid'' >>= _) = _
    rw [outcome_bind hfields]
    rfl
  all_goals
    rintro line' ts' inner heq -
    cases heq
    simp at htoken

theorem outcome_namesAndType_named {line : Nat} {w : String} {names : List String}
    {type : TypeExpr} {ts mid rest : List Located} (hdot : next ts ≠ some .dot)
    (hend : atMemberEnd ts = false) (hbracket : next ts ≠ some .leftBracket)
    (hnames : ReadsNames names (⟨line, .word w⟩ :: ts) mid)
    (h : outcome (typeExpr mid) = some (type, rest)) :
    outcome (namesAndType (⟨line, .word w⟩ :: ts)) = some ((names, type), rest) := by
  rw [namesAndType, namesAndTypeRound]
  split
  · next heq => exact absurd heq hdot
  · next heq => cases (atMemberEnd_of_next heq rfl).symm.trans hend
  · next heq => cases (atMemberEnd_of_next heq rfl).symm.trans hend
  · next heq => cases (atMemberEnd_of_next heq rfl).symm.trans hend
  · next heq => exact absurd heq hbracket
  · rw [outcome_bind hnames.outcome_eq]
    dsimp only
    rw [outcome_bind h]
    rfl

theorem outcome_elements_method {line : Nat} {w : String} {s : Signature}
    {elems : List InterfaceElem} {ts mid mid' rest : List Located} (hw : isKeyword w = false)
    (hparen : next ts = some .leftParen) (h : outcome (signature ts) = some (s, mid))
    (hends : Ends mid mid') (helems : outcome (elements mid') = some (elems, rest)) :
    outcome (elements (⟨line, .word w⟩ :: ts)) = some (.method w s :: elems, rest) := by
  obtain ⟨hle, hended⟩ := hends.terminator_eq
  cases ts with
  | nil => cases hparen
  | cons t ts =>
    obtain ⟨line', token⟩ := t
    cases hparen
    rw [elements, readers_eq, round, elementsRound, identifier_cons hw]
    change outcome (signature _ >>= _) = _
    rw [outcome_bind h]
    dsimp only
    rw [hended]
    change outcome (elements mid' >>= _) = _
    rw [outcome_bind helems]
    rfl

theorem outcome_elements_union {terms : List UnionTerm} {elems : List InterfaceElem}
    {ts mid mid' rest : List Located}
    (hcons : ∃ line token more, ts = ⟨line, token⟩ :: more ∧
      (token == .tilde || token.startsType) = true)
    (hmethod : ∀ line w more, ts = ⟨line, .word w⟩ :: more → next more ≠ some .leftParen)
    (h : outcome (unionTerms ts) = some (terms, mid)) (hends : Ends mid mid')
    (helems : outcome (elements mid') = some (elems, rest)) :
    outcome (elements ts) = some (.union terms :: elems, rest) := by
  obtain ⟨hle, hended⟩ := hends.terminator_eq
  obtain ⟨line, token, more, rfl, htoken⟩ := hcons
  rw [elements, readers_eq, round, elementsRound, termsRound_readers, outcome_bind h]
  · dsimp only
    rw [hended]
    change outcome (elements mid' >>= _) = _
    rw [outcome_bind helems]
    rfl
  · rintro line' ts' inner heq -
    cases heq
    cases htoken
  · rintro line' ts' inner heq -
    cases heq
    cases htoken
  · rintro line' w line'' ts' inner heq -
    cases heq
    exact hmethod _ _ _ rfl rfl

/-- What stands in the grammar is read. -/
theorem Reads.outcome_eq {phrase : Phrase} {ts rest : List Located} (h : Reads phrase ts rest) :
    phrase.Outcome ts rest := by
  induction h with
  | pointer _ ih | slice _ ih =>
    change outcome (typeExpr _) = _
    rw [typeExpr, readers_eq, round, typeRound, outcome_bind ih]
    rfl
  | openArray _ ih | receive _ ih =>
    change outcome (typeExpr _) = _
    rw [typeExpr, readers_eq, round, typeRound, outcome_bind (outcome_exactly _ _ _)]
    dsimp only
    rw [outcome_bind ih]
    rfl
  | array hslice hopen hlength _ ih =>
    change outcome (typeExpr _) = _
    rw [typeExpr, readers_eq, round, typeRound, outcome_bind hlength]
    · dsimp only
      rw [outcome_bind ih]
      rfl
    · rintro line' ts' inner rfl -
      exact hslice rfl
    · rintro line' ts' inner rfl -
      exact hopen rfl
  | paren _ ih =>
    change outcome (typeExpr _) = _
    rw [typeExpr, readers_eq, round, typeRound, outcome_bind ih]
    dsimp only
    rw [outcome_bind (outcome_exactly _ _ _)]
    rfl
  | map _ _ ihkey ihvalue =>
    change outcome (typeExpr _) = _
    rw [typeExpr, readers_eq, round, typeRound, if_pos rfl, outcome_bind (outcome_exactly _ _ _)]
    dsimp only
    rw [outcome_bind ihkey]
    dsimp only
    rw [outcome_bind (outcome_exactly _ _ _)]
    dsimp only
    rw [outcome_bind ihvalue]
    rfl
  | send _ ih =>
    change outcome (typeExpr _) = _
    rw [typeExpr, readers_eq, round, typeRound, if_neg (by decide), if_pos rfl, chanDir]
    dsimp only
    rw [outcome_bind ih]
    rfl
  | chan harrow _ ih =>
    change outcome (typeExpr _) = _
    rw [typeExpr, readers_eq, round, typeRound, if_neg (by decide), if_pos rfl, chanDir]
    · dsimp only
      rw [outcome_bind ih]
      rfl
    · rintro line' ts' rfl
      exact harrow rfl
  | func h ih =>
    change outcome (typeExpr _) = _
    rw [typeExpr, readers_eq, round, typeRound, if_neg (by decide), if_neg (by decide), if_pos rfl,
      outcome_bind ih]
    rfl
  | struct _ ih =>
    change outcome (typeExpr _) = _
    rw [typeExpr, readers_eq, round, typeRound, if_neg (by decide), if_neg (by decide),
      if_neg (by decide), if_pos rfl, outcome_bind (outcome_exactly _ _ _)]
    dsimp only
    rw [outcome_bind ih]
    rfl
  | interface _ ih =>
    change outcome (typeExpr _) = _
    rw [typeExpr, readers_eq, round, typeRound, if_neg (by decide), if_neg (by decide),
      if_neg (by decide), if_neg (by decide), if_pos rfl, outcome_bind (outcome_exactly _ _ _)]
    dsimp only
    rw [outcome_bind ih]
    rfl
  | name hname hbracket => exact outcome_typeExpr_name hname hbracket
  | generic hbase _ ih => exact outcome_typeExpr_generic hbase ih
  | lastArg _ ih | lastArgComma _ ih =>
    change outcome (typeArgs _) = _
    rw [typeArgs, readers_eq, round, argsRound, typeRound_readers, outcome_bind ih]
    rfl
  | nextArg _ hmid _ ih ihargs => exact outcome_typeArgs_cons ih hmid ihargs
  | results _ _ ihparams ihresults =>
    change outcome (signature _) = _
    rw [signature, readers_eq, round, signatureRound, outcome_bind (outcome_exactly _ _ _)]
    dsimp only
    rw [outcome_bind ihparams]
    dsimp only
    rw [outcome_bind ihresults]
    rfl
  | result _ hparen hstarts _ ihparams ihresult =>
    exact outcome_signature_result ihparams hparen hstarts ihresult
  | noResult _ hstarts ihparams =>
    exact outcome_signature_noResult ihparams hstarts
  | paramSemicolon _ ih =>
    change outcome (parameters _) = _
    rw [parameters, readers_eq, round, paramsRound, outcome_bind ih]
    rfl
  | noParam =>
    change outcome (parameters _) = _
    rw [parameters, readers_eq, round, paramsRound]
    rfl
  | ellipsisParam _ _ ih ihparams =>
    change outcome (parameters _) = _
    rw [parameters, readers_eq, round, paramsRound, outcome_bind ih]
    dsimp only
    rw [outcome_bind ihparams]
    rfl
  | typeParam h _ ih ihparams | lastTypeParam h _ ih ihparams =>
    have hstarts := h.startsType
    change outcome (parameters _) = _
    rw [parameters, readers_eq, round, paramsRound, typeRound_readers, outcome_bind ih]
    · dsimp only
      rw [outcome_bind ihparams]
      rfl
    all_goals
      rintro line' ts' inner rfl -
      cases hstarts
  | namedEllipsis h _ _ ihname ih ihparams =>
    have hstarts := h.startsType
    change outcome (parameters _) = _
    rw [parameters, readers_eq, round, paramsRound, typeRound_readers, outcome_bind ihname]
    · dsimp only
      rw [outcome_bind ih]
      dsimp only
      rw [outcome_bind ihparams]
      rfl
    all_goals
      rintro line' ts' inner rfl -
      cases hstarts
  | namedParam h htype _ ihname ih ihparams =>
    exact outcome_parameters_named h.startsType htype.startsType ihname ih ihparams
  | fieldSemicolon _ ih =>
    change outcome (members _) = _
    rw [members, readers_eq, round, membersRound, outcome_bind ih]
    rfl
  | noField =>
    change outcome (members _) = _
    rw [members, readers_eq, round, membersRound]
    rfl
  | field h htag hends _ ih ihfields =>
    exact outcome_members_cons h.cons_of_member ih htag hends ihfields
  | embeddedPointer hstar h ih =>
    obtain ⟨line, token, more, rfl, -⟩ := h.cons_of_type
    cases hstar
    change outcome (namesAndType _) = _
    rw [namesAndType, namesAndTypeRound, typeRound_readers, outcome_bind ih]
    rfl
  | embeddedName hnext _ ih =>
    change outcome (namesAndType _) = _
    rcases next_of_embedded hnext with h | h | h | ⟨s, h⟩
    all_goals
      rw [namesAndType, namesAndTypeRound, h]
      dsimp only
      rw [typeRound_readers, outcome_bind ih]
      rfl
  | arrayMember hnext _ hend ih =>
    obtain ⟨hlt, hok⟩ := ok_of_outcome ih
    change outcome (namesAndType _) = _
    rw [namesAndType, namesAndTypeRound, hnext]
    rw [typeExpr] at hok
    rw [hok]
    dsimp only
    rw [if_pos hend]
    rfl
  | embeddedGeneric hnext htrial _ ih =>
    change outcome (namesAndType _) = _
    rw [namesAndType, namesAndTypeRound, hnext]
    dsimp only
    rw [typeRound_readers]
    split
    · next other mid hlt' htype =>
      rw [if_neg (by rw [htrial other mid (congrArg outcome htype)]; decide), outcome_bind ih]
      rfl
    · rw [outcome_bind ih]
      rfl
  | namedMember hdot hend hbracket hnames _ ih =>
    exact outcome_namesAndType_named hdot hend hbracket hnames ih
  | elemSemicolon _ ih =>
    change outcome (elements _) = _
    rw [elements, readers_eq, round, elementsRound, outcome_bind ih]
    rfl
  | noElem =>
    change outcome (elements _) = _
    rw [elements, readers_eq, round, elementsRound]
    rfl
  | method hw hparen _ hends _ ih ihelems =>
    exact outcome_elements_method hw hparen ih hends ihelems
  | union hmethod h hends _ ih ihelems =>
    exact outcome_elements_union h.cons_of_terms hmethod ih hends ihelems
  | lastTerm _ hbar ih =>
    change outcome (unionTerms _) = _
    rw [unionTerms, readers_eq, round, termsRound, outcome_bind ih]
    dsimp only
    split
    · next line o more _ =>
      rw [if_neg (by rintro rfl; exact hbar rfl)]
      rfl
    · rfl
  | nextTerm _ _ ih ihterms =>
    change outcome (unionTerms _) = _
    rw [unionTerms, readers_eq, round, termsRound, outcome_bind ih]
    dsimp only
    rw [if_pos rfl, outcome_bind ihterms]
    rfl
  | approximate _ ih =>
    change outcome (unionTerm _) = _
    rw [unionTerm, termRound, outcome_bind ih]
    rfl
  | exact h ih =>
    have hstarts := h.startsType
    change outcome (unionTerm _) = _
    rw [unionTerm, termRound, typeRound_readers, outcome_bind ih]
    · rfl
    · rintro line' ts' inner rfl -
      cases hstarts

/-! ## Everything that is read is in the grammar -/

theorem eq_cons_of_exactly {token : Token} {ts : List Located} {found : Unit × Rest ts}
    (h : exactly token ts = .ok found) : ∃ line, ts = ⟨line, token⟩ :: found.2.val := by
  unfold exactly at h
  split at h
  · next t ts =>
    split at h
    · next htoken =>
      cases h
      exact ⟨t.line, by rw [← htoken]⟩
    · cases h
  · cases h

theorem eq_cons_of_identifier {ts : List Located} {found : String × Rest ts}
    (h : identifier ts = .ok found) :
    ∃ line, ts = ⟨line, .word found.1⟩ :: found.2.val ∧ isKeyword found.1 = false := by
  unfold identifier at h
  split at h
  · split at h
    · cases h
    · next hw =>
      cases h
      exact ⟨_, rfl, Bool.eq_false_iff.2 hw⟩
  · cases h

theorem reads_typeName {ts rest : List Located} {type : TypeExpr}
    (h : outcome (typeName ts) = some (type, rest)) : ReadsName type ts rest := by
  unfold typeName at h
  obtain ⟨⟨w, ⟨mid, hlt⟩⟩, hw, h⟩ := ok_of_outcome_bind h
  obtain ⟨line, hts, hkeyword⟩ := eq_cons_of_identifier hw
  dsimp only at hts hkeyword h
  split at h
  · obtain ⟨⟨w', ⟨mid', hlt'⟩⟩, hw', h⟩ := ok_of_outcome_bind h
    obtain ⟨line', hts', hkeyword'⟩ := eq_cons_of_identifier hw'
    dsimp only at hts' hkeyword'
    subst hts hts'
    cases h
    exact .qualified hkeyword hkeyword'
  · next hdot =>
    subst hts
    cases h
    refine .named hkeyword ?_
    intro hnext
    cases mid with
    | nil => cases hnext
    | cons t more =>
      obtain ⟨line', token⟩ := t
      cases hnext
      exact hdot _ _ _ rfl HEq.rfl

theorem reads_nameList {ts rest : List Located} {names : List String}
    (h : outcome (nameList ts) = some (names, rest)) : ReadsNames names ts rest := by
  rw [nameList] at h
  obtain ⟨⟨w, ⟨mid, hlt⟩⟩, hw, h⟩ := ok_of_outcome_bind h
  obtain ⟨line, hts, hkeyword⟩ := eq_cons_of_identifier hw
  dsimp only at hts hkeyword h
  split at h
  · obtain ⟨⟨ws, ⟨mid', hlt'⟩⟩, hws, h⟩ := ok_of_outcome_bind h
    subst hts
    cases h
    exact .cons hkeyword (reads_nameList (by rw [hws]; rfl))
  · next hcomma =>
    subst hts
    cases h
    refine .last hkeyword ?_
    intro hnext
    cases mid with
    | nil => cases hnext
    | cons t more =>
      obtain ⟨line', token⟩ := t
      cases hnext
      exact hcomma _ _ _ rfl HEq.rfl
termination_by ts.length
decreasing_by
  rw [hts]
  simp only [List.length_cons]
  omega

theorem reads_optionalTag {ts : List Located} {tag : Option String} {rest : RestOrAll ts}
    (h : optionalTag ts = (tag, rest)) : ReadsTag tag ts rest.val := by
  unfold optionalTag at h
  split at h
  · cases h
    exact .tag
  · next hstr =>
    cases h
    refine .none ?_
    intro s hnext
    cases ts with
    | nil => cases hnext
    | cons t more =>
      obtain ⟨line, token⟩ := t
      cases hnext
      exact hstr _ _ _ rfl

theorem ends_of_terminator {ts : List Located} {rest : RestOrAll ts}
    (h : terminator ts = .ok rest) : Ends ts rest.val := by
  unfold terminator at h
  split at h
  · cases h
    exact .semicolon
  · cases h
    exact .before (.inl rfl)
  · cases h
    exact .before (.inr (.inl rfl))
  · cases h
    exact .before (.inr (.inr rfl))
  · cases h

/-- A token is not next if the list cannot start with it. -/
theorem next_ne_of_not_cons {ts : List Located} {token : Token}
    (h : ∀ line more, ts = ⟨line, token⟩ :: more → False) : next ts ≠ some token := by
  intro hnext
  cases ts with
  | nil => cases hnext
  | cons t more =>
    obtain ⟨line, token'⟩ := t
    cases hnext
    exact h _ _ rfl

/-- The phrase that a construct is, if the grammar has one for it. -/
def Construct.phrase? : (c : Construct) → c.Value → Option Phrase
  | .type, found => some (.type found)
  | .args, found => some (.args found)
  | .signature, found => some (.signature found)
  | .params, found => some (.params found)
  | .members, found => some (.fields found)
  | .terms, found => some (.terms found)
  | .elements, found => some (.elems found)
  | .member, _ | .decl, _ | .decls, _ => none

theorem Construct.outcome_of_ok {c : Construct} {ts : List Located} {found : c.Value × Rest ts}
    {phrase : Phrase} (h : readers c ts = .ok found) (hphrase : c.phrase? found.1 = some phrase) :
    phrase.Outcome ts found.2.val := by
  cases c with
  | member | decl | decls => cases hphrase
  | _ =>
    cases hphrase
    exact congrArg outcome h

/-- Behind the start, types are read as always, and what is read is in the grammar. -/
structure ReadsBehind {ts : List Located} (inner : Behind ts) : Prop where
  type_eq : ∀ us hus, inner .type us hus = typeExpr us
  reads : ∀ {c us hus found phrase}, inner c us hus = .ok found →
    c.phrase? found.1 = some phrase → Reads phrase us found.2.val

section Soundness

variable {ts rest : List Located} {inner : Behind ts}

theorem ReadsBehind.typeRound (ih : ReadsBehind inner) {type : TypeExpr}
    (h : outcome (typeRound ts inner) = some (type, rest)) : Reads (.type type) ts rest := by
  rw [Go.typeRound.eq_def] at h
  split at h
  · next line ts inner =>
    obtain ⟨⟨elem, ⟨mid, hlt⟩⟩, hok, h⟩ := ok_of_outcome_bind h
    cases h
    exact .pointer (ih.reads hok rfl)
  · next line line' ts inner =>
    obtain ⟨⟨elem, ⟨mid, hlt⟩⟩, hok, h⟩ := ok_of_outcome_bind h
    cases h
    exact .slice (ih.reads hok rfl)
  · next line line' ts inner =>
    obtain ⟨⟨_, ⟨mid, hlt⟩⟩, hexactly, h⟩ := ok_of_outcome_bind h
    obtain ⟨⟨elem, ⟨mid', hlt'⟩⟩, hok, h⟩ := ok_of_outcome_bind h
    obtain ⟨line'', hts⟩ := eq_cons_of_exactly hexactly
    dsimp only at hts
    subst hts
    cases h
    exact .openArray (ih.reads hok rfl)
  · next line ts inner hslice hopen =>
    obtain ⟨⟨length, ⟨mid, hlt⟩⟩, hlength, h⟩ := ok_of_outcome_bind h
    obtain ⟨⟨elem, ⟨mid', hlt'⟩⟩, hok, h⟩ := ok_of_outcome_bind h
    cases h
    refine .array (next_ne_of_not_cons fun _ _ heq => ?_) (next_ne_of_not_cons fun _ _ heq => ?_)
      (congrArg outcome hlength) (ih.reads hok rfl)
    · subst heq
      exact hslice _ _ _ rfl HEq.rfl
    · subst heq
      exact hopen _ _ _ rfl HEq.rfl
  · next line ts inner =>
    obtain ⟨⟨inner, ⟨mid, hlt⟩⟩, hok, h⟩ := ok_of_outcome_bind h
    obtain ⟨⟨_, ⟨mid', hlt'⟩⟩, hexactly, h⟩ := ok_of_outcome_bind h
    obtain ⟨line', hmid⟩ := eq_cons_of_exactly hexactly
    dsimp only at hmid
    subst hmid
    cases h
    exact .paren (ih.reads hok rfl)
  · next line ts inner =>
    obtain ⟨⟨_, ⟨mid, hlt⟩⟩, hexactly, h⟩ := ok_of_outcome_bind h
    obtain ⟨⟨elem, ⟨mid', hlt'⟩⟩, hok, h⟩ := ok_of_outcome_bind h
    obtain ⟨line', hts⟩ := eq_cons_of_exactly hexactly
    dsimp only at hts
    subst hts
    cases h
    exact .receive (ih.reads hok rfl)
  · next line w ts inner =>
    split at h
    · next hw =>
      obtain ⟨⟨_, ⟨mid, hlt⟩⟩, hexactly, h⟩ := ok_of_outcome_bind h
      obtain ⟨⟨key, ⟨mid', hlt'⟩⟩, hkey, h⟩ := ok_of_outcome_bind h
      obtain ⟨⟨_, ⟨mid'', hlt''⟩⟩, hexactly', h⟩ := ok_of_outcome_bind h
      obtain ⟨⟨value, ⟨after, hafter⟩⟩, hvalue, h⟩ := ok_of_outcome_bind h
      obtain ⟨line', hts⟩ := eq_cons_of_exactly hexactly
      obtain ⟨line'', hmid⟩ := eq_cons_of_exactly hexactly'
      dsimp only at hts hmid
      subst hw hts hmid
      cases h
      exact .map (ih.reads hkey rfl) (ih.reads hvalue rfl)
    split at h
    · next hw =>
      obtain ⟨⟨elem, ⟨mid, hlt⟩⟩, hok, h⟩ := ok_of_outcome_bind h
      subst hw
      cases h
      have hread : Reads (.type elem) (chanDir ts).2.val mid := ih.reads hok rfl
      revert hread
      unfold chanDir
      split
      · exact .send
      · next harrow => exact .chan (next_ne_of_not_cons harrow)
    split at h
    · next hw =>
      obtain ⟨⟨s, ⟨mid, hlt⟩⟩, hok, h⟩ := ok_of_outcome_bind h
      subst hw
      cases h
      exact .func (ih.reads hok rfl)
    split at h
    · next hw =>
      obtain ⟨⟨_, ⟨mid, hlt⟩⟩, hexactly, h⟩ := ok_of_outcome_bind h
      obtain ⟨⟨fields, ⟨mid', hlt'⟩⟩, hok, h⟩ := ok_of_outcome_bind h
      obtain ⟨line', hts⟩ := eq_cons_of_exactly hexactly
      dsimp only at hts
      subst hw hts
      cases h
      exact .struct (ih.reads hok rfl)
    split at h
    · next hw =>
      obtain ⟨⟨_, ⟨mid, hlt⟩⟩, hexactly, h⟩ := ok_of_outcome_bind h
      obtain ⟨⟨elems, ⟨mid', hlt'⟩⟩, hok, h⟩ := ok_of_outcome_bind h
      obtain ⟨line', hts⟩ := eq_cons_of_exactly hexactly
      dsimp only at hts
      subst hw hts
      cases h
      exact .interface (ih.reads hok rfl)
    obtain ⟨⟨base, ⟨mid, hlt⟩⟩, hbase, h⟩ := ok_of_outcome_bind h
    have hname : ReadsName base (⟨line, .word w⟩ :: ts) mid :=
      reads_typeName (congrArg outcome hbase)
    dsimp only at hname h
    split at h
    · obtain ⟨⟨args, ⟨mid', hlt'⟩⟩, hok, h⟩ := ok_of_outcome_bind h
      cases h
      exact .generic hname (ih.reads hok rfl)
    · next hbracket =>
      cases h
      refine .name hname (next_ne_of_not_cons fun _ _ heq => ?_)
      subst heq
      exact hbracket _ _ _ rfl HEq.rfl
  · cases h

theorem ReadsBehind.argsRound (ih : ReadsBehind inner) {args : List TypeExpr}
    (h : outcome (argsRound ts inner) = some (args, rest)) : Reads (.args args) ts rest := by
  rw [Go.argsRound] at h
  obtain ⟨⟨arg, ⟨mid, hlt⟩⟩, harg, h⟩ := ok_of_outcome_bind h
  have hread : Reads (.type arg) ts mid := ih.typeRound (congrArg outcome harg)
  dsimp only at h
  split at h
  · cases h
    exact .lastArg hread
  · cases h
    exact .lastArgComma hread
  · next hclose =>
    obtain ⟨⟨args, ⟨mid', hlt'⟩⟩, hok, h⟩ := ok_of_outcome_bind h
    cases h
    refine .nextArg hread (next_ne_of_not_cons fun _ _ heq => ?_) (ih.reads hok rfl)
    subst heq
    exact hclose _ _ _ rfl HEq.rfl
  · cases h

theorem ReadsBehind.signatureRound (ih : ReadsBehind inner) {s : Signature}
    (h : outcome (signatureRound ts inner) = some (s, rest)) : Reads (.signature s) ts rest := by
  rw [Go.signatureRound] at h
  obtain ⟨⟨_, ⟨mid, hlt⟩⟩, hexactly, h⟩ := ok_of_outcome_bind h
  obtain ⟨line, hts⟩ := eq_cons_of_exactly hexactly
  dsimp only at hts
  subst hts
  obtain ⟨⟨params, ⟨mid', hlt'⟩⟩, hparams, h⟩ := ok_of_outcome_bind h
  have hread : Reads (.params params) mid mid' := ih.reads hparams rfl
  dsimp only at h
  split at h
  · obtain ⟨⟨results, ⟨mid'', hlt''⟩⟩, hok, h⟩ := ok_of_outcome_bind h
    cases h
    exact .results hread (ih.reads hok rfl)
  · next hparen =>
    split at h
    · next hstarts =>
      obtain ⟨⟨result, ⟨mid'', hlt''⟩⟩, hok, h⟩ := ok_of_outcome_bind h
      cases h
      refine .result hread (next_ne_of_not_cons fun _ _ heq => ?_) hstarts (ih.reads hok rfl)
      subst heq
      exact hparen _ _ _ rfl HEq.rfl
    · next hstarts =>
      cases h
      exact .noResult hread (Bool.eq_false_iff.2 hstarts)

theorem ReadsBehind.paramsRound (ih : ReadsBehind inner) {params : List Param}
    (h : outcome (paramsRound ts inner) = some (params, rest)) :
    Reads (.params params) ts rest := by
  rw [Go.paramsRound.eq_def] at h
  split at h
  · next line ts inner =>
    obtain ⟨⟨params, ⟨mid, hlt⟩⟩, hok, h⟩ := ok_of_outcome_bind h
    cases h
    exact .paramSemicolon (ih.reads hok rfl)
  · cases h
    exact .noParam
  · next line ts inner =>
    obtain ⟨⟨elem, ⟨mid, hlt⟩⟩, helem, h⟩ := ok_of_outcome_bind h
    obtain ⟨⟨params, ⟨mid', hlt'⟩⟩, hok, h⟩ := ok_of_outcome_bind h
    cases h
    exact .ellipsisParam (ih.reads helem rfl) (ih.reads hok rfl)
  · obtain ⟨⟨first, ⟨mid, hlt⟩⟩, hfirst, h⟩ := ok_of_outcome_bind h
    have hread : Reads (.type first) ts mid := ih.typeRound (congrArg outcome hfirst)
    dsimp only at h
    split at h
    · obtain ⟨⟨params, ⟨mid', hlt'⟩⟩, hok, h⟩ := ok_of_outcome_bind h
      cases h
      exact .typeParam hread (ih.reads hok rfl)
    · obtain ⟨⟨params, ⟨mid', hlt'⟩⟩, hok, h⟩ := ok_of_outcome_bind h
      cases h
      exact .lastTypeParam hread (ih.reads hok rfl)
    · obtain ⟨⟨elem, ⟨mid', hlt'⟩⟩, helem, h⟩ := ok_of_outcome_bind h
      obtain ⟨⟨params, ⟨mid'', hlt''⟩⟩, hok, h⟩ := ok_of_outcome_bind h
      cases h
      exact .namedEllipsis hread (ih.reads helem rfl) (ih.reads hok rfl)
    · obtain ⟨⟨type, ⟨mid', hlt'⟩⟩, htype, h⟩ := ok_of_outcome_bind h
      obtain ⟨⟨params, ⟨mid'', hlt''⟩⟩, hok, h⟩ := ok_of_outcome_bind h
      cases h
      exact .namedParam hread (ih.reads htype rfl) (ih.reads hok rfl)
    · cases h

theorem ReadsBehind.namesAndTypeRound (ih : ReadsBehind inner) {names : List String}
    {type : TypeExpr} (h : outcome (namesAndTypeRound ts inner) = some ((names, type), rest)) :
    Reads (.member names type) ts rest := by
  rw [Go.namesAndTypeRound.eq_def] at h
  split at h
  · next line ts inner =>
    obtain ⟨⟨type, ⟨mid, hlt⟩⟩, hok, h⟩ := ok_of_outcome_bind h
    cases h
    exact .embeddedPointer rfl (ih.typeRound (congrArg outcome hok))
  · next line w ts inner =>
    have hembedded : ∀ {x}, Go.typeRound (⟨line, .word w⟩ :: ts) inner = .ok x →
        Reads (.type x.1) (⟨line, .word w⟩ :: ts) x.2.val :=
      fun hok => ih.typeRound (congrArg outcome hok)
    split at h
    · next hnext =>
      obtain ⟨⟨type, ⟨mid, hlt⟩⟩, hok, h⟩ := ok_of_outcome_bind h
      cases h
      exact .embeddedName (.inl hnext) (hembedded hok)
    · next hnext =>
      obtain ⟨⟨type, ⟨mid, hlt⟩⟩, hok, h⟩ := ok_of_outcome_bind h
      cases h
      exact .embeddedName (.inr (atMemberEnd_of_next hnext rfl)) (hembedded hok)
    · next hnext =>
      obtain ⟨⟨type, ⟨mid, hlt⟩⟩, hok, h⟩ := ok_of_outcome_bind h
      cases h
      exact .embeddedName (.inr (atMemberEnd_of_next hnext rfl)) (hembedded hok)
    · next hnext =>
      obtain ⟨⟨type, ⟨mid, hlt⟩⟩, hok, h⟩ := ok_of_outcome_bind h
      cases h
      exact .embeddedName (.inr (atMemberEnd_of_next hnext rfl)) (hembedded hok)
    · next hnext =>
      split at h
      · next other mid hlt htrial =>
        split at h
        · next hend =>
          cases h
          exact .arrayMember hnext (ih.reads htrial rfl) hend
        · next hend =>
          obtain ⟨⟨type, ⟨mid', hlt'⟩⟩, hok, h⟩ := ok_of_outcome_bind h
          cases h
          refine .embeddedGeneric hnext ?_ (hembedded hok)
          intro other' mid'' htrial'
          rw [← ih.type_eq ts (Nat.lt_succ_self _), htrial] at htrial'
          cases htrial'
          exact Bool.eq_false_iff.2 hend
      · next htrial =>
        obtain ⟨⟨type, ⟨mid', hlt'⟩⟩, hok, h⟩ := ok_of_outcome_bind h
        cases h
        refine .embeddedGeneric hnext ?_ (hembedded hok)
        intro other' mid'' htrial'
        rw [← ih.type_eq ts (Nat.lt_succ_self _), htrial] at htrial'
        cases htrial'
    · next hdot hsemicolon hbrace hstr hbracket =>
      obtain ⟨⟨names, ⟨mid, hlt⟩⟩, hnames, h⟩ := ok_of_outcome_bind h
      obtain ⟨⟨type, ⟨mid', hlt'⟩⟩, hok, h⟩ := ok_of_outcome_bind h
      cases h
      refine .namedMember hdot ?_ hbracket (reads_nameList (congrArg outcome hnames))
        (ih.reads hok rfl)
      unfold atMemberEnd
      split
      · next hnext => exact absurd hnext hsemicolon
      · next hnext => exact absurd hnext hbrace
      · next s hnext => exact absurd hnext (hstr s)
      · rfl
  · cases h

theorem ReadsBehind.membersRound (ih : ReadsBehind inner) {fields : List Field}
    (h : outcome (membersRound ts inner) = some (fields, rest)) :
    Reads (.fields fields) ts rest := by
  rw [Go.membersRound.eq_def] at h
  split at h
  · next line ts inner =>
    obtain ⟨⟨fields, ⟨mid, hlt⟩⟩, hok, h⟩ := ok_of_outcome_bind h
    cases h
    exact .fieldSemicolon (ih.reads hok rfl)
  · cases h
    exact .noField
  · obtain ⟨⟨field, ⟨mid, hlt⟩⟩, hfield, h⟩ := ok_of_outcome_bind h
    obtain ⟨⟨mid', hle⟩, hended, h⟩ := ok_of_outcome_bind h
    obtain ⟨⟨fields, ⟨mid'', hlt'⟩⟩, hok, h⟩ := ok_of_outcome_bind h
    cases h
    have hmember : outcome (memberRound ts inner) = some (field, mid) := congrArg outcome hfield
    rw [memberRound] at hmember
    obtain ⟨⟨⟨names, type⟩, ⟨rest', hlt''⟩⟩, hnames, hmember⟩ := ok_of_outcome_bind hmember
    have hread : Reads (.member names type) ts rest' :=
      ih.namesAndTypeRound (congrArg outcome hnames)
    cases hmember
    exact .field hread (reads_optionalTag rfl) (ends_of_terminator hended) (ih.reads hok rfl)

theorem ReadsBehind.termRound (ih : ReadsBehind inner) {term : UnionTerm}
    (h : outcome (termRound ts inner) = some (term, rest)) : Reads (.term term) ts rest := by
  rw [Go.termRound.eq_def] at h
  split at h
  · next line ts inner =>
    obtain ⟨⟨type, ⟨mid, hlt⟩⟩, hok, h⟩ := ok_of_outcome_bind h
    cases h
    exact .approximate (ih.reads hok rfl)
  · obtain ⟨⟨type, ⟨mid, hlt⟩⟩, hok, h⟩ := ok_of_outcome_bind h
    cases h
    exact .exact (ih.typeRound (congrArg outcome hok))

theorem ReadsBehind.termsRound (ih : ReadsBehind inner) {terms : List UnionTerm}
    (h : outcome (termsRound ts inner) = some (terms, rest)) : Reads (.terms terms) ts rest := by
  rw [Go.termsRound] at h
  obtain ⟨⟨term, ⟨mid, hlt⟩⟩, hterm, h⟩ := ok_of_outcome_bind h
  have hread : Reads (.term term) ts mid := ih.termRound (congrArg outcome hterm)
  dsimp only at h
  split at h
  · split at h
    · next ho =>
      obtain ⟨⟨terms, ⟨mid', hlt'⟩⟩, hok, h⟩ := ok_of_outcome_bind h
      cases h
      subst ho
      exact .nextTerm hread (ih.reads hok rfl)
    · next ho =>
      cases h
      refine .lastTerm hread fun hnext => ?_
      cases hnext
      exact ho rfl
  · next hbar =>
    cases h
    refine .lastTerm hread (next_ne_of_not_cons fun _ _ heq => ?_)
    subst heq
    exact hbar _ _ _ _ rfl HEq.rfl

theorem ReadsBehind.elementsRound (ih : ReadsBehind inner) {elems : List InterfaceElem}
    (h : outcome (elementsRound ts inner) = some (elems, rest)) : Reads (.elems elems) ts rest := by
  rw [Go.elementsRound.eq_def] at h
  split at h
  · next line ts inner =>
    obtain ⟨⟨elems, ⟨mid, hlt⟩⟩, hok, h⟩ := ok_of_outcome_bind h
    cases h
    exact .elemSemicolon (ih.reads hok rfl)
  · cases h
    exact .noElem
  · next line w line' ts inner =>
    obtain ⟨⟨name, ⟨_, _⟩⟩, hname, h⟩ := ok_of_outcome_bind h
    obtain ⟨⟨s, ⟨mid, hlt⟩⟩, hsignature, h⟩ := ok_of_outcome_bind h
    obtain ⟨⟨mid', hle⟩, hended, h⟩ := ok_of_outcome_bind h
    obtain ⟨⟨elems, ⟨mid'', hlt'⟩⟩, hok, h⟩ := ok_of_outcome_bind h
    cases h
    obtain ⟨line'', hts, hw⟩ := eq_cons_of_identifier hname
    dsimp only at hts hw
    cases hts
    have hread : Reads (.signature s) (⟨line', .leftParen⟩ :: ts) mid := ih.reads hsignature rfl
    exact .method hw rfl hread (ends_of_terminator hended) (ih.reads hok rfl)
  · next hmethod =>
    obtain ⟨⟨terms, ⟨mid, hlt⟩⟩, hterms, h⟩ := ok_of_outcome_bind h
    obtain ⟨⟨mid', hle⟩, hended, h⟩ := ok_of_outcome_bind h
    obtain ⟨⟨elems, ⟨mid'', hlt'⟩⟩, hok, h⟩ := ok_of_outcome_bind h
    cases h
    refine .union (fun line w more hts => next_ne_of_not_cons fun line' more' heq => ?_)
      (ih.termsRound (congrArg outcome hterms)) (ends_of_terminator hended) (ih.reads hok rfl)
    subst hts heq
    exact hmethod _ _ _ _ _ rfl HEq.rfl

end Soundness

/-- What is read is in the grammar. -/
theorem reads_of_outcome {phrase : Phrase} {ts rest : List Located}
    (h : phrase.Outcome ts rest) : Reads phrase ts rest := by
  have ih : ReadsBehind fun c us (_ : us.length < ts.length) => readers c us :=
    { type_eq := fun _ _ => rfl
      reads := fun {c us _hus found phrase} hok hphrase =>
        reads_of_outcome (c.outcome_of_ok hok hphrase) }
  cases phrase with
  | type =>
    rw [Phrase.Outcome, typeExpr, readers_eq] at h
    exact ih.typeRound h
  | args =>
    rw [Phrase.Outcome, typeArgs, readers_eq] at h
    exact ih.argsRound h
  | signature =>
    rw [Phrase.Outcome, Go.signature, readers_eq] at h
    exact ih.signatureRound h
  | params =>
    rw [Phrase.Outcome, parameters, readers_eq] at h
    exact ih.paramsRound h
  | fields =>
    rw [Phrase.Outcome, members, readers_eq] at h
    exact ih.membersRound h
  | member => exact ih.namesAndTypeRound h
  | elems =>
    rw [Phrase.Outcome, elements, readers_eq] at h
    exact ih.elementsRound h
  | terms =>
    rw [Phrase.Outcome, unionTerms, readers_eq] at h
    exact ih.termsRound h
  | term => exact ih.termRound h
termination_by ts.length
decreasing_by exact _hus

/-- The grammar says exactly what the reader does. -/
theorem reads_iff {phrase : Phrase} {ts rest : List Located} :
    Reads phrase ts rest ↔ phrase.Outcome ts rest :=
  ⟨Reads.outcome_eq, reads_of_outcome⟩

end StructCopy.Go
