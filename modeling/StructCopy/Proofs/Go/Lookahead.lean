/-
  Proofs/Go/Lookahead: what the first tokens say about the type that is read.

  The reader of types is asked in places where one or two tokens have already decided
  what is there.  The shapes named here are those whose first tokens mean something
  else in some of these places.
-/
import StructCopy.Proofs.Go.Grammar

set_option autoImplicit false

namespace StructCopy.Go

/-! ## Shapes that are read in another way in some places -/

namespace TypeExpr

/-- A channel to receive from: behind `chan`, its arrow would be taken for the direction. -/
def isReceive : TypeExpr → Bool
  | .chan .receive _ => true
  | _ => false

/-- A type in parentheses: as a result, it would be taken for a result list. -/
def isParen : TypeExpr → Bool
  | .paren _ => true
  | _ => false

/-- A type that starts with a bracket: behind a name, it would be taken for type arguments. -/
def isBracketed : TypeExpr → Bool
  | .slice _ | .array _ _ => true
  | _ => false

/-- A type that starts with a word before a parenthesis: as an interface element, it would be
taken for a method. -/
def isMethodLike : TypeExpr → Bool
  | .func _ => true
  | .chan .both (.paren _) => true
  | _ => false

end TypeExpr

/-! ## What the first tokens say -/

theorem ReadsName.next_eq {type : TypeExpr} {ts rest : List Located}
    (h : ReadsName type ts rest) : ∃ w, next ts = some (.word w) := by
  obtain ⟨line, w, more, rfl, -⟩ := h.cons
  exact ⟨w, rfl⟩

/-- Only a channel to receive from starts with an arrow. -/
theorem Reads.isReceive_of_arrow {type : TypeExpr} {ts rest : List Located}
    (h : Reads (.type type) ts rest) (hnext : next ts = some .arrow) : type.isReceive = true := by
  cases h with
  | receive => rfl
  | name h | generic h =>
    obtain ⟨w, hw⟩ := h.next_eq
    rw [hw] at hnext
    cases hnext
  | _ => cases hnext

/-- Only a type in parentheses starts with a parenthesis. -/
theorem Reads.isParen_of_paren {type : TypeExpr} {ts rest : List Located}
    (h : Reads (.type type) ts rest) (hnext : next ts = some .leftParen) : type.isParen = true := by
  cases h with
  | paren => rfl
  | name h | generic h =>
    obtain ⟨w, hw⟩ := h.next_eq
    rw [hw] at hnext
    cases hnext
  | _ => cases hnext

/-- Only arrays and slices start with a bracket. -/
theorem Reads.isBracketed_of_bracket {type : TypeExpr} {ts rest : List Located}
    (h : Reads (.type type) ts rest) (hnext : next ts = some .leftBracket) :
    type.isBracketed = true := by
  cases h with
  | slice => rfl
  | openArray => rfl
  | array => rfl
  | name h | generic h =>
    obtain ⟨w, hw⟩ := h.next_eq
    rw [hw] at hnext
    cases hnext
  | _ => cases hnext

/-- Arrays and slices start with a bracket. -/
theorem Reads.bracket_of_isBracketed {type : TypeExpr} {ts rest : List Located}
    (h : Reads (.type type) ts rest) (htype : type.isBracketed = true) :
    next ts = some .leftBracket := by
  cases h with
  | slice => rfl
  | openArray => rfl
  | array => rfl
  | name h => cases h <;> cases htype
  | _ => cases htype

/-- A type that starts with a word before a parenthesis, and is more than this word, is a function
type or a channel of a type in parentheses. -/
theorem Reads.isMethodLike_of_paren {line : Nat} {w : String} {type : TypeExpr}
    {ts rest : List Located} (h : Reads (.type type) (⟨line, .word w⟩ :: ts) rest)
    (hnext : next ts = some .leftParen) (hrest : next rest ≠ some .leftParen) :
    type.isMethodLike = true := by
  cases h with
  | func => rfl
  | chan _ h =>
    have hparen := h.isParen_of_paren hnext
    unfold TypeExpr.isParen at hparen
    split at hparen
    · rfl
    · cases hparen
  | map => cases hnext
  | send => cases hnext
  | struct => cases hnext
  | interface => cases hnext
  | name h =>
    cases h with
    | named => exact absurd hnext hrest
    | qualified => cases hnext
  | generic h =>
    cases h with
    | named => cases hnext
    | qualified => cases hnext

/-- Function types and channels of a type in parentheses start with a word before a parenthesis. -/
theorem Reads.paren_of_isMethodLike {type : TypeExpr} {ts rest : List Located}
    (h : Reads (.type type) ts rest) (htype : type.isMethodLike = true) :
    ∃ line w more, ts = ⟨line, .word w⟩ :: more ∧ next more = some .leftParen := by
  cases h with
  | func h => exact ⟨_, _, _, rfl, by cases h <;> rfl⟩
  | chan _ h =>
    refine ⟨_, _, _, rfl, ?_⟩
    cases h with
    | paren => rfl
    | name h => cases h <;> cases htype
    | _ => cases htype
  | name h => cases h <;> cases htype
  | _ => cases htype

/-- Type arguments start with a token that a type may start with. -/
theorem Reads.startsType_of_args {args : List TypeExpr} {ts rest : List Located}
    (h : Reads (.args args) ts rest) : ((next ts).map Token.startsType).getD false = true := by
  cases h with
  | lastArg h => exact h.startsType
  | lastArgComma h => exact h.startsType
  | nextArg h => exact h.startsType

/-! ## What follows a type -/

/-- No type starts here. -/
def NoType (ts : List Located) : Prop :=
  ((next ts).map Token.startsType).getD false = false

/-- Nothing that would go on with a type. -/
def Ended (ts : List Located) : Prop :=
  NoType ts ∧ next ts ≠ some .dot

theorem next_ne_of_startsType {ts : List Located} {token : Token}
    (h : ((next ts).map Token.startsType).getD false = true) (htoken : token.startsType = false) :
    next ts ≠ some token := by
  intro hnext
  rw [hnext] at h
  change token.startsType = true at h
  rw [htoken] at h
  cases h

theorem noType_cons {line : Nat} {token : Token} {ts : List Located}
    (h : token.startsType = false) : NoType (⟨line, token⟩ :: ts) :=
  h

theorem ended_cons {line : Nat} {token : Token} {ts : List Located}
    (hstarts : token.startsType = false) (hdot : token ≠ .dot) : Ended (⟨line, token⟩ :: ts) :=
  ⟨hstarts, fun h => hdot (Option.some.inj h)⟩

theorem Ended.next_ne {ts : List Located} (h : Ended ts) {token : Token}
    (htoken : token.startsType = true) : next ts ≠ some token := by
  intro hnext
  have hstarts := h.1
  unfold NoType at hstarts
  rw [hnext] at hstarts
  change token.startsType = false at hstarts
  rw [htoken] at hstarts
  cases hstarts

/-- The end of a struct member is the end of its type. -/
theorem ended_of_atMemberEnd {ts : List Located} (h : atMemberEnd ts = true) : Ended ts := by
  unfold atMemberEnd at h
  unfold Ended NoType
  split at h
  · next heq =>
    rw [heq]
    exact ⟨rfl, nofun⟩
  · next heq =>
    rw [heq]
    exact ⟨rfl, nofun⟩
  · next heq =>
    rw [heq]
    exact ⟨rfl, nofun⟩
  · cases h

end StructCopy.Go
