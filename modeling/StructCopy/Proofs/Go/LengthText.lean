/-
  Proofs/Go/LengthText: how far the text of an array length goes.

  An array length is read as text up to the bracket that closes it, whatever stands
  in between.  Tokens in which every bracket and parenthesis has its partner are
  passed over as a whole.
-/
import StructCopy.Proofs.Go.Grammar

set_option autoImplicit false

namespace StructCopy.Go

/-! ## One token -/

/-- The brackets open behind a token inside an array length, given those open before it. -/
def lengthDepth (token : Token) (depth : Nat) : Nat :=
  match token with
  | .leftBracket | .leftParen => depth + 1
  | .rightBracket | .rightParen => depth - 1
  | _ => depth

theorem outcome_arrayLength_end (line : Nat) (rest : List Located) :
    outcome (arrayLength 0 (⟨line, .rightBracket⟩ :: rest)) = some ("", rest) :=
  rfl

theorem outcome_arrayLength_cons {line depth : Nat} {token : Token} {text : String}
    {ts rest : List Located} (hend : ¬(token = .rightBracket ∧ depth = 0))
    (h : outcome (arrayLength (lengthDepth token depth) ts) = some (text, rest)) :
    outcome (arrayLength depth (⟨line, token⟩ :: ts)) = some (token.spelling ++ text, rest) := by
  rw [arrayLength.eq_def]
  dsimp only
  rw [if_neg hend]
  change outcome (arrayLength (lengthDepth token depth) ts >>= _) = _
  rw [outcome_bind h]
  rfl

/-- A length that does not end at its first token goes on behind it. -/
theorem exists_of_outcome_arrayLength_cons {line depth : Nat} {token : Token} {text : String}
    {ts rest : List Located} (hend : ¬(token = .rightBracket ∧ depth = 0))
    (h : outcome (arrayLength depth (⟨line, token⟩ :: ts)) = some (text, rest)) :
    ∃ more, text = token.spelling ++ more ∧
      outcome (arrayLength (lengthDepth token depth) ts) = some (more, rest) := by
  rw [arrayLength.eq_def] at h
  dsimp only at h
  rw [if_neg hend] at h
  change outcome (arrayLength (lengthDepth token depth) ts >>= _) = _ at h
  obtain ⟨⟨more, ⟨mid, hlt⟩⟩, hok, h⟩ := ok_of_outcome_bind h
  cases h
  exact ⟨more, rfl, congrArg outcome hok⟩

/-! ## Where a length ends -/

/-- The tokens behind the bracket that closes an array length, with `depth` brackets open. -/
def lengthEnd (depth : Nat) (ts : List Located) : Option (List Located) :=
  (outcome (arrayLength depth ts)).map Prod.snd

theorem lengthEnd_end (line : Nat) (rest : List Located) :
    lengthEnd 0 (⟨line, .rightBracket⟩ :: rest) = some rest :=
  rfl

theorem lengthEnd_cons {line depth : Nat} {token : Token} {ts : List Located}
    (hend : ¬(token = .rightBracket ∧ depth = 0)) :
    lengthEnd depth (⟨line, token⟩ :: ts) = lengthEnd (lengthDepth token depth) ts := by
  unfold lengthEnd
  cases h : outcome (arrayLength (lengthDepth token depth) ts) with
  | some found =>
    rw [outcome_arrayLength_cons hend h]
    rfl
  | none =>
    cases hwhole : outcome (arrayLength depth (⟨line, token⟩ :: ts)) with
    | none => rfl
    | some found =>
      obtain ⟨more, -, hmore⟩ := exists_of_outcome_arrayLength_cons hend hwhole
      cases h.symm.trans hmore

/-- An array length inside another one ends at its bracket also for the outer one, unless more
brackets are open there: then the outer one goes on behind it, with at least one bracket less. -/
theorem lengthEnd_of_inner {ts mid : List Located} {inner outer : Nat}
    (h : lengthEnd inner ts = some mid) (hle : inner ≤ outer) :
    lengthEnd outer ts = some mid ∨
      ∃ depth, depth + 1 + inner ≤ outer ∧ lengthEnd outer ts = lengthEnd depth mid := by
  induction ts generalizing inner outer with
  | nil => cases h
  | cons t ts ih =>
    obtain ⟨line, token⟩ := t
    by_cases hclose : token = .rightBracket ∧ inner = 0
    · obtain ⟨rfl, rfl⟩ := hclose
      rw [lengthEnd_end] at h
      cases h
      cases outer with
      | zero => exact .inl rfl
      | succ outer =>
        refine .inr ⟨outer, Nat.le_refl _, ?_⟩
        exact lengthEnd_cons fun heq => Nat.succ_ne_zero outer heq.2
    · have houter : ¬(token = .rightBracket ∧ outer = 0) := by
        rintro ⟨rfl, rfl⟩
        exact hclose ⟨rfl, Nat.le_zero.1 hle⟩
      rw [lengthEnd_cons hclose] at h
      rw [lengthEnd_cons houter]
      have hdepth : lengthDepth token inner ≤ lengthDepth token outer ∧
          lengthDepth token outer + inner ≤ outer + lengthDepth token inner := by
        unfold lengthDepth
        split <;> omega
      rcases ih h hdepth.1 with hstop | ⟨depth, hbound, hpass⟩
      · exact .inl hstop
      · exact .inr ⟨depth, by omega, hpass⟩

/-! ## Tokens with balanced brackets -/

/-- An opening token and the one that closes it. -/
inductive Pair : Token → Token → Prop where
  | brackets : Pair .leftBracket .rightBracket
  | parens : Pair .leftParen .rightParen

/-- Every bracket and every parenthesis among the tokens has its partner. -/
inductive Balanced : List Token → Prop where
  | nil : Balanced []
  | cons {token : Token} {ts : List Token} (hsame : ∀ depth, lengthDepth token depth = depth)
      (hend : token ≠ .rightBracket) (h : Balanced ts) : Balanced (token :: ts)
  | pair {left right : Token} {inner ts : List Token} (hpair : Pair left right)
      (hinner : Balanced inner) (h : Balanced ts) : Balanced (left :: (inner ++ right :: ts))

theorem Balanced.append {ts ts' : List Token} (h : Balanced ts) (h' : Balanced ts') :
    Balanced (ts ++ ts') := by
  induction h with
  | nil => exact h'
  | cons hsame hend _ ih => exact .cons hsame hend ih
  | pair hpair hinner _ _ ih =>
    rw [List.cons_append, List.append_assoc, List.cons_append]
    exact .pair hpair hinner ih

theorem balanced_word (w : String) : Balanced [.word w] :=
  .cons (fun _ => rfl) Token.noConfusion .nil

/-- Balanced tokens in front of the end of an array length belong to the length. -/
theorem Balanced.outcome_arrayLength {ts : List Token} (h : Balanced ts) {depth : Nat}
    {q r rest : List Located} {text : String} (hq : q.map Located.token = ts)
    (hr : outcome (arrayLength depth r) = some (text, rest)) :
    ∃ text', outcome (arrayLength depth (q ++ r)) = some (text', rest) := by
  induction h generalizing depth q r text with
  | nil =>
    rw [List.map_eq_nil_iff] at hq
    subst hq
    exact ⟨text, hr⟩
  | cons hsame hend _ ih =>
    obtain ⟨⟨line, token⟩, q, rfl, htoken, hq'⟩ := List.map_eq_cons_iff.1 hq
    cases htoken
    obtain ⟨text', htext'⟩ := ih hq' hr
    rw [← hsame depth] at htext'
    exact ⟨_, outcome_arrayLength_cons (fun heq => hend heq.1) htext'⟩
  | @pair left right inner ts hpair _ _ ihInner ih =>
    have hopen : lengthDepth left depth = depth + 1 ∧ left ≠ .rightBracket := by
      cases hpair <;> exact ⟨rfl, Token.noConfusion⟩
    have hclose : lengthDepth right (depth + 1) = depth := by
      cases hpair <;> rfl
    obtain ⟨⟨line, token⟩, q, rfl, htoken, hq'⟩ := List.map_eq_cons_iff.1 hq
    obtain ⟨q₁, q₂, rfl, hq₁, hq₂⟩ := List.map_eq_append_iff.1 hq'
    obtain ⟨⟨line', token'⟩, q, rfl, htoken', hq₃⟩ := List.map_eq_cons_iff.1 hq₂
    cases htoken
    cases htoken'
    obtain ⟨text', htext'⟩ := ih hq₃ hr
    rw [← hclose] at htext'
    have hright :
        outcome (arrayLength (depth + 1) (⟨line', token'⟩ :: (q ++ r))) = some (_, rest) :=
      outcome_arrayLength_cons (fun heq => absurd heq.2 (Nat.succ_ne_zero depth)) htext'
    obtain ⟨text'', htext''⟩ := ihInner hq₁ hright
    rw [← hopen.1] at htext''
    rw [List.cons_append, List.append_assoc, List.cons_append]
    exact ⟨_, outcome_arrayLength_cons (fun heq => hopen.2 heq.1) htext''⟩

end StructCopy.Go
