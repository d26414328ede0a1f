/-
  Go/Constraint: build constraints as expressions over tags.

  An expression is written with `!`, `&&`, `||` and parentheses, `!` binding closest
  and `||` least.  Reading gives a tree; `holds` is its Boolean value.
-/
import StructCopy.Go.SyntaxError
import StructCopy.Text.Letter

set_option autoImplicit false

namespace StructCopy.Go

/-- A Boolean expression over tags. -/
inductive Constraint where
  | tag (name : String)
  | not (c : Constraint)
  | and (c d : Constraint)
  | or (c d : Constraint)
  deriving DecidableEq, Repr

namespace Constraint

/-- The value of an expression, given the value of each tag. -/
def holds (value : String → Bool) : Constraint → Bool
  | .tag name => value name
  | .not c => !c.holds value
  | .and c d => c.holds value && d.holds value
  | .or c d => c.holds value || d.holds value

/-! ## Parts -/

/-- A part of the text of an expression. -/
inductive Part where
  | tag (name : String)
  | not
  | and
  | or
  | left
  | right
  deriving DecidableEq, Repr

/-- The name of a part in messages. -/
def Part.name : Part → String
  | .tag _ => "Tag"
  | .not => "Not"
  | .and => "And"
  | .or => "Or"
  | .left => "LParen"
  | .right => "RParen"

/-- A character of a tag. -/
def isTagChar (c : Char) : Bool :=
  Text.isAlphanumeric c || c == '_' || c == '.'

/-- The first part of the text `c :: s`, which starts with no white space, and what follows
it. -/
def firstPart (c : Char) (s : List Char) : Except ConstraintFault (Part × List Char) :=
  if c = '&' ∧ s.head? = some '&' then .ok (.and, s.tail)
  else if c = '|' ∧ s.head? = some '|' then .ok (.or, s.tail)
  else if c = '!' then .ok (.not, s)
  else if c = '(' then .ok (.left, s)
  else if c = ')' then .ok (.right, s)
  else if isTagChar c then
    .ok (.tag (String.ofList (c :: s.takeWhile isTagChar)), s.dropWhile isTagChar)
  else .error (.strayCharacter c)

theorem length_le_of_firstPart {c : Char} {s rest : List Char} {part : Part}
    (h : firstPart c s = .ok (part, rest)) : rest.length ≤ s.length := by
  simp only [firstPart] at h
  split at h
  · cases h
    simp
  split at h
  · cases h
    simp
  split at h
  · cases h
    exact Nat.le_refl _
  split at h
  · cases h
    exact Nat.le_refl _
  split at h
  · cases h
    exact Nat.le_refl _
  split at h
  · cases h
    exact (List.dropWhile_sublist isTagChar).length_le
  · simp at h

/-- The parts of the text of an expression; white space between them is free. -/
def parts : List Char → Except ConstraintFault (List Part)
  | [] => .ok []
  | c :: s =>
    if Text.isBlank c then parts s
    else
      match _h : firstPart c s with
      | .error fault => .error fault
      | .ok (part, rest) => (parts rest).map (part :: ·)
termination_by s => s.length
decreasing_by
  · simp
  · have := length_le_of_firstPart _h
    simp only [List.length_cons]
    omega

/-! ## Reading -/

/-- The outcome of reading an expression off the front of some parts. -/
abbrev Outcome (ps : List Part) : Type :=
  Except ConstraintFault (Constraint × { rest : List Part // rest.length < ps.length })

mutual

/-- Reads operands joined by `||`. -/
def disjunction (ps : List Part) : Outcome ps := do
  let (c, ⟨rest, h⟩) ← conjunction ps
  match rest, h with
  | .or :: more, h => do
    let (d, ⟨rest, h'⟩) ← disjunction more
    return (.or c d, ⟨rest, Nat.lt_trans h' (Nat.lt_of_succ_lt h)⟩)
  | rest, h => return (c, ⟨rest, h⟩)
termination_by 3 * ps.length + 2
decreasing_by all_goals grind

/-- Reads operands joined by `&&`. -/
def conjunction (ps : List Part) : Outcome ps := do
  let (c, ⟨rest, h⟩) ← operand ps
  match rest, h with
  | .and :: more, h => do
    let (d, ⟨rest, h'⟩) ← conjunction more
    return (.and c d, ⟨rest, Nat.lt_trans h' (Nat.lt_of_succ_lt h)⟩)
  | rest, h => return (c, ⟨rest, h⟩)
termination_by 3 * ps.length + 1
decreasing_by all_goals grind

/-- Reads a tag, a negated operand or an expression in parentheses. -/
def operand (ps : List Part) : Outcome ps :=
  match ps with
  | [] => .error .endOfExpression
  | .tag name :: ps => .ok (.tag name, ⟨ps, Nat.lt_succ_self _⟩)
  | .not :: ps => do
    let (c, ⟨rest, h⟩) ← operand ps
    return (.not c, ⟨rest, Nat.lt_succ_of_lt h⟩)
  | .left :: ps => do
    let (c, ⟨rest, h⟩) ← disjunction ps
    match rest, h with
    | .right :: rest, h => return (c, ⟨rest, Nat.lt_succ_of_lt (Nat.lt_of_succ_lt h)⟩)
    | _, _ => .error .missingParenthesis
  | part :: _ => .error (.misplaced part.name)
termination_by 3 * ps.length
decreasing_by all_goals grind

end

/-- The expression that some parts form. -/
def ofParts (ps : List Part) : Except ConstraintFault Constraint := do
  let (c, ⟨rest, _⟩) ← disjunction ps
  if rest.isEmpty then return c else .error .trailing

/-- The expression that a text stands for. -/
def ofText (s : List Char) : Except ConstraintFault Constraint := do
  ofParts (← parts s)

end Constraint

end StructCopy.Go
