/-
  Go/SyntaxError: what can be wrong with a source file, and where.
-/
import StructCopy.Go.Layout
import StructCopy.Go.Reading

set_option autoImplicit false

namespace StructCopy.Go

/-- Why a build constraint is no expression. -/
inductive ConstraintFault where
  /-- a character that no part of an expression starts with -/
  | strayCharacter (c : Char)
  /-- a part of an expression, by name, where an operand should stand -/
  | misplaced (part : String)
  | missingParenthesis
  | endOfExpression
  /-- the expression ends before the line does -/
  | trailing
  deriving DecidableEq, Repr

/-- The message for a fault in a build constraint. -/
def ConstraintFault.message (fault : ConstraintFault) : String :=
  "invalid //go:build line: " ++
    match fault with
    | .strayCharacter c => "unexpected '" ++ String.singleton c ++ "'"
    | .misplaced part => "unexpected " ++ part
    | .missingParenthesis => "missing ')'"
    | .endOfExpression => "unexpected end of expression"
    | .trailing => "unexpected tokens after expression"

/-- The cause of a syntax error. -/
inductive SyntaxFault where
  /-- the text does not fall apart into tokens -/
  | pieces (fault : PieceFault)
  /-- the tokens do not form a file -/
  | reading (fault : ReadFault)
  /-- a build constraint is malformed -/
  | constraint (fault : ConstraintFault)
  deriving DecidableEq, Repr

/-- A syntax error at a line of a file. -/
structure SyntaxError where
  file : String
  line : Nat
  fault : SyntaxFault
  deriving DecidableEq, Repr

/-- The message for a cause, without the place. -/
def SyntaxFault.message : SyntaxFault → String
  | .pieces fault => fault.message
  | .reading fault => fault.message
  | .constraint fault => fault.message

/-- The message with file and line in front. -/
def SyntaxError.message (e : SyntaxError) : String :=
  e.file ++ ":" ++ toString e.line ++ ": " ++ e.fault.message

end StructCopy.Go
