/-
  Go/Reading: reading tokens one construct at a time.

  A reader takes a list of tokens and returns a value with a strictly shorter list
  of tokens still to be read, so that progress is part of its type and repeated
  reading ends.  A reader that fails says what is wrong and where, the place being
  the tokens from there on.
-/
import StructCopy.Go.Token

set_option autoImplicit false

namespace StructCopy.Go

/-! ## Faults -/

/-- What a reader was looking for. -/
inductive Expected where
  /-- a certain token, by its spelling -/
  | token (spelling : String)
  | identifier
  | stringLiteral
  | type
  | member
  /-- a semicolon, a line break or the end of the enclosing list -/
  | terminator
  /-- the end of a type argument -/
  | argumentEnd
  /-- the end of a parameter -/
  | parameterEnd
  deriving DecidableEq, Repr

/-- What is looked for, in messages. -/
def Expected.describe : Expected → String
  | .token spelling => "'" ++ spelling ++ "'"
  | .identifier => "identifier"
  | .stringLiteral => "string literal"
  | .type => "type"
  | .member => "field declaration"
  | .terminator => "';' or newline"
  | .argumentEnd => "',' or ']'"
  | .parameterEnd => "',' or ')' in parameter list"

/-- Why tokens cannot be read; a token that is missing is the end of the input. -/
inductive ReadFault where
  | expected (what : Expected) (got : Option Token)
  /-- a closing bracket without an opening one -/
  | unexpected (got : Token)
  /-- a declaration ends inside brackets -/
  | unbalanced
  | openTypeParameters
  | openArrayLength
  deriving DecidableEq, Repr

/-- The message for a fault. -/
def ReadFault.message : ReadFault → String
  | .expected what got => "expected " ++ what.describe ++ ", got " ++ describeNext got
  | .unexpected got => "unexpected " ++ got.describe
  | .unbalanced => "unbalanced brackets in declaration"
  | .openTypeParameters => "unterminated type parameter list"
  | .openArrayLength => "unterminated array length"

/-- A fault and the tokens from its place on. -/
structure Stuck where
  fault : ReadFault
  place : List Located
  deriving DecidableEq, Repr

/-- The line of a place: that of its first token, or the line of the end. -/
def lineAt (endLine : Nat) (place : List Located) : Nat :=
  (place.head?.map Located.line).getD endLine

/-- The next token. -/
def next (ts : List Located) : Option Token :=
  ts.head?.map Located.token

/-! ## Readers -/

/-- What may be left of `ts` when something has been read. -/
abbrev Rest (ts : List Located) : Type :=
  { rest : List Located // rest.length < ts.length }

/-- What may be left of `ts` when nothing has to be read. -/
abbrev RestOrAll (ts : List Located) : Type :=
  { rest : List Located // rest.length ≤ ts.length }

/-- The outcome of reading an `α` off the front of `ts`. -/
abbrev Reading (α : Type) (ts : List Located) : Type :=
  Except Stuck (α × Rest ts)

/-- Fails at `ts`, where `what` should stand. -/
def missing {α : Type} (what : Expected) (ts : List Located) : Except Stuck α :=
  .error ⟨.expected what (next ts), ts⟩

end StructCopy.Go
