/-
  Go/Layout: lines and statement ends.

  `layout` turns pieces into located tokens.  Where a line break, between pieces or
  inside a comment, follows a token that may end a statement, a semicolon is put on
  the line where the break begins; the end of the text counts as such a break.
-/
import StructCopy.Go.Piece

set_option autoImplicit false

namespace StructCopy.Go

/-! ## Syntax errors -/

/-- A fault at a line of a file. -/
structure LexError where
  line : Nat
  fault : PieceFault
  deriving DecidableEq, Repr

/-! ## Layout -/

/-- The list with a token put in front. -/
def TokenList.cons (t : Located) (list : TokenList) : TokenList :=
  { list with tokens := t :: list.tokens }

/-- The tokens among some pieces that begin on line `line`. `pending` says that the token before
them may end a statement. -/
def layout (line : Nat) (pending : Bool) : List Piece → TokenList
  | [] => { tokens := if pending then [⟨line, .semicolon⟩] else [], endLine := line }
  | .token t n :: rest => (layout (line + n) t.endsStatement rest).cons ⟨line, t⟩
  | .blank :: rest => layout line pending rest
  | .lineBreak :: rest =>
    let after := layout (line + 1) false rest
    if pending then after.cons ⟨line, .semicolon⟩ else after
  | .comment n :: rest =>
    if pending && n != 0 then (layout (line + n) false rest).cons ⟨line, .semicolon⟩
    else layout (line + n) pending rest

/-- The line breaks that some pieces count for. -/
def totalBreaks (ps : List Piece) : Nat :=
  ps.foldl (fun n p => n + p.breaks) 0

/-- A text without the byte-order mark it may start with. -/
def withoutMark (s : List Char) : List Char :=
  match s with
  | '\ufeff' :: rest => rest
  | s => s

/-- The tokens of a source text. -/
def tokenize (source : String) : Except LexError TokenList :=
  match pieces (withoutMark source.toList) with
  | (ps, none) => .ok (layout 1 false ps)
  | (ps, some fault) => .error ⟨1 + totalBreaks ps, fault⟩

end StructCopy.Go
