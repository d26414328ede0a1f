/-
  Yaml/Token/Lexer: a text cut into tokens.

  Only the colon behind a key shows that it is one.  So the place where a key may
  begin is kept in mind, one for each open bracket, until the colon comes or can no
  longer come: a key is on one line and at most 1024 bytes long.  What begins in the
  column of a block mapping has to be a key.  Outside brackets the columns of the
  collections that are open are kept as well; what begins left of one ends it.
-/
import StructCopy.Yaml.Token
import StructCopy.Yaml.Plain
import StructCopy.Yaml.Block

set_option autoImplicit false

namespace StructCopy.Yaml

/-! ## State -/

/-- Where a key may have begun: the place, the number of tokens before it, and whether a key has
to be there. -/
structure KeyStart where
  place : Cursor
  tokens : Nat
  required : Bool
  deriving Repr

/-- The colon at `c` is near enough for what begins at the place to be its key. -/
def KeyStart.reaches (start : KeyStart) (c : Cursor) : Bool :=
  start.place.line = c.line && c.offset ≤ start.place.offset + 1024

/-- What is known behind a part of a text: its tokens, the latest first, the columns of the open
block collections, the innermost first, whether a key may begin, where one may have begun inside
the innermost open bracket, and where outside it and the other brackets. -/
structure Lexer where
  tokens : List Token
  columns : List Nat
  keyAllowed : Bool
  start : Option KeyStart
  outer : List (Option KeyStart)
  deriving Repr

namespace Lexer

/-- What is known before a text. -/
def initial : Lexer :=
  ⟨[], [], true, none, []⟩

/-- A bracket is open. -/
def flow (s : Lexer) : Bool :=
  !s.outer.isEmpty

/-- The least column right of the innermost block collection. -/
def least (s : Lexer) : Nat :=
  (s.columns.head?.map (· + 1)).getD 0

/-- What is known behind a further token; `keyAllowed` says whether a key may follow. -/
def add (s : Lexer) (token : Token) (keyAllowed : Bool) : Lexer :=
  { s with tokens := token :: s.tokens, keyAllowed := keyAllowed }

/-! ## Keys -/

/-- No key has begun, which is not so where one has to be. -/
def withoutKey (s : Lexer) : Option Lexer :=
  if s.start.any KeyStart.required then none else some { s with start := none }

/-- A key may begin at `c`, if one is allowed. -/
def mayStartKey (s : Lexer) (c : Cursor) : Option Lexer :=
  if s.keyAllowed then do
    let s ← s.withoutKey
    let required := !s.flow && s.columns.head? = some c.column
    return { s with start := some ⟨c, s.tokens.length, required⟩ }
  else some s

/-! ## Columns -/

/-- Ends the block collections in and right of a column. Inside brackets columns do not count. -/
def closeFrom (s : Lexer) (column : Nat) : Lexer :=
  if s.flow then s
  else
    let kept := s.columns.dropWhile (column ≤ ·)
    { s with
      tokens := List.replicate (s.columns.length - kept.length) Token.blockEnd ++ s.tokens
      columns := kept }

/-- Begins a block collection in a column behind a number of tokens, unless one is open there
already. -/
def openAt (s : Lexer) (column : Nat) (token : Token) (tokens : Nat) : Lexer :=
  if s.flow ∨ column < s.least then s
  else
    let later := s.tokens.length - tokens
    { s with
      tokens := s.tokens.take later ++ token :: s.tokens.drop later
      columns := column :: s.columns }

/-- Begins a block collection for the indicator in a column, if one may be there. -/
def enter (s : Lexer) (column : Nat) (token : Token) : Option Lexer :=
  if s.flow then some s
  else if s.keyAllowed then some (s.openAt column token s.tokens.length)
  else none

/-! ## Indicators -/

/-- A mark of a document ends all block collections. -/
def boundary (s : Lexer) (token : Token) : Option Lexer := do
  let s ← (s.closeFrom 0).withoutKey
  return s.add token false

/-- An opening bracket at `c`. -/
def opening (s : Lexer) (token : Token) (c : Cursor) : Option Lexer := do
  let s ← s.mayStartKey c
  return { s with start := none, outer := s.start :: s.outer }.add token true

/-- A closing bracket. -/
def closing (s : Lexer) (token : Token) : Option Lexer := do
  let s ← s.withoutKey
  return { s with start := s.outer.head?.join, outer := s.outer.tail }.add token false

/-- A comma inside brackets. -/
def comma (s : Lexer) : Option Lexer := do
  let s ← s.withoutKey
  return s.add .comma true

/-- A dash before an item. -/
def dash (s : Lexer) (column : Nat) : Option Lexer := do
  let s ← (← s.enter column .blockSequence).withoutKey
  return s.add .dash true

/-- A question mark before a key. -/
def question (s : Lexer) (column : Nat) : Option Lexer := do
  let s ← (← s.enter column .blockMapping).withoutKey
  return s.add .key !s.flow

/-- A colon before a value, at `c`. If it is not near a place where a key may have begun, it
belongs to a question mark. -/
def colon (s : Lexer) (c : Cursor) : Option Lexer :=
  match s.start.filter (·.reaches c) with
  | some start =>
    let later := s.tokens.length - start.tokens
    let s := { s with
      tokens := s.tokens.take later ++ Token.key :: s.tokens.drop later
      start := none }
    some ((s.openAt start.place.column .blockMapping start.tokens).add .value false)
  | none => do
    let s ← (← s.enter c.column .blockMapping).withoutKey
    return s.add .value !s.flow

/-! ## Tokens at a place -/

/-- Reads a scalar of indented lines. -/
def lineScalar (least : Nat) (c : Cursor) : Option (Token × c.After) :=
  match h : c.rest with
  | sign :: cs => do
    let folded := sign = '>'
    let (text, ⟨left, h'⟩) ← blockScalar folded least cs
    return (.scalar (if folded then .folded else .literal) (String.ofList text),
      c.after left (by rw [h]; exact Nat.lt_succ_of_le h'))
  | [] => none

/-- Reads an anchor, a reference, a tag, or a scalar that is quoted or plain. -/
def lexeme (context : Context) (c : Cursor) : Option (Token × c.After) :=
  match h : c.rest with
  | '*' :: cs => do
    let (name, ⟨left, h'⟩) ← anchorName cs
    return (.reference name, c.after left (by rw [h]; exact Nat.lt_succ_of_lt h'))
  | '&' :: cs => do
    let (name, ⟨left, h'⟩) ← anchorName cs
    return (.anchor name, c.after left (by rw [h]; exact Nat.lt_succ_of_lt h'))
  | '!' :: _ => do
    let (tag, ⟨left, h'⟩) ← tag context.flow c.rest
    return (.tag tag, c.after left h')
  | '"' :: cs => do
    let (text, ⟨left, h'⟩) ← doubleQuoted cs
    return (.scalar .doubleQuoted (String.ofList text),
      c.after left (by rw [h]; exact Nat.lt_succ_of_lt h'))
  | '\'' :: cs => do
    let (text, ⟨left, h'⟩) ← singleQuoted cs
    return (.scalar .singleQuoted (String.ofList text),
      c.after left (by rw [h]; exact Nat.lt_succ_of_lt h'))
  | _ =>
    if startsPlain context.flow c.rest then do
      let (text, ⟨left, h'⟩) ← plain context c.rest
      return (.scalar .plain (String.ofList text), c.after left h')
    else none

/-- Reads the token that begins at `c`. -/
def next (s : Lexer) (c : Cursor) : Option (Lexer × c.After) :=
  match h : c.rest with
  | [] => none
  | x :: cs =>
    have hc : c.rest ≠ [] := by simp [h]
    if x = '%' ∧ c.column = 0 then do
      let (directive, ⟨left, h'⟩) ← directive c.rest
      return (← s.boundary (.directive directive), c.after left h')
    else if startsDocument c.rest ∧ c.column = 0 then
      return (← s.boundary .documentStart, c.past 2 hc)
    else if endsDocument c.rest ∧ c.column = 0 then
      return (← s.boundary .documentEnd, c.past 2 hc)
    else if x = '[' then return (← s.opening .openBracket c, c.past 0 hc)
    else if x = '\x7b' then return (← s.opening .openBrace c, c.past 0 hc)
    else if x = ']' then return (← s.closing .closeBracket, c.past 0 hc)
    else if x = '\x7d' then return (← s.closing .closeBrace, c.past 0 hc)
    else if x = ',' then return (← s.comma, c.past 0 hc)
    else if x = '-' ∧ atSpacing cs then return (← s.dash c.column, c.past 0 hc)
    else if x = '?' ∧ (s.flow ∨ atSpacing cs) then return (← s.question c.column, c.past 0 hc)
    else if x = ':' ∧ (s.flow ∨ atSpacing cs) then return (← s.colon c, c.past 0 hc)
    else if (x = '|' ∨ x = '>') ∧ !s.flow then do
      let (token, d) ← lineScalar s.least c
      return ((← s.withoutKey).add token true, d)
    else do
      let (token, d) ← lexeme ⟨s.flow, s.least⟩ c
      return ((← s.mayStartKey c).add token d.1.fresh, d)

/-- The tokens of a text from `c` on, behind those that are known. -/
def finish (s : Lexer) (c : Cursor) : Option (List Token) :=
  let ⟨d, _hd⟩ := c.pastGap s.flow (s.flow || !s.keyAllowed)
  let s := { s with keyAllowed := s.keyAllowed || (!s.flow && c.line != d.line) }
  if d.rest.isEmpty then do
    let s ← (s.closeFrom 0).withoutKey
    return s.tokens.reverse
  else do
    let (s, ⟨e, _he⟩) ← (s.closeFrom (d.column + 1)).next d
    s.finish e
termination_by c.rest.length
decreasing_by omega

end Lexer

/-- The tokens of a text. -/
def tokens? (cs : List Char) : Option (List Token) :=
  Lexer.initial.finish ⟨cs, 0, 0, 0, true⟩

end StructCopy.Yaml
