/-
  Yaml/Quoted: scalars between quotation marks.

  A quoted scalar may go over several lines, which are folded: white space around a
  line break goes, one break becomes a space, and of several the first goes.  A mark
  of a document may not stand at the start of a line.
-/
import StructCopy.Yaml.Cursor

set_option autoImplicit false

namespace StructCopy.Yaml

/-- Something read off the front of `cs`, and a shorter text that is left over. -/
abbrev Found (α : Type) (cs : List Char) : Type :=
  Option (α × { rest : List Char // rest.length < cs.length })

/-- A text read off the front of `cs`. -/
abbrev Scan (cs : List Char) : Type :=
  Found (List Char) cs

/-! ## Spacing -/

/-- What the line breaks between two words stand for: a single line feed is a space, the first
of several is nothing. -/
def fold : List Char → List Char
  | ['\n'] => [' ']
  | '\n' :: breaks => breaks
  | breaks => breaks

/-- The spacing at the front of a text. -/
def spacing (cs : List Char) : List Char :=
  cs.takeWhile isSpacing

/-- The text behind the spacing at its front. -/
def pastSpacing (cs : List Char) : List Char :=
  cs.dropWhile isSpacing

theorem length_pastSpacing_le (cs : List Char) : (pastSpacing cs).length ≤ cs.length :=
  (List.dropWhile_suffix isSpacing).length_le

theorem length_pastSpacing_lt {c : Char} (cs : List Char) (h : isSpacing c = true) :
    (pastSpacing (c :: cs)).length < (c :: cs).length := by
  have := length_pastSpacing_le cs
  simp only [pastSpacing, List.dropWhile_cons, h, if_true, List.length_cons]
  simp only [pastSpacing] at this
  omega

/-- The spacing ends at the start of a line where a document mark stands; `fresh` if the
spacing itself begins at the start of a line. -/
def meetsMark (fresh : Bool) (cs : List Char) : Bool :=
  ((spacing cs).getLast?.map isBreak).getD fresh && atMark (pastSpacing cs)

/-- What spacing inside a quoted scalar stands for: itself on one line, and the fold of its
line breaks otherwise. -/
def joined (space : List Char) : List Char :=
  let breaks := space.filter isBreak
  if breaks.isEmpty then space else fold breaks

/-! ## Escapes -/

/-- The escapes that a single character names. -/
def namedEscape? : Char → Option Char
  | '0' => some '\x00'
  | 'a' => some '\x07'
  | 'b' => some '\x08'
  | 't' => some '\t'
  | '\t' => some '\t'
  | 'n' => some '\n'
  | 'v' => some '\x0b'
  | 'f' => some '\x0c'
  | 'r' => some '\r'
  | 'e' => some '\x1b'
  | ' ' => some ' '
  | '"' => some '"'
  | '/' => some '/'
  | '\\' => some '\\'
  | 'N' => some '\x85'
  | '_' => some '\xa0'
  | 'L' => some '\u2028'
  | 'P' => some '\u2029'
  | _ => none

/-- The number of hexadecimal digits behind an escape that gives a code point. -/
def escapeWidth? : Char → Option Nat
  | 'x' => some 2
  | 'u' => some 4
  | 'U' => some 8
  | _ => none

/-- The value of a hexadecimal digit. -/
def hexDigit? (c : Char) : Option Nat :=
  if '0' ≤ c ∧ c ≤ '9' then some (c.toNat - '0'.toNat)
  else if 'a' ≤ c ∧ c ≤ 'f' then some (c.toNat - 'a'.toNat + 10)
  else if 'A' ≤ c ∧ c ≤ 'F' then some (c.toNat - 'A'.toNat + 10)
  else none

/-- The character whose code point hexadecimal digits give; surrogates are no characters. -/
def codePoint? (digits : List Char) : Option Char := do
  let values ← digits.mapM hexDigit?
  let n := values.foldl (fun n d => 16 * n + d) 0
  if n.isValidChar then some (Char.ofNat n) else none

theorem length_drop_lt (n : Nat) (c : Char) (cs : List Char) :
    (cs.drop n).length < (c :: cs).length := by
  rw [List.length_drop, List.length_cons]
  omega

/-- What stands behind a backslash. A line break is nothing, and so is the white space at the
start of the lines that follow. -/
def escaped (cs : List Char) : Scan cs :=
  match cs with
  | [] => none
  | c :: cs =>
    if isBreak c then
      if meetsMark true cs then none
      else some ((spacing cs).filter isBreak,
        ⟨pastSpacing cs, Nat.lt_succ_of_le (length_pastSpacing_le cs)⟩)
    else
      match namedEscape? c, escapeWidth? c with
      | some x, _ => some ([x], ⟨cs, Nat.lt_succ_self _⟩)
      | none, some width =>
        if width ≤ cs.length then do
          let x ← codePoint? (cs.take width)
          return ([x], ⟨cs.drop width, length_drop_lt width c cs⟩)
        else none
      | none, none => none

/-! ## Scalars -/

/-- The text behind a quotation mark, up to the one that closes it. -/
def doubleQuoted (cs : List Char) : Scan cs :=
  match cs with
  | [] => none
  | c :: cs =>
    if c = '"' then some ([], ⟨cs, Nat.lt_succ_self _⟩)
    else if c = '\\' then do
      let (text, ⟨rest, h⟩) ← escaped cs
      let (more, ⟨rest, h'⟩) ← doubleQuoted rest
      return (text ++ more, ⟨rest, by grind⟩)
    else if hc : isSpacing c then
      if meetsMark false (c :: cs) then none
      else do
        have h := length_pastSpacing_lt cs hc
        let (more, ⟨rest, h'⟩) ← doubleQuoted (pastSpacing (c :: cs))
        return (joined (spacing (c :: cs)) ++ more, ⟨rest, by grind⟩)
    else do
      let (more, ⟨rest, h⟩) ← doubleQuoted cs
      return (c :: more, ⟨rest, by grind⟩)
termination_by cs.length
decreasing_by all_goals grind

/-- The text behind an apostrophe, up to the one that closes it; two of them stand for one. -/
def singleQuoted (cs : List Char) : Scan cs :=
  match cs with
  | [] => none
  | '\'' :: '\'' :: cs => do
    let (more, ⟨rest, h⟩) ← singleQuoted cs
    return ('\'' :: more, ⟨rest, by grind⟩)
  | '\'' :: cs => some ([], ⟨cs, Nat.lt_succ_self _⟩)
  | c :: cs =>
    if hc : isSpacing c then
      if meetsMark false (c :: cs) then none
      else do
        have h := length_pastSpacing_lt cs hc
        let (more, ⟨rest, h'⟩) ← singleQuoted (pastSpacing (c :: cs))
        return (joined (spacing (c :: cs)) ++ more, ⟨rest, by grind⟩)
    else do
      let (more, ⟨rest, h⟩) ← singleQuoted cs
      return (c :: more, ⟨rest, by grind⟩)
termination_by cs.length
decreasing_by all_goals grind

end StructCopy.Yaml
