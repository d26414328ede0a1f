/-
  Yaml/Cursor: places in a document, and the gaps between what stands there.

  Where a node begins, how far it is indented and whether it fits on one line decide
  what it belongs to, so a place knows its line and column.  Moving on is a function
  of the text that is left over; what is read leaves a shorter text, by its type.
-/

set_option autoImplicit false

namespace StructCopy.Yaml

/-! ## Characters -/

/-- A space or a tab. -/
def isWhite (c : Char) : Bool :=
  c = ' ' || c = '\t'

/-- A line break. The other spellings of a line feed are taken for one beforehand. -/
def isBreak (c : Char) : Bool :=
  c = '\n' || c = '\u2028' || c = '\u2029'

/-- White space and line breaks. -/
def isSpacing (c : Char) : Bool :=
  isWhite c || isBreak c

/-- The text is at its end or goes on with spacing. -/
def atSpacing : List Char → Bool
  | [] => true
  | c :: _ => isSpacing c

/-- The text goes on with the mark of the start of a document. -/
def startsDocument : List Char → Bool
  | '-' :: '-' :: '-' :: cs => atSpacing cs
  | _ => false

/-- The text goes on with the mark of the end of a document. -/
def endsDocument : List Char → Bool
  | '.' :: '.' :: '.' :: cs => atSpacing cs
  | _ => false

/-- The text goes on with a mark of a document, if it is at the start of a line. -/
def atMark (cs : List Char) : Bool :=
  startsDocument cs || endsDocument cs

/-- Where a gap has got to: at the start of a line, further on in it, or in a comment. -/
inductive GapPart where
  | lineStart
  | inLine
  | comment
  deriving DecidableEq, Repr

/-- The text without the spacing and the comments at its front. A comment goes up to the line
break, and a line may start with a byte-order mark. Outside brackets a tab may not be in the
indentation, so `tabs` ends with the line. -/
def dropGap (flow tabs : Bool) (part : GapPart) : List Char → List Char
  | [] => []
  | c :: cs =>
    if isBreak c then dropGap flow flow .lineStart cs
    else if part = .comment then dropGap flow tabs .comment cs
    else if c = '\ufeff' ∧ part = .lineStart then dropGap flow tabs .inLine cs
    else if c = ' ' ∨ c = '\t' ∧ tabs then dropGap flow tabs .inLine cs
    else if c = '#' then dropGap flow tabs .comment cs
    else c :: cs

theorem length_dropGap_le (flow tabs : Bool) (part : GapPart) (cs : List Char) :
    (dropGap flow tabs part cs).length ≤ cs.length := by
  induction cs generalizing tabs part with
  | nil => simp [dropGap]
  | cons c cs ih =>
    have h₁ := ih flow .lineStart
    have h₂ := ih tabs .comment
    have h₃ := ih tabs .inLine
    grind [dropGap]

/-- The text behind the end of a line, on which nothing but a comment may be left. -/
def pastLine? (cs : List Char) : Option (List Char) :=
  let rest := cs.dropWhile isWhite
  match if rest.head? = some '#' then rest.dropWhile (!isBreak ·) else rest with
  | [] => some []
  | c :: rest => if isBreak c then some rest else none

theorem length_of_pastLine? {cs rest : List Char} (h : pastLine? cs = some rest) :
    rest.length ≤ cs.length := by
  have h₁ := (List.dropWhile_suffix isWhite (l := cs)).length_le
  have h₂ := (List.dropWhile_suffix (!isBreak ·) (l := cs.dropWhile isWhite)).length_le
  grind [pastLine?]

/-! ## Places -/

/-- A place: the text from there on, the line and the column, both counted from zero, the number
of bytes before it, and whether nothing but white space is before it on its line. -/
structure Cursor where
  rest : List Char
  line : Nat
  column : Nat
  offset : Nat
  fresh : Bool
  deriving DecidableEq, Repr

namespace Cursor

/-- A place behind `c`. -/
abbrev After (c : Cursor) : Type :=
  { d : Cursor // d.rest.length < c.rest.length }

/-- A place at or behind `c`. -/
abbrev Since (c : Cursor) : Type :=
  { d : Cursor // d.rest.length ≤ c.rest.length }

/-- The place one character on. -/
def advance (c : Cursor) : Cursor :=
  match c.rest with
  | [] => c
  | x :: rest =>
    if isBreak x then ⟨rest, c.line + 1, 0, c.offset + x.utf8Size, true⟩
    else ⟨rest, c.line, c.column + 1, c.offset + x.utf8Size, c.fresh && isWhite x⟩

/-- The place some characters on. -/
def forward (c : Cursor) : Nat → Cursor
  | 0 => c
  | n + 1 => c.advance.forward n

theorem rest_advance (c : Cursor) : c.advance.rest = c.rest.tail := by
  unfold advance
  split
  · simp [*]
  · split <;> simp [*]

theorem rest_forward (c : Cursor) (n : Nat) : (c.forward n).rest = c.rest.drop n := by
  induction n generalizing c with
  | zero => rfl
  | succ n ih => simp [forward, ih, rest_advance]

/-- The place where `left` is left over. -/
def upTo (c : Cursor) (left : List Char) : Cursor :=
  c.forward (c.rest.length - left.length)

theorem length_upTo {c : Cursor} {left : List Char} (h : left.length ≤ c.rest.length) :
    (c.upTo left).rest.length = left.length := by
  simp only [upTo, rest_forward, List.length_drop]
  omega

/-- The place where `left` is left over, when something has been read. -/
def after (c : Cursor) (left : List Char) (h : left.length < c.rest.length) : c.After :=
  ⟨c.upTo left, by rw [length_upTo (Nat.le_of_lt h)]; exact h⟩

/-- The place some characters on, of which there is at least one. -/
def past (c : Cursor) (n : Nat) (h : c.rest ≠ []) : c.After :=
  ⟨c.forward (n + 1), by
    have := List.length_pos_iff.2 h
    rw [rest_forward, List.length_drop]
    omega⟩

/-- The next thing behind spacing and comments. -/
def pastGap (c : Cursor) (flow tabs : Bool) : c.Since :=
  let part := if c.column = 0 then GapPart.lineStart else .inLine
  ⟨c.upTo (dropGap flow tabs part c.rest), by
    have h := length_dropGap_le flow tabs part c.rest
    rw [length_upTo h]
    exact h⟩

end Cursor

end StructCopy.Yaml
