/-
  Yaml/Block: scalars that are written as indented lines.

  The first line with text tells how far the lines are indented, unless the header
  gives the indentation.  The lines are kept as they are behind a bar; behind an angle
  bracket they are folded, except around lines that begin with white space.  The header
  also says what becomes of the line breaks at the end.
-/
import StructCopy.Yaml.Cursor

set_option autoImplicit false

namespace StructCopy.Yaml

/-! ## The header -/

/-- What becomes of the line breaks behind the last line: none is kept, the first is, or all
are. -/
inductive Chomp where
  | strip
  | clip
  | keep
  deriving DecidableEq, Repr

/-- The sign of a way to end. -/
def chomp? : Char → Option Chomp
  | '-' => some .strip
  | '+' => some .keep
  | _ => none

/-- The digit that gives an indentation. -/
def increment? (c : Char) : Option Nat :=
  if '1' ≤ c ∧ c ≤ '9' then some (c.toNat - '0'.toNat) else none

/-- The signs of a header, in either order. -/
def headerSigns? : List Char → Option (Chomp × Option Nat)
  | [] => some (.clip, none)
  | [a] =>
    match chomp? a, increment? a with
    | some chomp, _ => some (chomp, none)
    | none, some n => some (.clip, some n)
    | none, none => none
  | [a, b] =>
    match chomp? a, increment? b, increment? a, chomp? b with
    | some chomp, some n, _, _ => some (chomp, some n)
    | _, _, some n, some chomp => some (chomp, some n)
    | _, _, _, _ => none
  | _ => none

/-- A character that a sign of a header may be. -/
def isHeaderSign (c : Char) : Bool :=
  c = '+' || c = '-' || c.isDigit

/-- The text behind the header line, which may hold a comment. -/
def pastHeader? (cs : List Char) : Option (List Char) :=
  pastLine? (cs.dropWhile isHeaderSign)

theorem length_of_pastHeader? {cs rest : List Char} (h : pastHeader? cs = some rest) :
    rest.length ≤ cs.length :=
  Nat.le_trans (length_of_pastLine? h) (List.dropWhile_suffix isHeaderSign).length_le

/-! ## Lines -/

/-- The number of spaces that a line begins with. -/
def indentation (cs : List Char) : Nat :=
  (cs.takeWhile (· = ' ')).length

/-- The indentation of the first line with text, or that of a blank line before it if it is
deeper. A tab may not follow it. -/
def detectIndent? (cs : List Char) : Option Nat :=
  let n := indentation cs
  match _h : cs.drop n with
  | [] => some n
  | c :: rest =>
    if c = '\t' then none
    else if isBreak c then (detectIndent? rest).map (max n)
    else some n
termination_by cs.length
decreasing_by
  have := congrArg List.length _h
  simp only [List.length_drop, List.length_cons] at this
  omega

/-- The line breaks of the blank lines at the front of a text, and the text from the start of
the next line on. A tab may not stand in the indentation. -/
def blankLines? (indent : Nat) (cs : List Char) : Option (List Char × List Char) :=
  let n := min indent (indentation cs)
  match _h : cs.drop n with
  | [] => some ([], cs)
  | c :: rest =>
    if c = '\t' ∧ n < indent then none
    else if isBreak c then (blankLines? indent rest).map fun found => (c :: found.1, found.2)
    else some ([], cs)
termination_by cs.length
decreasing_by
  have := congrArg List.length _h
  simp only [List.length_drop, List.length_cons] at this
  omega

theorem length_of_blankLines? {indent : Nat} {cs breaks rest : List Char}
    (h : blankLines? indent cs = some (breaks, rest)) : rest.length ≤ cs.length := by
  fun_induction blankLines? indent cs generalizing breaks with
  | case1 => grind
  | case2 => grind
  | case3 cs n c more hdrop =>
    rename_i ih
    obtain ⟨⟨u, r⟩, hu, heq⟩ := Option.map_eq_some_iff.1 h
    simp only [Prod.mk.injEq] at heq
    have := ih (by rw [hu, heq.2])
    have := congrArg List.length hdrop
    simp only [List.length_drop, List.length_cons] at this
    omega
  | case4 => grind

/-- A line with text: the breaks of the blank lines before it, the text behind the indentation,
and its own line break, which the last line may lack. -/
structure BlockLine where
  before : List Char
  text : List Char
  ending : List Char
  deriving DecidableEq, Repr

theorem length_behind_lt {indent : Nat} {cs breaks rest : List Char}
    (h : blankLines? indent cs = some (breaks, rest)) (hline : rest.drop indent ≠ []) :
    (((rest.drop indent).dropWhile (!isBreak ·)).drop 1).length < cs.length := by
  have h₁ := length_of_blankLines? h
  have h₂ := List.length_pos_iff.2 hline
  have h₃ := (List.dropWhile_suffix (!isBreak ·) (l := rest.drop indent)).length_le
  simp only [List.length_drop] at h₂ h₃ ⊢
  omega

/-- The lines that are indented by `indent`, the breaks of the blank lines behind them, and the
text from the next line on. -/
def blockLines? (indent : Nat) (cs : List Char) :
    Option (List BlockLine × List Char × { rest : List Char // rest.length ≤ cs.length }) :=
  match h : blankLines? indent cs with
  | none => none
  | some (before, rest) =>
    have hle := length_of_blankLines? h
    let line := rest.drop indent
    if hline : indent ≤ indentation rest ∧ line ≠ [] then do
      let behind := line.dropWhile (!isBreak ·)
      have hshort := length_behind_lt h hline.2
      let (lines, trailing, ⟨left, h'⟩) ← blockLines? indent (behind.drop 1)
      return (⟨before, line.takeWhile (!isBreak ·), behind.take 1⟩ :: lines, trailing,
        ⟨left, Nat.le_trans h' (Nat.le_of_lt hshort)⟩)
    else some ([], before, ⟨rest, hle⟩)
termination_by cs.length
decreasing_by exact hshort

/-! ## The text of a scalar -/

/-- A line that begins with white space, which is not folded. -/
def BlockLine.isInset (line : BlockLine) : Bool :=
  (line.text.head?.map isWhite).getD false

/-- What stands between the texts of two lines. -/
def lineJoint (folded : Bool) (a b : BlockLine) : List Char :=
  if folded ∧ a.ending = ['\n'] ∧ !a.isInset ∧ !b.isInset then
    if b.before.isEmpty then [' '] else b.before
  else a.ending ++ b.before

/-- The lines from the first text to the last. -/
def linesText (folded : Bool) : List BlockLine → List Char
  | [] => []
  | [a] => a.text
  | a :: b :: lines => a.text ++ lineJoint folded a b ++ linesText folded (b :: lines)

/-- The text of a scalar: the breaks before the first line, the lines, and what is kept of the
line breaks behind the last. -/
def blockText (folded : Bool) (chomp : Chomp) (lines : List BlockLine) (trailing : List Char) :
    List Char :=
  let before := (lines.head?.map BlockLine.before).getD []
  let ending := (lines.getLast?.map BlockLine.ending).getD []
  before ++ linesText folded lines ++
    match chomp with
    | .strip => []
    | .clip => ending
    | .keep => ending ++ trailing

/-- The column that the lines of a scalar start at: at least `least`, and never the first. -/
def blockIndent? (least : Nat) (increment : Option Nat) (cs : List Char) : Option Nat :=
  match increment with
  | some n => some (least - 1 + n)
  | none => (detectIndent? cs).map fun n => max n (max least 1)

/-- A block scalar from behind its first sign, up to the start of the line behind it. -/
def blockScalar (folded : Bool) (least : Nat) (cs : List Char) :
    Option (List Char × { rest : List Char // rest.length ≤ cs.length }) := do
  let (chomp, increment) ← headerSigns? (cs.takeWhile isHeaderSign)
  match h : pastHeader? cs with
  | none => none
  | some body => do
    have hle := length_of_pastHeader? h
    let indent ← blockIndent? least increment body
    let (lines, trailing, ⟨rest, h'⟩) ← blockLines? indent body
    return (blockText folded chomp lines trailing, ⟨rest, by omega⟩)

end StructCopy.Yaml
