/-
  Yaml/Plain: scalars without quotation marks.

  A plain scalar is a row of words.  Outside brackets it goes on in the next line as
  long as that is indented far enough; a comment, a colon before spacing and, inside
  brackets, a comma or a bracket end it.  Line breaks are folded as in quoted scalars.
-/
import StructCopy.Yaml.Quoted

set_option autoImplicit false

namespace StructCopy.Yaml

/-- Where a node stands: inside brackets or not, and the least column that a line of it may
start at. -/
structure Context where
  flow : Bool
  least : Nat
  deriving DecidableEq, Repr

/-- A bracket or a comma, which ends a scalar inside brackets. -/
def isFlowMark (c : Char) : Bool :=
  c ∈ [',', '[', ']', '\x7b', '\x7d']

/-- Characters that no plain scalar begins with. -/
def isIndicator (c : Char) : Bool :=
  isFlowMark c || c ∈ ['#', '&', '*', '!', '|', '>', '\'', '"', '%', '@', '\x60']

/-- A plain scalar begins here. -/
def startsPlain (flow : Bool) : List Char → Bool
  | [] => false
  | '-' :: cs => !atSpacing cs
  | c :: cs =>
    if c = '?' ∨ c = ':' then !flow && !atSpacing cs
    else !isSpacing c && !isIndicator c

/-- A word: the characters up to spacing or to what ends the scalar, and the text behind them.
Inside brackets a colon may not stand before a bracket, a comma or a question mark. -/
def word (flow : Bool) : List Char → Option (List Char × List Char)
  | [] => some ([], [])
  | c :: cs =>
    if isSpacing c then some ([], c :: cs)
    else if flow ∧ c = ':' ∧ (cs.head?.map fun d => isFlowMark d || d = '?').getD false then none
    else if c = ':' ∧ atSpacing cs then some ([], c :: cs)
    else if flow ∧ isFlowMark c then some ([], c :: cs)
    else (word flow cs).map fun found => (c :: found.1, found.2)

theorem append_of_word {flow : Bool} {cs w rest : List Char} (h : word flow cs = some (w, rest)) :
    w ++ rest = cs := by
  fun_induction word flow cs generalizing w with
  | case1 => grind
  | case2 => grind
  | case3 => grind
  | case4 => grind
  | case5 => grind
  | case6 c cs _ _ _ _ ih =>
    obtain ⟨⟨u, r⟩, hu, heq⟩ := Option.map_eq_some_iff.1 h
    simp only [Prod.mk.injEq] at heq
    rw [← heq.1, List.cons_append, ih (by rw [hu, heq.2])]

theorem length_of_word {flow : Bool} {cs w rest : List Char} (h : word flow cs = some (w, rest)) :
    rest.length + w.length = cs.length := by
  rw [← append_of_word h, List.length_append]
  omega

theorem length_lt_of_word {flow : Bool} {cs w rest : List Char}
    (h : word flow cs = some (w, rest)) (hw : w ≠ []) : rest.length < cs.length := by
  have := length_of_word h
  have := List.length_pos_iff.2 hw
  omega

/-- A word begins here, or something that is refused as one. -/
def beginsWord (flow : Bool) (cs : List Char) : Bool :=
  (word flow cs).map Prod.fst != some []

/-- A tab stands in the indentation of a line: behind a line break, before column `least`.
`column` is the one reached, if the line began inside this spacing. -/
def tabIndents (least : Nat) (column : Option Nat) : List Char → Bool
  | [] => false
  | c :: cs =>
    if isBreak c then tabIndents least (some 0) cs
    else
      match column with
      | none => tabIndents least none cs
      | some n => (c = '\t' && n < least) || tabIndents least (some (n + 1)) cs

/-- The column that spacing leads to, if it holds a line break. -/
def columnBehind (space : List Char) : Option Nat :=
  if space.any isBreak then some (space.reverse.takeWhile (!isBreak ·)).length else none

/-- The scalar goes on behind the spacing that the text begins with: a word is there that is no
comment, at the end of no document, and indented far enough. -/
def goesOn (context : Context) (cs : List Char) : Bool :=
  let rest := pastSpacing cs
  beginsWord context.flow rest && rest.head? != some '#' && !meetsMark false cs &&
    (context.flow ||
      match columnBehind (spacing cs) with
      | some n => context.least ≤ n
      | none => true)

/-- A plain scalar, word by word, with the spacing behind it; there is nothing to read where no
word begins. -/
def plain (context : Context) (cs : List Char) : Scan cs :=
  match h : word context.flow cs with
  | none => none
  | some (w, rest) =>
    if hw : w = [] then none
    else
      have hlt := Nat.lt_of_le_of_lt (length_pastSpacing_le rest) (length_lt_of_word h hw)
      if tabIndents context.least none (spacing rest) then none
      else if goesOn context rest then do
        let (more, ⟨left, h'⟩) ← plain context (pastSpacing rest)
        return (w ++ joined (spacing rest) ++ more, ⟨left, Nat.lt_trans h' hlt⟩)
      else some (w, ⟨pastSpacing rest, hlt⟩)
termination_by cs.length
decreasing_by exact hlt

end StructCopy.Yaml
