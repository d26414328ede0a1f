/-
  Go/Tag: look-up in struct tags.

  A tag is a row of pairs `key:"value"` with spaces between them.  A pair that is
  not of this form ends the row: what stands behind it is never found.
-/
import StructCopy.Text.Split

set_option autoImplicit false

namespace StructCopy.Go.Tag

/-! ## Pairs -/

/-- A character that a key may hold: above the space, and none of colon, quotation mark and
delete. -/
def isKeyChar (c : Char) : Bool :=
  32 < c.toNat && c != ':' && c != '"' && c.toNat != 127

/-- The text up to the closing quotation mark, escapes kept as written, and what follows the
mark. -/
def quotedPart? : List Char → Option (List Char × List Char)
  | [] => none
  | '"' :: s => some ([], s)
  | '\\' :: c :: s => (quotedPart? s).map fun found => ('\\' :: c :: found.1, found.2)
  | '\\' :: [] => none
  | c :: s => (quotedPart? s).map fun found => (c :: found.1, found.2)

theorem length_lt_of_quotedPart? {s v rest : List Char}
    (h : quotedPart? s = some (v, rest)) : rest.length < s.length := by
  fun_induction quotedPart? s generalizing v with
  | case1 => simp at h
  | case2 s => simp_all
  | case3 c s ih =>
    obtain ⟨⟨u, r⟩, hfound, heq⟩ := Option.map_eq_some_iff.1 h
    simp only [Prod.mk.injEq] at heq
    have := ih (v := u) (by rw [hfound, heq.2])
    simp only [List.length_cons]
    omega
  | case4 => simp at h
  | case5 c s _ _ _ ih =>
    obtain ⟨⟨u, r⟩, hfound, heq⟩ := Option.map_eq_some_iff.1 h
    simp only [Prod.mk.injEq] at heq
    have := ih (v := u) (by rw [hfound, heq.2])
    simp only [List.length_cons]
    omega

/-- One pair of a tag, its value still escaped. -/
structure Pair where
  /-- the key before the colon -/
  key : List Char
  /-- the text between the quotation marks -/
  quoted : List Char

/-- The first pair of a tag and what follows it. -/
def nextPair? (s : List Char) : Option (Pair × List Char) :=
  let body := s.dropWhile (· == ' ')
  let key := body.takeWhile isKeyChar
  if key.isEmpty then none
  else
    match body.dropWhile isKeyChar with
    | ':' :: '"' :: s => (quotedPart? s).map fun found => (⟨key, found.1⟩, found.2)
    | _ => none

theorem length_lt_of_nextPair? {s rest : List Char} {pair : Pair}
    (h : nextPair? s = some (pair, rest)) : rest.length < s.length := by
  simp only [nextPair?] at h
  split at h
  · simp at h
  · split at h
    · next t ht =>
      obtain ⟨⟨v, r⟩, hfound, heq⟩ := Option.map_eq_some_iff.1 h
      simp only [Prod.mk.injEq] at heq
      have hquoted := length_lt_of_quotedPart? hfound
      have hkey := (List.dropWhile_sublist isKeyChar (l := s.dropWhile (· == ' '))).length_le
      have hspace := (List.dropWhile_sublist (· == ' ') (l := s)).length_le
      rw [ht] at hkey
      simp only [List.length_cons] at hkey
      rw [← heq.2]
      omega
    · simp at h

/-! ## Values -/

/-- The value of a hexadecimal digit. -/
def hexDigit? (c : Char) : Option Nat :=
  if '0' ≤ c ∧ c ≤ '9' then some (c.toNat - '0'.toNat)
  else if 'a' ≤ c ∧ c ≤ 'f' then some (c.toNat - 'a'.toNat + 10)
  else if 'A' ≤ c ∧ c ≤ 'F' then some (c.toNat - 'A'.toNat + 10)
  else none

/-- The code of a byte escape: one or two hexadecimal digits, or a plus sign and one digit. -/
def byteCode? : List Char → Option Nat
  | [d] => hexDigit? d
  | ['+', d] => hexDigit? d
  | [d, e] => do return 16 * (← hexDigit? d) + (← hexDigit? e)
  | _ => none

/-- The value that an escaped text stands for; an unknown escape spoils it. -/
def unescape? : List Char → Option (List Char)
  | [] => some []
  | '\\' :: '"' :: s => (unescape? s).map ('"' :: ·)
  | '\\' :: '\\' :: s => (unescape? s).map ('\\' :: ·)
  | '\\' :: '\'' :: s => (unescape? s).map ('\'' :: ·)
  | '\\' :: 'n' :: s => (unescape? s).map ('\n' :: ·)
  | '\\' :: 't' :: s => (unescape? s).map ('\t' :: ·)
  | '\\' :: 'r' :: s => (unescape? s).map ('\r' :: ·)
  | '\\' :: 'x' :: d :: e :: s => do
    let code ← byteCode? [d, e]
    (unescape? s).map (Char.ofNat code :: ·)
  | '\\' :: 'x' :: s => (byteCode? s).map fun code => [Char.ofNat code]
  | '\\' :: _ => none
  | c :: s => (unescape? s).map (c :: ·)

/-! ## Look-up -/

/-- The value of the first pair with the given key, over lists of characters. -/
def find? (key s : List Char) : Option (List Char) :=
  match _h : nextPair? s with
  | none => none
  | some (pair, rest) => if pair.key = key then unescape? pair.quoted else find? key rest
termination_by s.length
decreasing_by exact length_lt_of_nextPair? _h

/-- The value stored under a key. -/
def lookup (tag key : String) : Option String :=
  (find? key.toList tag.toList).map String.ofList

/-- The name stored under a key: the value up to its first comma. An empty name and `-` count
as absent. -/
def name? (tag key : String) : Option String := do
  let value ← lookup tag key
  let name := value.toList.takeWhile (· != ',')
  if name.isEmpty || name == ['-'] then none else some (String.ofList name)

end StructCopy.Go.Tag
