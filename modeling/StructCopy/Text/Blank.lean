/-
  Text/Blank: white space, and cutting it off the ends of a text.

  White space is the Unicode property White_Space.
-/
import StructCopy.Text.CodePoints

set_option autoImplicit false

namespace StructCopy.Text

/-- The code points of the property White_Space. -/
def blankTable : CodePoints := [
  (0x9, 0xd), (0x20, 0x20), (0x85, 0x85), (0xa0, 0xa0), (0x1680, 0x1680), (0x2000, 0x200a),
  (0x2028, 0x2029), (0x202f, 0x202f), (0x205f, 0x205f), (0x3000, 0x3000)
]

/-- A white-space character. -/
def isBlank (c : Char) : Bool :=
  blankTable.has c.toNat

/-- The text without the longest end that satisfies `p` throughout. -/
def dropEndWhile (p : Char → Bool) (s : List Char) : List Char :=
  (s.reverse.dropWhile p).reverse

/-- The text without the white space it starts with. -/
def trimStart (s : List Char) : List Char :=
  s.dropWhile isBlank

/-- The text without the white space it ends with. -/
def trimEnd (s : List Char) : List Char :=
  dropEndWhile isBlank s

/-- The text without the white space at both ends. -/
def trim (s : List Char) : List Char :=
  trimEnd (trimStart s)

/-- The text without the quotation marks at both ends. -/
def trimQuotes (s : List Char) : List Char :=
  dropEndWhile (· == '"') (s.dropWhile (· == '"'))

/-- Nothing but white space. -/
def isBlankText (s : List Char) : Bool :=
  s.all isBlank

/-! ## The same on strings -/

/-- `trim` of a string. -/
def trimmed (s : String) : String :=
  String.ofList (trim s.toList)

/-- Whether a string holds nothing but white space. -/
def isBlankString (s : String) : Bool :=
  isBlankText s.toList

end StructCopy.Text
