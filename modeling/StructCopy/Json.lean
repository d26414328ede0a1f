/-
  Json: the JSON texts that the command prints.

  A value has two written forms: on one line without spaces, and over several lines
  with two spaces of indentation.  Objects keep their keys in order.
-/

set_option autoImplicit false

namespace StructCopy.Json

/-- A JSON value. -/
inductive Value where
  | number (n : Nat)
  | string (s : String)
  | array (items : List Value)
  | object (entries : List (String × Value))
  deriving Repr

/-! ## Strings -/

/-- A digit below sixteen, in lower case. -/
def hexDigit (n : Nat) : Char :=
  if n < 10 then Char.ofNat ('0'.toNat + n) else Char.ofNat ('a'.toNat + (n - 10))

/-- A character inside a string: quotation marks, backslashes and control characters are
escaped. -/
def escapeChar (c : Char) : List Char :=
  if c = '"' then ['\\', '"']
  else if c = '\\' then ['\\', '\\']
  else if c = '\x08' then ['\\', 'b']
  else if c = '\x0c' then ['\\', 'f']
  else if c = '\n' then ['\\', 'n']
  else if c = '\r' then ['\\', 'r']
  else if c = '\t' then ['\\', 't']
  else if c.toNat < 0x20 then
    ['\\', 'u', '0', '0', hexDigit (c.toNat / 16), hexDigit (c.toNat % 16)]
  else [c]

/-- A string as it is written. -/
def quote (s : String) : String :=
  "\"" ++ String.ofList (s.toList.flatMap escapeChar) ++ "\""

/-! ## Values -/

mutual

/-- The form on one line. -/
def Value.compact : Value → String
  | .number n => toString n
  | .string s => quote s
  | .array items => "[" ++ String.intercalate "," (compactItems items) ++ "]"
  | .object entries => "\x7b" ++ String.intercalate "," (compactEntries entries) ++ "\x7d"

/-- The items of an array on one line. -/
def compactItems : List Value → List String
  | [] => []
  | v :: items => v.compact :: compactItems items

/-- The entries of an object on one line. -/
def compactEntries : List (String × Value) → List String
  | [] => []
  | (key, v) :: entries => (quote key ++ ":" ++ v.compact) :: compactEntries entries

end

/-- Written parts between brackets, each on a line of its own; nothing between empty brackets. -/
def bracketed (margin opening closing : String) (parts : List String) : String :=
  if parts.isEmpty then opening ++ closing
  else
    opening ++ "\n" ++ String.intercalate ",\n" (parts.map (margin ++ "  " ++ ·)) ++ "\n" ++
      margin ++ closing

mutual

/-- The form over several lines; `margin` is what the lines of the value begin with. -/
def Value.pretty (margin : String) : Value → String
  | .number n => toString n
  | .string s => quote s
  | .array items => bracketed margin "[" "]" (prettyItems (margin ++ "  ") items)
  | .object entries => bracketed margin "\x7b" "\x7d" (prettyEntries (margin ++ "  ") entries)

/-- The items of an array over several lines. -/
def prettyItems (margin : String) : List Value → List String
  | [] => []
  | v :: items => v.pretty margin :: prettyItems margin items

/-- The entries of an object over several lines. -/
def prettyEntries (margin : String) : List (String × Value) → List String
  | [] => []
  | (key, v) :: entries => (quote key ++ ": " ++ v.pretty margin) :: prettyEntries margin entries

end

end StructCopy.Json
