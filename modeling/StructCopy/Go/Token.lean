/-
  Go/Token: the tokens of Go source text.

  The end of the input is no token: a token list carries the line of its end beside
  the tokens, and a missing token (`none`) stands for the end in messages.
-/
import StructCopy.Text.Quoted

set_option autoImplicit false

namespace StructCopy.Go

/-- A token. Identifiers and keywords are both words. -/
inductive Token where
  /-- identifier or keyword -/
  | word (text : String)
  /-- string literal, by its value -/
  | str (value : String)
  /-- rune literal, as written between its quotes -/
  | rune (text : String)
  /-- number literal, as written -/
  | number (text : String)
  /-- any operator without a constructor of its own -/
  | operator (text : String)
  | leftBrace
  | rightBrace
  | leftBracket
  | rightBracket
  | leftParen
  | rightParen
  | comma
  | dot
  | semicolon
  | colon
  | star
  | assign
  | tilde
  | ellipsis
  | arrow
  deriving DecidableEq, Repr, Inhabited

/-- A token and the line it starts on. -/
structure Located where
  /-- counted from one -/
  line : Nat
  token : Token
  deriving DecidableEq, Repr, Inhabited

/-- The tokens of a text, and the line on which the text ends. -/
structure TokenList where
  tokens : List Located
  endLine : Nat
  deriving DecidableEq, Repr, Inhabited

/-! ## Keywords -/

/-- The reserved words. -/
def keywords : List String := [
  "break", "case", "chan", "const", "continue", "default", "defer", "else", "fallthrough", "for",
  "func", "go", "goto", "if", "import", "interface", "map", "package", "range", "return", "select",
  "struct", "switch", "type", "var"
]

/-- A reserved word. -/
def isKeyword (word : String) : Bool :=
  keywords.contains word

/-- The reserved words that may be the last of a statement. -/
def closingKeywords : List String := ["break", "continue", "fallthrough", "return"]

/-- The reserved words that a type may start with. -/
def typeKeywords : List String := ["map", "chan", "func", "struct", "interface"]

namespace Token

/-! ## Classes -/

/-- A statement may end with this token, so that a line break behind it ends the statement. -/
def endsStatement : Token → Bool
  | .word w => !isKeyword w || closingKeywords.contains w
  | .str _ | .rune _ | .number _ => true
  | .rightParen | .rightBracket | .rightBrace => true
  | .operator o => o == "++" || o == "--"
  | _ => false

/-- A type may start with this token. -/
def startsType : Token → Bool
  | .star | .leftBracket | .leftParen | .arrow => true
  | .word w => !isKeyword w || typeKeywords.contains w
  | _ => false

/-- An opening bracket of any kind. -/
def opens : Token → Bool
  | .leftBrace | .leftBracket | .leftParen => true
  | _ => false

/-- A closing bracket of any kind. -/
def closes : Token → Bool
  | .rightBrace | .rightBracket | .rightParen => true
  | _ => false

/-- The number of open brackets behind the token, given the number before it. -/
def depthAfter (t : Token) (depth : Nat) : Nat :=
  if t.opens then depth + 1 else if t.closes then depth - 1 else depth

/-! ## Texts -/

/-- The token as it is written inside an array length: a comma is followed by a space and a
string is quoted anew. -/
def spelling : Token → String
  | .word w => w
  | .str s => Text.quote s
  | .rune c => "'" ++ c ++ "'"
  | .number n => n
  | .operator o => o
  | .leftBrace => "\x7b"
  | .rightBrace => "\x7d"
  | .leftBracket => "["
  | .rightBracket => "]"
  | .leftParen => "("
  | .rightParen => ")"
  | .comma => ", "
  | .dot => "."
  | .semicolon => ";"
  | .colon => ":"
  | .star => "*"
  | .assign => "="
  | .tilde => "~"
  | .ellipsis => "..."
  | .arrow => "<-"

/-- The name of the token's kind. -/
def kind : Token → String
  | .word _ => "Word"
  | .str _ => "Str"
  | .rune _ => "Char"
  | .number _ => "Number"
  | .operator _ => "Op"
  | .leftBrace => "LBrace"
  | .rightBrace => "RBrace"
  | .leftBracket => "LBracket"
  | .rightBracket => "RBracket"
  | .leftParen => "LParen"
  | .rightParen => "RParen"
  | .comma => "Comma"
  | .dot => "Dot"
  | .semicolon => "Semi"
  | .colon => "Colon"
  | .star => "Star"
  | .assign => "Assign"
  | .tilde => "Tilde"
  | .ellipsis => "Ellipsis"
  | .arrow => "Arrow"

/-- The text that distinguishes tokens of one kind. -/
def text? : Token → Option String
  | .word t | .str t | .rune t | .number t | .operator t => some t
  | _ => none

/-- The token in messages: its kind, with its text in quotation marks if it has one. -/
def describe (t : Token) : String :=
  match t.text? with
  | some text => t.kind ++ "(" ++ Text.quote text ++ ")"
  | none => t.kind

end Token

/-- The next token in messages, where the end of the input has a name of its own. -/
def describeNext : Option Token → String
  | some t => t.describe
  | none => "Eof"

end StructCopy.Go
