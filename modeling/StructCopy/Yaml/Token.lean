/-
  Yaml/Token: the tokens of a YAML text.

  The structure that columns give is made plain: where a collection by columns begins
  and ends there are tokens of their own, and so there are before a key and its value,
  whether a question mark announces the key or only the colon behind it shows it.
-/
import StructCopy.Yaml.Node
import StructCopy.Yaml.Directive

set_option autoImplicit false

namespace StructCopy.Yaml

/-- A token. -/
inductive Token where
  | directive (directive : Directive)
  /-- the mark before a document -/
  | documentStart
  /-- the mark behind a document -/
  | documentEnd
  /-- the beginning of a sequence whose items stand in one column -/
  | blockSequence
  /-- the beginning of a mapping whose keys stand in one column -/
  | blockMapping
  /-- the end of either -/
  | blockEnd
  | openBracket
  | closeBracket
  | openBrace
  | closeBrace
  | comma
  /-- the sign before an item in a column -/
  | dash
  /-- what follows is a key -/
  | key
  /-- what follows is the value of a key -/
  | value
  | anchor (name : String)
  | reference (name : String)
  | tag (tag : Tag)
  | scalar (style : Style) (text : String)
  deriving DecidableEq, Repr

end StructCopy.Yaml
