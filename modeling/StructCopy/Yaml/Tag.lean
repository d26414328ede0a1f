/-
  Yaml/Tag: the names that nodes carry, anchors and tags.

  The name of an anchor is a word.  A tag is written in full between angle brackets,
  or as a handle and a suffix: the handle, an exclamation mark or a word between two
  of them, stands for the beginning of the tag.  An exclamation mark of its own is a
  tag too, and on a scalar it is the same as none.  Percent signs escape the octets of
  characters that a tag may not hold; an octet counts as a character of its own here,
  and a tag ends before an octet that is zero.
-/
import StructCopy.Yaml.Quoted

set_option autoImplicit false

namespace StructCopy.Yaml

/-! ## Words -/

/-- A character of the name of an anchor or of a handle. -/
def isNameChar (c : Char) : Bool :=
  c.isAlphanum || c = '_' || c = '-'

/-- The text may stand behind the name of an anchor. -/
def endsName : List Char → Bool
  | [] => true
  | c :: _ => isSpacing c || c ∈ ['?', ':', ',', ']', '\x7d', '%', '@', '\x60']

/-- The name of an anchor. -/
def anchorName (cs : List Char) : Found String cs :=
  let rest := cs.dropWhile isNameChar
  if h : rest.length < cs.length then
    if endsName rest then some (String.ofList (cs.takeWhile isNameChar), ⟨rest, h⟩) else none
  else none

/-! ## Octets -/

/-- The number of octets that a character has, by the first of them. -/
def octetCount? (octet : Nat) : Option Nat :=
  if octet < 0x80 then some 1
  else if octet < 0xc0 then none
  else if octet < 0xe0 then some 2
  else if octet < 0xf0 then some 3
  else if octet < 0xf8 then some 4
  else none

/-- The number of octets still to come in a character, when one comes that may be there. -/
def octetsLeft? (pending octet : Nat) : Option Nat :=
  match pending with
  | 0 => (octetCount? octet).map (· - 1)
  | n + 1 => if 0x80 ≤ octet ∧ octet < 0xc0 then some n else none

/-! ## Tags -/

/-- A character that a tag may hold; commas and square brackets only where brackets of any kind
cannot be meant. -/
def isTagChar (verbatim : Bool) (c : Char) : Bool :=
  isNameChar c ||
    c ∈ [';', '/', '?', ':', '@', '&', '=', '+', '$', '.', '!', '~', '*', '\'', '(', ')'] ||
    verbatim && c ∈ [',', '[', ']']

/-- The characters of a tag at the front of a text, and the text behind them. In the middle of an
escaped character, `pending` octets of it are still to come. -/
def tagText (verbatim : Bool) (pending : Nat) : List Char → Option (List Char × List Char)
  | '%' :: a :: b :: cs => do
    let octet := 16 * (← hexDigit? a) + (← hexDigit? b)
    let (more, rest) ← tagText verbatim (← octetsLeft? pending octet) cs
    return (Char.ofNat octet :: more, rest)
  | [] => if pending = 0 then some ([], []) else none
  | c :: cs =>
    if pending ≠ 0 ∨ c = '%' then none
    else if isTagChar verbatim c then do
      let (more, rest) ← tagText verbatim 0 cs
      return (c :: more, rest)
    else some ([], c :: cs)

/-- The text up to an octet that is zero. -/
def untilZero (text : List Char) : String :=
  String.ofList (text.takeWhile (· ≠ '\x00'))

/-- The text of a tag, which has one character or more. -/
def someTagText (verbatim : Bool) (cs : List Char) : Option (String × List Char) := do
  let (text, rest) ← tagText verbatim 0 cs
  if text.isEmpty then none else return (untilZero text, rest)

/-- A tag as it is written; the handle of one that is written in full is empty. -/
structure Tag where
  handle : String
  suffix : String
  deriving DecidableEq, Repr

/-- The tag behind an exclamation mark, and the text behind it. -/
def tagBody (cs : List Char) : Option (Tag × List Char) :=
  let name := cs.takeWhile isNameChar
  match cs, cs.dropWhile isNameChar with
  | '<' :: cs, _ => do
    match ← someTagText true cs with
    | (text, '>' :: rest) => return (⟨"", text⟩, rest)
    | _ => none
  | _, '!' :: cs => do
    let (text, rest) ← someTagText false cs
    return (⟨"!" ++ String.ofList name ++ "!", text⟩, rest)
  | _, cs => do
    let (text, rest) ← tagText false 0 cs
    let suffix := untilZero (name ++ text)
    return (if suffix.isEmpty then ⟨"", "!"⟩ else ⟨"!", suffix⟩, rest)

/-- The text may stand behind a tag. -/
def endsTag (flow : Bool) (cs : List Char) : Bool :=
  atSpacing cs || flow && cs.head? = some ','

/-- Reads a tag from its exclamation mark on. -/
def tag (flow : Bool) (cs : List Char) : Found Tag cs := do
  let (tag, rest) ← tagBody cs.tail
  if h : rest.length < cs.length ∧ endsTag flow rest then return (tag, ⟨rest, h.1⟩) else none

/-! ## Handles -/

/-- What handles stand for. -/
abbrev Handles : Type :=
  List (String × String)

/-- The handles that every document has. -/
def standardHandles : Handles :=
  [("!", "!"), ("!!", "tag:yaml.org,2002:")]

namespace Tag

/-- The tag in full; a handle must be known. -/
def resolve? (handles : Handles) (tag : Tag) : Option String :=
  if tag.handle.isEmpty then some tag.suffix
  else (handles.lookup tag.handle).map (· ++ tag.suffix)

/-- The tag of a scalar that says it is a truth value. -/
def ofTruth : String := "tag:yaml.org,2002:bool"

/-- The tag of a scalar that says it stands for nothing. -/
def ofNothing : String := "tag:yaml.org,2002:null"

end Tag

end StructCopy.Yaml
