/-
  Yaml/Document: a text that holds one document.

  Directives may stand before a document only if its start is marked.  A document may
  be empty, and so may the text.  Marks of the end may follow, but nothing else.
-/
import StructCopy.Yaml.Reader
import StructCopy.Yaml.Token.Lexer

set_option autoImplicit false

namespace StructCopy.Yaml

/-! ## Characters -/

/-- A character that a document may hold. -/
def isReadable (c : Char) : Bool :=
  let n := c.toNat
  n = 0x9 || n = 0xa || 0x20 ≤ n && n ≤ 0x7e || 0xa0 ≤ n && n ≤ 0xfffd || 0x10000 ≤ n

/-- The text with one spelling of line feeds, if all its characters may be there. -/
def readable? : List Char → Option (List Char)
  | [] => some []
  | '\r' :: '\n' :: cs => (readable? cs).map ('\n' :: ·)
  | c :: cs =>
    if c = '\r' ∨ c = '\x85' then (readable? cs).map ('\n' :: ·)
    else if isReadable c then (readable? cs).map (c :: ·)
    else none

/-! ## Directives -/

/-- The directives at the front of some tokens, and the tokens behind them. -/
def splitDirectives : List Token → List Directive × List Token
  | .directive directive :: ts =>
    let (directives, rest) := splitDirectives ts
    (directive :: directives, rest)
  | ts => ([], ts)

/-- A version of the language that can be read. -/
def isKnownVersion (version : Nat × Nat) : Bool :=
  version = (1, 1) || version = (1, 2)

/-- The version that a directive gives. -/
def Directive.version? : Directive → Option (Nat × Nat)
  | .version major minor => some (major, minor)
  | .handle _ _ => none

/-- The handle that a directive gives, with what it stands for. -/
def Directive.handle? : Directive → Option (String × String)
  | .version _ _ => none
  | .handle name stem => some (name, stem)

/-- The handles that are known behind some directives, which may give a version and each handle
once. -/
def handles? (directives : List Directive) : Option Handles :=
  let versions := directives.filterMap Directive.version?
  let handles := directives.filterMap Directive.handle?
  if versions.length ≤ 1 ∧ versions.all isKnownVersion ∧ (handles.map Prod.fst).Nodup then
    some (handles ++ standardHandles)
  else none

/-! ## Documents -/

/-- Reads the root of a document, and the tokens behind it. -/
def root? (ts : List Token) : Option (Node × List Token) := do
  match splitDirectives ts with
  | ([], []) => return (.empty, [])
  | (directives, .documentStart :: ts) => do
    let handles ← handles? directives
    match ts with
    | [] | .directive _ :: _ | .documentStart :: _ | .documentEnd :: _ => return (.empty, ts)
    | ts => do
      let (node, _, rest) ← node ⟨handles, []⟩ .byColumns ts
      return (node, rest)
  | ([], ts) => do
    let (node, _, rest) ← node ⟨standardHandles, []⟩ .byColumns ts
    return (node, rest)
  | _ => none

/-- The root of the document that a text holds. -/
def Node.ofText? (text : String) : Option Node := do
  let (node, rest) ← root? (← tokens? (← readable? text.toList))
  if rest.all (· = .documentEnd) then return node else none

end StructCopy.Yaml
