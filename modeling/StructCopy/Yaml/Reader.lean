/-
  Yaml/Reader: nodes read from tokens.

  A node begins with an anchor, a tag or both, in either order, and may end with them:
  it is an empty scalar then.  An anchor gives a node the slot whose number is that of
  the names known before.  A name that is given anew therefore moves on to another
  slot, and the next new name gets the same one: both then stand for the node that
  has got the slot last.  A reference names a slot; it may stand inside its node.

  Tokens that are refused are `none`.
-/
import StructCopy.Yaml.Token

set_option autoImplicit false

namespace StructCopy.Yaml

/-! ## Names -/

/-- What names stand for at a place: the handles of tags, and the slots of anchors. -/
structure Scope where
  handles : Handles
  slots : List (String × Nat)
  deriving DecidableEq, Repr

namespace Scope

/-- The slot that an anchor gives, if there is one, and what names stand for from then on. -/
def enter (scope : Scope) : Option String → Option Nat × Scope
  | none => (none, scope)
  | some name =>
    let slot := scope.slots.length
    (some slot, { scope with slots := (name, slot) :: scope.slots.filter (·.1 != name) })

/-- The tag in full, if there is one. -/
def resolve? (scope : Scope) : Option Tag → Option (Option String)
  | none => some none
  | some tag => (tag.resolve? scope.handles).map some

end Scope

/-! ## Readings -/

/-- The outcome of reading an `α` off the front of `ts`: what names stand for from then on, and
fewer tokens still to be read. -/
abbrev Reading (α : Type) (ts : List Token) : Type :=
  Option (α × Scope × { rest : List Token // rest.length < ts.length })

/-- The outcome of reading an `α` where there may be nothing to read. -/
abbrev Perhaps (α : Type) (ts : List Token) : Type :=
  Option (α × Scope × { rest : List Token // rest.length ≤ ts.length })

/-- The anchor and the tag at the front of `ts`. -/
def leading (ts : List Token) :
    Option String × Option Tag × { rest : List Token // rest.length ≤ ts.length } :=
  match ts with
  | .anchor name :: .tag tag :: ts => (some name, some tag, ⟨ts, Nat.le_succ_of_le (Nat.le_succ _)⟩)
  | .tag tag :: .anchor name :: ts => (some name, some tag, ⟨ts, Nat.le_succ_of_le (Nat.le_succ _)⟩)
  | .anchor name :: ts => (some name, none, ⟨ts, Nat.le_succ _⟩)
  | .tag tag :: ts => (none, some tag, ⟨ts, Nat.le_succ _⟩)
  | ts => (none, none, ⟨ts, Nat.le_refl _⟩)

/-- What stands before the content of a node. -/
def properties (scope : Scope) (ts : List Token) : Perhaps Properties ts := do
  let (name, tag, rest) := leading ts
  let tag ← scope.resolve? tag
  let (slot, scope) := scope.enter name
  return (⟨slot, tag⟩, scope, rest)

/-- One of some tokens comes next. -/
def comes (expected ts : List Token) : Bool :=
  (ts.head?.map (expected.contains ·)).getD false

/-! ## Nodes -/

/-- Where a node stands: inside brackets, where there are no collections by columns, outside, or
outside as a key or its value, where a sequence may stand in the column of the key. -/
inductive Setting where
  | inBrackets
  | byColumns
  | inEntry
  deriving DecidableEq, Repr

mutual

/-- Reads a node. -/
def node (scope : Scope) (setting : Setting) (ts : List Token) : Reading Node ts :=
  match ts with
  | .reference name :: rest => do
    let slot ← scope.slots.lookup name
    return (.reference slot, scope, ⟨rest, Nat.lt_succ_self _⟩)
  | ts => do
    let (properties, scope, ⟨us, hu⟩) ← properties scope ts
    let bare : Reading Node ts :=
      if h : us.length < ts.length then
        some (.scalar properties .plain "", scope, ⟨us, h⟩)
      else none
    match h : us with
    | .scalar style text :: rest =>
      let properties := { properties with tag := properties.tag.filter (· != "!") }
      return (.scalar properties style text, scope, ⟨rest, by grind⟩)
    | .openBracket :: rest => do
      let (items, scope, ⟨rest, _⟩) ← flowItems scope rest
      return (.sequence properties items, scope, ⟨rest, by grind⟩)
    | .openBrace :: rest => do
      let (entries, scope, ⟨rest, _⟩) ← flowEntries scope rest
      return (.mapping properties entries, scope, ⟨rest, by grind⟩)
    | .dash :: rest =>
      if setting = .inEntry then do
        let (item, scope, ⟨rest, _⟩) ← blockItem scope rest
        let (items, scope, ⟨rest, _⟩) ← blockItems scope rest
        return (.sequence properties (item :: items), scope, ⟨rest, by grind⟩)
      else bare
    | .blockSequence :: rest =>
      if setting = .inBrackets then bare
      else do
        let (items, scope, ⟨rest, _⟩) ← blockItems scope rest
        match h : rest with
        | .blockEnd :: rest => return (.sequence properties items, scope, ⟨rest, by grind⟩)
        | _ => none
    | .blockMapping :: rest =>
      if setting = .inBrackets then bare
      else do
        let (entries, scope, ⟨rest, _⟩) ← blockEntries scope rest
        return (.mapping properties entries, scope, ⟨rest, by grind⟩)
    | _ => bare
termination_by 4 * ts.length + 1
decreasing_by all_goals grind

/-- Reads a node unless one of some tokens comes, before which nothing is written. -/
def nodeUnless (scope : Scope) (setting : Setting) (ends ts : List Token) : Perhaps Node ts :=
  if comes ends ts then some (.empty, scope, ⟨ts, Nat.le_refl _⟩)
  else do
    let (node, scope, ⟨rest, h⟩) ← node scope setting ts
    return (node, scope, ⟨rest, Nat.le_of_lt h⟩)
termination_by 4 * ts.length + 2

/-- Reads the value behind a key, up to one of some tokens. A key may lack it. -/
def valueUnless (scope : Scope) (setting : Setting) (ends ts : List Token) : Perhaps Node ts :=
  match ts with
  | .value :: ts => do
    let (node, scope, ⟨rest, h⟩) ← nodeUnless scope setting ends ts
    return (node, scope, ⟨rest, Nat.le_succ_of_le h⟩)
  | ts => some (.empty, scope, ⟨ts, Nat.le_refl _⟩)
termination_by 4 * ts.length
decreasing_by grind

/-- Reads an item from behind its dash. -/
def blockItem (scope : Scope) (ts : List Token) : Perhaps Node ts :=
  nodeUnless scope .byColumns [.dash, .key, .value, .blockEnd] ts
termination_by 4 * ts.length + 3

/-- Reads items as long as there are dashes. -/
def blockItems (scope : Scope) (ts : List Token) : Perhaps (List Node) ts :=
  match ts with
  | .dash :: ts => do
    let (item, scope, ⟨us, hu⟩) ← blockItem scope ts
    let (items, scope, ⟨rest, h⟩) ← blockItems scope us
    return (item :: items, scope, ⟨rest, by grind⟩)
  | ts => some ([], scope, ⟨ts, Nat.le_refl _⟩)
termination_by 4 * ts.length
decreasing_by all_goals grind

/-- Reads the entries of a block mapping, with its end. -/
def blockEntries (scope : Scope) (ts : List Token) : Reading (List (Node × Node)) ts :=
  match ts with
  | .blockEnd :: ts => some ([], scope, ⟨ts, Nat.lt_succ_self _⟩)
  | .key :: ts => do
    let ends := [.key, .value, .blockEnd]
    let (key, scope, ⟨us, hu⟩) ← nodeUnless scope .inEntry ends ts
    let (value, scope, ⟨vs, hv⟩) ← valueUnless scope .inEntry ends us
    let (entries, scope, ⟨rest, h⟩) ← blockEntries scope vs
    return ((key, value) :: entries, scope, ⟨rest, by grind⟩)
  | _ => none
termination_by 4 * ts.length
decreasing_by all_goals grind

/-- Reads the items of a sequence from behind its opening bracket or a comma in it, with the
closing bracket. An item that is a key is a mapping of one entry. Where the key is missing, the
token that stands there goes with it. -/
def flowItems (scope : Scope) (ts : List Token) : Reading (List Node) ts :=
  match h : ts with
  | .closeBracket :: ts => some ([], scope, ⟨ts, Nat.lt_succ_self _⟩)
  | .key :: us => do
    let ends := [.comma, .closeBracket]
    let (key, scope, ⟨vs, hv⟩) ← nodeUnless scope .inBrackets (.value :: ends) us
    let vs' := if comes (.value :: ends) us then vs.tail else vs
    have hv' : vs'.length ≤ vs.length := by grind
    let (value, scope, ⟨ws, hw⟩) ← valueUnless scope .inBrackets ends vs'
    let (items, scope, ⟨rest, hr⟩) ← flowItemsEnd scope ws
    return (.mapping ⟨none, none⟩ [(key, value)] :: items, scope, ⟨rest, by grind⟩)
  | ts => do
    let (item, scope, ⟨us, hu⟩) ← node scope .inBrackets ts
    let (items, scope, ⟨rest, hr⟩) ← flowItemsEnd scope us
    return (item :: items, scope, ⟨rest, by grind⟩)
termination_by 4 * ts.length + 2
decreasing_by all_goals grind

/-- Reads what follows an item of a sequence in brackets: further items, or the end. -/
def flowItemsEnd (scope : Scope) (ts : List Token) : Reading (List Node) ts :=
  match ts with
  | .comma :: ts => do
    let (items, scope, ⟨rest, h⟩) ← flowItems scope ts
    return (items, scope, ⟨rest, Nat.lt_succ_of_lt h⟩)
  | .closeBracket :: ts => some ([], scope, ⟨ts, Nat.lt_succ_self _⟩)
  | _ => none
termination_by 4 * ts.length
decreasing_by all_goals grind

/-- Reads the entries of a mapping from behind its opening brace or a comma in it, with the
closing brace. A node that no token announces as a key is one without a value. -/
def flowEntries (scope : Scope) (ts : List Token) : Reading (List (Node × Node)) ts :=
  match ts with
  | .closeBrace :: ts => some ([], scope, ⟨ts, Nat.lt_succ_self _⟩)
  | .key :: us => do
    let ends := [.comma, .closeBrace]
    let (key, scope, ⟨vs, hv⟩) ← nodeUnless scope .inBrackets (.value :: ends) us
    let (value, scope, ⟨ws, hw⟩) ← valueUnless scope .inBrackets ends vs
    let (entries, scope, ⟨rest, hr⟩) ← flowEntriesEnd scope ws
    return ((key, value) :: entries, scope, ⟨rest, by grind⟩)
  | ts => do
    let (key, scope, ⟨us, hu⟩) ← node scope .inBrackets ts
    let (entries, scope, ⟨rest, hr⟩) ← flowEntriesEnd scope us
    return ((key, .empty) :: entries, scope, ⟨rest, by grind⟩)
termination_by 4 * ts.length + 2
decreasing_by all_goals grind

/-- Reads what follows an entry of a mapping in braces: further entries, or the end. -/
def flowEntriesEnd (scope : Scope) (ts : List Token) : Reading (List (Node × Node)) ts :=
  match ts with
  | .comma :: ts => do
    let (entries, scope, ⟨rest, h⟩) ← flowEntries scope ts
    return (entries, scope, ⟨rest, Nat.lt_succ_of_lt h⟩)
  | .closeBrace :: ts => some ([], scope, ⟨ts, Nat.lt_succ_self _⟩)
  | _ => none
termination_by 4 * ts.length
decreasing_by all_goals grind

end

end StructCopy.Yaml
