/-
  Go/Reader: types and source files read from tokens.

  Types are read predictively: one or two tokens decide what is read next.  The only
  place where the reader tries twice is a member that starts with `Name [`, which is a
  named member of array or slice type if that reads to the end of the member, and an
  embedded generic type otherwise.

  The constructs of a type use one another.  Each is read in a round that gets, as an
  argument, the ways to read what is behind its first token; `readers` ties the rounds
  together.

  A file starts with its package clause and its imports; then type declarations are
  read and every other declaration is passed over up to the semicolon that stands
  outside all brackets.
-/
import StructCopy.Go.Reading
import StructCopy.Go.SourceFile
import StructCopy.Go.SyntaxError

set_option autoImplicit false

namespace StructCopy.Go

/-! ## Single tokens -/

/-- Reads a certain token. -/
def exactly (token : Token) : (ts : List Located) → Reading Unit ts
  | t :: ts =>
    if t.token = token then .ok ((), ⟨ts, Nat.lt_succ_self _⟩)
    else missing (.token token.spelling) (t :: ts)
  | [] => missing (.token token.spelling) []

/-- Reads an identifier, which is a word but no keyword. -/
def identifier : (ts : List Located) → Reading String ts
  | ⟨line, .word w⟩ :: ts =>
    if isKeyword w then missing .identifier (⟨line, .word w⟩ :: ts)
    else .ok (w, ⟨ts, Nat.lt_succ_self _⟩)
  | ts => missing .identifier ts

/-- Reads a string literal. -/
def stringLiteral : (ts : List Located) → Reading String ts
  | ⟨_, .str s⟩ :: ts => .ok (s, ⟨ts, Nat.lt_succ_self _⟩)
  | ts => missing .stringLiteral ts

/-- Reads the end of a statement or list entry: a semicolon, or nothing before a closing
parenthesis, a closing brace or the end of the input. -/
def terminator : (ts : List Located) → Except Stuck (RestOrAll ts)
  | ⟨_, .semicolon⟩ :: ts => .ok ⟨ts, Nat.le_succ _⟩
  | ⟨line, .rightParen⟩ :: ts => .ok ⟨⟨line, .rightParen⟩ :: ts, Nat.le_refl _⟩
  | ⟨line, .rightBrace⟩ :: ts => .ok ⟨⟨line, .rightBrace⟩ :: ts, Nat.le_refl _⟩
  | [] => .ok ⟨[], Nat.le_refl _⟩
  | ts => missing .terminator ts

/-- The tokens without a comma at their front. -/
def skipComma : (ts : List Located) → RestOrAll ts
  | ⟨_, .comma⟩ :: ts => ⟨ts, Nat.le_succ _⟩
  | ts => ⟨ts, Nat.le_refl _⟩

/-! ## Array lengths -/

/-- The text of an array length up to its closing bracket, which is read too; `depth` brackets
are open inside it. -/
def arrayLength (depth : Nat) : (ts : List Located) → Reading String ts
  | [] => .error ⟨.openArrayLength, []⟩
  | ⟨_, token⟩ :: ts =>
    if token = .rightBracket ∧ depth = 0 then .ok ("", ⟨ts, Nat.lt_succ_self _⟩)
    else do
      let depth :=
        match token with
        | .leftBracket | .leftParen => depth + 1
        | .rightBracket | .rightParen => depth - 1
        | _ => depth
      let (text, ⟨rest, h⟩) ← arrayLength depth ts
      return (token.spelling ++ text, ⟨rest, by grind⟩)

/-! ## Names -/

/-- The end of a struct member is next. -/
def atMemberEnd (ts : List Located) : Bool :=
  match next ts with
  | some .semicolon | some .rightBrace | some (.str _) => true
  | _ => false

/-- Names separated by commas. -/
def nameList (ts : List Located) : Reading (List String) ts := do
  let (name, ⟨rest, h⟩) ← identifier ts
  match rest, h with
  | ⟨_, .comma⟩ :: more, h => do
    let (names, ⟨rest, h'⟩) ← nameList more
    return (name :: names, ⟨rest, by grind⟩)
  | rest, h => return ([name], ⟨rest, h⟩)
termination_by ts.length
decreasing_by grind

/-- The tag of a member, if there is one. -/
def optionalTag : (ts : List Located) → Option String × RestOrAll ts
  | ⟨_, .str tag⟩ :: ts => (some tag, ⟨ts, Nat.le_succ _⟩)
  | ts => (none, ⟨ts, Nat.le_refl _⟩)

/-- The direction of a channel type: an arrow behind its keyword makes it one to send on. -/
def chanDir : (ts : List Located) → ChanDir × RestOrAll ts
  | ⟨_, .arrow⟩ :: ts => (.send, ⟨ts, Nat.le_succ _⟩)
  | ts => (.both, ⟨ts, Nat.le_refl _⟩)

/-- A name, alone or behind a package. -/
def typeName (ts : List Located) : Reading TypeExpr ts := do
  let (first, ⟨rest, h⟩) ← identifier ts
  match rest, h with
  | ⟨_, .dot⟩ :: more, h => do
    let (name, ⟨rest, h'⟩) ← identifier more
    return (.qualified first name, ⟨rest, by grind⟩)
  | rest, h => return (.named first, ⟨rest, h⟩)

/-! ## Type parameters -/

/-- A list of type parameters starts here: a bracket, a word, and something that cannot close an
array length. -/
def atTypeParams : List Located → Bool
  | ⟨_, .leftBracket⟩ :: ⟨_, .word _⟩ :: ts =>
    match next ts with
    | some (.word _) | some .comma | some .tilde | some .leftBracket => true
    | _ => false
  | _ => false

/-- Reads the names of type parameters up to the bracket that closes the list, with it. `depth`
more brackets are open; `atName` says that a word would be a name. -/
def typeParams (depth : Nat) (atName : Bool) : (ts : List Located) → Reading (List String) ts
  | [] => .error ⟨.openTypeParameters, []⟩
  | ⟨_, token⟩ :: ts =>
    if token.closes ∧ depth = 0 then .ok ([], ⟨ts, Nat.lt_succ_self _⟩)
    else do
      let atNext := token == .comma && depth == 0
      let (names, ⟨rest, h⟩) ← typeParams (token.depthAfter depth) atNext ts
      match token with
      | .word w => return (if atName then w :: names else names, ⟨rest, by grind⟩)
      | _ => return (names, ⟨rest, by grind⟩)

/-- Reads the type parameters of a declaration, if it has any. -/
def optionalTypeParams (ts : List Located) : Except Stuck (List String × RestOrAll ts) :=
  if atTypeParams ts then do
    let (names, ⟨rest, h⟩) ← typeParams 0 true ts.tail
    return (names, ⟨rest, by grind⟩)
  else return ([], ⟨ts, Nat.le_refl _⟩)

/-- Reads the mark of an alias, if there is one. -/
def aliasMark : (ts : List Located) → Bool × RestOrAll ts
  | ⟨_, .assign⟩ :: ts => (true, ⟨ts, Nat.le_succ _⟩)
  | ts => (false, ⟨ts, Nat.le_refl _⟩)

/-! ## Constructs -/

/-- What is read by readers that use one another. -/
inductive Construct where
  | type
  /-- type arguments from behind the opening bracket, with the closing one -/
  | args
  | signature
  /-- parameters from behind the opening parenthesis, with the closing one -/
  | params
  | member
  /-- members from behind the opening brace, with the closing one -/
  | members
  | terms
  /-- elements from behind the opening brace, with the closing one -/
  | elements
  /-- a type declaration from behind its keyword -/
  | decl
  /-- type declarations from behind an opening parenthesis, with the closing one -/
  | decls
  deriving DecidableEq, Repr

/-- What a construct is read as. -/
abbrev Construct.Value : Construct → Type
  | .type => TypeExpr
  | .args => List TypeExpr
  | .signature => Signature
  | .params => List Param
  | .member => Field
  | .members => List Field
  | .terms => List UnionTerm
  | .elements => List InterfaceElem
  | .decl => TypeDecl
  | .decls => List TypeDecl

/-- Ways to read each construct behind the first token of `ts`. -/
abbrev Behind (ts : List Located) : Type :=
  (c : Construct) → (us : List Located) → us.length < ts.length → Reading c.Value us

/-! ## Rounds -/

/-- Reads a type, with what is in it read by `inner`. -/
def typeRound : (ts : List Located) → Behind ts → Reading TypeExpr ts
  | ⟨_, .star⟩ :: ts, inner => do
    let (elem, ⟨rest, h⟩) ← inner .type ts (Nat.lt_succ_self _)
    return (.pointer elem, ⟨rest, Nat.lt_succ_of_lt h⟩)
  | ⟨_, .leftBracket⟩ :: ⟨_, .rightBracket⟩ :: ts, inner => do
    let (elem, ⟨rest, h⟩) ← inner .type ts (Nat.lt_succ_of_lt (Nat.lt_succ_self _))
    return (.slice elem, ⟨rest, Nat.lt_succ_of_lt (Nat.lt_succ_of_lt h)⟩)
  | ⟨_, .leftBracket⟩ :: ⟨_, .ellipsis⟩ :: ts, inner => do
    let (_, ⟨rest, h⟩) ← exactly .rightBracket ts
    let (elem, ⟨rest, h'⟩) ← inner .type rest (Nat.lt_succ_of_lt (Nat.lt_succ_of_lt h))
    return (.array "..." elem, ⟨rest, Nat.lt_succ_of_lt (Nat.lt_succ_of_lt (Nat.lt_trans h' h))⟩)
  | ⟨_, .leftBracket⟩ :: ts, inner => do
    let (length, ⟨rest, h⟩) ← arrayLength 0 ts
    let (elem, ⟨rest, h'⟩) ← inner .type rest (Nat.lt_succ_of_lt h)
    return (.array length elem, ⟨rest, Nat.lt_succ_of_lt (Nat.lt_trans h' h)⟩)
  | ⟨_, .leftParen⟩ :: ts, inner => do
    let (type, ⟨rest, h⟩) ← inner .type ts (Nat.lt_succ_self _)
    let (_, ⟨rest, h'⟩) ← exactly .rightParen rest
    return (.paren type, ⟨rest, Nat.lt_succ_of_lt (Nat.lt_trans h' h)⟩)
  | ⟨_, .arrow⟩ :: ts, inner => do
    let (_, ⟨rest, h⟩) ← exactly (.word "chan") ts
    let (elem, ⟨rest, h'⟩) ← inner .type rest (Nat.lt_succ_of_lt h)
    return (.chan .receive elem, ⟨rest, Nat.lt_succ_of_lt (Nat.lt_trans h' h)⟩)
  | ⟨line, .word w⟩ :: ts, inner =>
    if w = "map" then do
      let (_, ⟨rest, h⟩) ← exactly .leftBracket ts
      let (key, ⟨rest, h'⟩) ← inner .type rest (Nat.lt_succ_of_lt h)
      let (_, ⟨rest, h''⟩) ← exactly .rightBracket rest
      have hkey := Nat.lt_trans h'' (Nat.lt_trans h' h)
      let (value, ⟨rest, h'''⟩) ← inner .type rest (Nat.lt_succ_of_lt hkey)
      return (.map key value, ⟨rest, Nat.lt_succ_of_lt (Nat.lt_trans h''' hkey)⟩)
    else if w = "chan" then do
      let (dir, ⟨rest, h⟩) := chanDir ts
      let (elem, ⟨rest, h'⟩) ← inner .type rest (Nat.lt_succ_of_le h)
      return (.chan dir elem, ⟨rest, Nat.lt_succ_of_lt (Nat.lt_of_lt_of_le h' h)⟩)
    else if w = "func" then do
      let (signature, ⟨rest, h⟩) ← inner .signature ts (Nat.lt_succ_self _)
      return (.func signature, ⟨rest, Nat.lt_succ_of_lt h⟩)
    else if w = "struct" then do
      let (_, ⟨rest, h⟩) ← exactly .leftBrace ts
      let (fields, ⟨rest, h'⟩) ← inner .members rest (Nat.lt_succ_of_lt h)
      return (.struct fields, ⟨rest, Nat.lt_succ_of_lt (Nat.lt_trans h' h)⟩)
    else if w = "interface" then do
      let (_, ⟨rest, h⟩) ← exactly .leftBrace ts
      let (elems, ⟨rest, h'⟩) ← inner .elements rest (Nat.lt_succ_of_lt h)
      return (.interface elems, ⟨rest, Nat.lt_succ_of_lt (Nat.lt_trans h' h)⟩)
    else do
      let (base, ⟨rest, h⟩) ← typeName (⟨line, .word w⟩ :: ts)
      match rest, h with
      | ⟨_, .leftBracket⟩ :: more, h => do
        let (args, ⟨rest, h'⟩) ← inner .args more (Nat.lt_of_succ_lt h)
        return (.generic base args, ⟨rest, Nat.lt_trans h' (Nat.lt_of_succ_lt h)⟩)
      | rest, h => return (base, ⟨rest, h⟩)
  | ts, _ => missing .type ts

/-- Reads one type argument, and the others by `inner`. A comma may stand before the closing
bracket. -/
def argsRound (ts : List Located) (inner : Behind ts) : Reading (List TypeExpr) ts := do
  let (arg, ⟨rest, h⟩) ← typeRound ts inner
  match rest, h with
  | ⟨_, .rightBracket⟩ :: rest, h => return ([arg], ⟨rest, by grind⟩)
  | ⟨_, .comma⟩ :: ⟨_, .rightBracket⟩ :: rest, h => return ([arg], ⟨rest, by grind⟩)
  | ⟨_, .comma⟩ :: more, h => do
    let (args, ⟨rest, h'⟩) ← inner .args more (Nat.lt_of_succ_lt h)
    return (arg :: args, ⟨rest, by grind⟩)
  | rest, _ => missing .argumentEnd rest

/-- Reads parameters and results, both by `inner`. -/
def signatureRound (ts : List Located) (inner : Behind ts) : Reading Signature ts := do
  let (_, ⟨rest, h⟩) ← exactly .leftParen ts
  let (params, ⟨rest, h'⟩) ← inner .params rest h
  match rest, h' with
  | ⟨_, .leftParen⟩ :: more, h' => do
    let (results, ⟨rest, h''⟩) ← inner .params more (by grind)
    return (.mk params results true, ⟨rest, by grind⟩)
  | rest, h' =>
    if ((next rest).map Token.startsType).getD false then do
      let (result, ⟨rest, h''⟩) ← inner .type rest (Nat.lt_trans h' h)
      return (.mk params [.mk none result] false, ⟨rest, by grind⟩)
    else return (.mk params [] false, ⟨rest, by grind⟩)

/-- Reads one parameter, and the others by `inner`. Of names that share a type, all but the last
are entries without a name. -/
def paramsRound : (ts : List Located) → Behind ts → Reading (List Param) ts
  | ⟨_, .semicolon⟩ :: ts, inner => do
    let (params, ⟨rest, h⟩) ← inner .params ts (Nat.lt_succ_self _)
    return (params, ⟨rest, by grind⟩)
  | ⟨_, .rightParen⟩ :: ts, _ => return ([], ⟨ts, by grind⟩)
  | ⟨_, .ellipsis⟩ :: ts, inner => do
    let (elem, ⟨rest, h⟩) ← inner .type ts (Nat.lt_succ_self _)
    let ⟨rest, h'⟩ := skipComma rest
    let (params, ⟨rest, h''⟩) ← inner .params rest (by grind)
    return (.mk none (.variadic elem) :: params, ⟨rest, by grind⟩)
  | ts, inner => do
    let (first, ⟨rest, h⟩) ← typeRound ts inner
    match rest, h, first with
    | ⟨_, .comma⟩ :: rest, h, first => do
      let (params, ⟨rest, h'⟩) ← inner .params rest (Nat.lt_of_succ_lt h)
      return (.mk none first :: params, ⟨rest, by grind⟩)
    | ⟨line, .rightParen⟩ :: rest, h, first => do
      let (params, ⟨rest, h'⟩) ← inner .params (⟨line, .rightParen⟩ :: rest) h
      return (.mk none first :: params, ⟨rest, by grind⟩)
    | ⟨_, .ellipsis⟩ :: rest, h, .named name => do
      let (elem, ⟨rest, h'⟩) ← inner .type rest (Nat.lt_of_succ_lt h)
      let ⟨rest, h''⟩ := skipComma rest
      let (params, ⟨rest, h'''⟩) ← inner .params rest (by grind)
      return (.mk (some name) (.variadic elem) :: params, ⟨rest, by grind⟩)
    | rest, h, .named name => do
      let (type, ⟨rest, h'⟩) ← inner .type rest h
      let ⟨rest, h''⟩ := skipComma rest
      let (params, ⟨rest, h'''⟩) ← inner .params rest (by grind)
      return (.mk (some name) type :: params, ⟨rest, by grind⟩)
    | rest, _, _ => missing .parameterEnd rest

/-- Reads the names and the type of a member; no names mean that it is embedded. -/
def namesAndTypeRound : (ts : List Located) → Behind ts → Reading (List String × TypeExpr) ts
  | ⟨line, .star⟩ :: ts, inner => do
    let (type, rest) ← typeRound (⟨line, .star⟩ :: ts) inner
    return (([], type), rest)
  | ⟨line, .word w⟩ :: ts, inner =>
    match next ts with
    | some .dot | some .semicolon | some .rightBrace | some (.str _) => do
      let (type, rest) ← typeRound (⟨line, .word w⟩ :: ts) inner
      return (([], type), rest)
    | some .leftBracket =>
      match inner .type ts (Nat.lt_succ_self _) with
      | .ok (type, ⟨rest, h⟩) =>
        if atMemberEnd rest then .ok (([w], type), ⟨rest, by grind⟩)
        else do
          let (type, rest) ← typeRound (⟨line, .word w⟩ :: ts) inner
          return (([], type), rest)
      | .error _ => do
        let (type, rest) ← typeRound (⟨line, .word w⟩ :: ts) inner
        return (([], type), rest)
    | _ => do
      let (names, ⟨rest, h⟩) ← nameList (⟨line, .word w⟩ :: ts)
      let (type, ⟨rest, h'⟩) ← inner .type rest h
      return ((names, type), ⟨rest, by grind⟩)
  | ts, _ => missing .member ts

/-- Reads one struct member. -/
def memberRound (ts : List Located) (inner : Behind ts) : Reading Field ts := do
  let ((names, type), ⟨rest, h⟩) ← namesAndTypeRound ts inner
  let (tag, ⟨rest, h'⟩) := optionalTag rest
  return (.mk (lineAt 0 ts) names type tag, ⟨rest, by grind⟩)

/-- Reads one struct member, and the others by `inner`. -/
def membersRound : (ts : List Located) → Behind ts → Reading (List Field) ts
  | ⟨_, .semicolon⟩ :: ts, inner => do
    let (fields, ⟨rest, h⟩) ← inner .members ts (Nat.lt_succ_self _)
    return (fields, ⟨rest, by grind⟩)
  | ⟨_, .rightBrace⟩ :: ts, _ => return ([], ⟨ts, by grind⟩)
  | ts, inner => do
    let (field, ⟨rest, h⟩) ← memberRound ts inner
    let ⟨rest, h'⟩ ← terminator rest
    let (fields, ⟨rest, h''⟩) ← inner .members rest (by grind)
    return (field :: fields, ⟨rest, by grind⟩)

/-- Reads one term of a union. -/
def termRound : (ts : List Located) → Behind ts → Reading UnionTerm ts
  | ⟨_, .tilde⟩ :: ts, inner => do
    let (type, ⟨rest, h⟩) ← inner .type ts (Nat.lt_succ_self _)
    return (.mk true type, ⟨rest, by grind⟩)
  | ts, inner => do
    let (type, rest) ← typeRound ts inner
    return (.mk false type, rest)

/-- Reads one term of a union, and the others behind `|` by `inner`. -/
def termsRound (ts : List Located) (inner : Behind ts) : Reading (List UnionTerm) ts := do
  let (term, ⟨rest, h⟩) ← termRound ts inner
  match rest, h with
  | ⟨line, .operator o⟩ :: more, h =>
    if o = "|" then do
      let (terms, ⟨rest, h'⟩) ← inner .terms more (Nat.lt_of_succ_lt h)
      return (term :: terms, ⟨rest, by grind⟩)
    else return ([term], ⟨⟨line, .operator o⟩ :: more, h⟩)
  | rest, h => return ([term], ⟨rest, h⟩)

/-- Reads one interface element, and the others by `inner`. A word before a parenthesis is the name
of a method. -/
def elementsRound : (ts : List Located) → Behind ts → Reading (List InterfaceElem) ts
  | ⟨_, .semicolon⟩ :: ts, inner => do
    let (elems, ⟨rest, h⟩) ← inner .elements ts (Nat.lt_succ_self _)
    return (elems, ⟨rest, by grind⟩)
  | ⟨_, .rightBrace⟩ :: ts, _ => return ([], ⟨ts, by grind⟩)
  | ⟨line, .word w⟩ :: ⟨line', .leftParen⟩ :: ts, inner => do
    let (name, _) ← identifier (⟨line, .word w⟩ :: ⟨line', .leftParen⟩ :: ts)
    let (signature, ⟨rest, h⟩) ← inner .signature (⟨line', .leftParen⟩ :: ts) (Nat.lt_succ_self _)
    let ⟨rest, h'⟩ ← terminator rest
    let (elems, ⟨rest, h''⟩) ← inner .elements rest (by grind)
    return (.method name signature :: elems, ⟨rest, by grind⟩)
  | ts, inner => do
    let (terms, ⟨rest, h⟩) ← termsRound ts inner
    let ⟨rest, h'⟩ ← terminator rest
    let (elems, ⟨rest, h''⟩) ← inner .elements rest (by grind)
    return (.union terms :: elems, ⟨rest, by grind⟩)

/-- Reads one type declaration from behind its keyword. -/
def declRound (ts : List Located) (inner : Behind ts) : Reading TypeDecl ts := do
  let (name, ⟨rest, h⟩) ← identifier ts
  let (params, ⟨rest, h'⟩) ← optionalTypeParams rest
  let (isAlias, ⟨rest, h''⟩) := aliasMark rest
  let (type, ⟨rest, h'''⟩) ← inner .type rest (by grind)
  return (⟨lineAt 0 ts, name, params, isAlias, type⟩, ⟨rest, by grind⟩)

/-- Reads one type declaration of a group, and the others by `inner`. -/
def declsRound : (ts : List Located) → Behind ts → Reading (List TypeDecl) ts
  | ⟨_, .semicolon⟩ :: ts, inner => do
    let (decls, ⟨rest, h⟩) ← inner .decls ts (Nat.lt_succ_self _)
    return (decls, ⟨rest, by grind⟩)
  | ⟨_, .rightParen⟩ :: ts, _ => return ([], ⟨ts, by grind⟩)
  | ts, inner => do
    let (decl, ⟨rest, h⟩) ← declRound ts inner
    let ⟨rest, h'⟩ ← terminator rest
    let (decls, ⟨rest, h''⟩) ← inner .decls rest (by grind)
    return (decl :: decls, ⟨rest, by grind⟩)

/-- Reads a construct, with what is behind its start read by `inner`. -/
def round : (c : Construct) → (ts : List Located) → Behind ts → Reading c.Value ts
  | .type => typeRound
  | .args => argsRound
  | .signature => signatureRound
  | .params => paramsRound
  | .member => memberRound
  | .members => membersRound
  | .terms => termsRound
  | .elements => elementsRound
  | .decl => declRound
  | .decls => declsRound

/-! ## Readers -/

/-- The ways in which constructs are read: each round uses them again behind its start. -/
def readers (c : Construct) (ts : List Located) : Reading c.Value ts :=
  round c ts fun c us _h => readers c us
termination_by ts.length
decreasing_by exact _h

theorem readers_eq (c : Construct) (ts : List Located) :
    readers c ts = round c ts fun c us _ => readers c us := by
  rw [readers]

/-- Reads a type. -/
abbrev typeExpr (ts : List Located) : Reading TypeExpr ts :=
  readers .type ts

/-- Reads type arguments. -/
abbrev typeArgs (ts : List Located) : Reading (List TypeExpr) ts :=
  readers .args ts

/-- Reads parameters and results. -/
abbrev signature (ts : List Located) : Reading Signature ts :=
  readers .signature ts

/-- Reads a parameter list. -/
abbrev parameters (ts : List Located) : Reading (List Param) ts :=
  readers .params ts

/-- Reads one struct member. -/
abbrev member (ts : List Located) : Reading Field ts :=
  readers .member ts

/-- Reads struct members. -/
abbrev members (ts : List Located) : Reading (List Field) ts :=
  readers .members ts

/-- Reads the terms of a union. -/
abbrev unionTerms (ts : List Located) : Reading (List UnionTerm) ts :=
  readers .terms ts

/-- Reads interface elements. -/
abbrev elements (ts : List Located) : Reading (List InterfaceElem) ts :=
  readers .elements ts

/-- Reads one type declaration. -/
abbrev typeSpec (ts : List Located) : Reading TypeDecl ts :=
  readers .decl ts

/-- Reads the type declarations of a group. -/
abbrev typeGroup (ts : List Located) : Reading (List TypeDecl) ts :=
  readers .decls ts

theorem typeGroup_semicolon (line : Nat) (ts : List Located) :
    typeGroup (⟨line, .semicolon⟩ :: ts) = (do
      let found ← typeGroup ts
      return (found.1, ⟨found.2.val, Nat.lt_succ_of_lt found.2.property⟩)) := by
  rw [typeGroup, readers_eq]
  rfl

theorem typeGroup_rightParen (line : Nat) (ts : List Located) :
    typeGroup (⟨line, .rightParen⟩ :: ts) = .ok ([], ⟨ts, Nat.lt_succ_self _⟩) := by
  rw [typeGroup, readers_eq]
  rfl

theorem typeGroup_spec {ts : List Located} (hsemicolon : next ts ≠ some .semicolon)
    (hclose : next ts ≠ some .rightParen) :
    typeGroup ts = (do
      let (decl, ⟨rest, h⟩) ← typeSpec ts
      let ⟨rest, h'⟩ ← terminator rest
      let (decls, ⟨rest, h''⟩) ← typeGroup rest
      return (decl :: decls, ⟨rest, by grind⟩)) := by
  rw [typeGroup, readers_eq, typeSpec, readers_eq]
  rcases ts with _ | ⟨⟨line, token⟩, ts⟩
  · rfl
  · cases token with
    | semicolon => exact absurd rfl hsemicolon
    | rightParen => exact absurd rfl hclose
    | _ => rfl

/-! ## Imports -/

/-- The name in front of an import path, if there is one. -/
def importName : (ts : List Located) → Option String × RestOrAll ts
  | ⟨_, .word w⟩ :: ts => (some w, ⟨ts, Nat.le_succ _⟩)
  | ⟨_, .dot⟩ :: ts => (some ".", ⟨ts, Nat.le_succ _⟩)
  | ts => (none, ⟨ts, Nat.le_refl _⟩)

/-- Reads one import. -/
def importSpec (ts : List Located) : Reading Import ts := do
  let (name, ⟨rest, h⟩) := importName ts
  let (path, ⟨rest, h'⟩) ← stringLiteral rest
  return (⟨lineAt 0 ts, name, path⟩, ⟨rest, by grind⟩)

/-- Reads imports from behind an opening parenthesis, with the closing one. -/
def importGroup (ts : List Located) : Reading (List Import) ts :=
  match ts with
  | ⟨_, .semicolon⟩ :: ts => do
    let (imports, ⟨rest, h⟩) ← importGroup ts
    return (imports, ⟨rest, by grind⟩)
  | ⟨_, .rightParen⟩ :: ts => return ([], ⟨ts, by grind⟩)
  | ts => do
    let (spec, ⟨rest, h⟩) ← importSpec ts
    let ⟨rest, h'⟩ ← terminator rest
    let (imports, ⟨rest, h''⟩) ← importGroup rest
    return (spec :: imports, ⟨rest, by grind⟩)
termination_by ts.length
decreasing_by all_goals grind

/-- Reads all import declarations. -/
def importDecls (ts : List Located) : Except Stuck (List Import × RestOrAll ts) :=
  match ts with
  | ⟨_, .semicolon⟩ :: ts => do
    let (imports, ⟨rest, h⟩) ← importDecls ts
    return (imports, ⟨rest, by grind⟩)
  | ⟨line, .word w⟩ :: ts =>
    if w = "import" then
      match ts with
      | ⟨_, .leftParen⟩ :: ts => do
        let (group, ⟨rest, h⟩) ← importGroup ts
        let ⟨rest, h'⟩ ← terminator rest
        let (imports, ⟨rest, h''⟩) ← importDecls rest
        return (group ++ imports, ⟨rest, by grind⟩)
      | ts => do
        let (spec, ⟨rest, h⟩) ← importSpec ts
        let ⟨rest, h'⟩ ← terminator rest
        let (imports, ⟨rest, h''⟩) ← importDecls rest
        return (spec :: imports, ⟨rest, by grind⟩)
    else return ([], ⟨⟨line, .word w⟩ :: ts, Nat.le_refl _⟩)
  | ts => return ([], ⟨ts, Nat.le_refl _⟩)
termination_by ts.length
decreasing_by all_goals grind

/-! ## Other declarations -/

/-- Passes over the rest of a declaration that starts at `start`: the token `t`, with `depth`
brackets open before it, and the tokens up to the semicolon outside all brackets. -/
def skipDecl (start : List Located) (depth : Nat) (t : Located) (ts : List Located) :
    Except Stuck (RestOrAll ts) :=
  if t.token = .semicolon ∧ depth = 0 then .ok ⟨ts, Nat.le_refl _⟩
  else if t.token.closes ∧ depth = 0 then .error ⟨.unexpected t.token, t :: ts⟩
  else
    let depth := t.token.depthAfter depth
    match ts with
    | [] => if depth = 0 then .ok ⟨[], Nat.le_refl _⟩ else .error ⟨.unbalanced, start⟩
    | t :: ts => do
      let ⟨rest, h⟩ ← skipDecl start depth t ts
      return ⟨rest, by grind⟩

/-! ## Files -/

/-- A way to read the type declarations of a file. -/
abbrev DeclsReader : Type :=
  List Located → Except Stuck (List TypeDecl)

/-- Reads or passes over one declaration of a file, with what is in it read by `inner`, and reads
the others by `later`. -/
def typeDeclsRound : (ts : List Located) → Behind ts →
    ((us : List Located) → us.length < ts.length → Except Stuck (List TypeDecl)) →
    Except Stuck (List TypeDecl)
  | [], _, _ => return []
  | ⟨_, .semicolon⟩ :: ts, _, later => later ts (Nat.lt_succ_self _)
  | t :: ts, inner, later =>
    if t.token = .word "type" then
      match ts, inner, later with
      | ⟨_, .leftParen⟩ :: ts, inner, later => do
        let (group, ⟨rest, h⟩) ← inner .decls ts (by grind)
        let ⟨rest, h'⟩ ← terminator rest
        return group ++ (← later rest (by grind))
      | ts, inner, later => do
        let (decl, ⟨rest, h⟩) ← inner .decl ts (Nat.lt_succ_self _)
        let ⟨rest, h'⟩ ← terminator rest
        return decl :: (← later rest (by grind))
    else do
      let ⟨rest, h⟩ ← skipDecl (t :: ts) 0 t ts
      later rest (Nat.lt_succ_of_le h)

/-- Reads all type declarations, passing over the others. -/
def typeDecls (ts : List Located) : Except Stuck (List TypeDecl) :=
  typeDeclsRound ts (fun c us _ => readers c us) fun us _h => typeDecls us
termination_by ts.length
decreasing_by exact _h

theorem typeDecls_nil : typeDecls [] = .ok [] := by
  rw [typeDecls]
  rfl

theorem typeDecls_semicolon (line : Nat) (ts : List Located) :
    typeDecls (⟨line, .semicolon⟩ :: ts) = typeDecls ts := by
  rw [typeDecls]
  rfl

theorem typeDecls_group (line line' : Nat) (ts : List Located) :
    typeDecls (⟨line, .word "type"⟩ :: ⟨line', .leftParen⟩ :: ts) = (do
      let group ← typeGroup ts
      let rest ← terminator group.2.val
      return group.1 ++ (← typeDecls rest.val)) := by
  rw [typeDecls]
  rfl

theorem typeDecls_spec (line : Nat) {ts : List Located} (hopen : next ts ≠ some .leftParen) :
    typeDecls (⟨line, .word "type"⟩ :: ts) = (do
      let decl ← typeSpec ts
      let rest ← terminator decl.2.val
      return decl.1 :: (← typeDecls rest.val)) := by
  rw [typeDecls]
  rcases ts with _ | ⟨⟨line', token⟩, ts⟩
  · rfl
  · cases token with
    | leftParen => exact absurd rfl hopen
    | _ => rfl

theorem typeDecls_other {t : Located} {ts : List Located} (htype : t.token ≠ .word "type")
    (hsemicolon : t.token ≠ .semicolon) :
    typeDecls (t :: ts) = (do
      let rest ← skipDecl (t :: ts) 0 t ts
      typeDecls rest.val) := by
  rw [typeDecls]
  obtain ⟨line, token⟩ := t
  cases token with
  | semicolon => exact absurd rfl hsemicolon
  | _ =>
    rw [typeDeclsRound.eq_def]
    dsimp only
    rw [if_neg htype]

/-- The tokens from the first on that is no semicolon. -/
def skipSemicolons (ts : List Located) : List Located :=
  ts.dropWhile fun t => t.token == .semicolon

/-- Reads the tokens of a file, with its type declarations read by `decls`. -/
def SourceFile.ofTokensBy (decls : DeclsReader) (name : String) (ts : List Located) :
    Except Stuck SourceFile := do
  let (_, ⟨rest, _⟩) ← exactly (.word "package") (skipSemicolons ts)
  let (package, ⟨rest, _⟩) ← identifier rest
  let ⟨rest, _⟩ ← terminator rest
  let (imports, ⟨rest, _⟩) ← importDecls rest
  let types ← decls rest
  return ⟨name, package, imports, types⟩

/-- Reads the tokens of a file. -/
def SourceFile.ofTokens (name : String) (ts : List Located) : Except Stuck SourceFile :=
  ofTokensBy typeDecls name ts

/-- Reads a file from its name and its text. -/
def SourceFile.ofText (name text : String) : Except SyntaxError SourceFile :=
  match tokenize text with
  | .error e => .error ⟨name, e.line, .pieces e.fault⟩
  | .ok list =>
    match SourceFile.ofTokens name list.tokens with
    | .error stuck => .error ⟨name, lineAt list.endLine stuck.place, .reading stuck.fault⟩
    | .ok file => .ok file

end StructCopy.Go
