/-
  Go/Header: which files take part in a build.

  The header of a file is its blank lines and comments up to the first other line.
  Build constraints count only there.  The first `//go:build` line decides alone;
  without one, every `// +build` line has to hold.
-/
import StructCopy.Go.Constraint
import StructCopy.Go.Platform

set_option autoImplicit false

namespace StructCopy.Go

/-! ## Directives -/

/-- A line of a header that constrains the build. -/
inductive Directive where
  /-- a `//go:build` line, with the text of its expression -/
  | goBuild (line : Nat) (expr : List Char)
  /-- a `// +build` line, with its options -/
  | plusBuild (options : List Char)
  deriving DecidableEq, Repr

/-- What follows a keyword that is a word of its own. -/
def afterKeyword? (keyword : String) (s : List Char) : Option (List Char) :=
  match Text.after? keyword.toList s with
  | some [] => some []
  | some (c :: rest) => if Text.isBlank c then some (c :: rest) else none
  | none => none

/-- The directive in a line comment on line `line`, given without its slashes. -/
def directiveOf? (line : Nat) (comment : List Char) : Option Directive :=
  match afterKeyword? "go:build" comment with
  | some expr => some (.goBuild line expr)
  | none => (afterKeyword? "+build" (Text.trimStart comment)).map .plusBuild

/-- The directives among the lines of a header that begin on line `line`; `inside` says that a
block comment is open. -/
def directives (line : Nat) (inside : Bool) : List (List Char) → List Directive
  | [] => []
  | raw :: rest =>
    let text := Text.trim raw
    if inside then directives (line + 1) (!Text.contains "*/".toList text) rest
    else if text.isEmpty then directives (line + 1) false rest
    else
      match Text.after? "/*".toList text with
      | some body => directives (line + 1) (!Text.contains "*/".toList body) rest
      | none =>
        match Text.after? "//".toList text with
        | some comment =>
          (directiveOf? line comment).toList ++ directives (line + 1) false rest
        | none => []

/-- The directives of a source text. -/
def headerDirectives (source : String) : List Directive :=
  directives 1 false (Text.lines (withoutMark source.toList))

/-! ## Decision -/

/-- The value of a term of a `// +build` line: a tag, or a tag that must not hold. -/
def termHolds (value : String → Bool) : List Char → Bool
  | '!' :: name => !value (String.ofList name)
  | name => value (String.ofList name)

/-- The value of a `// +build` line: one of its options holds, which are separated by white
space; an option holds if all its terms do, which are separated by commas. -/
def optionsHold (value : String → Bool) (options : List Char) : Bool :=
  (Text.words options).any fun option => (Text.splitAt ',' option).all (termHolds value)

/-- The first `//go:build` line among some directives. -/
def firstGoBuild? : List Directive → Option (Nat × List Char)
  | [] => none
  | .goBuild line expr :: _ => some (line, expr)
  | .plusBuild _ :: rest => firstGoBuild? rest

/-- The options of the `// +build` lines among some directives. -/
def plusOptions (ds : List Directive) : List (List Char) :=
  ds.filterMap fun
    | .plusBuild options => some options
    | .goBuild _ _ => none

/-- Whether some directives admit a file, or the fault of the deciding line. -/
def admits (value : String → Bool) (ds : List Directive) :
    Except (Nat × ConstraintFault) Bool :=
  match firstGoBuild? ds with
  | some (line, expr) =>
    match Constraint.ofText expr with
    | .ok c => .ok (c.holds value)
    | .error fault => .error (line, fault)
  | none => .ok ((plusOptions ds).all (optionsHold value))

/-- Whether a file takes part in builds for the platform. -/
def Platform.includes (p : Platform) (fileName source : String) : Except SyntaxError Bool :=
  if p.allowsName fileName then
    match admits p.satisfies (headerDirectives source) with
    | .ok b => .ok b
    | .error (line, fault) => .error ⟨fileName, line, .constraint fault⟩
  else .ok false

end StructCopy.Go
