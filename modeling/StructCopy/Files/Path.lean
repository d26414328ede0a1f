/-
  Files/Path: paths as they are written.

  A path keeps its text: joining and taking the parent are operations on texts, and
  repeated slashes, trailing slashes and inner `.` stay until something asks for
  the components.
-/
import StructCopy.Text.Split

set_option autoImplicit false

namespace StructCopy.Files

/-- A path. -/
structure Path where
  text : String
  deriving DecidableEq, Repr, Inhabited

namespace Path

/-- A step of a path. -/
inductive Component where
  /-- the slash that an absolute path starts with -/
  | root
  /-- the `.` that a relative path starts with -/
  | here
  /-- `..` -/
  | up
  | name (name : String)
  deriving DecidableEq, Repr

/-! ## Components -/

/-- The step that a text between slashes makes, if it makes one. -/
def stepOf? (segment : List Char) : Option Component :=
  if segment = [] ∨ segment = ['.'] then none
  else if segment = ['.', '.'] then some .up
  else some (.name (String.ofList segment))

/-- The steps of a path. -/
def components (p : Path) : List Component :=
  match p.text.toList with
  | '/' :: s => .root :: (Text.splitAt '/' s).filterMap stepOf?
  | s =>
    match Text.splitAt '/' s with
    | ['.'] :: rest => .here :: rest.filterMap stepOf?
    | segments => segments.filterMap stepOf?

/-- The path starts at the root. -/
def isAbsolute (p : Path) : Bool :=
  p.text.toList.head? == some '/'

/-! ## Joining -/

/-- The path `q` seen from `p`: an absolute `q` stands for itself. -/
def join (p q : Path) : Path :=
  if q.isAbsolute then q
  else if p.text.isEmpty || p.text.toList.getLast? == some '/' then ⟨p.text ++ q.text⟩
  else ⟨p.text ++ "/" ++ q.text⟩

/-- `join` with a path given by its text. -/
def joinText (p : Path) (text : String) : Path :=
  p.join ⟨text⟩

/-! ## Parents -/

/-- A text between slashes that makes no step. -/
def isIdle (segment : List Char) : Bool :=
  segment.isEmpty || segment == ['.']

/-- The beginning of a path that is no ordinary segment, and the segments behind it. -/
def headAndSegments (s : List Char) : List Char × List (List Char) :=
  match s with
  | '/' :: rest => (['/'], Text.splitAt '/' rest)
  | ['.'] => (['.'], [])
  | '.' :: '/' :: rest => (['.'], [] :: Text.splitAt '/' rest)
  | s => ([], Text.splitAt '/' s)

/-- The path without its last step; the root and the empty path have no parent. -/
def parent? (p : Path) : Option Path :=
  let (head, segments) := headAndSegments p.text.toList
  match segments.reverse.dropWhile isIdle with
  | [] => if head == ['.'] then some ⟨""⟩ else none
  | _ :: before =>
    let kept := (before.dropWhile isIdle).reverse
    some ⟨String.ofList (head ++ List.intercalate ['/'] kept)⟩

end Path

end StructCopy.Files
