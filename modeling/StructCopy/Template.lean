/-
  Template: texts with variables.

  A template is text with actions `{{ .Name }}` in it, each of which stands for the
  value of a variable.  A hyphen inside the braces, set off by white space, cuts
  off the white space of the text on its side.
-/
import StructCopy.Text.Letter
import StructCopy.Text.Split

set_option autoImplicit false

namespace StructCopy

/-! ## Faults -/

/-- What can be wrong with a template, or with the values given for it. -/
inductive TemplateFault where
  /-- an action that is not closed, by the position of its braces in bytes -/
  | unclosed (offset : Nat)
  /-- an action that is no variable -/
  | unsupportedAction (action : String)
  /-- a variable that the place of use does not offer -/
  | unknownVariable (name : String)
  | missingValue (name : String)
  deriving DecidableEq, Repr

/-- The message for a fault, without the name of the template. -/
def TemplateFault.message : TemplateFault → String
  | .unclosed offset => "unclosed action at offset " ++ toString offset
  | .unsupportedAction action => "unsupported action '" ++ action ++ "'"
  | .unknownVariable v => "unknown variable '." ++ v ++ "'"
  | .missingValue v => "no value for '." ++ v ++ "'"

/-- A fault of a named template. -/
structure TemplateError where
  name : String
  fault : TemplateFault
  deriving DecidableEq, Repr

/-- The message for an error. -/
def TemplateError.message (e : TemplateError) : String :=
  "template '" ++ e.name ++ "': " ++ e.fault.message

/-! ## Templates -/

/-- A part of a template. -/
inductive Segment where
  | text (text : String)
  | var (name : String)
  deriving DecidableEq, Repr

/-- A template, with the text it was read from. -/
structure Template where
  name : String
  source : String
  segments : List Segment
  deriving DecidableEq, Repr

/-! ## Actions -/

/-- The inside of an action: its body, and the sides on which it cuts off white space. -/
structure Action where
  trimsBefore : Bool
  trimsAfter : Bool
  body : List Char
  deriving DecidableEq, Repr

/-- A hyphen at the front of a text, if white space follows it, taken off. -/
def takeTrimMark (s : List Char) : Bool × List Char :=
  match s with
  | '-' :: c :: rest => if Text.isBlank c then (true, c :: rest) else (false, s)
  | _ => (false, s)

/-- The action written between two pairs of braces. -/
def Action.ofText (inner : List Char) : Action :=
  let before := takeTrimMark inner
  let after := takeTrimMark before.2.reverse
  ⟨before.1, after.1, Text.trim after.2.reverse⟩

/-- The variable that an action stands for. -/
def Action.variable? (a : Action) : Option String :=
  match a.body with
  | '.' :: name => if Text.isIdentifier name then some (String.ofList name) else none
  | _ => none

/-! ## Reading -/

/-- The opening braces of an action. -/
def openBraces : List Char := ['\x7b', '\x7b']

/-- The closing braces of an action. -/
def closeBraces : List Char := ['\x7d', '\x7d']

/-- The number of bytes of a text. -/
def byteSize (s : List Char) : Nat :=
  s.foldl (fun n c => n + c.utf8Size) 0

/-- A text as a segment, unless it is empty. -/
def textSegment (s : List Char) : List Segment :=
  if s.isEmpty then [] else [.text (String.ofList s)]

/-- The segments of a text that begins at byte `offset` of a template. -/
def segmentsFrom (offset : Nat) (s : List Char) : Except TemplateFault (List Segment) :=
  match _h : Text.cut? openBraces s with
  | none => .ok (textSegment s)
  | some (literal, afterOpen) =>
    match _h' : Text.cut? closeBraces afterOpen with
    | none => .error (.unclosed (offset + byteSize literal))
    | some (inner, rest) =>
      let action := Action.ofText inner
      match action.variable? with
      | none => .error (.unsupportedAction (String.ofList action.body))
      | some v =>
        let literalKept := if action.trimsBefore then Text.trimEnd literal else literal
        let restKept := if action.trimsAfter then Text.trimStart rest else rest
        let offset := offset + (byteSize s - byteSize restKept)
        (segmentsFrom offset restKept).map fun more =>
          textSegment literalKept ++ .var v :: more
termination_by s.length
decreasing_by
  have hopen := Text.length_lt_of_cut? (by simp [openBraces]) _h
  have hclose := Text.length_lt_of_cut? (by simp [closeBraces]) _h'
  have htrim := (List.dropWhile_sublist Text.isBlank (l := rest)).length_le
  split
  · simp only [Text.trimStart]
    omega
  · omega

namespace Template

/-- Reads a template. -/
def ofText? (name source : String) : Except TemplateError Template :=
  match segmentsFrom 0 source.toList with
  | .ok segments => .ok ⟨name, source, segments⟩
  | .error fault => .error ⟨name, fault⟩

/-! ## Variables -/

/-- The variables of a template, in the order of the text. -/
def variableNames (t : Template) : List String :=
  t.segments.filterMap fun
    | .var v => some v
    | .text _ => none

/-- The first variable that is not known, as a fault. -/
def check (t : Template) (known : String → Bool) : Except TemplateError Unit :=
  match t.variableNames.find? fun v => !known v with
  | some v => .error ⟨t.name, .unknownVariable v⟩
  | none => .ok ()

theorem known_of_check {t : Template} {known : String → Bool} (h : t.check known = .ok ())
    {v : String} (hv : v ∈ t.variableNames) : known v = true := by
  simp only [check] at h
  split at h
  · simp at h
  · next hnone =>
    have := List.find?_eq_none.1 hnone v hv
    simpa using this

/-! ## Rendering -/

/-- The text of some segments, or the first variable without a value. -/
def renderSegments (value? : String → Option String) : List Segment → Except TemplateFault String
  | [] => .ok ""
  | .text text :: rest => (renderSegments value? rest).map (text ++ ·)
  | .var v :: rest =>
    match value? v with
    | some value => (renderSegments value? rest).map (value ++ ·)
    | none => .error (.missingValue v)

/-- The text of a template, variables replaced by their values. -/
def render (t : Template) (value? : String → Option String) : Except TemplateError String :=
  match renderSegments value? t.segments with
  | .ok text => .ok text
  | .error fault => .error ⟨t.name, fault⟩

/-- The text of a template in which every variable has a value. -/
def substitute (t : Template) (value : String → String) : String :=
  String.join (t.segments.map fun
    | .text text => text
    | .var v => value v)

end Template

end StructCopy
