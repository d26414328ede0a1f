/-
  Mapping/Match: the source field of a destination field.

  The source fields are put into an index by name and by tag value; of several with
  the same name or value the last one counts.
-/
import Std.Data.HashMap
import StructCopy.Mapping.Basic

set_option autoImplicit false

namespace StructCopy

/-- A source field and its position among the source fields. -/
structure Candidate where
  position : Nat
  field : StructField

/-- The value of a field's tag under a key. -/
def StructField.tagValue? (f : StructField) (key : String) : Option String :=
  Go.Tag.name? f.tag key

/-- Source fields by name and by tag value. -/
structure SourceIndex where
  candidates : List Candidate
  byName : Std.HashMap String Candidate
  byTag : Std.HashMap String Candidate
  /-- the key of the tags in `byTag` -/
  tagKey : String

namespace SourceIndex

/-- The candidates for some source fields. -/
def candidatesOf (fields : List StructField) : List Candidate :=
  fields.zipIdx.map fun entry => ⟨entry.2, entry.1⟩

/-- An index by tag value with one more candidate, if it has a value. -/
def addTag (tagKey : String) (index : Std.HashMap String Candidate) (c : Candidate) :
    Std.HashMap String Candidate :=
  match c.field.tagValue? tagKey with
  | some value => index.insert value c
  | none => index

/-- The index of some source fields. -/
def ofFields (fields : List StructField) (tagKey : String) : SourceIndex :=
  let candidates := candidatesOf fields
  { candidates
    byName := candidates.foldl (fun index c => index.insert c.field.name c) ∅
    byTag := candidates.foldl (addTag tagKey) ∅
    tagKey }

/-- The source that an override gives by name: it must name the destination field. -/
def byNameClause? (x : SourceIndex) (dest : StructField) (o : FieldOverride) : Option Candidate :=
  if o.destField = some dest.name then o.sourceField.bind fun name => x.byName[name]? else none

/-- The source that an override gives by tag: the first one with the source tag, if the
destination field has the destination tag. -/
def byTagClause? (x : SourceIndex) (dest : StructField) (o : FieldOverride) : Option Candidate :=
  match o.destTag, o.sourceTag with
  | some destTag, some sourceTag =>
    let key := o.tagKey.getD x.tagKey
    if dest.tagValue? key = some destTag then
      x.candidates.find? fun c => c.field.tagValue? key == some sourceTag
    else none
  | _, _ => none

/-- The source that the first fruitful override gives. -/
def overridden? (x : SourceIndex) (dest : StructField) (overrides : List FieldOverride) :
    Option Candidate :=
  overrides.findSome? fun o => (x.byNameClause? dest o).or (x.byTagClause? dest o)

/-- The source of a destination field: an override, else a source of the same name, else one with
the same tag value. -/
def match? (x : SourceIndex) (dest : StructField) (overrides : List FieldOverride) :
    Option Candidate :=
  (x.overridden? dest overrides).or
    (x.byName[dest.name]?.or ((dest.tagValue? x.tagKey).bind fun value => x.byTag[value]?))

end SourceIndex

end StructCopy
