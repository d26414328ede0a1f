/-
  Fields/Store: field lists kept by type.

  The first field list stored for a type stays.
-/
import StructCopy.Fields.Basic

set_option autoImplicit false

namespace StructCopy

/-- Field lists by type. -/
structure FieldStore where
  entries : List (TypeKey × List StructField)

namespace FieldStore

/-- No field lists. -/
def empty : FieldStore := ⟨[]⟩

/-- The field list of a type. -/
def get? (s : FieldStore) (key : TypeKey) : Option (List StructField) :=
  s.entries.lookup key

/-- A field list is stored for the type. -/
def contains (s : FieldStore) (key : TypeKey) : Bool :=
  (s.get? key).isSome

/-- Stores a field list, unless the type has one. -/
def insert (s : FieldStore) (key : TypeKey) (fields : List StructField) : FieldStore :=
  if s.contains key then s else ⟨(key, fields) :: s.entries⟩

theorem get?_insert_self (s : FieldStore) (key : TypeKey) (fields : List StructField) :
    (s.insert key fields).get? key = some ((s.get? key).getD fields) := by
  unfold insert contains
  cases h : s.get? key with
  | some found => simp [h]
  | none => simp [get?]

theorem get?_insert_of_ne (s : FieldStore) {key other : TypeKey} (fields : List StructField)
    (h : other ≠ key) : (s.insert key fields).get? other = s.get? other := by
  unfold insert
  split
  · rfl
  · simp [get?, List.lookup_cons, beq_eq_false_iff_ne.2 h]

end FieldStore

end StructCopy
