/-
  Text/CodePoints: sets of characters given by ranges of code points.

  A property of characters that a standard lists is written down once as a table
  of closed ranges, in increasing order, and asked through `CodePoints.has`.
-/

set_option autoImplicit false

namespace StructCopy.Text

/-- Closed ranges of code points, lowest first. -/
abbrev CodePoints : Type := List (Nat × Nat)

namespace CodePoints

/-- Whether some range of the table holds the code point `n`. -/
def has (table : CodePoints) (n : Nat) : Bool :=
  table.any fun range => range.1 ≤ n && n ≤ range.2

theorem has_iff {table : CodePoints} {n : Nat} :
    table.has n = true ↔ ∃ range ∈ table, range.1 ≤ n ∧ n ≤ range.2 := by
  simp [has, List.any_eq_true]

end CodePoints

end StructCopy.Text
