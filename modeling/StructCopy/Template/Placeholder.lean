/-
  Template/Placeholder: the variables that stand for imports.

  `ImportN` stands for entry `N` of a list of import paths.  Any spelling of the
  number counts, leading zeros included, as long as it stays below 2 ^ 64.
-/
import StructCopy.Template

set_option autoImplicit false

namespace StructCopy

/-- The number that decimal digits write. -/
def decimalValue (digits : List Char) : Nat :=
  digits.foldl (fun n d => 10 * n + (d.toNat - '0'.toNat)) 0

/-- The entry of an import list that a variable stands for. -/
def importIndex? (v : String) : Option Nat :=
  match Text.after? "Import".toList v.toList with
  | some digits =>
    if !digits.isEmpty && digits.all Char.isDigit && decimalValue digits < UInt64.size then
      some (decimalValue digits)
    else none
  | none => none

/-- The action that stands for an entry of an import list. -/
def placeholder (index : Nat) : String :=
  "\x7b\x7b .Import" ++ toString index ++ " \x7d\x7d"

/-- The variable stands for one of `count` entries. -/
def isImportBelow (count : Nat) (v : String) : Bool :=
  match importIndex? v with
  | some i => i < count
  | none => false

end StructCopy
