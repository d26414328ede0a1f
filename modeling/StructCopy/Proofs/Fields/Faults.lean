/-
  Proofs/Fields/Faults: why the search for fields fails with a fault of a template.

  A field type is turned into the text of a template, and read again.  What is taken over
  from the source as it stands, the tags of nested struct types and the lengths of arrays,
  may hold the opening braces of a placeholder, and nothing else in a type does.
-/
import StructCopy.Proofs.Fields.Meeting
import StructCopy.Proofs.Fields.Naming
import StructCopy.Proofs.Template.TypeText

set_option autoImplicit false

namespace StructCopy

open StructCopy.Module (Loader GoModule BuildEnv)
open StructCopy.Files (FileSource)

theorem length_of_mapM_eq_some {α β : Type} {f : α → Option β} {xs : List α} {ys : List β}
    (h : xs.mapM f = some ys) : ys.length = xs.length := by
  induction xs generalizing ys with
  | nil =>
    cases h
    rfl
  | cons x xs ih =>
    rw [List.mapM_cons] at h
    obtain ⟨y, -, h⟩ := Option.bind_eq_some_iff.1 h
    obtain ⟨ys', hys', h⟩ := Option.bind_eq_some_iff.1 h
    cases h
    rw [List.length_cons, List.length_cons, ih hys']

/-- A type of identifiers forms no template only if the opening braces of a placeholder stand in a
text that is taken over from the source, or if it has more qualifiers than there are numbers. -/
theorem Module.Loader.FormsNoTemplate.braces_or {L : Loader} {file : Go.SourceFile}
    {member : Go.Field} {e : TemplateError} (h : L.FormsNoTemplate file member e)
    (hnames : ∀ name ∈ member.type.names, Text.isIdentifier name.toList = true) :
    (∃ s ∈ member.type.opaques, openBraces <:+: s.toList) ∨
      UInt64.size < member.type.qualifiers.length := by
  obtain ⟨modules, hmodules, htype⟩ := h
  refine Classical.byContradiction fun hnot => ?_
  obtain ⟨hopaques, hcount⟩ := not_or.1 hnot
  have hok := TypeTemplate.ofType?_eq_ok hnames (fun s hs hbraces => hopaques ⟨s, hs, hbraces⟩)
    (length_of_mapM_eq_some hmodules) (Nat.le_of_not_lt hcount)
  cases htype.symm.trans hok

/-- In a module, the search for the fields of a type fails with a fault of a template exactly if it
comes to a member, everything before it having fields, whose type forms no template for this fault.
The type has a nested struct type with a tag, or an array with a length, in which the opening braces
of a placeholder stand, or it has more qualifiers than numbers of 64 bits. -/
theorem answerFor_template_iff (m : GoModule) (source : FileSource) (env : BuildEnv)
    (key : TypeKey) (e : TemplateError) :
    (m.loader source env).answerFor key = .error (.template e) ↔
      ∃ depth owner file member,
        (m.loader source env).Meets owner file member depth (.type key) ∧
        (m.loader source env).FormsNoTemplate file member e ∧
        ((∃ s ∈ member.type.opaques, openBraces <:+: s.toList) ∨
          UInt64.size < member.type.qualifiers.length) := by
  rw [answerFor_template_iff_meets]
  constructor
  · rintro ⟨depth, owner, file, member, hmeets, hforms⟩
    refine ⟨depth, owner, file, member, hmeets, hforms, hforms.braces_or ?_⟩
    obtain ⟨p, decl, members, hdecl, htype, hmember⟩ := hmeets.declaresMember
    obtain ⟨hfile, hmem, -⟩ := Module.mem_of_findType? hdecl.2
    exact GoModule.isIdentifier_of_member hdecl.1 hfile hmem htype hmember
  · rintro ⟨depth, owner, file, member, hmeets, hforms, -⟩
    exact ⟨depth, owner, file, member, hmeets, hforms⟩

end StructCopy
