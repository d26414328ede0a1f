/-
  Proofs/Fields/Naming: fields have identifiers for names.

  The loader of a module takes its packages from source texts, and a name of a struct
  member is a word there.  Embedded members are replaced by the fields of their types,
  so that every field has the name of some member.
-/
import StructCopy.Module.Loading
import StructCopy.Proofs.Fields.Discovery
import StructCopy.Proofs.Fields.Exactness
import StructCopy.Proofs.Go.Names

set_option autoImplicit false

namespace StructCopy

open StructCopy.Module (Loader GoModule BuildEnv Package)
open StructCopy.Files (FileSource)

namespace Module.Loader

/-- All names of struct members in the packages of a loader are identifiers. -/
def Named (L : Loader) : Prop :=
  ∀ path p, L.load path = .ok p → ∀ file ∈ p.files, ∀ decl ∈ file.types,
    ∀ members, decl.type.Encloses (.struct members) → ∀ member ∈ members, ∀ name ∈ member.names,
      Text.isIdentifier name.toList = true

/-- The members that a subject consists of have identifiers for names. -/
def Subject.Named : Subject → Prop
  | .type _ => True
  | .membersOf _ _ members => ∀ member ∈ members, ∀ name ∈ member.names,
    Text.isIdentifier name.toList = true

variable {L : Loader}

theorem Yields.isIdentifier (hL : L.Named) {subject : Subject} {fields : List StructField}
    (h : L.Yields subject fields) (hsubject : subject.Named) :
    ∀ f ∈ fields, Text.isIdentifier f.name.toList = true := by
  induction h with
  | named _ _ _ _ ih => exact ih trivial
  | qualified _ _ _ _ ih => exact ih trivial
  | struct hdecl htype _ ih =>
    obtain ⟨hfile, hmem, -⟩ := mem_of_findType? hdecl.2
    exact ih (hL _ _ hdecl.1 _ hfile _ hmem _ htype)
  | noMember => exact fun _ hf => absurd hf List.not_mem_nil
  | namedMember _ hfields _ ih =>
    obtain ⟨hmember, hrest⟩ := List.forall_mem_cons.1 hsubject
    obtain ⟨modules, type, -, -, rfl⟩ := hfields
    refine List.forall_mem_append.2 ⟨fun f hf => ?_, ih hrest⟩
    obtain ⟨name, hname, rfl⟩ := List.mem_map.1 hf
    exact hmember name hname
  | embeddedMember _ _ _ _ ihfields ih =>
    obtain ⟨-, hrest⟩ := List.forall_mem_cons.1 hsubject
    exact List.forall_mem_append.2 ⟨ihfields trivial, ih hrest⟩

/-- The fields of a type have identifiers for names. -/
theorem isIdentifier_of_answerFor (hL : L.Named) {key : TypeKey} {fields : List StructField}
    (h : L.answerFor key = .ok fields) : ∀ f ∈ fields, Text.isIdentifier f.name.toList = true :=
  (answerFor_eq_ok_iff.1 h).isIdentifier hL trivial

end Module.Loader

/-- The files in the packages of a module are read from source texts. -/
theorem Module.GoModule.exists_text_of_load {m : GoModule} {source : FileSource} {env : BuildEnv}
    {path : String} {p : Package} (hload : (m.loader source env).load path = .ok p)
    {file : Go.SourceFile} (hfile : file ∈ p.files) :
    ∃ name text, Go.SourceFile.ofText name text = .ok file := by
  have hload : m.load source env path = .ok p := hload
  unfold GoModule.load at hload
  split at hload
  · cases hload
  · split at hload
    · cases hload
    · split at hload
      · cases hload
      · cases hload
      · next hfiles =>
        cases hload
        obtain ⟨entry, -, text, -, htext⟩ := read_of_mem_filesOf hfiles hfile
        exact ⟨entry.name, text, htext⟩

/-- The names of struct members in the packages of a module are identifiers. -/
theorem Module.GoModule.named_loader (m : GoModule) (source : FileSource) (env : BuildEnv) :
    (m.loader source env).Named := by
  intro path p hload file hfile decl hdecl members htype member hmember name hname
  obtain ⟨_, _, htext⟩ := exists_text_of_load hload hfile
  exact Go.isIdentifier_of_ofText htext hdecl htype hmember hname

/-- The names in the types of struct members in the packages of a module are identifiers. -/
theorem Module.GoModule.isIdentifier_of_member {m : GoModule} {source : FileSource}
    {env : BuildEnv} {path : String} {p : Package}
    (hload : (m.loader source env).load path = .ok p) {file : Go.SourceFile}
    (hfile : file ∈ p.files) {decl : Go.TypeDecl} (hdecl : decl ∈ file.types)
    {members : List Go.Field} (htype : decl.type.Encloses (.struct members)) {member : Go.Field}
    (hmember : member ∈ members) :
    ∀ name ∈ member.type.names, Text.isIdentifier name.toList = true := by
  intro name hname
  obtain ⟨_, _, htext⟩ := exists_text_of_load hload hfile
  obtain ⟨part, hpart, hname⟩ := List.mem_flatMap.1 hname
  refine Go.isIdentifier_of_mem_names htext hdecl (List.mem_flatMap.2 ⟨part, ?_, hname⟩)
  exact Go.Field.parts_subset htype hmember (member.type_parts_subset hpart)

end StructCopy
