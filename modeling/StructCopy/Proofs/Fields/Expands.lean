/-
  Proofs/Fields/Expands: what the fields of a type are, said without a search.

  `Expands` derives a field list from the declarations that a loader answers.  It
  follows aliases and embedded members wherever they lead and keeps no record of the
  keys on the way, so a type on a circle has no derivation.  `Refers` is the relation
  that it follows, and a key with a derivation is accessible for it.
-/
import StructCopy.Fields.Expansion
import StructCopy.Proofs.Go.TypeParts
import StructCopy.Proofs.Module.Transparency
import Mathlib.Logic.Relation

set_option autoImplicit false

namespace StructCopy.Module.Loader

open StructCopy.Go (SourceFile TypeDecl TypeExpr)

/-! ## Declarations and imports -/

/-- The package of a key's module holds a declaration of its name, and this is the first one. -/
def Declares (L : Loader) (key : TypeKey) (p : Package) (file : SourceFile) (decl : TypeDecl) :
    Prop :=
  L.load key.module = .ok p ∧ p.findType? key.name = some (file, decl)

theorem Declares.unique {L : Loader} {key : TypeKey} {p p' : Package} {file file' : SourceFile}
    {decl decl' : TypeDecl} (h : L.Declares key p file decl) (h' : L.Declares key p' file' decl') :
    p = p' ∧ file = file' ∧ decl = decl' := by
  obtain ⟨hload, hfind⟩ := h
  obtain ⟨hload', hfind'⟩ := h'
  have hp : p = p' := Except.ok.inj (hload.symm.trans hload')
  subst hp
  have hfound := Option.some.inj (hfind.symm.trans hfind')
  exact ⟨rfl, congrArg Prod.fst hfound, congrArg Prod.snd hfound⟩

/-- An import binds a qualifier: by its own name if it has one, `_` and `.` binding nothing, and by
the name of the package otherwise. -/
def bindsQualifier (L : Loader) (qualifier : String) (i : Go.Import) : Bool :=
  match i.name with
  | some name => name != "_" && name != "." && name == qualifier
  | none => L.nameOf i.path == qualifier

/-- The path behind a qualifier in a file: that of the first import that binds it. -/
def pathBehind? (L : Loader) (file : SourceFile) (qualifier : String) : Option String :=
  (file.imports.find? (L.bindsQualifier qualifier)).map Go.Import.path

/-! ## Members -/

/-- The key that an embedded member of the struct type `key` names, under any pointers and
parentheses. -/
inductive Embeds (L : Loader) (key : TypeKey) (file : SourceFile) : TypeExpr → TypeKey → Prop where
  | named (name : String) : Embeds L key file (.named name) ⟨key.module, name⟩
  | qualified {qualifier name m : String} (h : L.pathBehind? file qualifier = some m) :
      Embeds L key file (.qualified qualifier name) ⟨m, name⟩
  | pointer {elem : TypeExpr} {target : TypeKey} (h : Embeds L key file elem target) :
      Embeds L key file (.pointer elem) target
  | paren {inner : TypeExpr} {target : TypeKey} (h : Embeds L key file inner target) :
      Embeds L key file (.paren inner) target

theorem Embeds.unique {L : Loader} {key : TypeKey} {file : SourceFile} {type : TypeExpr}
    {target target' : TypeKey} (h : L.Embeds key file type target)
    (h' : L.Embeds key file type target') : target = target' := by
  induction h with
  | named name =>
    cases h'
    rfl
  | qualified hm =>
    cases h' with
    | qualified hm' => rw [Option.some.inj (hm.symm.trans hm')]
  | pointer _ ih =>
    cases h' with
    | pointer h' => exact ih h'
  | paren _ ih =>
    cases h' with
    | paren h' => exact ih h'

/-- The fields that a member with names declares: one for each name, if all qualifiers of its type
resolve and the type forms a template. -/
def NamesFields (L : Loader) (file : SourceFile) (member : Go.Field) (fields : List StructField) :
    Prop :=
  ∃ modules type, member.type.qualifiers.mapM (L.pathBehind? file) = some modules ∧
    TypeTemplate.ofType? member.type modules = .ok type ∧
    fields = member.names.map fun name => ⟨name, member.tag.getD "", type⟩

theorem NamesFields.unique {L : Loader} {file : SourceFile} {member : Go.Field}
    {fields fields' : List StructField} (h : L.NamesFields file member fields)
    (h' : L.NamesFields file member fields') : fields = fields' := by
  obtain ⟨modules, type, hmodules, htype, rfl⟩ := h
  obtain ⟨modules', type', hmodules', htype', rfl⟩ := h'
  cases hmodules.symm.trans hmodules'
  cases htype.symm.trans htype'
  rfl

/-- All qualifiers of the type of a member resolve, but the type forms no template. -/
def FormsNoTemplate (L : Loader) (file : SourceFile) (member : Go.Field) (e : TemplateError) :
    Prop :=
  ∃ modules, member.type.qualifiers.mapM (L.pathBehind? file) = some modules ∧
    TypeTemplate.ofType? member.type modules = .error e

/-! ## Expansion -/

/-- What fields are asked for: a type by its key, or some members of the struct type `key`. -/
inductive Subject where
  | type (key : TypeKey)
  | membersOf (key : TypeKey) (file : SourceFile) (members : List Go.Field)

/-- The fields of a type, and those that members stand for, one member after another. -/
inductive Yields (L : Loader) : Subject → List StructField → Prop where
  | named {key : TypeKey} {p : Package} {file : SourceFile} {decl : TypeDecl} {target : String}
      {fields : List StructField} (hdecl : L.Declares key p file decl)
      (htype : decl.type.Encloses (.named target)) (htarget : target ∉ predeclared)
      (h : Yields L (.type ⟨key.module, target⟩) fields) : Yields L (.type key) fields
  | qualified {key : TypeKey} {p : Package} {file : SourceFile} {decl : TypeDecl}
      {qualifier name m : String} {fields : List StructField} (hdecl : L.Declares key p file decl)
      (htype : decl.type.Encloses (.qualified qualifier name))
      (hpath : L.pathBehind? file qualifier = some m)
      (h : Yields L (.type ⟨m, name⟩) fields) : Yields L (.type key) fields
  | struct {key : TypeKey} {p : Package} {file : SourceFile} {decl : TypeDecl}
      {members : List Go.Field} {fields : List StructField} (hdecl : L.Declares key p file decl)
      (htype : decl.type.Encloses (.struct members))
      (h : Yields L (.membersOf key file members) fields) : Yields L (.type key) fields
  | noMember {key : TypeKey} {file : SourceFile} : Yields L (.membersOf key file []) []
  | namedMember {key : TypeKey} {file : SourceFile} {member : Go.Field} {rest : List Go.Field}
      {fields more : List StructField} (hnames : member.isEmbedded = false)
      (hfields : L.NamesFields file member fields) (h : Yields L (.membersOf key file rest) more) :
      Yields L (.membersOf key file (member :: rest)) (fields ++ more)
  | embeddedMember {key target : TypeKey} {file : SourceFile} {member : Go.Field}
      {rest : List Go.Field} {fields more : List StructField} (hnames : member.isEmbedded = true)
      (htarget : L.Embeds key file member.type target) (hfields : Yields L (.type target) fields)
      (h : Yields L (.membersOf key file rest) more) :
      Yields L (.membersOf key file (member :: rest)) (fields ++ more)

/-- The fields of a type, in the order of declaration, with embedded members expanded. -/
abbrev Expands (L : Loader) (key : TypeKey) (fields : List StructField) : Prop :=
  L.Yields (.type key) fields

namespace Yields

theorem singleton_of_names {L : Loader} {key : TypeKey} {file : SourceFile} {member : Go.Field}
    {fields : List StructField} (hnames : member.isEmbedded = false)
    (hfields : L.NamesFields file member fields) :
    L.Yields (.membersOf key file [member]) fields := by
  rw [← List.append_nil fields]
  exact .namedMember hnames hfields .noMember

theorem singleton_of_embeds {L : Loader} {key target : TypeKey} {file : SourceFile}
    {member : Go.Field} {fields : List StructField} (hnames : member.isEmbedded = true)
    (htarget : L.Embeds key file member.type target) (hfields : L.Expands target fields) :
    L.Yields (.membersOf key file [member]) fields := by
  rw [← List.append_nil fields]
  exact .embeddedMember hnames htarget hfields .noMember

theorem cons {L : Loader} {key : TypeKey} {file : SourceFile} {member : Go.Field}
    {rest : List Go.Field} {fields more : List StructField}
    (h : L.Yields (.membersOf key file [member]) fields)
    (hrest : L.Yields (.membersOf key file rest) more) :
    L.Yields (.membersOf key file (member :: rest)) (fields ++ more) := by
  cases h with
  | namedMember hnames hfields h =>
    cases h
    rw [List.append_nil]
    exact .namedMember hnames hfields hrest
  | embeddedMember hnames htarget hfields h =>
    cases h
    rw [List.append_nil]
    exact .embeddedMember hnames htarget hfields hrest

end Yields

/-! ## References -/

/-- Some member embeds the type of `target`. -/
def EmbedsAmong (L : Loader) (key : TypeKey) (file : SourceFile) (members : List Go.Field)
    (target : TypeKey) : Prop :=
  ∃ member ∈ members, member.isEmbedded = true ∧ L.Embeds key file member.type target

/-- A declaration of the key with the given type is declared as, or embeds, the type of
`target`. -/
def RefersBy (L : Loader) (key : TypeKey) (file : SourceFile) (target : TypeKey) :
    TypeExpr → Prop
  | .named name => name ∉ predeclared ∧ target = ⟨key.module, name⟩
  | .qualified qualifier name =>
    ∃ m, L.pathBehind? file qualifier = some m ∧ target = ⟨m, name⟩
  | .struct members => L.EmbedsAmong key file members target
  | _ => False

/-- The type of a key is declared as, or embeds, the type of another key. -/
def Refers (L : Loader) (key target : TypeKey) : Prop :=
  ∃ p file decl type, L.Declares key p file decl ∧ decl.type.Encloses type ∧
    L.RefersBy key file target type

theorem Declares.refersBy {L : Loader} {key target : TypeKey} {p : Package} {file : SourceFile}
    {decl : TypeDecl} {type : TypeExpr} (h : L.Declares key p file decl)
    (htype : decl.type.Encloses type) (hrefers : L.Refers key target) :
    L.RefersBy key file target type := by
  obtain ⟨p', file', decl', type', hdecl', htype', hby⟩ := hrefers
  obtain ⟨-, rfl, rfl⟩ := h.unique hdecl'
  rwa [htype.unique htype']

/-! ## What the fields of a type are taken from -/

/-- What the fields of a type that is declared with the given type are taken from: the type that
this names, or its members. -/
inductive BecomesBy (L : Loader) (key : TypeKey) (file : SourceFile) :
    TypeExpr → Subject → Prop where
  | named {target : String} (htarget : target ∉ predeclared) :
      BecomesBy L key file (.named target) (.type ⟨key.module, target⟩)
  | qualified {qualifier name m : String} (hpath : L.pathBehind? file qualifier = some m) :
      BecomesBy L key file (.qualified qualifier name) (.type ⟨m, name⟩)
  | struct {members : List Go.Field} :
      BecomesBy L key file (.struct members) (.membersOf key file members)

/-- What the fields of a type are taken from. -/
def Becomes (L : Loader) (key : TypeKey) (subject : Subject) : Prop :=
  ∃ p file decl type, L.Declares key p file decl ∧ decl.type.Encloses type ∧
    L.BecomesBy key file type subject

section

variable {L : Loader} {key : TypeKey} {p : Package} {file : SourceFile} {decl : TypeDecl}

theorem Becomes.of_named {target : String} (hdecl : L.Declares key p file decl)
    (htype : decl.type.Encloses (.named target)) (htarget : target ∉ predeclared) :
    L.Becomes key (.type ⟨key.module, target⟩) :=
  ⟨p, file, decl, _, hdecl, htype, .named htarget⟩

theorem Becomes.of_qualified {qualifier name m : String} (hdecl : L.Declares key p file decl)
    (htype : decl.type.Encloses (.qualified qualifier name))
    (hpath : L.pathBehind? file qualifier = some m) : L.Becomes key (.type ⟨m, name⟩) :=
  ⟨p, file, decl, _, hdecl, htype, .qualified hpath⟩

theorem Becomes.of_struct {members : List Go.Field} (hdecl : L.Declares key p file decl)
    (htype : decl.type.Encloses (.struct members)) : L.Becomes key (.membersOf key file members) :=
  ⟨p, file, decl, _, hdecl, htype, .struct⟩

theorem BecomesBy.unique {type : TypeExpr} {subject subject' : Subject}
    (h : L.BecomesBy key file type subject) (h' : L.BecomesBy key file type subject') :
    subject = subject' := by
  cases h with
  | named =>
    cases h'
    rfl
  | qualified hpath =>
    cases h' with
    | qualified hpath' => rw [Option.some.inj (hpath.symm.trans hpath')]
  | struct =>
    cases h'
    rfl

theorem Becomes.unique {subject subject' : Subject} (h : L.Becomes key subject)
    (h' : L.Becomes key subject') : subject = subject' := by
  obtain ⟨p, file, decl, type, hdecl, htype, hby⟩ := h
  obtain ⟨p', file', decl', type', hdecl', htype', hby'⟩ := h'
  obtain ⟨-, rfl, rfl⟩ := hdecl.unique hdecl'
  cases htype.unique htype'
  exact hby.unique hby'

/-- A type has the fields of what they are taken from. -/
theorem expands_iff {fields : List StructField} :
    L.Expands key fields ↔ ∃ subject, L.Becomes key subject ∧ L.Yields subject fields := by
  constructor
  · intro h
    cases h with
    | named hdecl htype htarget h => exact ⟨_, .of_named hdecl htype htarget, h⟩
    | qualified hdecl htype hpath h => exact ⟨_, .of_qualified hdecl htype hpath, h⟩
    | struct hdecl htype h => exact ⟨_, .of_struct hdecl htype, h⟩
  · rintro ⟨subject, ⟨p, file, decl, type, hdecl, htype, hby⟩, h⟩
    cases hby with
    | named htarget => exact .named hdecl htype htarget h
    | qualified hpath => exact .qualified hdecl htype hpath h
    | struct => exact .struct hdecl htype h

theorem Becomes.yields {subject : Subject} {fields : List StructField}
    (h : L.Becomes key subject) (hfields : L.Expands key fields) : L.Yields subject fields := by
  obtain ⟨subject', h', hyields⟩ := expands_iff.1 hfields
  rwa [h.unique h']

theorem Becomes.refers {target : TypeKey} (h : L.Becomes key (.type target)) :
    L.Refers key target := by
  obtain ⟨p, file, decl, type, hdecl, htype, hby⟩ := h
  refine ⟨p, file, decl, type, hdecl, htype, ?_⟩
  cases hby with
  | named htarget => exact ⟨htarget, rfl⟩
  | qualified hpath => exact ⟨_, hpath, rfl⟩

theorem Becomes.refers_of_embeds {owner : TypeKey} {members : List Go.Field}
    (h : L.Becomes key (.membersOf owner file members)) {target : TypeKey}
    (htarget : L.EmbedsAmong owner file members target) : L.Refers key target := by
  obtain ⟨p, file', decl, type, hdecl, htype, hby⟩ := h
  refine ⟨p, file', decl, type, hdecl, htype, ?_⟩
  cases hby
  exact htarget

/-- A key without a declaration has no fields. -/
theorem not_becomes_of_not_declares (h : ∀ p file decl, ¬ L.Declares key p file decl)
    (subject : Subject) : ¬ L.Becomes key subject := by
  rintro ⟨p, file, decl, -, hdecl, -⟩
  exact h p file decl hdecl

theorem Declares.not_becomes {type : TypeExpr} (hdecl : L.Declares key p file decl)
    (htype : decl.type.Encloses type) (h : ∀ subject, ¬ L.BecomesBy key file type subject)
    (subject : Subject) : ¬ L.Becomes key subject := by
  rintro ⟨p', file', decl', type', hdecl', htype', hby⟩
  obtain ⟨-, rfl, rfl⟩ := hdecl.unique hdecl'
  cases htype.unique htype'
  exact h subject hby

end

/-! ## Circles -/

/-- A key lies on a circle of references. -/
def OnCircle (L : Loader) (key : TypeKey) : Prop :=
  Relation.TransGen L.Refers key key

/-- The keys that the fields of a subject are taken from next. -/
def Subject.RefersTo (L : Loader) : Subject → TypeKey → Prop
  | .type key => L.Refers key
  | .membersOf key file members => L.EmbedsAmong key file members

/-- Following references from what has a field list comes to an end. -/
theorem Yields.acc {L : Loader} {subject : Subject} {fields : List StructField}
    (h : L.Yields subject fields) :
    ∀ target, subject.RefersTo L target →
      Acc (fun target source => L.Refers source target) target := by
  induction h with
  | named hdecl htype _ _ ih =>
    intro target hrefers
    obtain ⟨-, rfl⟩ := hdecl.refersBy htype hrefers
    exact Acc.intro _ ih
  | qualified hdecl htype hpath _ ih =>
    intro target hrefers
    obtain ⟨m, hm, rfl⟩ := hdecl.refersBy htype hrefers
    cases hpath.symm.trans hm
    exact Acc.intro _ ih
  | struct hdecl htype _ ih =>
    intro target hrefers
    exact ih target (hdecl.refersBy htype hrefers)
  | noMember =>
    rintro target ⟨member, hmember, -, -⟩
    cases hmember
  | namedMember hnames _ _ ih =>
    rintro target ⟨member, hmember, hembedded, htarget⟩
    rcases List.mem_cons.1 hmember with rfl | hmember
    · rw [hnames] at hembedded
      cases hembedded
    · exact ih target ⟨member, hmember, hembedded, htarget⟩
  | embeddedMember _ htarget _ _ ihfields ih =>
    rintro target' ⟨member, hmember, hembedded, htarget'⟩
    rcases List.mem_cons.1 hmember with rfl | hmember
    · rw [htarget'.unique htarget]
      exact Acc.intro _ ihfields
    · exact ih target' ⟨member, hmember, hembedded, htarget'⟩

/-- A type with a field list lies on no circle. -/
theorem Expands.not_onCircle {L : Loader} {key : TypeKey} {fields : List StructField}
    (h : L.Expands key fields) : ¬ L.OnCircle key := by
  intro hcircle
  have hacc : Acc (fun target source => L.Refers source target) key := Acc.intro _ h.acc
  have hback : Relation.TransGen (fun target source => L.Refers source target) key key :=
    Relation.transGen_swap.2 hcircle
  have hirrefl : ∀ k, Acc (Relation.TransGen fun target source => L.Refers source target) k →
      ¬ Relation.TransGen (fun target source => L.Refers source target) k k := by
    intro k hk
    induction hk with
    | intro k _ ih => exact fun hkk => ih k hkk hkk
  exact hirrefl key hacc.transGen hback

end StructCopy.Module.Loader
