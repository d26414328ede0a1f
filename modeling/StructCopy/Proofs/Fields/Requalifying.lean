/-
  Proofs/Fields/Requalifying: field lists when an import gets another name.

  The search follows references and resolves qualifiers as before, so a type that had fields
  has the same ones.  Only the lengths of arrays carry the name of the import into a field
  type: these are texts in which no qualifier is resolved.
-/
import StructCopy.Proofs.Fields.Meeting
import StructCopy.Proofs.Go.Requalifying

set_option autoImplicit false

namespace StructCopy

open StructCopy.Module (Loader Package)
open StructCopy.Go (SourceFile TypeExpr TypeDecl Requalification)

/-! ## Templates of types -/

namespace TypeTemplate

variable {r : Requalification} {type : TypeExpr}

/-- The text of a template stays the same exactly if the lengths of the arrays do. -/
theorem render_requalify_eq_iff (hnew : r.new ∉ type.uses) :
    ((type.requalify r).render fun q =>
        placeholder (((type.requalify r).qualifiers.idxOf? q).getD 0)) =
      (type.render fun q => placeholder ((type.qualifiers.idxOf? q).getD 0)) ↔
    ∀ s ∈ type.lengths, r.length s = s := by
  refine TypeExpr.render_requalify_eq_iff fun q hq => ?_
  rw [TypeExpr.idxOf?_qualifiers_requalify hnew hq]

theorem text_requalify_eq_iff (hnew : r.new ∉ type.uses) {imports : List String}
    {t t' : TypeTemplate} (h : ofType? type imports = .ok t)
    (h' : ofType? (type.requalify r) imports = .ok t') :
    t'.text = t.text ↔ ∀ s ∈ type.lengths, r.length s = s := by
  rw [text_of_ofText? h, text_of_ofText? h']
  exact render_requalify_eq_iff hnew

theorem ofType?_requalify (hnew : r.new ∉ type.uses) (imports : List String)
    (hlengths : ∀ s ∈ type.lengths, r.length s = s) :
    ofType? (type.requalify r) imports = ofType? type imports := by
  unfold ofType?
  dsimp only
  rw [(render_requalify_eq_iff hnew).2 hlengths]

end TypeTemplate

/-! ## Another name in some files -/

namespace Go

variable (r : Requalification) (on : Bool)

/-- The qualifier, with the other name in a file that has it. -/
def Requalification.qualifierIf (q : String) : String :=
  if on then r.qualifier q else q

/-- The type, with the other name in a file that has it. -/
def TypeExpr.requalifyIf (t : TypeExpr) : TypeExpr :=
  if on then t.requalify r else t

/-- The member, with the other name in a file that has it. -/
def Field.requalifyIf (f : Field) : Field :=
  if on then f.requalify r else f

/-- The declaration, with the other name in a file that has it. -/
def TypeDecl.requalifyIf (d : TypeDecl) : TypeDecl :=
  if on then d.requalify r else d

/-- The file, with the other name if it has it. -/
def SourceFile.requalifyIf (f : SourceFile) : SourceFile :=
  if on then f.requalify r else f

namespace TypeExpr

variable {r on}

@[simp] theorem requalifyIf_named (name : String) :
    (named name).requalifyIf r on = .named name := by
  cases on <;> rfl

@[simp] theorem requalifyIf_qualified (qualifier name : String) :
    (qualified qualifier name).requalifyIf r on = .qualified (r.qualifierIf on qualifier) name := by
  cases on <;> rfl

@[simp] theorem requalifyIf_pointer (elem : TypeExpr) :
    (pointer elem).requalifyIf r on = .pointer (elem.requalifyIf r on) := by
  cases on <;> rfl

@[simp] theorem requalifyIf_paren (inner : TypeExpr) :
    (paren inner).requalifyIf r on = .paren (inner.requalifyIf r on) := by
  cases on <;> rfl

@[simp] theorem requalifyIf_struct (members : List Field) :
    (struct members).requalifyIf r on = .struct (members.map (Field.requalifyIf r on)) := by
  cases on with
  | false => exact congrArg struct (List.map_id'' (fun _ => rfl) members).symm
  | true => exact congrArg struct (requalifyFields_eq r members)

end TypeExpr

namespace Field

variable {r on}

@[simp] theorem names_requalifyIf (f : Field) : (f.requalifyIf r on).names = f.names := by
  cases on with
  | false => rfl
  | true => exact f.names_requalify

@[simp] theorem isEmbedded_requalifyIf (f : Field) :
    (f.requalifyIf r on).isEmbedded = f.isEmbedded := by
  cases on with
  | false => rfl
  | true => exact f.isEmbedded_requalify

@[simp] theorem tag_requalifyIf (f : Field) : (f.requalifyIf r on).tag = f.tag := by
  cases on with
  | false => rfl
  | true => exact f.tag_requalify

@[simp] theorem type_requalifyIf (f : Field) :
    (f.requalifyIf r on).type = f.type.requalifyIf r on := by
  cases on with
  | false => rfl
  | true => exact f.type_requalify

end Field

end Go

/-! ## Packages with the other name -/

/-- The name can be given to an import of the file: it is one that binds, and it is not in use. No
plain import binds it or the old name. -/
structure Go.Requalification.Admits (r : Requalification) (L : Loader) (file : SourceFile) :
    Prop where
  binding : r.new ≠ "_" ∧ r.new ≠ "."
  plain : ∀ i ∈ file.imports, i.name = none → L.nameOf i.path ≠ r.old ∧ L.nameOf i.path ≠ r.new
  unnamed : ∀ i ∈ file.imports, i.name ≠ some r.new
  unused : ∀ decl ∈ file.types, r.new ∉ decl.type.uses

namespace Module

/-- The package with the other name in some of its files. -/
def Package.requalify (r : Requalification) (here : SourceFile → Bool) (p : Package) : Package :=
  { p with files := p.files.map fun file => file.requalifyIf r (here file) }

theorem Package.findType?_requalify (r : Requalification) (here : SourceFile → Bool) (p : Package)
    (name : String) : (p.requalify r here).findType? name =
      (p.findType? name).map fun found =>
        (found.1.requalifyIf r (here found.1), found.2.requalifyIf r (here found.1)) := by
  unfold findType? requalify
  dsimp only
  rw [List.findSome?_map, List.map_findSome?]
  congr 1
  funext file
  cases hon : here file with
  | false => simp [hon, SourceFile.requalifyIf, TypeDecl.requalifyIf, Function.comp_def]
  | true =>
    simp [hon, SourceFile.requalifyIf, TypeDecl.requalifyIf, SourceFile.requalify,
      TypeDecl.requalify, List.find?_map, Function.comp_def]

namespace Loader

/-- The loader of the same packages, with the other name in some files of the packages at some
paths. -/
def requalify (L : Loader) (r : Requalification) (here : String → SourceFile → Bool) : Loader where
  load path := (L.load path).map (Package.requalify r (here path))
  finite := by
    obtain ⟨known, hknown⟩ := L.finite
    refine ⟨known ++ known.map (SourceFile.requalify r), fun path p h file hfile => ?_⟩
    cases hload : L.load path with
    | error e =>
      rw [hload] at h
      cases h
    | ok q =>
      rw [hload] at h
      cases h
      obtain ⟨f, hf, rfl⟩ := List.mem_map.1 hfile
      have hmem := hknown path q hload f hf
      unfold SourceFile.requalifyIf
      split
      · exact List.mem_append_right _ (List.mem_map_of_mem hmem)
      · exact List.mem_append_left _ hmem

variable {L : Loader} {r : Requalification} {here : String → SourceFile → Bool}

theorem load_requalify {path : String} {p : Package} (h : L.load path = .ok p) :
    (L.requalify r here).load path = .ok (p.requalify r (here path)) := by
  unfold requalify
  dsimp only
  rw [h]
  rfl

theorem nameOf_requalify (path : String) : (L.requalify r here).nameOf path = L.nameOf path := by
  unfold nameOf requalify
  dsimp only
  cases L.load path <;> rfl

theorem Declares.requalify {key : TypeKey} {p : Package} {file : SourceFile} {decl : TypeDecl}
    (h : L.Declares key p file decl) :
    (L.requalify r here).Declares key (p.requalify r (here key.module))
      (file.requalifyIf r (here key.module file)) (decl.requalifyIf r (here key.module file)) := by
  obtain ⟨hload, hfind⟩ := h
  refine ⟨load_requalify hload, ?_⟩
  rw [Package.findType?_requalify, hfind]
  rfl

/-! ## Qualifiers -/

theorem find?_congr {α : Type} {p q : α → Bool} {xs : List α} (h : ∀ x ∈ xs, p x = q x) :
    xs.find? p = xs.find? q := by
  induction xs with
  | nil => rfl
  | cons x xs ih =>
    obtain ⟨hx, hxs⟩ := List.forall_mem_cons.1 h
    rw [List.find?_cons, List.find?_cons, hx, ih hxs]

/-- An import binds a qualifier with the other name for both as it did before. -/
theorem bindsQualifier_requalify {file : SourceFile} (h : r.Admits L file) {q : String}
    (hnew : q ≠ r.new) (hold : q = r.old → q ≠ "_" ∧ q ≠ ".") {i : Go.Import}
    (hi : i ∈ file.imports) :
    (L.requalify r here).bindsQualifier (r.qualifier q) (i.requalify r) =
      L.bindsQualifier q i := by
  have hplain := h.plain i hi
  have hunnamed := h.unnamed i hi
  obtain ⟨line, name, path⟩ := i
  unfold bindsQualifier Go.Import.requalify
  dsimp only at hplain hunnamed ⊢
  cases name with
  | none =>
    obtain ⟨hpathOld, hpathNew⟩ := hplain rfl
    simp only [Option.map_none, nameOf_requalify]
    by_cases hq : q = r.old
    · simp [Requalification.qualifier, hq, hpathOld, hpathNew]
    · simp [Requalification.qualifier, hq]
  | some name =>
    simp only [Option.map_some]
    by_cases hname : name = q
    · subst hname
      by_cases hq : name = r.old
      · obtain ⟨hblank, hdot⟩ := hold hq
        simp only [Requalification.qualifier, if_pos hq, bne_iff_ne.2 hblank, bne_iff_ne.2 hdot,
          bne_iff_ne.2 h.binding.1, bne_iff_ne.2 h.binding.2, BEq.rfl]
      · simp [Requalification.qualifier, hq]
    · have hother : r.qualifier name ≠ r.qualifier q := fun heq =>
        hname ((r.qualifier_inj (fun h => hunnamed (congrArg some h)) hnew).1 heq)
      rw [beq_eq_false_iff_ne.2 hother, beq_eq_false_iff_ne.2 hname, Bool.and_false, Bool.and_false]

/-- A qualifier with the other name leads where it led before. -/
theorem pathBehind?_requalifyIf {on : Bool} {file : SourceFile} {q m : String}
    (h : on = true → r.Admits L file ∧ q ≠ r.new) (hpath : L.pathBehind? file q = some m) :
    (L.requalify r here).pathBehind? (file.requalifyIf r on) (r.qualifierIf on q) = some m := by
  rw [← hpath]
  unfold pathBehind?
  cases on with
  | false =>
    congr 1
    refine find?_congr fun i _ => ?_
    unfold bindsQualifier
    dsimp only [Requalification.qualifierIf]
    simp [nameOf_requalify]
  | true =>
    obtain ⟨hadmits, hnew⟩ := h rfl
    -- the old name leads somewhere, so it is one that binds
    have hold : q = r.old → q ≠ "_" ∧ q ≠ "." := by
      intro hq
      obtain ⟨i, hi, -⟩ := Option.map_eq_some_iff.1 hpath
      have hbinds := List.find?_some hi
      unfold bindsQualifier at hbinds
      cases hname : i.name with
      | none =>
        rw [hname] at hbinds
        have := (hadmits.plain i (List.mem_of_find?_eq_some hi) hname).1
        exact absurd (eq_of_beq hbinds) (hq ▸ this)
      | some name =>
        rw [hname] at hbinds
        simp only [Bool.and_eq_true, bne_iff_ne, beq_iff_eq] at hbinds
        obtain ⟨⟨hblank, hdot⟩, rfl⟩ := hbinds
        exact ⟨hblank, hdot⟩
    dsimp only [SourceFile.requalifyIf, Requalification.qualifierIf, SourceFile.requalify]
    simp only [if_true, List.find?_map, Option.map_map]
    have hbinds : ∀ i ∈ file.imports,
        ((L.requalify r here).bindsQualifier (r.qualifier q) ∘ Go.Import.requalify r) i =
          L.bindsQualifier q i :=
      fun i hi => bindsQualifier_requalify hadmits hnew hold hi
    rw [find?_congr hbinds]
    rfl

/-! ## References and fields -/

/-- What fields are asked for, with the other name in the members of a file that has it. -/
def Subject.requalify (r : Requalification) (here : String → SourceFile → Bool) : Subject → Subject
  | .type key => .type key
  | .membersOf key file members =>
    .membersOf key (file.requalifyIf r (here key.module file))
      (members.map (Go.Field.requalifyIf r (here key.module file)))

/-- The name can be given to the import that members of a file refer to. -/
def Subject.Admits (L : Loader) (r : Requalification) (here : String → SourceFile → Bool) :
    Subject → Prop
  | .type _ => True
  | .membersOf key file members => here key.module file = true →
      r.Admits L file ∧ ∀ member ∈ members, r.new ∉ member.type.uses

/-- The name can be given wherever it is to be given. -/
def Admits (L : Loader) (r : Requalification) (here : String → SourceFile → Bool) : Prop :=
  ∀ path p, L.load path = .ok p → ∀ file ∈ p.files, here path file = true → r.Admits L file

theorem uses_type_subset {t : TypeExpr} {members : List Go.Field}
    (ht : t.Encloses (.struct members)) {member : Go.Field} (h : member ∈ members) :
    member.type.uses ⊆ t.uses := by
  intro q hq
  rw [TypeExpr.uses_eq] at hq ⊢
  obtain ⟨part, hpart, hq⟩ := List.mem_flatMap.1 hq
  exact List.mem_flatMap.2
    ⟨part, Go.Field.parts_subset ht h (member.type_parts_subset hpart), hq⟩

theorem Becomes.admits {key : TypeKey} {subject : Subject} (h : L.Becomes key subject)
    (hadmits : L.Admits r here) : subject.Admits L r here := by
  obtain ⟨p, file, decl, type, hdecl, htype, hby⟩ := h
  obtain ⟨hfile, hmem, -⟩ := Module.mem_of_findType? hdecl.2
  cases hby with
  | struct =>
    intro hon
    have hadmits := hadmits _ p hdecl.1 file hfile hon
    exact ⟨hadmits, fun member hmember hnew =>
      hadmits.unused decl hmem (uses_type_subset htype hmember hnew)⟩
  | _ => trivial

theorem uses_of_encloses {t u : TypeExpr} (h : t.Encloses u) : u.uses = t.uses := by
  induction h with
  | plain => rfl
  | paren _ ih => exact ih

theorem Becomes.requalify {key : TypeKey} {subject : Subject} (h : L.Becomes key subject)
    (hadmits : L.Admits r here) :
    (L.requalify r here).Becomes key (subject.requalify r here) := by
  obtain ⟨p, file, decl, type, hdecl, htype, hby⟩ := h
  obtain ⟨hfile, hmem, -⟩ := Module.mem_of_findType? hdecl.2
  have htype' : (decl.requalifyIf r (here key.module file)).type.Encloses
      (type.requalifyIf r (here key.module file)) := by
    cases here key.module file with
    | false => exact htype
    | true => exact htype.requalify
  refine ⟨_, _, _, _, hdecl.requalify, htype', ?_⟩
  cases hby with
  | named htarget =>
    rw [TypeExpr.requalifyIf_named]
    exact .named htarget
  | qualified hpath =>
    rw [TypeExpr.requalifyIf_qualified]
    refine .qualified (pathBehind?_requalifyIf (fun hon => ?_) hpath)
    have hadmits := hadmits _ p hdecl.1 file hfile hon
    refine ⟨hadmits, fun hq => hadmits.unused decl hmem ?_⟩
    rw [← hq, ← uses_of_encloses htype]
    exact List.mem_singleton.2 rfl
  | struct =>
    rw [TypeExpr.requalifyIf_struct]
    exact .struct

theorem Embeds.requalify {key : TypeKey} {file : SourceFile} {type : TypeExpr} {target : TypeKey}
    {on : Bool} (h : L.Embeds key file type target)
    (hadmits : on = true → r.Admits L file ∧ r.new ∉ type.uses) :
    (L.requalify r here).Embeds key (file.requalifyIf r on) (type.requalifyIf r on) target := by
  induction h with
  | named name =>
    rw [TypeExpr.requalifyIf_named]
    exact .named name
  | qualified hpath =>
    rw [TypeExpr.requalifyIf_qualified]
    refine .qualified (pathBehind?_requalifyIf (fun hon => ?_) hpath)
    obtain ⟨hfile, hnew⟩ := hadmits hon
    exact ⟨hfile, fun hq => hnew (List.mem_singleton.2 hq.symm)⟩
  | pointer _ ih =>
    rw [TypeExpr.requalifyIf_pointer]
    exact .pointer (ih hadmits)
  | paren _ ih =>
    rw [TypeExpr.requalifyIf_paren]
    exact .paren (ih hadmits)

theorem mapM_pathBehind?_requalifyIf {file : SourceFile} {on : Bool} {qs modules : List String}
    (h : on = true → r.Admits L file ∧ r.new ∉ qs)
    (hmodules : qs.mapM (L.pathBehind? file) = some modules) :
    (qs.map (r.qualifierIf on)).mapM
      ((L.requalify r here).pathBehind? (file.requalifyIf r on)) = some modules := by
  induction qs generalizing modules with
  | nil => exact hmodules
  | cons q qs ih =>
    rw [List.mapM_cons] at hmodules
    obtain ⟨m, hm, hmodules⟩ := Option.bind_eq_some_iff.1 hmodules
    obtain ⟨ms, hms, hmodules⟩ := Option.bind_eq_some_iff.1 hmodules
    cases hmodules
    have hfirst : on = true → r.Admits L file ∧ q ≠ r.new := fun hon =>
      ⟨(h hon).1, fun hq => (h hon).2 (hq ▸ List.mem_cons_self)⟩
    have hrest := ih (fun hon => ⟨(h hon).1, fun hq => (h hon).2 (List.mem_cons_of_mem _ hq)⟩) hms
    rw [List.map_cons, List.mapM_cons, pathBehind?_requalifyIf hfirst hm, hrest]
    rfl

/-- The qualifiers of a member lead where they led. -/
theorem mapM_qualifiers_requalifyIf {file : SourceFile} {member : Go.Field} {on : Bool}
    {modules : List String} (h : on = true → r.Admits L file ∧ r.new ∉ member.type.uses)
    (hmodules : member.type.qualifiers.mapM (L.pathBehind? file) = some modules) :
    (member.requalifyIf r on).type.qualifiers.mapM
      ((L.requalify r here).pathBehind? (file.requalifyIf r on)) = some modules := by
  have hqualifiers : (member.requalifyIf r on).type.qualifiers =
      member.type.qualifiers.map (r.qualifierIf on) := by
    rw [Go.Field.type_requalifyIf]
    cases on with
    | false => exact (List.map_id'' (fun _ => rfl) _).symm
    | true => exact TypeExpr.qualifiers_requalify (h rfl).2
  rw [hqualifiers]
  refine mapM_pathBehind?_requalifyIf (fun hon => ⟨(h hon).1, fun hq => ?_⟩) hmodules
  exact (h hon).2 (List.mem_eraseDups.1 hq)

theorem NamesFields.length_eq {file : SourceFile} {member : Go.Field} {fields : List StructField}
    (h : L.NamesFields file member fields) : fields.length = member.names.length := by
  obtain ⟨modules, type, -, -, rfl⟩ := h
  exact List.length_map _

/-- A member has the same fields if the lengths of the arrays in its type stay. -/
theorem NamesFields.requalify {file : SourceFile} {member : Go.Field} {fields : List StructField}
    {on : Bool} (h : L.NamesFields file member fields)
    (hadmits : on = true → r.Admits L file ∧ r.new ∉ member.type.uses)
    (hlengths : on = true → ∀ s ∈ member.type.lengths, r.length s = s) :
    (L.requalify r here).NamesFields (file.requalifyIf r on) (member.requalifyIf r on) fields := by
  obtain ⟨modules, type, hmodules, htype, rfl⟩ := h
  refine ⟨modules, type, mapM_qualifiers_requalifyIf hadmits hmodules, ?_, ?_⟩
  · rw [Go.Field.type_requalifyIf, ← htype]
    cases on with
    | false => rfl
    | true => exact TypeTemplate.ofType?_requalify (hadmits rfl).2 modules (hlengths rfl)
  · rw [Go.Field.names_requalifyIf, Go.Field.tag_requalifyIf]

/-- If a member with names has the same fields, then the lengths of the arrays in its type stay. -/
theorem NamesFields.lengths_of_requalify {file : SourceFile} {member : Go.Field}
    {fields : List StructField} (h : L.NamesFields file member fields)
    (hnames : member.isEmbedded = false)
    (hadmits : r.Admits L file ∧ r.new ∉ member.type.uses)
    (h' : (L.requalify r here).NamesFields (file.requalifyIf r true) (member.requalifyIf r true)
      fields) : ∀ s ∈ member.type.lengths, r.length s = s := by
  obtain ⟨modules, type, hmodules, htype, hfields⟩ := h
  obtain ⟨modules', type', hmodules', htype', hfields'⟩ := h'
  cases hmodules'.symm.trans (mapM_qualifiers_requalifyIf (fun _ => hadmits) hmodules)
  rw [Go.Field.type_requalifyIf] at htype'
  -- the member has a name, so there is a field that shows the type
  have hsame : type' = type := by
    obtain ⟨name, rest, hcons⟩ := List.exists_cons_of_ne_nil
      fun hnil => Bool.false_ne_true (hnames.symm.trans (List.isEmpty_iff.2 hnil))
    rw [hfields, Go.Field.names_requalifyIf, hcons, List.map_cons, List.map_cons,
      List.cons.injEq] at hfields'
    exact (congrArg StructField.type hfields'.1).symm
  exact (TypeTemplate.text_requalify_eq_iff hadmits.2 htype htype').1 (congrArg _ hsame)

/-! ## Members that the search comes to -/

/-- The lengths of arrays stay in all members that the search comes to in a file with the other
name. -/
def KeepsLengths (L : Loader) (r : Requalification) (here : String → SourceFile → Bool)
    (subject : Subject) : Prop :=
  ∀ depth owner file member, L.Meets owner file member depth subject →
    here owner.module file = true → ∀ s ∈ member.type.lengths, r.length s = s

theorem keepsLengths_type_iff {key : TypeKey} {subject : Subject} (h : L.Becomes key subject) :
    L.KeepsLengths r here (.type key) ↔ L.KeepsLengths r here subject := by
  constructor
  · exact fun hkeeps depth owner file member hmeets =>
      hkeeps (depth + 1) owner file member (.type h hmeets)
  · intro hkeeps depth owner file member hmeets
    cases hmeets with
    | type hbecomes hmeets =>
      cases h.unique hbecomes
      exact hkeeps _ owner file member hmeets

theorem keepsLengths_nil {key : TypeKey} {file : SourceFile} :
    L.KeepsLengths r here (.membersOf key file []) :=
  fun _ _ _ _ h => nomatch h

theorem keepsLengths_cons_iff {key : TypeKey} {file : SourceFile} {member : Go.Field}
    {rest : List Go.Field} {fields : List StructField}
    (h : L.Yields (.membersOf key file [member]) fields) :
    L.KeepsLengths r here (.membersOf key file (member :: rest)) ↔
      L.KeepsLengths r here (.membersOf key file [member]) ∧
        L.KeepsLengths r here (.membersOf key file rest) := by
  constructor
  · refine fun hkeeps => ⟨fun depth owner f m hmeets => hkeeps depth owner f m ?_,
      fun depth owner f m hmeets => hkeeps depth owner f m (.past h hmeets)⟩
    cases hmeets with
    | here hnames => exact .here hnames
    | inside hnames htarget hmeets => exact .inside hnames htarget hmeets
    | past _ hmeets => cases hmeets
  · rintro ⟨hfirst, hrest⟩ depth owner f m hmeets
    cases hmeets with
    | here hnames => exact hfirst _ _ _ _ (.here hnames)
    | inside hnames htarget hmeets => exact hfirst _ _ _ _ (.inside hnames htarget hmeets)
    | past _ hmeets => exact hrest _ _ _ _ hmeets

theorem keepsLengths_named_iff {key : TypeKey} {file : SourceFile} {member : Go.Field}
    (hnames : member.isEmbedded = false) :
    L.KeepsLengths r here (.membersOf key file [member]) ↔
      (here key.module file = true → ∀ s ∈ member.type.lengths, r.length s = s) := by
  constructor
  · exact fun hkeeps => hkeeps 0 key file member (.here hnames)
  · intro hkeeps depth owner f m hmeets
    cases hmeets with
    | here => exact hkeeps
    | inside hnames' => cases hnames.symm.trans hnames'
    | past _ hmeets => cases hmeets

theorem keepsLengths_embedded_iff {key target : TypeKey} {file : SourceFile} {member : Go.Field}
    (hnames : member.isEmbedded = true) (htarget : L.Embeds key file member.type target) :
    L.KeepsLengths r here (.membersOf key file [member]) ↔
      L.KeepsLengths r here (.type target) := by
  constructor
  · exact fun hkeeps depth owner f m hmeets =>
      hkeeps depth owner f m (.inside hnames htarget hmeets)
  · intro hkeeps depth owner f m hmeets
    cases hmeets with
    | here hnames' => cases hnames.symm.trans hnames'
    | inside _ htarget' hmeets =>
      cases htarget.unique htarget'
      exact hkeeps depth owner f m hmeets
    | past _ hmeets => cases hmeets

/-! ## The two loaders -/

/-- What a subject with the given fields yields with the other name: as many fields, and the same
ones exactly if the lengths of arrays stay. -/
structure Compares (L : Loader) (r : Requalification) (here : String → SourceFile → Bool)
    (subject : Subject) (fields : List StructField) : Prop where
  keeps : L.KeepsLengths r here subject →
    (L.requalify r here).Yields (subject.requalify r here) fields
  length_eq : ∀ fields', (L.requalify r here).Yields (subject.requalify r here) fields' →
    fields'.length = fields.length
  lengths : (L.requalify r here).Yields (subject.requalify r here) fields →
    L.KeepsLengths r here subject

theorem Yields.uncons {key : TypeKey} {file : SourceFile} {member : Go.Field}
    {rest : List Go.Field} {fields : List StructField}
    (h : L.Yields (.membersOf key file (member :: rest)) fields) :
    ∃ first more, fields = first ++ more ∧ L.Yields (.membersOf key file [member]) first ∧
      L.Yields (.membersOf key file rest) more := by
  cases h with
  | namedMember hnames hfields h => exact ⟨_, _, rfl, .singleton_of_names hnames hfields, h⟩
  | embeddedMember hnames htarget hfields h =>
    exact ⟨_, _, rfl, .singleton_of_embeds hnames htarget hfields, h⟩

theorem Compares.of_becomes {key : TypeKey} {subject : Subject} {fields : List StructField}
    (hbecomes : L.Becomes key subject) (hadmits : L.Admits r here)
    (h : L.Compares r here subject fields) : L.Compares r here (.type key) fields where
  keeps hkeeps := expands_iff.2
    ⟨_, hbecomes.requalify hadmits, h.keeps ((keepsLengths_type_iff hbecomes).1 hkeeps)⟩
  length_eq fields' hfields := h.length_eq fields' ((hbecomes.requalify hadmits).yields hfields)
  lengths hfields := (keepsLengths_type_iff hbecomes).2
    (h.lengths ((hbecomes.requalify hadmits).yields hfields))

theorem compares_nil {key : TypeKey} {file : SourceFile} :
    L.Compares r here (.membersOf key file []) [] where
  keeps _ := .noMember
  length_eq fields' h := by
    cases h
    rfl
  lengths _ := keepsLengths_nil

theorem Compares.cons {key : TypeKey} {file : SourceFile} {member : Go.Field}
    {rest : List Go.Field} {fields more : List StructField}
    (hfields : L.Yields (.membersOf key file [member]) fields)
    (hfirst : L.Compares r here (.membersOf key file [member]) fields)
    (hrest : L.Compares r here (.membersOf key file rest) more) :
    L.Compares r here (.membersOf key file (member :: rest)) (fields ++ more) where
  keeps hkeeps := by
    obtain ⟨hkeepsFirst, hkeepsRest⟩ := (keepsLengths_cons_iff hfields).1 hkeeps
    exact .cons (hfirst.keeps hkeepsFirst) (hrest.keeps hkeepsRest)
  length_eq fields' h := by
    obtain ⟨first', more', rfl, hfirst', hmore'⟩ := Yields.uncons h
    rw [List.length_append, List.length_append, hfirst.length_eq first' hfirst',
      hrest.length_eq more' hmore']
  lengths h := by
    obtain ⟨first', more', heq, hfirst', hmore'⟩ := Yields.uncons h
    obtain ⟨rfl, rfl⟩ := List.append_inj heq (hfirst.length_eq first' hfirst').symm
    exact (keepsLengths_cons_iff hfields).2 ⟨hfirst.lengths hfirst', hrest.lengths hmore'⟩

theorem compares_named {key : TypeKey} {file : SourceFile} {member : Go.Field}
    {fields : List StructField} (hnames : member.isEmbedded = false)
    (hfields : L.NamesFields file member fields)
    (hadmits : here key.module file = true → r.Admits L file ∧ r.new ∉ member.type.uses) :
    L.Compares r here (.membersOf key file [member]) fields := by
  have hnames' : (member.requalifyIf r (here key.module file)).isEmbedded = false := by
    rw [Go.Field.isEmbedded_requalifyIf, hnames]
  have hof : ∀ fields', (L.requalify r here).Yields
      ((Subject.membersOf key file [member]).requalify r here) fields' →
        (L.requalify r here).NamesFields (file.requalifyIf r (here key.module file))
          (member.requalifyIf r (here key.module file)) fields' := by
    intro fields' h
    cases h with
    | namedMember _ hfields' h =>
      cases h
      rwa [List.append_nil]
    | embeddedMember hembedded => cases hnames'.symm.trans hembedded
  refine ⟨fun hkeeps => .singleton_of_names hnames' ?_, fun fields' h => ?_, fun h => ?_⟩
  · exact hfields.requalify hadmits ((keepsLengths_named_iff hnames).1 hkeeps)
  · rw [(hof fields' h).length_eq, Go.Field.names_requalifyIf, hfields.length_eq]
  · refine (keepsLengths_named_iff hnames).2 fun hon => ?_
    have hsame := hof fields h
    rw [hon] at hsame
    exact hfields.lengths_of_requalify hnames (hadmits hon) hsame

theorem compares_embedded {key target : TypeKey} {file : SourceFile} {member : Go.Field}
    {fields : List StructField} (hnames : member.isEmbedded = true)
    (htarget : L.Embeds key file member.type target)
    (hadmits : here key.module file = true → r.Admits L file ∧ r.new ∉ member.type.uses)
    (h : L.Compares r here (.type target) fields) :
    L.Compares r here (.membersOf key file [member]) fields := by
  have hnames' : (member.requalifyIf r (here key.module file)).isEmbedded = true := by
    rw [Go.Field.isEmbedded_requalifyIf, hnames]
  have htarget' : (L.requalify r here).Embeds key (file.requalifyIf r (here key.module file))
      (member.requalifyIf r (here key.module file)).type target := by
    rw [Go.Field.type_requalifyIf]
    exact htarget.requalify hadmits
  have hof : ∀ fields', (L.requalify r here).Yields
      ((Subject.membersOf key file [member]).requalify r here) fields' →
        (L.requalify r here).Yields (.type target) fields' := by
    intro fields' h
    cases h with
    | namedMember hnamed => cases hnames'.symm.trans hnamed
    | embeddedMember _ htarget'' hfields' h =>
      cases h
      cases htarget'.unique htarget''
      rwa [List.append_nil]
  refine ⟨fun hkeeps => .singleton_of_embeds hnames' htarget' ?_,
    fun fields' hfields => h.length_eq fields' (hof fields' hfields), fun hfields => ?_⟩
  · exact h.keeps ((keepsLengths_embedded_iff hnames htarget).1 hkeeps)
  · exact (keepsLengths_embedded_iff hnames htarget).2 (h.lengths (hof fields hfields))

theorem Subject.Admits.cons {key : TypeKey} {file : SourceFile} {member : Go.Field}
    {rest : List Go.Field} (h : Subject.Admits L r here (.membersOf key file (member :: rest))) :
    (here key.module file = true → r.Admits L file ∧ r.new ∉ member.type.uses) ∧
      Subject.Admits L r here (.membersOf key file rest) :=
  ⟨fun hon => ⟨(h hon).1, (h hon).2 member List.mem_cons_self⟩,
    fun hon => ⟨(h hon).1, fun m hm => (h hon).2 m (List.mem_cons_of_mem _ hm)⟩⟩

theorem Yields.compares {subject : Subject} {fields : List StructField}
    (h : L.Yields subject fields) (hadmits : L.Admits r here)
    (hsubject : subject.Admits L r here) : L.Compares r here subject fields := by
  induction h with
  | named hdecl htype htarget _ ih =>
    have hbecomes : L.Becomes _ _ := .of_named hdecl htype htarget
    exact (ih (hbecomes.admits hadmits)).of_becomes hbecomes hadmits
  | qualified hdecl htype hpath _ ih =>
    have hbecomes : L.Becomes _ _ := .of_qualified hdecl htype hpath
    exact (ih (hbecomes.admits hadmits)).of_becomes hbecomes hadmits
  | struct hdecl htype _ ih =>
    have hbecomes : L.Becomes _ _ := .of_struct hdecl htype
    exact (ih (hbecomes.admits hadmits)).of_becomes hbecomes hadmits
  | noMember => exact compares_nil
  | namedMember hnames hfields _ ih =>
    obtain ⟨hfirst, hrest⟩ := hsubject.cons
    exact .cons (.singleton_of_names hnames hfields) (compares_named hnames hfields hfirst)
      (ih hrest)
  | embeddedMember hnames htarget hfields _ ihFields ih =>
    obtain ⟨hfirst, hrest⟩ := hsubject.cons
    exact .cons (.singleton_of_embeds hnames htarget hfields)
      (compares_embedded hnames htarget hfirst (ihFields trivial)) (ih hrest)

end Loader

end Module

/-- A type with fields, for whose search an import of some files gets another name, keeps them, with
the same types and import lists, if and only if the lengths of the arrays stay in all members that
the search comes to in these files. Such a length is text, and the old name may stand in it. -/
theorem answerFor_requalify_iff {L : Loader} {r : Requalification}
    {here : String → SourceFile → Bool} (hadmits : L.Admits r here) {key : TypeKey}
    {fields : List StructField} (h : L.answerFor key = .ok fields) :
    (L.requalify r here).answerFor key = .ok fields ↔
      ∀ depth owner file member, L.Meets owner file member depth (.type key) →
        here owner.module file = true → ∀ s ∈ member.type.lengths, r.length s = s := by
  rw [Loader.answerFor_eq_ok_iff] at h ⊢
  have hcompares := h.compares hadmits trivial
  exact ⟨hcompares.lengths, hcompares.keeps⟩

/-- A member whose type is an array with a constant of an import for its length. -/
def countedMember : Go.Field :=
  .mk 6 ["X"] (.array "a.N" (.named "int")) none

/-- A file with a struct type of this member. -/
def countedFile : SourceFile :=
  ⟨"x.go", "app", [⟨3, some "a", "x/y"⟩], [structDecl "T" [countedMember]]⟩

/-- A loader whose packages have this file. -/
def countedLoader : Loader where
  load path := .ok ⟨path, "app", ⟨"/m"⟩, [countedFile]⟩
  finite := ⟨_, fun _ _ h _ hfile => by cases h; exact hfile⟩

/-- The name `b` for the import `a`. -/
def Go.Requalification.aToB : Requalification where
  old := "a"
  new := "b"
  length s := if s = "a.N" then "b.N" else s
  spelled s := by
    by_cases h : s = "a.N"
    · refine ⟨[.word "a", .dot, .word "N"], ?_, ?_⟩
      · rw [h]
        decide
      · rw [if_pos h]
        decide
    · refine ⟨[.number s], ?_, ?_⟩
      · simp [Go.lengthText, Go.Token.spelling]
      · rw [if_neg h]
        simp [Go.lengthText, Go.Token.spelling, Go.requalifyTokens, Go.requalifyToken]

/-- The length of the array keeps the name of the import, so the field changes with it. -/
theorem answerFor_requalify_iff_counted :
    countedLoader.Admits .aToB (fun _ _ => true) ∧ ∃ fields,
      countedLoader.answerFor ⟨"", "T"⟩ = .ok fields ∧
      fields.map (fun f => f.type.text) = ["[a.N]int"] ∧
      (countedLoader.requalify .aToB fun _ _ => true).answerFor ⟨"", "T"⟩ ≠ .ok fields := by
  have hadmits : countedLoader.Admits .aToB (fun _ _ => true) := by
    intro path p hload file hfile _
    cases hload
    cases List.mem_singleton.1 hfile
    exact ⟨by decide, by decide, by decide, by decide⟩
  obtain ⟨type, htype⟩ : ∃ t, TypeTemplate.ofType? countedMember.type [] = .ok t := ⟨_, by cbv⟩
  have hdecl : countedLoader.Declares ⟨"", "T"⟩ ⟨"", "app", ⟨"/m"⟩, [countedFile]⟩ countedFile
      (structDecl "T" [countedMember]) :=
    ⟨rfl, by simp [Package.findType?, countedFile, structDecl]⟩
  have hexpands : countedLoader.Expands ⟨"", "T"⟩ [⟨"X", "", type⟩] :=
    .struct hdecl (Go.TypeExpr.encloses_struct _) (.singleton_of_names rfl ⟨[], type, rfl, htype, rfl⟩)
  have hanswer := Loader.answerFor_eq_ok_iff.2 hexpands
  refine ⟨hadmits, _, hanswer, ?_, fun hsame => ?_⟩
  · rw [List.map_singleton, TypeTemplate.text_of_ofText? htype]
    decide
  · have hmeets : countedLoader.Meets ⟨"", "T"⟩ countedFile countedMember 1 (.type ⟨"", "T"⟩) :=
      .type ⟨_, _, _, _, hdecl, Go.TypeExpr.encloses_struct _, .struct⟩ (.here rfl)
    have hlength := (answerFor_requalify_iff hadmits hanswer).1 hsame _ _ _ _ hmeets rfl "a.N"
      List.mem_cons_self
    exact absurd hlength (by decide)

end StructCopy
