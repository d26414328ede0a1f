/-
  Proofs/Fields/Discovery: what is discovered on the way to the fields of a type.

  Whatever path the type of a field is imported from, the search for the fields has
  discovered it.
-/
import StructCopy.Proofs.Fields.Exactness

set_option autoImplicit false

namespace StructCopy

open StructCopy.Module (Loader Package)
open StructCopy.Go (SourceFile)

variable {L : Loader}

/-! ## Templates -/

theorem Template.of_ofText? {name text : String} {t : Template}
    (h : Template.ofText? name text = .ok t) :
    t.source = text ∧ segmentsFrom 0 text.toList = .ok t.segments := by
  unfold Template.ofText? at h
  split at h
  · next hsegments =>
    cases h
    exact ⟨rfl, hsegments⟩
  · cases h

theorem TypeTemplate.of_ofText? {text : String} {imports : List String} {t : TypeTemplate}
    (h : TypeTemplate.ofText? text imports = .ok t) :
    t.imports = imports ∧ Template.ofText? text text = .ok t.template := by
  unfold TypeTemplate.ofText? at h
  split at h
  · cases h
  · next hread =>
    split at h
    · cases h
    · cases h
      exact ⟨rfl, hread⟩

theorem TypeTemplate.imports_of_ofText? {text : String} {imports : List String}
    {t : TypeTemplate} (h : TypeTemplate.ofText? text imports = .ok t) : t.imports = imports :=
  (of_ofText? h).1

theorem TypeTemplate.text_of_ofText? {text : String} {imports : List String} {t : TypeTemplate}
    (h : TypeTemplate.ofText? text imports = .ok t) : t.text = text :=
  (Template.of_ofText? (of_ofText? h).2).1

/-- The segments of a type are read off its text. -/
theorem TypeTemplate.segmentsFrom_of_ofText? {text : String} {imports : List String}
    {t : TypeTemplate} (h : TypeTemplate.ofText? text imports = .ok t) :
    segmentsFrom 0 t.text.toList = .ok t.template.segments := by
  rw [text_of_ofText? h]
  exact (Template.of_ofText? (of_ofText? h).2).2

theorem TypeTemplate.imports_of_ofType? {type : Go.TypeExpr} {imports : List String}
    {t : TypeTemplate} (h : TypeTemplate.ofType? type imports = .ok t) : t.imports = imports :=
  imports_of_ofText? h

/-! ## Explorations that discover what their fields need -/

namespace Explore

/-- All import paths of the fields found are discovered. -/
def Covers (x : Explore L (List StructField)) : Prop :=
  ∀ fields, x.answer = .ok fields → ∀ f ∈ fields, ∀ m ∈ f.type.imports, m ∈ x.found

theorem covers_nil : (Pure.pure [] : Explore L (List StructField)).Covers := by
  intro fields h f hf
  cases h
  cases hf

theorem covers_fail (e : ResolveError) : (Explore.fail e : Explore L _).Covers := by
  intro fields h
  cases h

theorem Covers.bind {α : Type} {x : Explore L α} {f : α → Explore L (List StructField)}
    (hx : x.Steady) (hf : ∀ a, (f a).Steady) (h : ∀ a, (f a).Covers) : (x >>= f).Covers := by
  intro fields hanswer g hg m hm
  cases hx' : x.answer with
  | error e =>
    rw [answer_bind_error hx'] at hanswer
    cases hanswer
  | ok a =>
    rw [answer_bind_ok hx (hf a) hx'] at hanswer
    rw [found_bind_ok hx (hf a) hx']
    exact List.mem_append_right _ (h a fields hanswer g hg m hm)

theorem Covers.append {x y : Explore L (List StructField)} (hx : x.Steady) (hy : y.Steady)
    (hxc : x.Covers) (hyc : y.Covers) :
    (x >>= fun fields => y >>= fun more => Pure.pure (fields ++ more)).Covers := by
  intro all hanswer g hg m hm
  have hrest : ∀ fields : List StructField,
      (y >>= fun more => Pure.pure (fields ++ more) : Explore L _).Steady :=
    fun fields => .bind hy fun _ => .pure _
  cases hx' : x.answer with
  | error e =>
    rw [answer_bind_error hx'] at hanswer
    cases hanswer
  | ok fields =>
    rw [answer_bind_ok hx (hrest fields) hx'] at hanswer
    rw [found_bind_ok hx (hrest fields) hx']
    cases hy' : y.answer with
    | error e =>
      rw [answer_bind_error hy'] at hanswer
      cases hanswer
    | ok more =>
      have hpure : (Pure.pure (fields ++ more) : Explore L _).Steady := .pure _
      rw [answer_bind_ok (f := fun more => Pure.pure (fields ++ more)) hy hpure hy'] at hanswer
      rw [found_bind_ok (f := fun more => Pure.pure (fields ++ more)) hy hpure hy']
      cases hanswer
      rcases List.mem_append.1 hg with hg | hg
      · exact List.mem_append_left _ (hxc fields hx' g hg m hm)
      · refine List.mem_append_right _ (List.mem_append_left _ ?_)
        exact hyc more hy' g hg m hm

end Explore

/-! ## The search -/

theorem covers_namedFields (p : Package) (file : SourceFile) (member : Go.Field) :
    (namedFields p file member : Explore L _).Covers := by
  refine .bind (steady_importPaths p file _) (fun modules => ?_) fun modules => ?_
  · exact .bind (.discover _) fun _ => .bind (.ofTemplate _) fun _ => .pure _
  · intro fields hanswer f hf m hm
    have htemplate := Explore.Steady.ofTemplate (L := L)
      (TypeTemplate.ofType? member.type modules)
    let fieldsOf := fun type : TypeTemplate =>
      (pure (member.names.map fun name => ⟨name, member.tag.getD "", type⟩) :
        Explore L (List StructField))
    have hrest := Explore.Steady.bind (f := fieldsOf) htemplate fun type => .pure _
    rw [Explore.answer_bind_ok (.discover modules) hrest rfl] at hanswer
    rw [Explore.found_bind_ok (.discover modules) hrest rfl]
    refine List.mem_append_left _ ?_
    cases htype : TypeTemplate.ofType? member.type modules with
    | error e =>
      rw [Explore.answer_bind_error (e := .template e) (by rw [htype]; rfl)] at hanswer
      cases hanswer
    | ok type =>
      rw [Explore.answer_bind_ok (f := fieldsOf) (a := type) htemplate (.pure _)
        (by rw [htype]; rfl)] at hanswer
      cases hanswer
      obtain ⟨name, -, rfl⟩ := List.mem_map.1 hf
      rw [TypeTemplate.imports_of_ofType? htype] at hm
      exact hm

mutual

theorem covers_expandKey (root : String) (way : List TypeKey) (key : TypeKey)
    (hkey : key.module ∈ L.modules root) : (expandKey root way key hkey).Covers := by
  by_cases hway : key ∈ way
  · rw [expandKey, dif_pos hway]
    exact Explore.covers_fail _
  · have hsteady := fun p : { p // L.load key.module = .ok p } =>
      steady_expandIn root way key hkey hway p.val p.property
    rw [expandKey_of_not_mem hkey hway]
    refine .bind (.discover _) (fun _ => .bind (.package _) hsteady) fun _ => ?_
    refine .bind (.package _) hsteady fun p => ?_
    exact covers_expandIn root way key hkey hway p.val p.property
termination_by (L.room root way, 1)

theorem covers_expandIn (root : String) (way : List TypeKey) (key : TypeKey)
    (hkey : key.module ∈ L.modules root) (_hway : key ∉ way) (p : Package)
    (hload : L.load key.module = .ok p) : (expandIn root way key hkey p hload).Covers := by
  unfold expandIn
  split
  · exact Explore.covers_fail _
  · next file decl hfind =>
    split
    · exact covers_expandMembers root (way ++ [key]) key hkey p file _ _
    · next target _ =>
      split
      · exact Explore.covers_fail _
      · exact covers_expandKey root (way ++ [key]) ⟨key.module, target⟩ hkey
    · exact .bind (steady_importPath p file _) (fun _ => steady_expandKey _ _ _ _) fun m =>
        covers_expandKey root (way ++ [key]) _ _
    · exact Explore.covers_fail _
    · exact Explore.covers_fail _
    · exact Explore.covers_fail _
termination_by (L.room root way, 0)
decreasing_by
  all_goals
    apply Prod.Lex.left
    exact Loader.room_lt hload hkey ‹_› _hway

theorem covers_expandMembers (root : String) (way : List TypeKey) (key : TypeKey)
    (hkey : key.module ∈ L.modules root) (p : Package) (file : SourceFile)
    (hfile : ∃ path, L.load path = .ok p ∧ file ∈ p.files) (members : List Go.Field) :
    (expandMembers root way key hkey p file hfile members).Covers := by
  cases members with
  | nil =>
    rw [expandMembers]
    exact Explore.covers_nil
  | cons member rest =>
    have hrest := steady_expandMembers root way key hkey p file hfile rest
    have hmore := covers_expandMembers root way key hkey p file hfile rest
    rw [expandMembers]
    split
    · refine .bind (steady_embeddedKey key p file _) ?_ ?_
      · rintro ⟨target, htarget⟩
        exact .bind (steady_expandKey root way target _) fun _ => .bind hrest fun _ => .pure _
      · rintro ⟨target, htarget⟩
        exact .append (steady_expandKey root way target _) hrest
          (covers_expandKey root way target _) hmore
    · exact .append (steady_namedFields p file member) hrest (covers_namedFields p file member)
        hmore
termination_by (L.room root way, members.length + 1)
decreasing_by
  all_goals
    subst_vars
    apply Prod.Lex.right
    simp

end

theorem steady_expand (key : TypeKey) : (expand key : Explore L _).Steady :=
  steady_expandKey _ _ _ _

/-- The search for the fields of a type discovers all paths that their types are imported from. -/
theorem covers_expand (key : TypeKey) : (expand key : Explore L _).Covers :=
  covers_expandKey _ _ _ _

/-! ## Types by name -/

namespace Module.Loader

/-- The fields of a type, or why it has none. -/
def answerFor (L : Loader) (key : TypeKey) : Except ResolveError (List StructField) :=
  (expand key : Explore L _).answer

/-- The modules that the search for the fields of a type discovers. -/
def foundFor (L : Loader) (key : TypeKey) : List String :=
  (expand key : Explore L _).found

/-- The search answers with the fields that a type has. -/
theorem answerFor_eq_ok_iff {key : TypeKey} {fields : List StructField} :
    L.answerFor key = .ok fields ↔ L.Expands key fields := by
  constructor
  · intro h
    have hright := right_expandKey (L := L) key key.module [] key List.mem_cons_self .start
    unfold answerFor expand at h
    rw [h] at hright
    exact hright
  · intro h
    have hanswers := answers_of_yields h [] fun k hk => absurd hk List.not_mem_nil
    exact hanswers key.module List.mem_cons_self

theorem mem_foundFor {key : TypeKey} {fields : List StructField}
    (h : L.answerFor key = .ok fields) {f : StructField} (hf : f ∈ fields) {path : String}
    (hpath : path ∈ f.type.imports) : path ∈ L.foundFor key :=
  covers_expand key fields h f hf path hpath

end Module.Loader

end StructCopy
