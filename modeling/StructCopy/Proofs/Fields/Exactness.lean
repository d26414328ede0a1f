/-
  Proofs/Fields/Exactness: the search finds exactly the fields that there are.

  The search keeps the keys on its way and stops at a circle; `Expands` knows of no
  way.  The two agree: a key that comes up again on its own way lies on a circle, and
  a key with a field list lies on none.
-/
import StructCopy.Proofs.Fields.Expands
import StructCopy.Proofs.Fields.Steady
import StructCopy.Proofs.Template.TypeText

set_option autoImplicit false

namespace StructCopy

open StructCopy.Module (Loader Package PackageCache)
open StructCopy.Go (SourceFile TypeDecl TypeExpr)

variable {L : Loader}

/-! ## Imports -/

theorem steady_binds (qualifier : String) (i : Go.Import) :
    (binds qualifier i : Explore L Bool).Steady := by
  unfold binds
  split
  · exact .pure _
  · exact .bind (.packageName _) fun _ => .pure _

theorem answer_binds (qualifier : String) (i : Go.Import) :
    (binds qualifier i : Explore L Bool).answer = .ok (L.bindsQualifier qualifier i) := by
  unfold binds Loader.bindsQualifier
  cases i.name with
  | some name => rfl
  | none => exact Explore.answer_bind_ok (.packageName _) (.pure _) (Explore.answer_packageName _)

theorem steady_boundImport? (qualifier : String) (imports : List Go.Import) :
    (boundImport? qualifier imports : Explore L _).Steady := by
  induction imports with
  | nil => exact .pure _
  | cons i rest ih =>
    refine .bind (steady_binds qualifier i) fun bound => ?_
    cases bound with
    | true => exact .pure _
    | false => exact .bind ih fun _ => .pure _

theorem answer_boundImport? (qualifier : String) (imports : List Go.Import) :
    ∃ found, (boundImport? qualifier imports : Explore L _).answer = .ok found ∧
      found.map Subtype.val =
        (imports.find? (L.bindsQualifier qualifier)).map Go.Import.path := by
  induction imports with
  | nil => exact ⟨none, rfl, rfl⟩
  | cons i rest ih =>
    obtain ⟨found, hanswer, hfound⟩ := ih
    have hbinds := answer_binds (L := L) qualifier i
    cases h : L.bindsQualifier qualifier i with
    | true =>
      rw [h] at hbinds
      refine ⟨some ⟨i.path, by simp⟩, ?_, by simp [h]⟩
      refine Explore.answer_bind_ok (steady_binds qualifier i) ?_ hbinds
      exact .pure _
    | false =>
      rw [h] at hbinds
      refine ⟨found.map fun m => ⟨m.val, List.mem_cons_of_mem _ m.property⟩, ?_, ?_⟩
      · have hrest := steady_boundImport? (L := L) qualifier rest
        refine (Explore.answer_bind_ok (steady_binds qualifier i)
          (.bind hrest fun _ => .pure _) hbinds).trans ?_
        exact Explore.answer_bind_ok hrest (.pure _) hanswer
      · rw [List.find?_cons, h, ← hfound, Option.map_map]
        rfl

theorem steady_importPath (p : Package) (file : SourceFile) (qualifier : String) :
    (importPath p file qualifier : Explore L _).Steady := by
  refine .bind (steady_boundImport? qualifier file.imports) fun found => ?_
  cases found with
  | some m => exact .pure _
  | none => exact .fail _

/-- A qualifier leads to the path behind it, or else no import binds it. -/
theorem answer_importPath (p : Package) (file : SourceFile) (qualifier : String) :
    (∃ m h, L.pathBehind? file qualifier = some m ∧
      (importPath p file qualifier : Explore L _).answer = .ok ⟨m, h⟩) ∨
    (L.pathBehind? file qualifier = none ∧
      (importPath p file qualifier : Explore L _).answer =
        .error (.importNotFound qualifier p.path file.name)) := by
  obtain ⟨found, hanswer, hfound⟩ := answer_boundImport? (L := L) qualifier file.imports
  have hsteady := steady_boundImport? (L := L) qualifier file.imports
  cases found with
  | some m =>
    refine .inl ⟨m.val, m.property, hfound.symm, Explore.answer_bind_ok hsteady ?_ hanswer⟩
    exact .pure _
  | none => exact .inr ⟨hfound.symm, Explore.answer_bind_ok hsteady (.fail _) hanswer⟩

theorem steady_importPaths (p : Package) (file : SourceFile) (qualifiers : List String) :
    (importPaths p file qualifiers : Explore L _).Steady := by
  induction qualifiers with
  | nil => exact .pure _
  | cons q rest ih =>
    exact .bind (steady_importPath p file q) fun _ => .bind ih fun _ => .pure _

/-- Qualifiers lead to the paths behind them, or else no import binds one of them. -/
theorem answer_importPaths (p : Package) (file : SourceFile) (qualifiers : List String) :
    (∃ modules, qualifiers.mapM (L.pathBehind? file) = some modules ∧
      (importPaths p file qualifiers : Explore L _).answer = .ok modules) ∨
    (qualifiers.mapM (L.pathBehind? file) = none ∧
      ∃ q, (importPaths p file qualifiers : Explore L _).answer =
        .error (.importNotFound q p.path file.name)) := by
  induction qualifiers with
  | nil => exact .inl ⟨[], rfl, rfl⟩
  | cons q rest ih =>
    have hsteady := steady_importPath (L := L) p file q
    have hrest := steady_importPaths (L := L) p file rest
    rw [List.mapM_cons]
    rcases answer_importPath (L := L) p file q with ⟨m, hm, hpath, hq⟩ | ⟨hpath, hq⟩
    · have hstep := Explore.answer_bind_ok (f := fun m : { m // m ∈ _ } =>
        importPaths p file rest >>= fun ms => pure (m.val :: ms)) hsteady
        (.bind hrest fun _ => .pure _) hq
      rw [hpath]
      rcases ih with ⟨modules, hmodules, hanswer⟩ | ⟨hmodules, q', hanswer⟩
      · rw [hmodules]
        exact .inl ⟨m :: modules, rfl,
          hstep.trans (Explore.answer_bind_ok hrest (.pure _) hanswer)⟩
      · rw [hmodules]
        exact .inr ⟨rfl, q', hstep.trans (Explore.answer_bind_error hanswer)⟩
    · rw [hpath]
      exact .inr ⟨rfl, q, Explore.answer_bind_error hq⟩

/-! ## Members -/

/-- The error is neither a circle nor a fault of a template. -/
def ResolveError.Plain : ResolveError → Prop
  | .circular _ | .template _ => False
  | _ => True

theorem ResolveError.Plain.ne_circular {e : ResolveError} (h : e.Plain) (chain : List TypeKey) :
    e ≠ .circular chain := by
  rintro rfl
  exact h

theorem steady_embeddedKey (key : TypeKey) (p : Package) (file : SourceFile) (type : TypeExpr) :
    (embeddedKey key p file type : Explore L _).Steady := by
  fun_induction embeddedKey key p file type with
  | case1 inner ih => exact ih
  | case2 elem ih => exact ih
  | case3 name => exact .pure _
  | case4 qualifier name => exact .bind (steady_importPath p file qualifier) fun _ => .pure _
  | case5 => exact .fail _

/-- An embedded member names a key, or else there is no such key and a plain error. -/
theorem answer_embeddedKey (key : TypeKey) (p : Package) (file : SourceFile) (type : TypeExpr) :
    (∃ target h, L.Embeds key file type target ∧
      (embeddedKey key p file type : Explore L _).answer = .ok ⟨target, h⟩) ∨
    ((∀ target, ¬ L.Embeds key file type target) ∧
      ∃ e, (embeddedKey key p file type : Explore L _).answer = .error e ∧ e.Plain) := by
  fun_induction embeddedKey key p file type with
  | case1 inner ih =>
    rcases ih with ⟨target, h, hembeds, hanswer⟩ | ⟨hnone, e, hanswer, he⟩
    · exact .inl ⟨target, h, .paren hembeds, hanswer⟩
    · refine .inr ⟨?_, e, hanswer, he⟩
      intro target hembeds
      cases hembeds with
      | paren h => exact hnone target h
  | case2 elem ih =>
    rcases ih with ⟨target, h, hembeds, hanswer⟩ | ⟨hnone, e, hanswer, he⟩
    · exact .inl ⟨target, h, .pointer hembeds, hanswer⟩
    · refine .inr ⟨?_, e, hanswer, he⟩
      intro target hembeds
      cases hembeds with
      | pointer h => exact hnone target h
  | case3 name => exact .inl ⟨⟨key.module, name⟩, .inl rfl, .named name, rfl⟩
  | case4 qualifier name =>
    have hsteady := steady_importPath (L := L) p file qualifier
    rcases answer_importPath (L := L) p file qualifier with ⟨m, hm, hpath, hq⟩ | ⟨hpath, hq⟩
    · refine .inl ⟨⟨m, name⟩, .inr hm, .qualified hpath,
        Explore.answer_bind_ok hsteady ?_ hq⟩
      exact .pure _
    · refine .inr ⟨?_, _, Explore.answer_bind_error hq, trivial⟩
      intro target hembeds
      cases hembeds with
      | qualified h => cases hpath.symm.trans h
  | case5 other hparen hpointer hnamed hqualified =>
    refine .inr ⟨?_, _, rfl, trivial⟩
    intro target hembeds
    cases hembeds with
    | named name => exact hnamed name rfl
    | qualified h => exact hqualified _ _ rfl
    | pointer h => exact hpointer _ rfl
    | paren h => exact hparen _ rfl

theorem steady_namedFields (p : Package) (file : SourceFile) (member : Go.Field) :
    (namedFields p file member : Explore L _).Steady :=
  .bind (steady_importPaths p file _) fun _ => .bind (.discover _) fun _ =>
    .bind (.ofTemplate _) fun _ => .pure _

/-- A member declares its fields, or else it declares none: a qualifier of its type does not
resolve, which is a plain error, or the type forms no template. -/
theorem answer_namedFields (p : Package) (file : SourceFile) (member : Go.Field) :
    (∃ fields, L.NamesFields file member fields ∧
      (namedFields p file member : Explore L _).answer = .ok fields) ∨
    ((∀ fields, ¬ L.NamesFields file member fields) ∧
      ∃ e, (namedFields p file member : Explore L _).answer = .error e ∧
        (e.Plain ∧ member.type.qualifiers.mapM (L.pathBehind? file) = none ∨
          ∃ fault, e = .template fault ∧ L.FormsNoTemplate file member fault)) := by
  have hsteady := steady_importPaths (L := L) p file member.type.qualifiers
  rcases answer_importPaths (L := L) p file member.type.qualifiers with
    ⟨modules, hmodules, hpaths⟩ | ⟨hmodules, q, hpaths⟩
  · have hdiscover : (namedFields p file member : Explore L _).answer =
        (Explore.ofTemplate (TypeTemplate.ofType? member.type modules) >>= fun type =>
          pure (member.names.map fun name => ⟨name, member.tag.getD "", type⟩) :
            Explore L _).answer := by
      have hrest := Explore.Steady.bind (L := L)
        (.ofTemplate (TypeTemplate.ofType? member.type modules)) fun type =>
          .pure (member.names.map fun name => (⟨name, member.tag.getD "", type⟩ : StructField))
      refine (Explore.answer_bind_ok hsteady (.bind (.discover modules) fun _ => hrest)
        hpaths).trans ?_
      exact Explore.answer_bind_ok (.discover modules) hrest rfl
    rw [hdiscover]
    cases htype : TypeTemplate.ofType? member.type modules with
    | ok type => exact .inl ⟨_, ⟨modules, type, hmodules, htype, rfl⟩, rfl⟩
    | error e =>
      refine .inr ⟨?_, .template e, rfl, .inr ⟨e, rfl, modules, hmodules, htype⟩⟩
      rintro fields ⟨modules', type, hmodules', htype', -⟩
      cases hmodules.symm.trans hmodules'
      cases htype.symm.trans htype'
  · refine .inr ⟨?_, _, Explore.answer_bind_error hpaths, .inl ⟨trivial, hmodules⟩⟩
    rintro fields ⟨modules', type, hmodules', -, -⟩
    cases hmodules.symm.trans hmodules'

/-! ## The search is steady -/

theorem exists_loaded {key : TypeKey} {p : Package} {file : SourceFile} {decl : Go.TypeDecl}
    (hload : L.load key.module = .ok p) (hfind : p.findType? key.name = some (file, decl)) :
    ∃ path, L.load path = .ok p ∧ file ∈ p.files :=
  ⟨key.module, hload, (Module.mem_of_findType? hfind).1⟩

theorem mem_modules_of_findType? {root m : String} {key : TypeKey} {p : Package}
    {file : SourceFile} {decl : Go.TypeDecl} (hload : L.load key.module = .ok p)
    (hfind : p.findType? key.name = some (file, decl))
    (hm : m ∈ file.imports.map Go.Import.path) : m ∈ L.modules root :=
  Loader.mem_modules_of_import hload (Module.mem_of_findType? hfind).1 hm

/-- The search for a key when the package of its module has been loaded. -/
def expandIn (root : String) (way : List TypeKey) (key : TypeKey)
    (hkey : key.module ∈ L.modules root) (p : Package) (hload : L.load key.module = .ok p) :
    Explore L (List StructField) :=
  match hfind : p.findType? key.name with
  | none => Explore.fail (.typeNotFound key.module key.name)
  | some (file, decl) =>
    match decl.type.bare with
    | .struct members =>
      expandMembers root (way ++ [key]) key hkey p file
        (exists_loaded hload hfind) members
    | .named target =>
      if predeclared.contains target then Explore.fail (.notAStruct key (.named target))
      else expandKey root (way ++ [key]) ⟨key.module, target⟩ hkey
    | .qualified qualifier name => do
      let ⟨m, hm⟩ ← importPath p file qualifier
      expandKey root (way ++ [key]) ⟨m, name⟩
        (mem_modules_of_findType? (m := m) hload hfind hm)
    | .generic base args => Explore.fail (.unsupportedAlias key (.generic base args))
    | .pointer elem => Explore.fail (.unsupportedAlias key (.pointer elem))
    | other => Explore.fail (.notAStruct key other)

theorem expandKey_of_not_mem {root : String} {way : List TypeKey} {key : TypeKey}
    (hkey : key.module ∈ L.modules root) (hway : key ∉ way) :
    expandKey root way key hkey = (do
      Explore.discover [key.module]
      let p ← Explore.package key.module
      expandIn root way key hkey p.val p.property) := by
  rw [expandKey, dif_neg hway]
  rfl

mutual

theorem steady_expandKey (root : String) (way : List TypeKey) (key : TypeKey)
    (hkey : key.module ∈ L.modules root) : (expandKey root way key hkey).Steady := by
  by_cases hway : key ∈ way
  · rw [expandKey, dif_pos hway]
    exact .fail _
  · rw [expandKey_of_not_mem hkey hway]
    exact .bind (.discover _) fun _ => .bind (.package _) fun p =>
      steady_expandIn root way key hkey hway p.val p.property
termination_by (L.room root way, 1)

theorem steady_expandIn (root : String) (way : List TypeKey) (key : TypeKey)
    (hkey : key.module ∈ L.modules root) (_hway : key ∉ way) (p : Package)
    (hload : L.load key.module = .ok p) : (expandIn root way key hkey p hload).Steady := by
  unfold expandIn
  split
  · exact .fail _
  · next file decl hfind =>
    split
    · exact steady_expandMembers root (way ++ [key]) key hkey p file _ _
    · next target _ =>
      split
      · exact .fail _
      · exact steady_expandKey root (way ++ [key]) ⟨key.module, target⟩ hkey
    · exact .bind (steady_importPath p file _) fun m =>
        steady_expandKey root (way ++ [key]) _ _
    · exact .fail _
    · exact .fail _
    · exact .fail _
termination_by (L.room root way, 0)
decreasing_by
  all_goals
    apply Prod.Lex.left
    exact Loader.room_lt hload hkey ‹_› _hway

theorem steady_expandMembers (root : String) (way : List TypeKey) (key : TypeKey)
    (hkey : key.module ∈ L.modules root) (p : Package) (file : SourceFile)
    (hfile : ∃ path, L.load path = .ok p ∧ file ∈ p.files) (members : List Go.Field) :
    (expandMembers root way key hkey p file hfile members).Steady := by
  cases members with
  | nil =>
    rw [expandMembers]
    exact .pure _
  | cons member rest =>
    have hrest := steady_expandMembers root way key hkey p file hfile rest
    rw [expandMembers]
    split
    · refine .bind (steady_embeddedKey key p file _) ?_
      rintro ⟨target, htarget⟩
      exact .bind (steady_expandKey root way target _) fun _ => .bind hrest fun _ => .pure _
    · exact .bind (steady_namedFields p file member) fun _ => .bind hrest fun _ => .pure _
termination_by (L.room root way, members.length + 1)
decreasing_by
  all_goals
    subst_vars
    apply Prod.Lex.right
    simp

end

/-! ## One step of the search -/

/-- How the search for a key that is not on the way goes on: with what the key becomes, or not at
all, with a plain error. -/
inductive GoesOn (L : Loader) (root : String) (way : List TypeKey) (key : TypeKey) :
    Except ResolveError (List StructField) → Prop where
  | type {target : TypeKey} (hbecomes : L.Becomes key (.type target))
      (htarget : target.module ∈ L.modules root) :
      GoesOn L root way key (expandKey root (way ++ [key]) target htarget).answer
  | members {p : Package} {file : SourceFile} {members : List Go.Field}
      (hbecomes : L.Becomes key (.membersOf key file members))
      (hkey : key.module ∈ L.modules root) (hfile : ∃ path, L.load path = .ok p ∧ file ∈ p.files) :
      GoesOn L root way key
        (expandMembers root (way ++ [key]) key hkey p file hfile members).answer
  | stuck {e : ResolveError} (hnone : ∀ subject, ¬ L.Becomes key subject) (he : e.Plain) :
      GoesOn L root way key (.error e)

theorem answer_expandKey_of_mem {root : String} {way : List TypeKey} {key : TypeKey}
    (hkey : key.module ∈ L.modules root) (hway : key ∈ way) :
    (expandKey root way key hkey).answer = .error (.circular (way ++ [key])) := by
  rw [expandKey, dif_pos hway, Explore.answer_fail]

theorem goesOn_of_not_mem {root : String} {way : List TypeKey} {key : TypeKey}
    (hkey : key.module ∈ L.modules root) (hway : key ∉ way) :
    GoesOn L root way key (expandKey root way key hkey).answer := by
  have hsteady := fun p : { p // L.load key.module = .ok p } =>
    steady_expandIn root way key hkey hway p.val p.property
  rw [expandKey_of_not_mem hkey hway, Explore.answer_bind_ok (.discover _)
    (.bind (.package _) hsteady) rfl]
  rcases L.load_cases key.module with ⟨p, hload⟩ | ⟨e, hload⟩
  · rw [Explore.answer_bind_ok (.package _) (hsteady _) (Explore.answer_package_ok hload)]
    dsimp only
    unfold expandIn
    split
    · next hfind =>
      refine .stuck (Loader.not_becomes_of_not_declares ?_) trivial
      rintro p' file decl ⟨hload', hfind'⟩
      cases hload.symm.trans hload'
      cases hfind.symm.trans hfind'
    · next file decl hfind =>
      have hdecl : L.Declares key p file decl := ⟨hload, hfind⟩
      have htype := decl.type.encloses_bare
      generalize decl.type.bare = type at htype ⊢
      split
      · exact .members (.of_struct hdecl htype) hkey _
      · split
        · next htarget =>
          refine .stuck (hdecl.not_becomes htype ?_) trivial
          intro subject hby
          cases hby with
          | named hnew => exact hnew (by simpa using htarget)
        · next htarget =>
          have hbecomes := Loader.Becomes.of_named hdecl htype (by simpa using htarget)
          exact .type hbecomes hkey
      · next qualifier name =>
        have hpathSteady := steady_importPath (L := L) p file qualifier
        rcases answer_importPath (L := L) p file qualifier with ⟨m, hm, hpath, hq⟩ | ⟨hpath, hq⟩
        · rw [Explore.answer_bind_ok hpathSteady (steady_expandKey _ _ _ _) hq]
          exact .type (.of_qualified hdecl htype hpath) _
        · rw [Explore.answer_bind_error hq]
          refine .stuck (hdecl.not_becomes htype ?_) trivial
          intro subject hby
          cases hby with
          | qualified hpath' => cases hpath.symm.trans hpath'
      · exact .stuck (hdecl.not_becomes htype nofun) trivial
      · exact .stuck (hdecl.not_becomes htype nofun) trivial
      · next hstruct hnamed hqualified _ _ =>
        refine .stuck (hdecl.not_becomes htype ?_) trivial
        intro subject hby
        cases hby with
        | named => exact hnamed _ rfl
        | qualified => exact hqualified _ _ rfl
        | struct => exact hstruct _ rfl
  · rw [Explore.answer_bind_error (Explore.answer_package_error hload)]
    refine .stuck (Loader.not_becomes_of_not_declares ?_) trivial
    intro p file decl hdecl
    cases hload.symm.trans hdecl.1

/-! ## The way -/

/-- A way of references from `root` that leads to `key`: it starts at the root, and each key on it
refers to the next one, the last one to `key`. -/
inductive LeadsTo (L : Loader) (root : TypeKey) : List TypeKey → TypeKey → Prop where
  | start : LeadsTo L root [] root
  | step {way : List TypeKey} {key target : TypeKey} (h : LeadsTo L root way key)
      (hrefers : L.Refers key target) : LeadsTo L root (way ++ [key]) target

theorem LeadsTo.reaches {root key : TypeKey} {way : List TypeKey} (h : LeadsTo L root way key) :
    Relation.ReflTransGen L.Refers root key := by
  induction h with
  | start => exact .refl
  | step _ hrefers ih => exact ih.tail hrefers

theorem LeadsTo.transGen_of_mem {root key k : TypeKey} {way : List TypeKey}
    (h : LeadsTo L root way key) (hk : k ∈ way) : Relation.TransGen L.Refers k key := by
  induction h with
  | start => cases hk
  | step _ hrefers ih =>
    rcases List.mem_append.1 hk with hk | hk
    · exact (ih hk).tail hrefers
    · rw [List.mem_singleton.1 hk]
      exact .single hrefers

/-! ## One member -/

/-- Field lists put together. -/
def both (first more : Except ResolveError (List StructField)) :
    Except ResolveError (List StructField) := do
  return (← first) ++ (← more)

theorem answer_both {x y : Explore L (List StructField)} (hx : x.Steady) (hy : y.Steady) :
    (x >>= fun fields => y >>= fun more => pure (fields ++ more)).answer =
      both x.answer y.answer := by
  have hafter : ∀ fields, (y >>= fun more => pure (fields ++ more)).Steady :=
    fun _ => .bind hy fun _ => .pure _
  cases hfirst : x.answer with
  | error e => exact Explore.answer_bind_error hfirst
  | ok fields =>
    rw [Explore.answer_bind_ok hx (hafter fields) hfirst]
    cases hmore : y.answer with
    | error e => exact Explore.answer_bind_error hmore
    | ok more =>
      refine Explore.answer_bind_ok hy ?_ hmore
      exact .pure _

/-- The answers that the search may give for a member alone. -/
inductive MemberStep (L : Loader) (root : String) (way : List TypeKey) (key : TypeKey)
    (file : SourceFile) (member : Go.Field) : Except ResolveError (List StructField) → Prop where
  | named {p : Package} (hnames : member.isEmbedded = false) :
      MemberStep L root way key file member (namedFields p file member : Explore L _).answer
  | embedded {target : TypeKey} (htarget : target.module ∈ L.modules root)
      (hnames : member.isEmbedded = true) (hembeds : L.Embeds key file member.type target) :
      MemberStep L root way key file member (expandKey root way target htarget).answer
  | stuck {e : ResolveError} (hnames : member.isEmbedded = true)
      (hnone : ∀ target, ¬ L.Embeds key file member.type target) (he : e.Plain) :
      MemberStep L root way key file member (.error e)

/-- A member is read off or expanded, and then the rest of the members are. -/
theorem answer_expandMembers_cons {root : String} (way : List TypeKey) {key : TypeKey}
    (hkey : key.module ∈ L.modules root) {p : Package} {file : SourceFile}
    (hfile : ∃ path, L.load path = .ok p ∧ file ∈ p.files) (member : Go.Field)
    (rest : List Go.Field) :
    ∃ first, MemberStep L root way key file member first ∧
      (expandMembers root way key hkey p file hfile (member :: rest)).answer =
        both first (expandMembers root way key hkey p file hfile rest).answer := by
  have hrest := steady_expandMembers root way key hkey p file hfile rest
  rw [expandMembers]
  cases hembedded : member.isEmbedded with
  | false => exact ⟨_, .named hembedded, answer_both (steady_namedFields p file member) hrest⟩
  | true =>
    have hsteady := steady_embeddedKey (L := L) key p file member.type
    rcases answer_embeddedKey (L := L) key p file member.type with
      ⟨target, htarget, hembeds, hanswer⟩ | ⟨hnone, e, hanswer, he⟩
    · have hin : target.module ∈ L.modules root := by
        rcases htarget with h | h
        · rw [h]
          exact hkey
        · obtain ⟨path, hload, hmem⟩ := hfile
          exact Loader.mem_modules_of_import hload hmem h
      have hexpand := steady_expandKey root way target hin
      refine ⟨_, .embedded hin hembedded hembeds, ?_⟩
      refine (Explore.answer_bind_ok hsteady ?_ hanswer).trans (answer_both hexpand hrest)
      exact .bind hexpand fun _ => .bind hrest fun _ => .pure _
    · exact ⟨.error e, .stuck hembedded hnone he, Explore.answer_bind_error hanswer⟩

/-! ## Exactness -/

/-- The answer is right: the fields are those of the subject, and a circle is one that references
from the start lead to. -/
def Right (L : Loader) (start : TypeKey) (subject : Loader.Subject) :
    Except ResolveError (List StructField) → Prop
  | .ok fields => L.Yields subject fields
  | .error e => ∀ chain, e = .circular chain → ∃ key, chain.getLast? = some key ∧
      Relation.ReflTransGen L.Refers start key ∧ L.OnCircle key

theorem right_error {start : TypeKey} {subject : Loader.Subject} {e : ResolveError}
    (he : ∀ chain, e ≠ .circular chain) : Right L start subject (.error e) :=
  fun chain h => absurd h (he chain)

/-- A right answer for a part is one for the whole, if their fields are the same. -/
theorem Right.of_part {start : TypeKey} {part whole : Loader.Subject}
    {answer : Except ResolveError (List StructField)} (h : Right L start part answer)
    (hyields : ∀ fields, L.Yields part fields → L.Yields whole fields) :
    Right L start whole answer := by
  cases answer with
  | ok fields => exact hyields fields h
  | error e => exact h

/-- Right answers for a member and for the rest make a right answer for both. -/
theorem Right.cons {start key : TypeKey} {file : SourceFile} {member : Go.Field}
    {rest : List Go.Field} {first more : Except ResolveError (List StructField)}
    (hfirst : Right L start (.membersOf key file [member]) first)
    (hmore : Right L start (.membersOf key file rest) more) :
    Right L start (.membersOf key file (member :: rest)) (both first more) := by
  cases first with
  | error e => exact hfirst
  | ok fields =>
    cases more with
    | error e => exact hmore
    | ok more => exact Loader.Yields.cons hfirst hmore

mutual

theorem right_expandKey (start : TypeKey) (root : String) (way : List TypeKey) (key : TypeKey)
    (hkey : key.module ∈ L.modules root) (hleads : LeadsTo L start way key) :
    Right L start (.type key) (expandKey root way key hkey).answer := by
  by_cases hway : key ∈ way
  · rw [answer_expandKey_of_mem hkey hway]
    intro chain hchain
    cases hchain
    exact ⟨key, List.getLast?_concat, hleads.reaches, hleads.transGen_of_mem hway⟩
  · have hstep := goesOn_of_not_mem hkey hway
    generalize (expandKey root way key hkey).answer = answer at hstep ⊢
    cases hstep with
    | type hbecomes htarget =>
      have hright := right_expandKey start root (way ++ [key]) _ htarget
        (hleads.step hbecomes.refers)
      exact hright.of_part fun _ h => Loader.expands_iff.2 ⟨_, hbecomes, h⟩
    | members hbecomes hkey hfile =>
      have hright := right_expandMembers start root (way ++ [key]) key hkey _ _ hfile _
        fun target htarget => hleads.step (hbecomes.refers_of_embeds htarget)
      exact hright.of_part fun _ h => Loader.expands_iff.2 ⟨_, hbecomes, h⟩
    | stuck _ he => exact right_error he.ne_circular
termination_by (L.room root way, 0)
decreasing_by
  all_goals
    obtain ⟨p, file, decl, type, hdecl, -⟩ := hbecomes
    apply Prod.Lex.left
    exact Loader.room_lt hdecl.1 hkey hdecl.2 hway

theorem right_expandMembers (start : TypeKey) (root : String) (way : List TypeKey) (key : TypeKey)
    (hkey : key.module ∈ L.modules root) (p : Package) (file : SourceFile)
    (hfile : ∃ path, L.load path = .ok p ∧ file ∈ p.files) (members : List Go.Field)
    (hleads : ∀ target, L.EmbedsAmong key file members target → LeadsTo L start way target) :
    Right L start (.membersOf key file members)
      (expandMembers root way key hkey p file hfile members).answer := by
  cases members with
  | nil =>
    rw [expandMembers]
    exact .noMember
  | cons member rest =>
    obtain ⟨first, hstep, hanswer⟩ :=
      answer_expandMembers_cons way hkey hfile member rest
    have hmore := right_expandMembers start root way key hkey p file hfile rest
      fun target ⟨m, hm, htarget⟩ => hleads target ⟨m, List.mem_cons_of_mem _ hm, htarget⟩
    rw [hanswer]
    refine Right.cons ?_ hmore
    cases hstep with
    | @named p hnames =>
      rcases answer_namedFields (L := L) p file member with
        ⟨fields, hfields, h⟩ | ⟨-, e, h, he⟩
      · rw [h]
        exact Loader.Yields.singleton_of_names hnames hfields
      · rw [h]
        refine right_error fun chain => ?_
        rcases he with ⟨he, -⟩ | ⟨fault, rfl, -⟩
        · exact he.ne_circular chain
        · exact ResolveError.noConfusion
    | embedded htarget hnames hembeds =>
      have hright := right_expandKey start root way _ htarget
        (hleads _ ⟨member, List.mem_cons_self, hnames, hembeds⟩)
      exact hright.of_part fun _ => .singleton_of_embeds hnames hembeds
    | stuck hnames hnone he => exact right_error he.ne_circular
termination_by (L.room root way, members.length + 1)
decreasing_by
  all_goals
    subst_vars
    apply Prod.Lex.right
    simp

end

/-- Every key on the way leads to the subject by references. -/
def Behind (L : Loader) (way : List TypeKey) : Loader.Subject → Prop
  | .type key => ∀ k ∈ way, Relation.TransGen L.Refers k key
  | .membersOf key file members => ∀ k ∈ way, ∀ target,
      L.EmbedsAmong key file members target → Relation.TransGen L.Refers k target

/-- What the search answers for a subject, wherever it comes from. -/
def Answers (L : Loader) (way : List TypeKey) (answer : Except ResolveError (List StructField)) :
    Loader.Subject → Prop
  | .type key => ∀ root (hkey : key.module ∈ L.modules root),
      (expandKey root way key hkey).answer = answer
  | .membersOf key file members => ∀ root (hkey : key.module ∈ L.modules root) p
      (hfile : ∃ path, L.load path = .ok p ∧ file ∈ p.files),
      (expandMembers root way key hkey p file hfile members).answer = answer

theorem Behind.snoc {way : List TypeKey} {key target : TypeKey} (h : Behind L way (.type key))
    (hrefers : L.Refers key target) : Behind L (way ++ [key]) (.type target) := by
  intro k hk
  rcases List.mem_append.1 hk with hk | hk
  · exact (h k hk).tail hrefers
  · rw [List.mem_singleton.1 hk]
    exact .single hrefers

/-- A key with fields does not come up again on its own way. -/
theorem Behind.not_mem {way : List TypeKey} {key : TypeKey} {fields : List StructField}
    (h : Behind L way (.type key)) (hexpands : L.Expands key fields) : key ∉ way :=
  fun hmem => hexpands.not_onCircle (h key hmem)

/-- The search answers for a key that is not on the way what it answers for that which its fields
are taken from. -/
theorem answers_of_becomes {way : List TypeKey} {key : TypeKey} {subject : Loader.Subject}
    {result : Except ResolveError (List StructField)} (hbecomes : L.Becomes key subject)
    (hnew : key ∉ way) (hway : Behind L way (.type key))
    (h : Behind L (way ++ [key]) subject → Answers L (way ++ [key]) result subject) :
    Answers L way result (.type key) := by
  intro root hkey
  have hstep := goesOn_of_not_mem hkey hnew
  generalize (expandKey root way key hkey).answer = answer at hstep ⊢
  cases hstep with
  | type hbecomes' htarget =>
    cases hbecomes.unique hbecomes'
    exact h (hway.snoc hbecomes.refers) root htarget
  | members hbecomes' hkey hfile =>
    cases hbecomes.unique hbecomes'
    refine h (fun k hk target htarget => ?_) root hkey _ hfile
    exact hway.snoc (hbecomes.refers_of_embeds htarget) k hk
  | stuck hnone => exact absurd hbecomes (hnone subject)

/-- The search finds the fields that there are, if the keys on the way lead to the subject. -/
theorem answers_of_yields {subject : Loader.Subject} {fields : List StructField}
    (h : L.Yields subject fields) (way : List TypeKey) (hway : Behind L way subject) :
    Answers L way (.ok fields) subject := by
  induction h generalizing way with
  | named hdecl htype htarget h ih =>
    have hnew := hway.not_mem (.named hdecl htype htarget h)
    exact answers_of_becomes (.of_named hdecl htype htarget) hnew hway (ih _)
  | qualified hdecl htype hpath h ih =>
    have hnew := hway.not_mem (.qualified hdecl htype hpath h)
    exact answers_of_becomes (.of_qualified hdecl htype hpath) hnew hway (ih _)
  | struct hdecl htype h ih =>
    have hnew := hway.not_mem (.struct hdecl htype h)
    exact answers_of_becomes (.of_struct hdecl htype) hnew hway (ih _)
  | noMember =>
    intro root hkey p hfile
    rw [expandMembers]
    rfl
  | @namedMember key file member rest fields more hnames hfields h ih =>
    intro root hkey p hfile
    obtain ⟨first, hstep, hanswer⟩ :=
      answer_expandMembers_cons way hkey hfile member rest
    rw [hanswer, ih way (fun k hk target ⟨m, hm, htarget⟩ =>
      hway k hk target ⟨m, List.mem_cons_of_mem _ hm, htarget⟩) root hkey p hfile]
    cases hstep with
    | @named p =>
      rcases answer_namedFields (L := L) p file member with ⟨fields', hfields', h⟩ | ⟨hnone, -⟩
      · rw [h, hfields.unique hfields']
        rfl
      · exact absurd hfields (hnone fields)
    | embedded _ hnames' => cases hnames.symm.trans hnames'
    | stuck hnames' => cases hnames.symm.trans hnames'
  | @embeddedMember key target file member rest fields more hnames htarget hfields h ihfields ih =>
    intro root hkey p hfile
    obtain ⟨first, hstep, hanswer⟩ :=
      answer_expandMembers_cons way hkey hfile member rest
    rw [hanswer, ih way (fun k hk target ⟨m, hm, htarget⟩ =>
      hway k hk target ⟨m, List.mem_cons_of_mem _ hm, htarget⟩) root hkey p hfile]
    cases hstep with
    | named hnames' => cases hnames.symm.trans hnames'
    | embedded hin _ hembeds =>
      cases htarget.unique hembeds
      have hbehind : Behind L way (.type target) := fun k hk =>
        hway k hk target ⟨member, List.mem_cons_self, hnames, htarget⟩
      rw [ihfields way hbehind root hin]
      rfl
    | stuck _ hnone => exact absurd htarget (hnone target)

/-! ## The search and the declarations agree -/

/-- The search comes to an end for every type, whatever packages have been loaded before. It gives
the type its fields if and only if it has them, so types that are met twice are no circles; and it
reports a circle only where references from the type really lead to one. -/
theorem expand_exact (cache : PackageCache L) (hcache : cache.Reached) (key : TypeKey) :
    ((∃ fields, L.Expands key fields) ∨ ∃ e, (expand key cache).result = .error e) ∧
    (∀ fields, (expand key cache).result = .ok fields ↔ L.Expands key fields) ∧
    (∀ chain, (expand key cache).result = .error (.circular chain) →
      ∃ k, chain.getLast? = some k ∧ Relation.ReflTransGen L.Refers key k ∧ L.OnCircle k) := by
  have hanswer := (steady_expandKey (L := L) key.module [] key List.mem_cons_self).result cache
    hcache.honest
  have hright := right_expandKey (L := L) key key.module [] key List.mem_cons_self .start
  have hfields : ∀ fields, (expand key cache).result = .ok fields ↔ L.Expands key fields := by
    intro fields
    constructor
    · intro h
      rw [← hanswer] at hright
      unfold expand at h
      rw [h] at hright
      exact hright
    · intro h
      have hfound := answers_of_yields h [] fun k hk => absurd hk List.not_mem_nil
      exact hanswer.trans (hfound key.module List.mem_cons_self)
  refine ⟨?_, hfields, ?_⟩
  · cases h : (expand key cache).result with
    | ok fields => exact .inl ⟨fields, (hfields fields).1 h⟩
    | error e => exact .inr ⟨e, rfl⟩
  · intro chain h
    unfold expand at h
    rw [← hanswer, h] at hright
    exact hright chain rfl

/-- A declaration of a struct type. -/
def structDecl (name : String) (members : List Go.Field) : TypeDecl :=
  ⟨1, name, [], false, .struct members⟩

/-- An embedded member. -/
def embedded (type : Go.TypeExpr) : Go.Field :=
  .mk 1 [] type none

/-- Declarations in which `D` embeds `Base` on three ways: through `L`, through an alias in
parentheses, and through the type that `Far` names in the package imported. `Count` is no struct
type, even where a declaration hides the predeclared type that it names. -/
def diamondDecls : List TypeDecl := [
  ⟨1, "Base", [], false, .paren (.struct [.mk 1 ["ID"] (.named "int") none])⟩,
  structDecl "L" [embedded (.pointer (.named "Base"))],
  ⟨3, "Alias", [], true, .paren (.named "Base")⟩,
  ⟨4, "Far", [], false, .paren (.paren (.qualified "app" "L"))⟩,
  structDecl "D" [embedded (.named "L"), .mk 5 ["From", "To"] (.qualified "app" "L") (some "key"),
    embedded (.pointer (.paren (.named "Alias"))), embedded (.qualified "app" "Far")],
  ⟨6, "Count", [], false, .named "int"⟩, structDecl "int" []
]

/-- The file that holds them. -/
def diamondFile : SourceFile :=
  ⟨"x.go", "app", [⟨1, none, "m/app"⟩], diamondDecls⟩

/-- A loader whose packages have this one file. -/
def diamondLoader : Loader where
  load path := .ok ⟨path, "app", ⟨"/m"⟩, [diamondFile]⟩
  finite := ⟨_, fun _ _ h _ hfile => by cases h; exact hfile⟩

theorem declares_diamondLoader (m : String) : ∀ decl ∈ diamondDecls,
    ∃ p, diamondLoader.Declares ⟨m, decl.name⟩ p diamondFile decl := by
  simp [Loader.Declares, diamondLoader, Package.findType?, diamondFile, diamondDecls, structDecl]

theorem pathBehind?_diamondLoader :
    diamondLoader.pathBehind? diamondFile "app" = some "m/app" := by
  decide

/-- In every package `L` has the field of `Base`. -/
theorem expands_diamondLoader_left {type : TypeTemplate}
    (htype : TypeTemplate.ofType? (.named "int") [] = .ok type) (m : String) :
    diamondLoader.Expands ⟨m, "Base"⟩ [⟨"ID", "", type⟩] ∧
      diamondLoader.Expands ⟨m, "L"⟩ [⟨"ID", "", type⟩] := by
  have hdecl := declares_diamondLoader m
  simp only [diamondDecls, List.forall_mem_cons] at hdecl
  obtain ⟨⟨_, hbase⟩, ⟨_, hleft⟩, -⟩ := hdecl
  have base : diamondLoader.Expands ⟨m, "Base"⟩ [⟨"ID", "", type⟩] :=
    .struct hbase (.paren (Go.TypeExpr.encloses_struct _))
      (.singleton_of_names rfl ⟨[], type, rfl, htype, rfl⟩)
  exact ⟨base, .struct hleft (Go.TypeExpr.encloses_struct _)
    (.singleton_of_embeds rfl (.pointer (.named "Base")) base)⟩

theorem not_expands_diamondLoader_count (fields : List StructField) :
    ¬ diamondLoader.Expands ⟨"", "Count"⟩ fields := by
  intro h
  have hdecl := declares_diamondLoader ""
  simp only [diamondDecls, List.forall_mem_cons] at hdecl
  obtain ⟨-, -, -, -, -, ⟨_, hcount⟩, -⟩ := hdecl
  obtain ⟨subject, ⟨p, file, decl, type, hdecl, htype, hby⟩, -⟩ := Loader.expands_iff.1 h
  obtain ⟨-, rfl, rfl⟩ := hcount.unique hdecl
  cases htype
  cases hby with
  | named htarget => exact htarget (by decide)

/-- Embedding a type more than once is no circle: its fields come once for each way. A type that is
declared as a predeclared one has none. -/
theorem expand_exact_diamond : (PackageCache.empty diamondLoader).Reached ∧
    (∃ fields, (expand ⟨"", "D"⟩ (.empty diamondLoader)).result = .ok fields ∧
      fields.map (fun f => (f.name, f.tag)) =
        [("ID", ""), ("From", "key"), ("To", "key"), ("ID", ""), ("ID", "")]) ∧
    ∀ fields, (expand ⟨"", "Count"⟩ (.empty diamondLoader)).result ≠ .ok fields := by
  obtain ⟨type, htype⟩ : ∃ t, TypeTemplate.ofType? (.named "int") [] = .ok t :=
    ⟨_, @TypeTemplate.ofType?_eq_ok (.named "int") [] (by decide) (List.forall_mem_nil _) rfl
      (by decide)⟩
  obtain ⟨far, hfar⟩ : ∃ t, TypeTemplate.ofType? (.qualified "app" "L") ["m/app"] = .ok t :=
    ⟨_, @TypeTemplate.ofType?_eq_ok (.qualified "app" "L") ["m/app"] (by decide)
      (List.forall_mem_nil _) rfl (by decide)⟩
  have hdecl := declares_diamondLoader
  simp only [diamondDecls, List.forall_mem_cons] at hdecl
  have hleft := expands_diamondLoader_left htype
  have renamed : diamondLoader.Expands ⟨"", "Alias"⟩ [⟨"ID", "", type⟩] := by
    obtain ⟨-, -, ⟨_, halias⟩, -⟩ := hdecl ""
    exact .named halias (.paren (Go.TypeExpr.encloses_named _)) (by decide) (hleft "").1
  have distant : diamondLoader.Expands ⟨"m/app", "Far"⟩ [⟨"ID", "", type⟩] := by
    obtain ⟨-, -, -, ⟨_, hdecl⟩, -⟩ := hdecl "m/app"
    exact .qualified hdecl (.paren (.paren (Go.TypeExpr.encloses_qualified _ _)))
      pathBehind?_diamondLoader (hleft "m/app").2
  have top : diamondLoader.Expands ⟨"", "D"⟩
      ([⟨"ID", "", type⟩] ++ ([⟨"From", "key", far⟩, ⟨"To", "key", far⟩] ++
        ([⟨"ID", "", type⟩] ++ [⟨"ID", "", type⟩]))) := by
    obtain ⟨-, -, -, -, ⟨_, htop⟩, -⟩ := hdecl ""
    exact .struct htop (Go.TypeExpr.encloses_struct _)
      (.cons (.singleton_of_embeds rfl (.named "L") (hleft "").2)
        (.cons (.singleton_of_names rfl ⟨["m/app"], far, by decide, hfar, rfl⟩)
          (.cons (.singleton_of_embeds rfl (.pointer (.paren (.named "Alias"))) renamed)
            (.singleton_of_embeds rfl (.qualified pathBehind?_diamondLoader) distant))))
  have hexact := fun key => (expand_exact (.empty diamondLoader) .empty key).2.1
  exact ⟨.empty, ⟨_, (hexact _ _).2 top, rfl⟩,
    fun fields h => not_expands_diamondLoader_count fields ((hexact _ _).1 h)⟩

end StructCopy
