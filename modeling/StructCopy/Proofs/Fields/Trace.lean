/-
  Proofs/Fields/Trace: which modules are discovered, and in which order.

  `Discovers` says it without a search: the module of a type comes first, then what its
  target discovers or, member by member, what an embedded type discovers or the
  modules behind the qualifiers of a field type.  A search that finds the fields of a
  type discovers just these modules in just this order.
-/
import StructCopy.Proofs.Fields.Discovery

set_option autoImplicit false

namespace StructCopy

open StructCopy.Module (Loader Package PackageCache)
open StructCopy.Go (SourceFile)

/-! ## Discoveries without a search -/

namespace Module.Loader

/-- The modules that a type, or some members of a struct type, discover in order, repetitions
included. -/
inductive Traces (L : Loader) : Subject → List String → Prop where
  | named {key : TypeKey} {p : Package} {file : SourceFile} {decl : Go.TypeDecl} {target : String}
      {trace : List String} (hdecl : L.Declares key p file decl)
      (htype : decl.type.Encloses (.named target))
      (h : Traces L (.type ⟨key.module, target⟩) trace) :
      Traces L (.type key) (key.module :: trace)
  | qualified {key : TypeKey} {p : Package} {file : SourceFile} {decl : Go.TypeDecl}
      {qualifier name m : String} {trace : List String} (hdecl : L.Declares key p file decl)
      (htype : decl.type.Encloses (.qualified qualifier name))
      (hpath : L.pathBehind? file qualifier = some m) (h : Traces L (.type ⟨m, name⟩) trace) :
      Traces L (.type key) (key.module :: trace)
  | struct {key : TypeKey} {p : Package} {file : SourceFile} {decl : Go.TypeDecl}
      {members : List Go.Field} {trace : List String} (hdecl : L.Declares key p file decl)
      (htype : decl.type.Encloses (.struct members))
      (h : Traces L (.membersOf key file members) trace) :
      Traces L (.type key) (key.module :: trace)
  | noMember {key : TypeKey} {file : SourceFile} : Traces L (.membersOf key file []) []
  | namedMember {key : TypeKey} {file : SourceFile} {member : Go.Field} {rest : List Go.Field}
      {modules more : List String} (hnames : member.isEmbedded = false)
      (hmodules : member.type.qualifiers.mapM (L.pathBehind? file) = some modules)
      (h : Traces L (.membersOf key file rest) more) :
      Traces L (.membersOf key file (member :: rest)) (modules ++ more)
  | embeddedMember {key target : TypeKey} {file : SourceFile} {member : Go.Field}
      {rest : List Go.Field} {trace more : List String} (hnames : member.isEmbedded = true)
      (htarget : L.Embeds key file member.type target) (htrace : Traces L (.type target) trace)
      (h : Traces L (.membersOf key file rest) more) :
      Traces L (.membersOf key file (member :: rest)) (trace ++ more)

/-- The modules that a type discovers, in order. -/
abbrev Discovers (L : Loader) (key : TypeKey) (trace : List String) : Prop :=
  L.Traces (.type key) trace

/-- A key names one type, in one file. -/
theorem Declares.encloses_unique {L : Loader} {key : TypeKey} {p p' : Package}
    {file file' : SourceFile} {decl decl' : Go.TypeDecl} {type type' : Go.TypeExpr}
    (h : L.Declares key p file decl) (h' : L.Declares key p' file' decl')
    (htype : decl.type.Encloses type) (htype' : decl'.type.Encloses type') :
    file = file' ∧ type = type' := by
  obtain ⟨-, rfl, rfl⟩ := h.unique h'
  exact ⟨rfl, htype.unique htype'⟩

theorem Traces.unique {L : Loader} {subject : Subject} {trace trace' : List String}
    (h : L.Traces subject trace) (h' : L.Traces subject trace') : trace = trace' := by
  induction h generalizing trace' with
  | named hdecl htype _ ih =>
    cases h' with
    | named hdecl' htype' h' =>
      cases (hdecl.encloses_unique hdecl' htype htype').2
      rw [ih h']
    | qualified hdecl' htype' => cases (hdecl.encloses_unique hdecl' htype htype').2
    | struct hdecl' htype' => cases (hdecl.encloses_unique hdecl' htype htype').2
  | qualified hdecl htype hpath _ ih =>
    cases h' with
    | named hdecl' htype' => cases (hdecl.encloses_unique hdecl' htype htype').2
    | qualified hdecl' htype' hpath' h' =>
      obtain ⟨rfl, htarget⟩ := hdecl.encloses_unique hdecl' htype htype'
      cases htarget
      cases hpath.symm.trans hpath'
      rw [ih h']
    | struct hdecl' htype' => cases (hdecl.encloses_unique hdecl' htype htype').2
  | struct hdecl htype _ ih =>
    cases h' with
    | named hdecl' htype' => cases (hdecl.encloses_unique hdecl' htype htype').2
    | qualified hdecl' htype' => cases (hdecl.encloses_unique hdecl' htype htype').2
    | struct hdecl' htype' h' =>
      obtain ⟨rfl, hmembers⟩ := hdecl.encloses_unique hdecl' htype htype'
      cases hmembers
      rw [ih h']
  | noMember =>
    cases h'
    rfl
  | namedMember hnames hmodules _ ih =>
    cases h' with
    | namedMember _ hmodules' h' =>
      cases hmodules.symm.trans hmodules'
      rw [ih h']
    | embeddedMember hnames' => cases hnames.symm.trans hnames'
  | embeddedMember hnames htarget _ _ ihtrace ih =>
    cases h' with
    | namedMember hnames' => cases hnames.symm.trans hnames'
    | embeddedMember _ htarget' htrace' h' =>
      cases htarget.unique htarget'
      rw [ihtrace htrace', ih h']

end Module.Loader

/-! ## Explorations that discover nothing -/

variable {L : Loader} {α β : Type}

namespace Explore

/-- Nothing is discovered. -/
def Quiet (x : Explore L α) : Prop :=
  ∀ c, (x c).discovered = []

theorem Quiet.found {x : Explore L α} (h : x.Quiet) : x.found = [] :=
  h _

theorem quiet_pure (a : α) : (Pure.pure a : Explore L α).Quiet :=
  fun _ => rfl

theorem quiet_fail (e : ResolveError) : (Explore.fail e : Explore L α).Quiet :=
  fun _ => rfl

theorem quiet_packageName (module : String) :
    (Explore.packageName module : Explore L String).Quiet :=
  fun _ => rfl

theorem quiet_package (module : String) : (Explore.package module : Explore L _).Quiet := by
  intro c
  unfold Explore.package
  split <;> rfl

theorem quiet_ofTemplate (t : Except TemplateError TypeTemplate) :
    (Explore.ofTemplate t : Explore L TypeTemplate).Quiet :=
  fun _ => rfl

theorem Quiet.bind {x : Explore L α} {f : α → Explore L β} (hx : x.Quiet)
    (hf : ∀ a, (f a).Quiet) : (x >>= f).Quiet := by
  intro c
  cases h : (x c).result with
  | error e =>
    rw [run_bind_error h]
    exact hx c
  | ok a =>
    rw [run_bind_ok h]
    dsimp only
    rw [hx c, hf a]
    rfl

/-- What an exploration in two parts gives and discovers, if it succeeds. -/
theorem ok_of_bind {x : Explore L α} {f : α → Explore L β} {b : β} (hx : x.Steady)
    (hf : ∀ a, (f a).Steady) (h : (x >>= f).answer = .ok b) :
    ∃ a, x.answer = .ok a ∧ (f a).answer = .ok b ∧ (x >>= f).found = x.found ++ (f a).found := by
  cases hanswer : x.answer with
  | error e =>
    rw [answer_bind_error hanswer] at h
    cases h
  | ok a =>
    rw [answer_bind_ok hx (hf a) hanswer] at h
    exact ⟨a, rfl, h, found_bind_ok hx (hf a) hanswer⟩

/-- The same for field lists put together. -/
theorem ok_of_append {x y : Explore L (List StructField)} {all : List StructField} (hx : x.Steady)
    (hy : y.Steady)
    (h : (x >>= fun fields => y >>= fun more => Pure.pure (fields ++ more)).answer = .ok all) :
    (∃ fields, x.answer = .ok fields) ∧ (∃ more, y.answer = .ok more) ∧
      (x >>= fun fields => y >>= fun more => Pure.pure (fields ++ more)).found =
        x.found ++ y.found := by
  have hpure := fun fields more : List StructField => Steady.pure (L := L) (fields ++ more)
  obtain ⟨fields, hfields, h, hfound⟩ := ok_of_bind hx (fun fields => .bind hy (hpure fields)) h
  obtain ⟨more, hmore, -, hfound'⟩ := ok_of_bind hy (hpure fields) h
  rw [hfound, hfound', (quiet_pure _).found, List.append_nil]
  exact ⟨⟨fields, hfields⟩, ⟨more, hmore⟩, rfl⟩

end Explore

theorem quiet_binds (qualifier : String) (i : Go.Import) :
    (binds qualifier i : Explore L Bool).Quiet := by
  unfold binds
  split
  · exact Explore.quiet_pure _
  · exact (Explore.quiet_packageName _).bind fun _ => Explore.quiet_pure _

theorem quiet_boundImport? (qualifier : String) (imports : List Go.Import) :
    (boundImport? qualifier imports : Explore L _).Quiet := by
  induction imports with
  | nil => exact Explore.quiet_pure _
  | cons i rest ih =>
    refine (quiet_binds qualifier i).bind fun bound => ?_
    cases bound with
    | true => exact Explore.quiet_pure _
    | false => exact ih.bind fun _ => Explore.quiet_pure _

theorem quiet_importPath (p : Package) (file : SourceFile) (qualifier : String) :
    (importPath p file qualifier : Explore L _).Quiet := by
  refine (quiet_boundImport? qualifier file.imports).bind fun found => ?_
  cases found with
  | some m => exact Explore.quiet_pure _
  | none => exact Explore.quiet_fail _

theorem quiet_importPaths (p : Package) (file : SourceFile) (qualifiers : List String) :
    (importPaths p file qualifiers : Explore L _).Quiet := by
  induction qualifiers with
  | nil => exact Explore.quiet_pure _
  | cons q rest ih =>
    exact (quiet_importPath p file q).bind fun _ => ih.bind fun _ => Explore.quiet_pure _

theorem quiet_embeddedKey (key : TypeKey) (p : Package) (file : SourceFile) (type : Go.TypeExpr) :
    (embeddedKey key p file type : Explore L _).Quiet := by
  fun_induction embeddedKey key p file type with
  | case1 inner ih => exact ih
  | case2 elem ih => exact ih
  | case3 name => exact Explore.quiet_pure _
  | case4 qualifier name =>
    exact (quiet_importPath p file qualifier).bind fun _ => Explore.quiet_pure _
  | case5 => exact Explore.quiet_fail _

/-! ## The search -/

theorem pathBehind?_of_answer {p : Package} {file : SourceFile} {qualifier : String}
    {m : { m : String // m ∈ file.imports.map Go.Import.path }}
    (h : (importPath p file qualifier : Explore L _).answer = .ok m) :
    L.pathBehind? file qualifier = some m.val := by
  rcases answer_importPath (L := L) p file qualifier with ⟨m', hm', hpath, h'⟩ | ⟨-, h'⟩
  · cases h.symm.trans h'
    exact hpath
  · cases h.symm.trans h'

theorem embeds_of_answer {key : TypeKey} {p : Package} {file : SourceFile} {type : Go.TypeExpr}
    {target : { k : TypeKey // k.module = key.module ∨ k.module ∈ file.imports.map Go.Import.path }}
    (h : (embeddedKey key p file type : Explore L _).answer = .ok target) :
    L.Embeds key file type target.val := by
  rcases answer_embeddedKey (L := L) key p file type with ⟨target', _, hembeds, h'⟩ | ⟨-, e, h', -⟩
  · cases h.symm.trans h'
    exact hembeds
  · cases h.symm.trans h'

/-- Reading off a member discovers the modules behind the qualifiers of its type. -/
theorem found_namedFields {p : Package} {file : SourceFile} {member : Go.Field}
    {fields : List StructField}
    (h : (namedFields p file member : Explore L _).answer = .ok fields) :
    member.type.qualifiers.mapM (L.pathBehind? file) =
      some (namedFields p file member : Explore L _).found := by
  have hfieldsOf := fun modules => Explore.Steady.bind (L := L)
    (.ofTemplate (TypeTemplate.ofType? member.type modules)) fun type =>
      .pure (member.names.map fun name => (⟨name, member.tag.getD "", type⟩ : StructField))
  have hquiet := fun modules => (Explore.quiet_ofTemplate (L := L)
    (TypeTemplate.ofType? member.type modules)).bind fun type =>
      Explore.quiet_pure
        (member.names.map fun name => (⟨name, member.tag.getD "", type⟩ : StructField))
  unfold namedFields at h ⊢
  obtain ⟨modules, hmodules, h, hfound⟩ := Explore.ok_of_bind (steady_importPaths p file _)
    (fun modules => .bind (.discover modules) fun _ => hfieldsOf modules) h
  obtain ⟨⟨⟩, -, -, hfound'⟩ := Explore.ok_of_bind (.discover modules)
    (fun _ => hfieldsOf modules) h
  rw [hfound, hfound', (quiet_importPaths p file _).found, (hquiet modules).found,
    List.append_nil, List.nil_append]
  rcases answer_importPaths (L := L) p file member.type.qualifiers with
    ⟨modules', hpaths, hanswer⟩ | ⟨-, q, hanswer⟩
  · cases hmodules.symm.trans hanswer
    exact hpaths
  · cases hmodules.symm.trans hanswer

mutual

theorem traces_expandKey (root : String) (way : List TypeKey) (key : TypeKey)
    (hkey : key.module ∈ L.modules root) {fields : List StructField}
    (h : (expandKey root way key hkey).answer = .ok fields) :
    L.Discovers key (expandKey root way key hkey).found := by
  by_cases hway : key ∈ way
  · rw [answer_expandKey_of_mem hkey hway] at h
    cases h
  · have hsteady := fun p : { p // L.load key.module = .ok p } =>
      steady_expandIn root way key hkey hway p.val p.property
    rw [expandKey_of_not_mem hkey hway] at h ⊢
    obtain ⟨⟨⟩, -, h, hfound⟩ := Explore.ok_of_bind (.discover _)
      (fun _ => .bind (.package _) hsteady) h
    obtain ⟨p, -, h, hfound'⟩ := Explore.ok_of_bind (.package _) hsteady h
    rw [hfound, hfound', (Explore.quiet_package _).found]
    exact traces_expandIn root way key hkey hway p.val p.property h
termination_by (L.room root way, 1)

theorem traces_expandIn (root : String) (way : List TypeKey) (key : TypeKey)
    (hkey : key.module ∈ L.modules root) (_hway : key ∉ way) (p : Package)
    (hload : L.load key.module = .ok p) {fields : List StructField}
    (h : (expandIn root way key hkey p hload).answer = .ok fields) :
    L.Discovers key (key.module :: (expandIn root way key hkey p hload).found) := by
  revert h
  unfold expandIn
  split
  · intro h
    cases h
  · next file decl hfind =>
    split
    · next htype =>
      intro h
      exact .struct ⟨hload, hfind⟩ (Go.TypeExpr.bare_eq_iff.1 htype)
        (traces_expandMembers root (way ++ [key]) key hkey p file _ _ h)
    · next target htype =>
      split
      · intro h
        cases h
      · intro h
        exact .named ⟨hload, hfind⟩ (Go.TypeExpr.bare_eq_iff.1 htype)
          (traces_expandKey root (way ++ [key]) ⟨key.module, target⟩ hkey h)
    · next qualifier name htype =>
      intro h
      obtain ⟨m, hm, h, hfound⟩ := Explore.ok_of_bind (steady_importPath p file _)
        (fun _ => steady_expandKey _ _ _ _) h
      rw [hfound, (quiet_importPath p file _).found]
      exact .qualified ⟨hload, hfind⟩ (Go.TypeExpr.bare_eq_iff.1 htype) (pathBehind?_of_answer hm)
        (traces_expandKey root (way ++ [key]) ⟨m.val, name⟩ _ h)
    · intro h
      cases h
    · intro h
      cases h
    · intro h
      cases h
termination_by (L.room root way, 0)
decreasing_by
  all_goals
    apply Prod.Lex.left
    exact Loader.room_lt hload hkey ‹_› _hway

theorem traces_expandMembers (root : String) (way : List TypeKey) (key : TypeKey)
    (hkey : key.module ∈ L.modules root) (p : Package) (file : SourceFile)
    (hfile : ∃ path, L.load path = .ok p ∧ file ∈ p.files) (members : List Go.Field)
    {fields : List StructField}
    (h : (expandMembers root way key hkey p file hfile members).answer = .ok fields) :
    L.Traces (.membersOf key file members)
      (expandMembers root way key hkey p file hfile members).found := by
  cases members with
  | nil =>
    rw [expandMembers]
    exact .noMember
  | cons member rest =>
    have hrest := steady_expandMembers root way key hkey p file hfile rest
    rw [expandMembers] at h ⊢
    revert h
    split
    · next hnames =>
      intro h
      obtain ⟨⟨target, htarget⟩, hanswer, h, hfound⟩ := Explore.ok_of_bind
        (steady_embeddedKey key p file member.type)
        (fun _ => .bind (steady_expandKey _ _ _ _) fun _ => .bind hrest fun _ => .pure _) h
      obtain ⟨⟨fields, hfields⟩, ⟨more, hmore⟩, hfound'⟩ :=
        Explore.ok_of_append (steady_expandKey root way target _) hrest h
      rw [hfound, hfound', (quiet_embeddedKey key p file _).found, List.nil_append]
      exact .embeddedMember hnames (embeds_of_answer hanswer)
        (traces_expandKey root way target _ hfields)
        (traces_expandMembers root way key hkey p file hfile rest hmore)
    · next hnames =>
      intro h
      obtain ⟨⟨fields, hfields⟩, ⟨more, hmore⟩, hfound⟩ :=
        Explore.ok_of_append (steady_namedFields p file member) hrest h
      rw [hfound]
      exact .namedMember (Bool.eq_false_iff.2 hnames) (found_namedFields hfields)
        (traces_expandMembers root way key hkey p file hfile rest hmore)
termination_by (L.room root way, members.length + 1)
decreasing_by
  all_goals
    subst_vars
    apply Prod.Lex.right
    simp

end

/-- A search that finds the fields of a type discovers the modules that the type discovers, in
their order. -/
theorem discovers_foundFor {key : TypeKey} {fields : List StructField}
    (h : L.answerFor key = .ok fields) : L.Discovers key (L.foundFor key) :=
  traces_expandKey _ _ _ _ h

end StructCopy
