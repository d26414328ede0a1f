/-
  Fields/Expansion: from the name of a struct type to its fields.

  An alias or defined type is followed to its target, and an embedded member is
  replaced by the fields of its type.  The keys on the way are kept: to meet one of
  them again is a circle.

  The keys met have modules that some known source file imports, the first one
  apart, and names that some known source file declares.  So there are finitely
  many, and the number of those not on the way bounds the recursion.
-/
import StructCopy.Fields.Explore

set_option autoImplicit false

namespace StructCopy

open StructCopy.Module (Loader Package PackageCache)

/-! ## The keys that may be met -/

namespace Module.Loader

/-- The source files that packages are made of. -/
noncomputable def known (L : Loader) : List Go.SourceFile :=
  Classical.choose L.finite

theorem mem_known {L : Loader} {path : String} {p : Package} (h : L.load path = .ok p)
    {file : Go.SourceFile} (hfile : file ∈ p.files) : file ∈ L.known :=
  Classical.choose_spec L.finite path p h file hfile

/-- The modules that may be met from `root` on. -/
noncomputable def modules (L : Loader) (root : String) : List String :=
  root :: L.known.flatMap fun file => file.imports.map Go.Import.path

/-- The names that are declared somewhere. -/
noncomputable def declared (L : Loader) : List String :=
  L.known.flatMap fun file => file.types.map Go.TypeDecl.name

/-- The keys of declared types that may be met from `root` on. -/
noncomputable def keys (L : Loader) (root : String) : List TypeKey :=
  (L.modules root).flatMap fun module => L.declared.map fun name => ⟨module, name⟩

/-- The number of keys that may be met and are not on the way. -/
noncomputable def room (L : Loader) (root : String) (way : List TypeKey) : Nat :=
  (L.keys root).countP fun key => !way.contains key

theorem mem_modules_of_import {L : Loader} {root path : String} {p : Package}
    (h : L.load path = .ok p) {file : Go.SourceFile} (hfile : file ∈ p.files) {module : String}
    (hmodule : module ∈ file.imports.map Go.Import.path) : module ∈ L.modules root :=
  List.mem_cons_of_mem _ (List.mem_flatMap.2 ⟨file, mem_known h hfile, hmodule⟩)

theorem mem_keys {L : Loader} {root path : String} {p : Package} (h : L.load path = .ok p)
    {key : TypeKey} (hmodule : key.module ∈ L.modules root) {file : Go.SourceFile}
    {decl : Go.TypeDecl} (hfind : p.findType? key.name = some (file, decl)) :
    key ∈ L.keys root := by
  obtain ⟨hfile, hdecl, hname⟩ := Module.mem_of_findType? hfind
  refine List.mem_flatMap.2 ⟨key.module, hmodule, List.mem_map.2 ⟨key.name, ?_, rfl⟩⟩
  refine List.mem_flatMap.2 ⟨file, mem_known h hfile, ?_⟩
  rw [← hname]
  exact List.mem_map_of_mem hdecl

/-- A list has fewer members outside a longer way, if one of them is new on it. -/
theorem countP_lt_of_new {keys way : List TypeKey} {key : TypeKey} (hmem : key ∈ keys)
    (hnew : key ∉ way) :
    (keys.countP fun k => !(way ++ [key]).contains k) < keys.countP fun k => !way.contains k := by
  induction keys with
  | nil => simp at hmem
  | cons k keys ih =>
    have hle : (keys.countP fun k => !(way ++ [key]).contains k) ≤
        keys.countP fun k => !way.contains k := by
      apply List.countP_mono_left
      intro x _ hx
      simp_all
    by_cases hk : k = key
    · subst hk
      have hout : (!(way ++ [k]).contains k) = false := by simp
      have hin : (!way.contains k) = true := by simp [hnew]
      simp only [List.countP_cons, hout, hin]
      exact Nat.lt_succ_of_le hle
    · have hlt := ih (by simpa [Ne.symm hk] using hmem)
      simp only [List.countP_cons, List.contains_eq_mem]
      simp_all

theorem room_lt {L : Loader} {root path : String} {p : Package} (h : L.load path = .ok p)
    {key : TypeKey} (hmodule : key.module ∈ L.modules root) {file : Go.SourceFile}
    {decl : Go.TypeDecl} (hfind : p.findType? key.name = some (file, decl))
    {way : List TypeKey} (hnew : key ∉ way) :
    L.room root (way ++ [key]) < L.room root way :=
  countP_lt_of_new (mem_keys h hmodule hfind) hnew

end Module.Loader

/-! ## Imports -/

variable {L : Loader}

/-- Whether an import binds a qualifier. An import with a name binds that name, unless it is `_` or
`.`, which bind nothing; one without a name binds the name of its package. -/
def binds (qualifier : String) (i : Go.Import) : Explore L Bool :=
  match i.name with
  | some name => pure (name != "_" && name != "." && name == qualifier)
  | none => do
    let name ← Explore.packageName i.path
    return name == qualifier

/-- The path of the first import that binds a qualifier. -/
def boundImport? (qualifier : String) :
    (imports : List Go.Import) → Explore L (Option { m : String // m ∈ imports.map Go.Import.path })
  | [] => pure none
  | i :: rest => do
    if ← binds qualifier i then return some ⟨i.path, by simp⟩
    else
      let found ← boundImport? qualifier rest
      return found.map fun m => ⟨m.val, List.mem_cons_of_mem _ m.property⟩

/-- The path behind a qualifier in a file of a package. -/
def importPath (p : Package) (file : Go.SourceFile) (qualifier : String) :
    Explore L { m : String // m ∈ file.imports.map Go.Import.path } := do
  match ← boundImport? qualifier file.imports with
  | some m => return m
  | none => Explore.fail (.importNotFound qualifier p.path file.name)

/-- The paths behind some qualifiers. -/
def importPaths (p : Package) (file : Go.SourceFile) : List String → Explore L (List String)
  | [] => pure []
  | q :: rest => do
    let m ← importPath p file q
    return m.val :: (← importPaths p file rest)

/-! ## Members -/

/-- The names that every package has without declaring them. -/
def predeclared : List String := [
  "bool", "byte", "complex64", "complex128", "error", "float32", "float64", "int", "int8", "int16",
  "int32", "int64", "rune", "string", "uint", "uint8", "uint16", "uint32", "uint64", "uintptr",
  "any", "comparable"
]

/-- The fields that a member with names declares. -/
def namedFields (p : Package) (file : Go.SourceFile) (member : Go.Field) :
    Explore L (List StructField) := do
  let modules ← importPaths p file member.type.qualifiers
  Explore.discover modules
  let type ← Explore.ofTemplate (TypeTemplate.ofType? member.type modules)
  return member.names.map fun name => ⟨name, member.tag.getD "", type⟩

/-- The key of the type that an embedded member names, under any pointers and parentheses. -/
def embeddedKey (key : TypeKey) (p : Package) (file : Go.SourceFile) :
    Go.TypeExpr → Explore L
      { k : TypeKey // k.module = key.module ∨ k.module ∈ file.imports.map Go.Import.path }
  | .paren inner => embeddedKey key p file inner
  | .pointer elem => embeddedKey key p file elem
  | .named name => pure ⟨⟨key.module, name⟩, Or.inl rfl⟩
  | .qualified qualifier name => do
    let m ← importPath p file qualifier
    return ⟨⟨m.val, name⟩, Or.inr m.property⟩
  | other => Explore.fail (.unsupportedEmbedded key other)

/-! ## Expansion -/

mutual

/-- The fields of a type. `way` holds the keys that led here. -/
def expandKey (root : String) (way : List TypeKey) (key : TypeKey)
    (hkey : key.module ∈ L.modules root) : Explore L (List StructField) :=
  if _hway : key ∈ way then Explore.fail (.circular (way ++ [key]))
  else do
    Explore.discover [key.module]
    let ⟨p, hload⟩ ← Explore.package key.module
    match hfind : p.findType? key.name with
    | none => Explore.fail (.typeNotFound key.module key.name)
    | some (file, decl) =>
      match decl.type.bare with
      | .struct members =>
        expandMembers root (way ++ [key]) key hkey p file
          ⟨key.module, hload, (Module.mem_of_findType? hfind).1⟩ members
      | .named target =>
        if predeclared.contains target then Explore.fail (.notAStruct key (.named target))
        else expandKey root (way ++ [key]) ⟨key.module, target⟩ hkey
      | .qualified qualifier name => do
        let ⟨m, hm⟩ ← importPath p file qualifier
        expandKey root (way ++ [key]) ⟨m, name⟩
          (Loader.mem_modules_of_import hload (Module.mem_of_findType? hfind).1 hm)
      | .generic base args => Explore.fail (.unsupportedAlias key (.generic base args))
      | .pointer elem => Explore.fail (.unsupportedAlias key (.pointer elem))
      | other => Explore.fail (.notAStruct key other)
termination_by (L.room root way, 0)
decreasing_by
  all_goals
    apply Prod.Lex.left
    exact Loader.room_lt hload hkey hfind _hway

/-- The fields that some members of the struct type `key` stand for. -/
def expandMembers (root : String) (way : List TypeKey) (key : TypeKey)
    (hkey : key.module ∈ L.modules root) (p : Package) (file : Go.SourceFile)
    (hfile : ∃ path, L.load path = .ok p ∧ file ∈ p.files) :
    List Go.Field → Explore L (List StructField)
  | [] => pure []
  | member :: rest => do
    let fields ←
      if member.isEmbedded then do
        let ⟨target, htarget⟩ ← embeddedKey key p file member.type
        expandKey root way target (by
          rcases htarget with h | h
          · rw [h]
            exact hkey
          · obtain ⟨path, hload, hmem⟩ := hfile
            exact Loader.mem_modules_of_import hload hmem h)
      else namedFields p file member
    return fields ++ (← expandMembers root way key hkey p file hfile rest)
termination_by members => (L.room root way, members.length + 1)
decreasing_by
  all_goals
    apply Prod.Lex.right
    simp

end

/-- The fields of a type, in the order of declaration, with embedded members expanded. -/
def expand (key : TypeKey) : Explore L (List StructField) :=
  expandKey key.module [] key List.mem_cons_self

end StructCopy
