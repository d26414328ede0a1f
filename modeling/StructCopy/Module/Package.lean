/-
  Module/Package: packages, and what loading one may answer.
-/
import StructCopy.Files.Source
import StructCopy.Go.SourceFile
import StructCopy.Go.SyntaxError

set_option autoImplicit false

namespace StructCopy.Module

open StructCopy.Files (FileError)

/-- A package: its name and the files that take part in the build. -/
structure Package where
  /-- the import path under which it was loaded -/
  path : String
  name : String
  dir : Files.Path
  files : List Go.SourceFile

/-- The first declaration with a name, with the file that holds it. -/
def Package.findType? (p : Package) (name : String) : Option (Go.SourceFile × Go.TypeDecl) :=
  p.files.findSome? fun file =>
    (file.types.find? fun decl => decl.name == name).map fun decl => (file, decl)

/-- Why a package or module cannot be loaded. -/
inductive LoadError where
  /-- the import path leads nowhere -/
  | unresolved (path module : String)
  | unreadable (path : Files.Path) (cause : FileError)
  | noGoFiles (path : String) (dir : Files.Path)
  /-- two files of the directory disagree about the package -/
  | multiplePackages (path first second : String)
  | noModuleDirective (root : Files.Path)
  | malformed (e : Go.SyntaxError)
  deriving DecidableEq, Repr

/-- The message for an error. -/
def LoadError.message : LoadError → String
  | .unresolved path module =>
    "cannot resolve package '" ++ path ++ "': not within module '" ++ module ++
      "', its vendor tree, its required modules or GOROOT"
  | .unreadable path cause => "cannot read '" ++ path.text ++ "': " ++ cause.message
  | .noGoFiles path dir => "no Go files in package '" ++ path ++ "' (" ++ dir.text ++ ")"
  | .multiplePackages path first second =>
    "multiple packages in '" ++ path ++ "': " ++ first ++ " and " ++ second
  | .noModuleDirective root => "go.mod in '" ++ root.text ++ "' has no module directive"
  | .malformed e => e.message

/-! ## Loaders -/

/-- A way to load packages by import path. It answers the same path always the same way, and its
packages are made of finitely many source files. -/
structure Loader where
  load : String → Except LoadError Package
  finite : ∃ known : List Go.SourceFile, ∀ path package,
    load path = .ok package → ∀ file ∈ package.files, file ∈ known

theorem mem_of_findType? {p : Package} {name : String} {file : Go.SourceFile} {decl : Go.TypeDecl}
    (h : p.findType? name = some (file, decl)) :
    file ∈ p.files ∧ decl ∈ file.types ∧ decl.name = name := by
  obtain ⟨f, hfile, hfound⟩ := List.exists_of_findSome?_eq_some h
  obtain ⟨d, hdecl, heq⟩ := Option.map_eq_some_iff.1 hfound
  simp only [Prod.mk.injEq] at heq
  obtain ⟨rfl, rfl⟩ := heq
  have hname := List.find?_some hdecl
  exact ⟨hfile, List.mem_of_find?_eq_some hdecl, eq_of_beq hname⟩

end StructCopy.Module
