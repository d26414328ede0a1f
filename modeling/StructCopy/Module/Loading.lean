/-
  Module/Loading: packages read from the files of a directory.

  The files of a package are those whose name ends in `.go` and not in `_test.go`
  and that the build constraints admit, in the order of their names.
-/
import StructCopy.Go.Header
import StructCopy.Go.Reader
import StructCopy.Module.Directory

set_option autoImplicit false

namespace StructCopy.Module

open StructCopy.Files (FileSource Entry)

/-- A file that may belong to a package. -/
def isPackageFile (name : String) : Bool :=
  (Text.before? ".go".toList name.toList).isSome &&
    (Text.before? "_test.go".toList name.toList).isNone

/-- The source file of an entry, or nothing if the build leaves it out. -/
def fileOf? (source : FileSource) (platform : Go.Platform) (entry : Entry) :
    Except LoadError (Option Go.SourceFile) :=
  match source.read entry.path with
  | .error cause => .error (.unreadable entry.path cause)
  | .ok text =>
    match platform.includes entry.name text with
    | .error e => .error (.malformed e)
    | .ok false => .ok none
    | .ok true =>
      match Go.SourceFile.ofText entry.name text with
      | .error e => .error (.malformed e)
      | .ok file => .ok (some file)

/-- The source files of some entries, all of one package; `package` is the package of the files
before them. -/
def filesOf (source : FileSource) (platform : Go.Platform) (path : String)
    (package : Option String) : List Entry → Except LoadError (List Go.SourceFile)
  | [] => .ok []
  | entry :: rest =>
    match fileOf? source platform entry with
    | .error e => .error e
    | .ok none => filesOf source platform path package rest
    | .ok (some file) =>
      let first := package.getD file.package
      if first = file.package then
        (filesOf source platform path (some first) rest).map (file :: ·)
      else .error (.multiplePackages path first file.package)

/-- Loads the package with an import path. -/
def GoModule.load (m : GoModule) (source : FileSource) (env : BuildEnv) (path : String) :
    Except LoadError Package :=
  match m.packageDir? source env path with
  | none => .error (.unresolved path m.file.path)
  | some dir =>
    match source.list dir with
    | .error cause => .error (.unreadable dir cause)
    | .ok entries =>
      match filesOf source env.platform path none (entries.filter (isPackageFile ·.name)) with
      | .error e => .error e
      | .ok [] => .error (.noGoFiles path dir)
      | .ok (first :: rest) => .ok ⟨path, first.package, dir, first :: rest⟩

/-! ## A loader for a module -/

theorem read_of_mem_filesOf {source : FileSource} {platform : Go.Platform} {path : String}
    {package : Option String} {entries : List Entry} {files : List Go.SourceFile}
    (h : filesOf source platform path package entries = .ok files) {file : Go.SourceFile}
    (hfile : file ∈ files) :
    ∃ entry ∈ entries, ∃ text, source.read entry.path = .ok text ∧
      Go.SourceFile.ofText entry.name text = .ok file := by
  induction entries generalizing package files with
  | nil =>
    simp only [filesOf, Except.ok.injEq] at h
    subst h
    simp at hfile
  | cons entry rest ih =>
    simp only [filesOf] at h
    split at h
    · simp at h
    · obtain ⟨e, he, hread⟩ := ih h hfile
      exact ⟨e, List.mem_cons_of_mem _ he, hread⟩
    · next found hfound =>
      split at h
      · obtain ⟨others, hothers, heq⟩ := Go.ok_of_map_eq_ok h
        subst heq
        rcases List.mem_cons.1 hfile with rfl | hmem
        · refine ⟨entry, List.mem_cons_self, ?_⟩
          simp only [fileOf?] at hfound
          split at hfound
          · simp at hfound
          · next text htext =>
            refine ⟨text, htext, ?_⟩
            split at hfound
            · simp at hfound
            · simp at hfound
            · split at hfound
              · simp at hfound
              · next f hf =>
                simp only [Except.ok.injEq, Option.some.injEq] at hfound
                rw [hf, hfound]
        · obtain ⟨e, he, hread⟩ := ih hothers hmem
          exact ⟨e, List.mem_cons_of_mem _ he, hread⟩
      · simp at h

/-- The loader of a module. -/
def GoModule.loader (m : GoModule) (source : FileSource) (env : BuildEnv) : Loader where
  load := m.load source env
  finite := by
    obtain ⟨known, hknown⟩ := source.finite
    refine ⟨known.filterMap fun pair => (Go.SourceFile.ofText pair.1 pair.2).toOption, ?_⟩
    intro path package hload file hfile
    simp only [GoModule.load] at hload
    split at hload
    · simp at hload
    · next dir _ =>
      split at hload
      · simp at hload
      · next entries hlist =>
        split at hload
        · simp at hload
        · simp at hload
        · next first rest hfiles =>
          simp only [Except.ok.injEq] at hload
          subst hload
          obtain ⟨entry, hentry, text, hread, hparse⟩ := read_of_mem_filesOf hfiles hfile
          refine List.mem_filterMap.2 ⟨(entry.name, text), ?_, ?_⟩
          · exact hknown dir entries entry text hlist (List.mem_filter.1 hentry).1 hread
          · simp [hparse, Except.toOption]

end StructCopy.Module
