/-
  Proofs/Module/Selection: the files that make up a package.

  The files of the build are the source files of a directory that are not left out.  A package
  is what they are read as, if all can be read and they agree about its name; otherwise the
  first file at fault decides the error.  Files that are left out have no say in either.
-/
import Mathlib
import StructCopy.Module.Loading
import StructCopy.Proofs.Files.Addition
import StructCopy.Proofs.Text.Marks

set_option autoImplicit false

namespace StructCopy.Module

open StructCopy.Files (FileSource Entry Added Store Location)

/-! ## Names -/

/-- A file name that ends in `.go` and not in `_test.go`. -/
def IsSourceName (name : String) : Prop :=
  (∃ front, name = front ++ ".go") ∧ ¬∃ front, name = front ++ "_test.go"

theorem suffix_toList_iff {tail name : String} :
    tail.toList <:+ name.toList ↔ ∃ front, name = front ++ tail := by
  constructor
  · rintro ⟨front, hfront⟩
    exact ⟨String.ofList front, String.toList_inj.1 (by simp [hfront])⟩
  · rintro ⟨front, rfl⟩
    exact ⟨front.toList, String.toList_append.symm⟩

theorem isPackageFile_iff {name : String} : isPackageFile name = true ↔ IsSourceName name := by
  rw [isPackageFile, Bool.and_eq_true, Text.isSome_before?_iff, suffix_toList_iff,
    ← Option.not_isSome, Bool.not_eq_true', ← Bool.not_eq_true, Text.isSome_before?_iff,
    suffix_toList_iff]
  rfl

instance : DecidablePred IsSourceName :=
  fun _ => decidable_of_iff _ isPackageFile_iff

section

variable (source : FileSource) (platform : Go.Platform)

/-! ## Files of the build -/

/-- The file can be read, and the build leaves it out. -/
def LeftOut (entry : Entry) : Prop :=
  ∃ text, source.read entry.path = .ok text ∧ platform.includes entry.name text = .ok false

/-- The file is in the build and is read as this source file. -/
def ReadAs (entry : Entry) (file : Go.SourceFile) : Prop :=
  ∃ text, source.read entry.path = .ok text ∧ platform.includes entry.name text = .ok true ∧
    Go.SourceFile.ofText entry.name text = .ok file

/-- What is wrong with a file by itself. -/
inductive Fault (entry : Entry) : LoadError → Prop where
  | unreadable {cause : Files.FileError} (hread : source.read entry.path = .error cause) :
      Fault entry (.unreadable entry.path cause)
  | constraint {text : String} {e : Go.SyntaxError} (hread : source.read entry.path = .ok text)
      (hbuild : platform.includes entry.name text = .error e) : Fault entry (.malformed e)
  | malformed {text : String} {e : Go.SyntaxError} (hread : source.read entry.path = .ok text)
      (hbuild : platform.includes entry.name text = .ok true)
      (hfile : Go.SourceFile.ofText entry.name text = .error e) : Fault entry (.malformed e)

/-- What is wrong with a file where files of a package are expected: a fault of its own, or the
name of another package. -/
inductive Offends (path : String) (expected : Option String) (entry : Entry) :
    LoadError → Prop where
  | fault {e : LoadError} (h : Fault source platform entry e) : Offends path expected entry e
  | clash {first : String} {file : Go.SourceFile} (hfirst : expected = some first)
      (hfile : ReadAs source platform entry file) (hne : first ≠ file.package) :
      Offends path expected entry (.multiplePackages path first file.package)

variable {source platform}

theorem fileOf?_eq_none_iff {entry : Entry} :
    fileOf? source platform entry = .ok none ↔ LeftOut source platform entry := by
  unfold fileOf? LeftOut
  cases source.read entry.path with
  | error cause => simp
  | ok text =>
    cases hbuild : platform.includes entry.name text with
    | error e => simp [hbuild]
    | ok b =>
      cases b with
      | false => simp [hbuild]
      | true => cases hfile : Go.SourceFile.ofText entry.name text <;> simp [hbuild, hfile]

theorem fileOf?_eq_some_iff {entry : Entry} {file : Go.SourceFile} :
    fileOf? source platform entry = .ok (some file) ↔ ReadAs source platform entry file := by
  unfold fileOf? ReadAs
  cases source.read entry.path with
  | error cause => simp
  | ok text =>
    cases hbuild : platform.includes entry.name text with
    | error e => simp [hbuild]
    | ok b =>
      cases b with
      | false => simp [hbuild]
      | true => cases hfile : Go.SourceFile.ofText entry.name text <;> simp [hbuild, hfile]

theorem fileOf?_eq_error_iff {entry : Entry} {e : LoadError} :
    fileOf? source platform entry = .error e ↔ Fault source platform entry e := by
  constructor
  · intro h
    unfold fileOf? at h
    split at h
    · next hread =>
      cases h
      exact .unreadable hread
    next hread =>
    split at h
    · next hbuild =>
      cases h
      exact .constraint hread hbuild
    · cases h
    next hbuild =>
    split at h
    · next hfile =>
      cases h
      exact .malformed hread hbuild hfile
    · cases h
  · intro h
    unfold fileOf?
    cases h with
    | unreadable hread => simp only [hread]
    | constraint hread hbuild => simp only [hread, hbuild]
    | malformed hread hbuild hfile => simp only [hread, hbuild, hfile]

instance : DecidablePred (LeftOut source platform) := fun entry =>
  match hfile : fileOf? source platform entry with
  | .ok none => isTrue (fileOf?_eq_none_iff.1 hfile)
  | .ok (some _) => isFalse fun h => by
    rw [fileOf?_eq_none_iff.2 h] at hfile
    cases hfile
  | .error _ => isFalse fun h => by
    rw [fileOf?_eq_none_iff.2 h] at hfile
    cases hfile

variable (source platform)

/-- The entries that are not left out. -/
def kept (entries : List Entry) : List Entry :=
  entries.filter fun entry => ¬LeftOut source platform entry

/-- The source files among the entries of a directory that take part in the build. -/
def buildFiles (entries : List Entry) : List Entry :=
  entries.filter fun entry => IsSourceName entry.name ∧ ¬LeftOut source platform entry

variable {source platform}

/-! ## Reading one after another -/

/-- The package that a file behind these files has to be of: the one that was known before them, or
that of the first of them. -/
def expected (package : Option String) (files : List Go.SourceFile) : Option String :=
  package.or (files.head?.map Go.SourceFile.package)

/-- All files are of the package that is expected. -/
def Agree (package : Option String) (files : List Go.SourceFile) : Prop :=
  ∀ file ∈ files, expected package files = some file.package

theorem expected_cons (package : Option String) (file : Go.SourceFile)
    (files : List Go.SourceFile) :
    expected package (file :: files) = expected (some (package.getD file.package)) files := by
  cases package <;> rfl

theorem agree_cons_iff {package : Option String} {file : Go.SourceFile}
    {files : List Go.SourceFile} :
    Agree package (file :: files) ↔ package.getD file.package = file.package ∧
      Agree (some (package.getD file.package)) files := by
  unfold Agree
  rw [List.forall_mem_cons, expected_cons]
  exact and_congr_left fun _ => Option.some_inj

section

variable {entry : Entry} {entries : List Entry}

theorem kept_cons_of_leftOut (h : LeftOut source platform entry) :
    kept source platform (entry :: entries) = kept source platform entries := by
  unfold kept
  rw [List.filter_cons_of_neg (by simpa using h)]

theorem kept_cons_of_not (h : ¬LeftOut source platform entry) :
    kept source platform (entry :: entries) = entry :: kept source platform entries := by
  unfold kept
  rw [List.filter_cons_of_pos (by simpa using h)]

/-- A file that is in the build is not left out, and neither is one with a fault. -/
theorem ReadAs.not_leftOut {file : Go.SourceFile} (h : ReadAs source platform entry file) :
    ¬LeftOut source platform entry := by
  rw [← fileOf?_eq_none_iff, fileOf?_eq_some_iff.2 h]
  nofun

theorem Fault.not_leftOut {e : LoadError} (h : Fault source platform entry e) :
    ¬LeftOut source platform entry := by
  rw [← fileOf?_eq_none_iff, fileOf?_eq_error_iff.2 h]
  nofun

theorem ReadAs.unique {file file' : Go.SourceFile} (h : ReadAs source platform entry file)
    (h' : ReadAs source platform entry file') : file = file' := by
  have hsame := (fileOf?_eq_some_iff.2 h).symm.trans (fileOf?_eq_some_iff.2 h')
  cases hsame
  rfl

theorem Fault.unique {e e' : LoadError} (h : Fault source platform entry e)
    (h' : Fault source platform entry e') : e = e' := by
  have hsame := (fileOf?_eq_error_iff.2 h).symm.trans (fileOf?_eq_error_iff.2 h')
  cases hsame
  rfl

theorem Fault.not_readAs {e : LoadError} {file : Go.SourceFile}
    (h : Fault source platform entry e) : ¬ReadAs source platform entry file := by
  intro h'
  have hsame := (fileOf?_eq_error_iff.2 h).symm.trans (fileOf?_eq_some_iff.2 h')
  cases hsame

end

theorem map_eq_error_iff {ε α β : Type} {f : α → β} {result : Except ε α} {e : ε} :
    result.map f = .error e ↔ result = .error e := by
  cases result <;> simp [Except.map]

theorem filesOf_eq_ok_iff {path : String} {package : Option String} {entries : List Entry}
    {files : List Go.SourceFile} :
    filesOf source platform path package entries = .ok files ↔
      List.Forall₂ (ReadAs source platform) (kept source platform entries) files ∧
        Agree package files := by
  induction entries generalizing package files with
  | nil =>
    constructor
    · intro h
      cases h
      exact ⟨.nil, List.forall_mem_nil _⟩
    · rintro ⟨h, -⟩
      cases h
      rfl
  | cons entry rest ih =>
    rw [filesOf]
    split
    · next fault hfile =>
      have hfault := fileOf?_eq_error_iff.1 hfile
      rw [kept_cons_of_not hfault.not_leftOut]
      constructor
      · intro h
        cases h
      · rintro ⟨h, -⟩
        cases h with
        | cons hread _ => exact absurd hread hfault.not_readAs
    · next hfile => rw [kept_cons_of_leftOut (fileOf?_eq_none_iff.1 hfile), ih]
    · next file hfile =>
      have hread := fileOf?_eq_some_iff.1 hfile
      rw [kept_cons_of_not hread.not_leftOut]
      dsimp only
      split
      · next hfirst =>
        constructor
        · intro h
          obtain ⟨more, hmore, rfl⟩ := Go.ok_of_map_eq_ok h
          obtain ⟨hall, hagree⟩ := ih.1 hmore
          exact ⟨.cons hread hall, agree_cons_iff.2 ⟨hfirst, hagree⟩⟩
        · rintro ⟨h, hagree⟩
          cases h with
          | cons hread' hall =>
            cases hread'.unique hread
            rw [ih.2 ⟨hall, (agree_cons_iff.1 hagree).2⟩]
            rfl
      · next hfirst =>
        constructor
        · intro h
          cases h
        · rintro ⟨h, hagree⟩
          cases h with
          | cons hread' _ =>
            cases hread'.unique hread
            exact absurd (agree_cons_iff.1 hagree).1 hfirst

/-- The first of some files that is at fault, the ones before it being read. -/
def FirstFault (source : FileSource) (platform : Go.Platform) (path : String)
    (package : Option String) (entries : List Entry) (e : LoadError) : Prop :=
  ∃ before entry after files, entries = before ++ entry :: after ∧
    List.Forall₂ (ReadAs source platform) before files ∧ Agree package files ∧
    Offends source platform path (expected package files) entry e

theorem firstFault_cons_iff {path : String} {package : Option String} {entry : Entry}
    {entries : List Entry} {e : LoadError} :
    FirstFault source platform path package (entry :: entries) e ↔
      Offends source platform path package entry e ∨
        ∃ file, ReadAs source platform entry file ∧
          package.getD file.package = file.package ∧
          FirstFault source platform path (some (package.getD file.package)) entries e := by
  constructor
  · rintro ⟨before, other, after, files, hentries, hread, hagree, hoffends⟩
    cases hread with
    | nil =>
      cases hentries
      refine .inl ?_
      rwa [expected, List.head?_nil, Option.map_none, Option.or_none] at hoffends
    | cons hfile hrest =>
      cases hentries
      obtain ⟨hfirst, hagree⟩ := agree_cons_iff.1 hagree
      rw [expected_cons] at hoffends
      exact .inr ⟨_, hfile, hfirst, _, other, after, _, rfl, hrest, hagree, hoffends⟩
  · rintro (hoffends | ⟨file, hfile, hfirst, before, other, after, files, rfl, hread, hagree,
      hoffends⟩)
    · refine ⟨[], entry, entries, [], rfl, .nil, nofun, ?_⟩
      rwa [expected, List.head?_nil, Option.map_none, Option.or_none]
    · refine ⟨entry :: before, other, after, file :: files, rfl, .cons hfile hread,
        agree_cons_iff.2 ⟨hfirst, hagree⟩, ?_⟩
      rwa [expected_cons]

theorem filesOf_eq_error_iff {path : String} {package : Option String} {entries : List Entry}
    {e : LoadError} :
    filesOf source platform path package entries = .error e ↔
      FirstFault source platform path package (kept source platform entries) e := by
  induction entries generalizing package with
  | nil =>
    constructor
    · nofun
    · rintro ⟨before, entry, after, files, hentries, -⟩
      exact absurd hentries.symm (List.append_ne_nil_of_right_ne_nil _ (List.cons_ne_nil _ _))
  | cons entry rest ih =>
    rw [filesOf]
    split
    · next fault hfile =>
      have hfault := fileOf?_eq_error_iff.1 hfile
      rw [kept_cons_of_not hfault.not_leftOut, firstFault_cons_iff]
      constructor
      · intro h
        cases h
        exact .inl (.fault hfault)
      · rintro (hoffends | ⟨file, hread, -⟩)
        · cases hoffends with
          | fault h => rw [hfault.unique h]
          | clash _ hread _ => exact absurd hread hfault.not_readAs
        · exact absurd hread hfault.not_readAs
    · next hfile => rw [kept_cons_of_leftOut (fileOf?_eq_none_iff.1 hfile), ih]
    · next file hfile =>
      have hread := fileOf?_eq_some_iff.1 hfile
      rw [kept_cons_of_not hread.not_leftOut, firstFault_cons_iff]
      dsimp only
      split
      · next hfirst =>
        rw [map_eq_error_iff, ih]
        constructor
        · intro h
          exact .inr ⟨file, hread, hfirst, h⟩
        · rintro (hoffends | ⟨other, hother, -, h⟩)
          · cases hoffends with
            | fault h => exact absurd hread h.not_readAs
            | clash hexpected hother hne =>
              cases hother.unique hread
              rw [hexpected] at hfirst
              exact absurd hfirst hne
          · cases hother.unique hread
            exact h
      · next hfirst =>
        constructor
        · intro h
          cases h
          refine .inl ?_
          cases package with
          | none => exact absurd rfl hfirst
          | some first => exact .clash rfl hread hfirst
        · rintro (hoffends | ⟨other, hother, h, -⟩)
          · cases hoffends with
            | fault h => exact absurd hread h.not_readAs
            | clash hexpected hother hne =>
              cases hother.unique hread
              rw [hexpected]
              rfl
          · cases hother.unique hread
            exact absurd h hfirst

/-! ## Files that have no say -/

theorem filesOf_append_leftOut {path : String} {package : Option String} {before : List Entry}
    {entry : Entry} {after : List Entry} (h : LeftOut source platform entry) :
    filesOf source platform path package (before ++ entry :: after) =
      filesOf source platform path package (before ++ after) := by
  induction before generalizing package with
  | nil =>
    rw [List.nil_append, filesOf, fileOf?_eq_none_iff.2 h]
    rfl
  | cons other before ih =>
    rw [List.cons_append, List.cons_append, filesOf, filesOf]
    split
    · rfl
    · exact ih
    · dsimp only
      rw [ih]

/-- Only the texts of the listed files count. -/
theorem filesOf_congr {source' : FileSource} {path : String} {package : Option String}
    {entries : List Entry}
    (h : ∀ entry ∈ entries, source'.read entry.path = source.read entry.path) :
    filesOf source' platform path package entries =
      filesOf source platform path package entries := by
  induction entries generalizing package with
  | nil => rfl
  | cons entry rest ih =>
    obtain ⟨hentry, hrest⟩ := List.forall_mem_cons.1 h
    have hfile : fileOf? source' platform entry = fileOf? source platform entry := by
      unfold fileOf?
      rw [hentry]
    rw [filesOf, filesOf, hfile]
    split
    · rfl
    · exact ih hrest
    · dsimp only
      rw [ih hrest]

end

theorem filesOf_eq_of_added {source source' : FileSource} {platform : Go.Platform} {path : String}
    {before after : List Entry} {entry : Entry}
    (hread : ∀ other ∈ before ++ after, source'.read other.path = source.read other.path)
    (hentry : ¬IsSourceName entry.name ∨ LeftOut source' platform entry) :
    filesOf source' platform path none
        ((before ++ entry :: after).filter (isPackageFile ·.name)) =
      filesOf source platform path none ((before ++ after).filter (isPackageFile ·.name)) := by
  have hsame : filesOf source' platform path none
      ((before ++ after).filter (isPackageFile ·.name)) =
        filesOf source platform path none ((before ++ after).filter (isPackageFile ·.name)) :=
    filesOf_congr fun other hother => hread other (List.mem_filter.1 hother).1
  rw [← hsame, List.filter_append, List.filter_append]
  by_cases hname : isPackageFile entry.name = true
  · have hleft := hentry.resolve_left (not_not.2 (isPackageFile_iff.1 hname))
    rw [List.filter_cons, if_pos hname, filesOf_append_leftOut hleft]
  · rw [List.filter_cons, if_neg hname]

/-! ## Loading a package -/

theorem buildFiles_eq (source : FileSource) (platform : Go.Platform) (entries : List Entry) :
    buildFiles source platform entries =
      kept source platform (entries.filter (isPackageFile ·.name)) := by
  unfold buildFiles kept
  rw [List.filter_filter]
  refine List.filter_congr fun entry _ => ?_
  simp [← isPackageFile_iff, Bool.and_comm]

theorem agree_none_iff {first : Go.SourceFile} {rest : List Go.SourceFile} :
    Agree none (first :: rest) ↔ ∀ file ∈ first :: rest, file.package = first.package :=
  forall₂_congr fun _ _ => Option.some_inj.trans eq_comm

/-- The package that files make up. -/
def packageOf (path : String) (dir : Files.Path) : List Go.SourceFile → Except LoadError Package
  | [] => .error (.noGoFiles path dir)
  | first :: rest => .ok ⟨path, first.package, dir, first :: rest⟩

theorem packageOf_eq_ok_iff {path : String} {dir : Files.Path} {files : List Go.SourceFile}
    {package : Package} (hagree : Agree none files) :
    packageOf path dir files = .ok package ↔ package.path = path ∧ package.dir = dir ∧
      package.files ≠ [] ∧ package.files = files ∧
        ∀ file ∈ package.files, file.package = package.name := by
  obtain ⟨packagePath, name, packageDir, files'⟩ := package
  cases files with
  | nil =>
    constructor
    · nofun
    · rintro ⟨-, -, hne, rfl, -⟩
      exact absurd rfl hne
  | cons first rest =>
    constructor
    · intro h
      cases h
      exact ⟨rfl, rfl, List.cons_ne_nil _ _, rfl, agree_none_iff.1 hagree⟩
    · rintro ⟨rfl, rfl, -, rfl, hname⟩
      obtain rfl := hname first List.mem_cons_self
      rfl

theorem GoModule.load_eq {m : GoModule} {source : FileSource} {env : BuildEnv} {path : String}
    {dir : Files.Path} {entries : List Entry} (hdir : m.packageDir? source env path = some dir)
    (hlist : source.list dir = .ok entries) :
    m.load source env path =
      (filesOf source env.platform path none (entries.filter (isPackageFile ·.name))).bind
        (packageOf path dir) := by
  simp only [GoModule.load, hdir, hlist]
  cases filesOf source env.platform path none (entries.filter (isPackageFile ·.name)) with
  | error e => rfl
  | ok files => cases files <;> rfl

/-- A file that is no source file, or that the build leaves out, has no influence on its package. -/
theorem GoModule.load_eq_of_added (m : GoModule) {source source' : FileSource} {env : BuildEnv}
    {path : String} {dir : Files.Path} {entry : Entry}
    (hdir : m.packageDir? source env path = some dir) (hadded : Added source source' dir entry)
    (hentry : ¬IsSourceName entry.name ∨ LeftOut source' env.platform entry) :
    m.load source' env path = m.load source env path := by
  obtain ⟨hdirectory, before, after, hbefore, hafter, hread⟩ := hadded
  have hdir' : m.packageDir? source' env path = some dir := by
    rw [← hdir]
    unfold GoModule.packageDir?
    rw [hdirectory]
  rw [m.load_eq hdir hbefore, m.load_eq hdir' hafter, filesOf_eq_of_added hread hentry]

/-- A file in memory is added by storing it at a new place of the directory. -/
theorem GoModule.load_insert (m : GoModule) {s : Store} (hs : s.IsNormal) {env : BuildEnv}
    {path : String} {dir p : Files.Path} {name text : String}
    (hdir : m.packageDir? s.source env path = some dir) (hinside : s.isDirectory dir = true)
    (hp : Location.ofPath p = ⟨(Location.ofPath dir).parts ++ [.name name]⟩)
    (hnew : s.get? (Location.ofPath p) = none)
    (hname : ¬IsSourceName name ∨ env.platform.includes name text = .ok false) :
    m.load (s.insert p text).source env path = m.load s.source env path := by
  have hentry : ¬IsSourceName name ∨ LeftOut (s.insert p text).source env.platform
      (Store.entryIn (Location.ofPath dir) name) :=
    hname.imp_right fun hbuild => ⟨text, Store.read_entryIn_insert s text hp, hbuild⟩
  exact m.load_eq_of_added hdir (Store.added_insert hs hp hnew hinside) hentry

/-- A directory with one file. -/
def oneFile : Store :=
  .ofList [("/m/a.go", "package p\n")]

/-- The module in that directory. -/
def oneFileModule : GoModule :=
  ⟨⟨"/m"⟩, ⟨"m", [], []⟩⟩

/-- A build for one system. -/
def linuxEnv : BuildEnv :=
  ⟨⟨"linux", "amd64", false⟩, none, none⟩

theorem readAs_oneFile : ReadAs oneFile.source linuxEnv.platform ⟨"a.go", ⟨"/m/a.go"⟩⟩
    ⟨"a.go", "p", [], []⟩ := by
  have hbuild : linuxEnv.platform.includes "a.go" "package p\n" = .ok true := by cbv
  have hfile : Go.SourceFile.ofText "a.go" "package p\n" = .ok ⟨"a.go", "p", [], []⟩ := by cbv
  exact ⟨"package p\n", by cbv, hbuild, hfile⟩

theorem buildFiles_oneFile :
    buildFiles oneFile.source linuxEnv.platform [⟨"a.go", ⟨"/m/a.go"⟩⟩] =
      [⟨"a.go", ⟨"/m/a.go"⟩⟩] := by
  have hname : IsSourceName "a.go" := by decide
  exact List.filter_cons_of_pos (decide_eq_true ⟨hname, readAs_oneFile.not_leftOut⟩)

/-- A path that leads to a directory is loaded as the package that the files of the build make up;
without such files, and at the first of them that is at fault, loading fails.  Files of the
directory that are no source files, or that the build leaves out, have no influence on this. -/
theorem GoModule.load_build_files (m : GoModule) {source : FileSource} {env : BuildEnv}
    {path : String} {dir : Files.Path} {entries : List Entry}
    (hdir : m.packageDir? source env path = some dir) (hlist : source.list dir = .ok entries) :
    (∀ package : Package, m.load source env path = .ok package ↔
      package.path = path ∧ package.dir = dir ∧ package.files ≠ [] ∧
        List.Forall₂ (ReadAs source env.platform) (buildFiles source env.platform entries)
          package.files ∧
        ∀ file ∈ package.files, file.package = package.name) ∧
    (∀ e, m.load source env path = .error e ↔
      (buildFiles source env.platform entries = [] ∧ e = .noGoFiles path dir) ∨
        FirstFault source env.platform path none (buildFiles source env.platform entries) e) ∧
    ∀ (source' : FileSource) (entry : Entry), Added source source' dir entry →
      ¬IsSourceName entry.name ∨ LeftOut source' env.platform entry →
        m.load source' env path = m.load source env path := by
  refine ⟨fun package => ?_, fun e => ?_, ?_⟩
  · rw [m.load_eq hdir hlist, buildFiles_eq]
    constructor
    · intro h
      obtain ⟨files, hfiles, hpackage⟩ := Go.bind_eq_ok h
      obtain ⟨hread, hagree⟩ := filesOf_eq_ok_iff.1 hfiles
      obtain ⟨hpath, hat, hne, rfl, hname⟩ := (packageOf_eq_ok_iff hagree).1 hpackage
      exact ⟨hpath, hat, hne, hread, hname⟩
    · rintro ⟨hpath, hat, hne, hread, hname⟩
      have hagree : Agree none package.files := by
        obtain ⟨first, rest, hfiles⟩ := List.exists_cons_of_ne_nil hne
        rw [hfiles] at hname ⊢
        exact agree_none_iff.2 fun file hfile =>
          (hname file hfile).trans (hname first List.mem_cons_self).symm
      rw [filesOf_eq_ok_iff.2 ⟨hread, hagree⟩]
      exact (packageOf_eq_ok_iff hagree).2 ⟨hpath, hat, hne, rfl, hname⟩
  · rw [m.load_eq hdir hlist, buildFiles_eq]
    constructor
    · intro h
      cases hfiles : filesOf source env.platform path none
          (entries.filter (isPackageFile ·.name)) with
      | error e' =>
        rw [hfiles] at h
        cases h
        exact .inr (filesOf_eq_error_iff.1 hfiles)
      | ok files =>
        rw [hfiles] at h
        cases files with
        | nil =>
          cases h
          exact .inl ⟨List.forall₂_nil_right_iff.1 (filesOf_eq_ok_iff.1 hfiles).1, rfl⟩
        | cons first rest => cases h
    · rintro (⟨hempty, rfl⟩ | hfault)
      · have hfiles : filesOf source env.platform path none
            (entries.filter (isPackageFile ·.name)) = .ok [] :=
          filesOf_eq_ok_iff.2 ⟨hempty ▸ .nil, nofun⟩
        rw [hfiles]
        rfl
      · rw [filesOf_eq_error_iff.2 hfault]
        rfl
  · exact fun source' entry hadded hentry => m.load_eq_of_added hdir hadded hentry

/-- A file for another system that is no Go text has no say when it is put beside the other one. -/
theorem GoModule.load_build_files_foreign :
    oneFileModule.packageDir? oneFile.source linuxEnv "m" = some ⟨"/m"⟩ ∧
      oneFile.source.list ⟨"/m"⟩ = .ok [⟨"a.go", ⟨"/m/a.go"⟩⟩] ∧
      oneFileModule.load oneFile.source linuxEnv "m" =
        .ok ⟨"m", "p", ⟨"/m"⟩, [⟨"a.go", "p", [], []⟩]⟩ ∧
      oneFileModule.load (oneFile.insert ⟨"/m/a_windows.go"⟩ "no Go").source linuxEnv "m" =
        .ok ⟨"m", "p", ⟨"/m"⟩, [⟨"a.go", "p", [], []⟩]⟩ := by
  have hdir : oneFileModule.packageDir? oneFile.source linuxEnv "m" = some ⟨"/m"⟩ := by cbv
  have hlist : oneFile.source.list ⟨"/m"⟩ = .ok [⟨"a.go", ⟨"/m/a.go"⟩⟩] := by cbv
  have hplace : Location.ofPath ⟨"/m/a_windows.go"⟩ =
      ⟨(Location.ofPath ⟨"/m"⟩).parts ++ [.name "a_windows.go"]⟩ := by cbv
  have hadded : Added oneFile.source (oneFile.insert ⟨"/m/a_windows.go"⟩ "no Go").source ⟨"/m"⟩
      (Store.entryIn (Location.ofPath ⟨"/m"⟩) "a_windows.go") :=
    Store.added_insert (Store.isNormal_ofList _) hplace (by cbv) (by cbv)
  have hname : linuxEnv.platform.allowsName "a_windows.go" = false := by decide
  have hbuild : linuxEnv.platform.includes "a_windows.go" "no Go" = .ok false :=
    if_neg (Bool.eq_false_iff.1 hname)
  obtain ⟨hload, -, hadd⟩ := oneFileModule.load_build_files hdir hlist
  have hone : oneFileModule.load oneFile.source linuxEnv "m" =
      .ok ⟨"m", "p", ⟨"/m"⟩, [⟨"a.go", "p", [], []⟩]⟩ := by
    refine (hload _).2 ⟨rfl, rfl, List.cons_ne_nil _ _, ?_, List.forall_mem_singleton.2 rfl⟩
    rw [buildFiles_oneFile]
    exact .cons readAs_oneFile .nil
  have hleft : LeftOut (oneFile.insert ⟨"/m/a_windows.go"⟩ "no Go").source linuxEnv.platform
      (Store.entryIn (Location.ofPath ⟨"/m"⟩) "a_windows.go") :=
    ⟨"no Go", Store.read_entryIn_insert oneFile "no Go" hplace, hbuild⟩
  exact ⟨hdir, hlist, hone, (hadd _ _ hadded (.inr hleft)).trans hone⟩

end StructCopy.Module
