/-
  Proofs/Generator/SingleType: a document for a module that has one type.

  The module has one file, which declares a struct type without members.  The document
  copies that type to itself, and a run over it succeeds, whatever the path of the module
  and the name of the type are.
-/
import StructCopy.Files.Store
import StructCopy.Module.Loading
import StructCopy.Proofs.Generator.Confusion
import StructCopy.Proofs.Generator.Registration
import StructCopy.Proofs.Go.FileGrammar
import StructCopy.Proofs.Go.RoundTrip
import StructCopy.Proofs.Fields.Trace
import StructCopy.Proofs.Aliases.Paths
import StructCopy.Proofs.Config.NamedType

set_option autoImplicit false

namespace StructCopy

open StructCopy.Module (Loader GoModule BuildEnv)
open StructCopy.Files (FileSource)
open Go (pieces)

/-! ## A module with one type -/

/-- The text of a file that declares a struct type without members. -/
def structText (name : String) : String :=
  "package p\n\ntype " ++ name ++ " struct\x7b\x7d\n"

/-- What such a file is read as. -/
def structFile (name : String) : Go.SourceFile :=
  ⟨"x.go", "p", [], [⟨3, name, [], false, .struct []⟩]⟩

/-- The tokens of such a file. -/
def structTokens (name : String) : List Go.Located :=
  [⟨1, .word "package"⟩, ⟨1, .word "p"⟩, ⟨1, .semicolon⟩, ⟨3, .word "type"⟩, ⟨3, .word name⟩,
    ⟨3, .word "struct"⟩, ⟨3, .leftBrace⟩, ⟨3, .rightBrace⟩, ⟨3, .semicolon⟩]

theorem toList_structText (name : String) : (structText name).toList =
    "package p\n\ntype ".toList ++ (name.toList ++ " struct\x7b\x7d\n".toList) := by
  unfold structText
  rw [String.toList_append, String.toList_append, List.append_assoc]

theorem tokenize_structText {name : String} (h : Go.Identifier name) :
    ∃ line, Go.tokenize (structText name) = .ok ⟨structTokens name, line⟩ := by
  have hfront : ∀ s, pieces ("package p\n\ntype ".toList ++ s) =
      ([Go.Piece.token (.word "package") 0, .blank, .token (.word "p") 0, .lineBreak, .lineBreak,
        .token (.word "type") 0, .blank] ++ (pieces s).1, (pieces s).2) :=
    fun s => Go.pieces_step rfl (Go.pieces_step rfl (Go.pieces_step rfl (Go.pieces_step rfl
      (Go.pieces_step rfl (Go.pieces_step rfl (Go.pieces_step rfl rfl))))))
  have hback : pieces " struct\x7b\x7d\n".toList =
      ([Go.Piece.blank, .token (.word "struct") 0, .token .leftBrace 0, .token .rightBrace 0,
        .lineBreak], none) :=
    Go.pieces_step rfl (Go.pieces_step rfl (Go.pieces_step rfl (Go.pieces_step rfl
      Go.pieces_lineBreak)))
  have hmark : ∀ s : List Char, Go.withoutMark ("package p\n\ntype ".toList ++ s) =
      "package p\n\ntype ".toList ++ s :=
    fun _ => Go.withoutMark_cons _ (by decide)
  have hboundary : Go.Boundary " struct\x7b\x7d\n".toList := Go.boundary_cons rfl
  have hname := Go.pieces_word h.1 hboundary
  rw [hback] at hname
  rw [Go.tokenize, toList_structText, hmark, hfront, hname]
  exact ⟨_, rfl⟩

theorem ofText_structText {name : String} (h : Go.Identifier name) :
    Go.SourceFile.ofText "x.go" (structText name) = .ok (structFile name) := by
  have hdecl : Go.ReadsDecl ⟨3, name, [], false, .struct []⟩ ((structTokens name).drop 4)
      [⟨3, .semicolon⟩] :=
    .decl h.2 (.none rfl) (.none nofun) (.struct .noField)
  have hround : Go.DeclRound [⟨3, name, [], false, .struct []⟩] ((structTokens name).drop 3) [] :=
    .clause (.single hdecl .semicolon)
  have hpackage : Go.ReadsPackage "p" (structTokens name) ((structTokens name).drop 3) :=
    .clause (by decide) .semicolon
  have hnone : Go.NoImport ((structTokens name).drop 3) := fun himport =>
    absurd (Go.Token.word.inj (Option.some.inj himport)) (by decide)
  have hfile : Go.SourceFile.ofTokens "x.go" (structTokens name) = .ok (structFile name) :=
    Go.readsFront_iff.2 ⟨rfl, .front hpackage (.refl _) hnone (.round hround (.refl []))⟩
  obtain ⟨line, htokens⟩ := tokenize_structText h
  rw [Go.SourceFile.ofText, htokens]
  dsimp only
  rw [hfile]

/-- A directory that holds nothing but such a file. -/
def structFiles (name : String) : FileSource :=
  (Files.Store.ofList [("/m/x.go", structText name)]).source

/-- A module in that directory. -/
def structModule (path : String) : GoModule :=
  ⟨⟨"/m"⟩, ⟨path, [], []⟩⟩

/-- A build that takes all files. -/
def structEnv : BuildEnv :=
  ⟨⟨"linux", "amd64", false⟩, none, none⟩

/-- The loader of the module. -/
def structLoader (path name : String) : Loader :=
  (structModule path).loader (structFiles name) structEnv

theorem includes_structText (name : String) :
    structEnv.platform.includes "x.go" (structText name) = .ok true := by
  unfold Go.Platform.includes Go.headerDirectives
  rw [toList_structText]
  generalize name.toList ++ " struct\x7b\x7d\n".toList = rest
  have hlines : Text.lines (Go.withoutMark ("package p\n\ntype ".toList ++ rest)) =
      "package p".toList :: [] :: Text.lines ("type ".toList ++ rest) :=
    rfl
  rw [hlines]
  cbv

/-- The package of the module declares the type. -/
theorem declares_structLoader (path : String) {name : String} (h : Go.Identifier name) :
    ∃ p, (structLoader path name).Declares ⟨path, name⟩ p (structFile name)
      ⟨3, name, [], false, .struct []⟩ := by
  have hlist : (structFiles name).list ⟨"/m"⟩ = .ok [⟨"x.go", ⟨"/m/x.go"⟩⟩] := by
    unfold structFiles
    generalize structText name = text
    cbv
  have hread : (structFiles name).read ⟨"/m/x.go"⟩ = .ok (structText name) := by
    unfold structFiles
    generalize structText name = text
    cbv
  have hdir : (structModule path).packageDir? (structFiles name) structEnv path = some ⟨"/m"⟩ := by
    have hwithin : Module.within? path (structModule path).file.path = some "" := by
      unfold Module.within? structModule
      simp
    unfold GoModule.packageDir?
    rw [hwithin]
    rfl
  have hfile : Module.fileOf? (structFiles name) structEnv.platform ⟨"x.go", ⟨"/m/x.go"⟩⟩ =
      .ok (some (structFile name)) := by
    unfold Module.fileOf?
    rw [hread]
    dsimp only
    rw [includes_structText]
    dsimp only
    rw [ofText_structText h]
  have hload : (structLoader path name).load path =
      .ok ⟨path, "p", ⟨"/m"⟩, [structFile name]⟩ := by
    change (structModule path).load (structFiles name) structEnv path = _
    unfold GoModule.load
    rw [hdir]
    dsimp only
    rw [hlist]
    dsimp only
    have hfilter : List.filter (Module.isPackageFile ·.name)
        [(⟨"x.go", ⟨"/m/x.go"⟩⟩ : Files.Entry)] = [⟨"x.go", ⟨"/m/x.go"⟩⟩] := by
      decide
    rw [hfilter, Module.filesOf, hfile]
    rfl
  refine ⟨_, hload, ?_⟩
  unfold Module.Package.findType? structFile
  simp

/-! ## A document for it -/

/-- The type with a name in the package of a path. -/
def typeIn (path name : String) : TypeTemplate where
  template := ⟨placeholder 0 ++ "." ++ name, placeholder 0 ++ "." ++ name,
    [.var "Import0", .text ("." ++ name)]⟩
  imports := [path]
  bound := by
    intro v hv
    have hv : v = "Import0" := by simpa [Template.variableNames] using hv
    rw [hv]
    cbv

/-- A document with one mapping, of that type to itself. -/
def copyDocument (path name : String) : MappingDocument :=
  let entry : TypeEntry := ⟨placeholder 0 ++ "." ++ name, [path]⟩
  ⟨"out", none, none, none, false, [⟨entry, entry, some "F", [], [], [], none⟩]⟩

/-- The mapping of the document. -/
def copySpec (path name : String) : MappingSpec :=
  ⟨typeIn path name, typeIn path name, ⟨path, name⟩, ⟨path, name⟩, some "F", [], [], [], none⟩

/-- What the document says once it is accepted. -/
def copyConfig (path name : String) : MappingConfig :=
  ⟨"out", "structmap.gen.go", ".", "json", false, [copySpec path name]⟩

variable {path name : String}

theorem namedType?_typeIn (h : Text.isIdentifier name.toList = true) :
    (typeIn path name).namedType? = some (some 0, name) := by
  have htext : ("." ++ name).toList = '.' :: name.toList := by
    rw [String.toList_append]
    rfl
  have hblank : ∀ c ∈ '.' :: name.toList, Text.isBlank c = false := by
    refine List.forall_mem_cons.2 ⟨by decide, fun c hc => ?_⟩
    rw [Bool.eq_false_iff]
    intro hblank
    have hpart := Go.isWordPart_of_mem h hc
    rw [Go.isWordPart_of_isBlank hblank] at hpart
    cases hpart
  have hend : Text.trimEnd ("." ++ name).toList = '.' :: name.toList := by
    rw [htext]
    exact Text.dropEndWhile_eq_self hblank
  have hindex : importIndex? "Import0" = some 0 := by cbv
  unfold TypeTemplate.namedType? typeIn
  simp only [hindex, hend, h, if_true, String.ofList_toList]

theorem check_copyDocument (h : Text.isIdentifier name.toList = true)
    (hread : Template.ofText? (placeholder 0 ++ "." ++ name) (placeholder 0 ++ "." ++ name) =
      .ok (typeIn path name).template) :
    (copyDocument path name).check = .ok (copyConfig path name) := by
  have htemplate : TypeTemplate.ofText? (placeholder 0 ++ "." ++ name) [path] =
      .ok (typeIn path name) := ofText?_eq_ok [path] hread (typeIn path name).bound
  have hentry : ∀ context, TypeEntry.check context ⟨placeholder 0 ++ "." ++ name, [path]⟩ =
      .ok (typeIn path name, ⟨path, name⟩) := by
    intro context
    unfold TypeEntry.check
    rw [htemplate]
    simp only [inContext, bind, Except.bind]
    rw [namedType?_typeIn h]
    rfl
  have hname : Text.isBlankString "out" = false := by decide
  have htrimmed : Text.trimmed "out" = "out" := by cbv
  have hfunction : nonBlank? (some "F") = some "F" := by decide
  unfold copyDocument copyConfig copySpec MappingDocument.check
  dsimp only [checkEach, checkFrom]
  rw [if_neg (Bool.eq_false_iff.1 hname), htrimmed]
  unfold MappingEntry.check
  dsimp only
  rw [hentry, hentry, hfunction]
  rfl

/-- The type has no fields, and the search for them discovers its module. -/
theorem fields_structLoader (path : String) (h : Go.Identifier name) :
    (structLoader path name).answerFor ⟨path, name⟩ = .ok [] ∧
      (structLoader path name).foundFor ⟨path, name⟩ = [path] := by
  obtain ⟨p, hdecl⟩ := declares_structLoader path h
  have hanswer : (structLoader path name).answerFor ⟨path, name⟩ = .ok [] :=
    Loader.answerFor_eq_ok_iff.2 (.struct hdecl (Go.TypeExpr.encloses_struct _) .noMember)
  have hdiscovers : (structLoader path name).Discovers ⟨path, name⟩ [path] :=
    .struct hdecl (Go.TypeExpr.encloses_struct _) .noMember
  exact ⟨hanswer, (discovers_foundFor hanswer).unique hdiscovers⟩

theorem pathsFor_copySpec (path : String) (h : Go.Identifier name) :
    (structLoader path name).pathsFor (copySpec path name) = [path, path, path, path] := by
  obtain ⟨hanswer, hfound⟩ := fields_structLoader path h
  unfold Loader.pathsFor copySpec
  dsimp only
  rw [hanswer, hfound]
  rfl

/-- A first run writes a file. -/
theorem exists_generate_copyConfig (path : String) (h : Go.Identifier name) :
    ∃ text after, (Session.fresh (structLoader path name)).generate (copyConfig path name) [] =
      (.ok text, after) := by
  have hboth : (structLoader path name).bothFields (copySpec path name) = .ok ([], []) := by
    unfold Loader.bothFields copySpec
    rw [(fields_structLoader path h).1]
    rfl
  have hfunction : ∀ a, ∃ f, (structLoader path name).functionWith (copyConfig path name) [] 0
      (copySpec path name) a = .ok f := by
    intro a
    unfold Loader.functionWith
    rw [hboth]
    exact ⟨_, rfl⟩
  obtain ⟨-, -, hresult⟩ := (Session.sound_fresh (L := structLoader path name)).functionFor
    (copyConfig path name) [] 0 (copySpec path name)
  obtain ⟨f, hf⟩ := hfunction ((Session.fresh (structLoader path name)).aliases.registerAll
    ((structLoader path name).pathsFor (copySpec path name)))
  have hrun := Session.functionsFor_cons_ok (hresult.trans hf) []
  have hregistered : ((Session.fresh (structLoader path name)).register
      (importsOf [])).functionsFor (copyConfig path name) [] 0 (copyConfig path name).mappings =
        (.ok [f], ((Session.fresh (structLoader path name)).functionFor (copyConfig path name) [] 0
          (copySpec path name)).2) :=
    hrun
  rw [Session.generate_eq, hregistered]
  exact ⟨_, _, rfl⟩

theorem placeholderPaths_typeIn (path name : String) :
    (typeIn path name).placeholderPaths = [path] := by
  have hindex : importIndex? "Import0" = some 0 := by cbv
  unfold TypeTemplate.placeholderPaths Template.variableNames typeIn
  simp [hindex]

theorem render_typeIn (path name : String) (a : Aliases) :
    ((typeIn path name).render a).toList =
      (a.qualifierFor path).toList ++ '.' :: name.toList := by
  have hindex : importIndex? "Import0" = some 0 := by cbv
  unfold TypeTemplate.render Template.substitute typeIn
  simp [hindex]

theorem types_copyConfig {m : MappingSpec} (hm : m ∈ (copyConfig path name).mappings)
    {t : TypeTemplate} (ht : t ∈ m.types) : t = typeIn path name := by
  cases List.mem_singleton.1 hm
  rcases List.mem_cons.1 ht with rfl | ht
  · rfl
  · exact List.mem_singleton.1 ht

end StructCopy
