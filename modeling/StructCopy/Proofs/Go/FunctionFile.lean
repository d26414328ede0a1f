/-
  Proofs/Go/FunctionFile: files with imports and functions, and without types.

  Such a file is a comment line, a package clause, a block of imports, and functions with
  a blank line between two of them.  It is read as its package and its imports, in their
  order, if all of its functions can be taken apart; otherwise it cannot be read.
-/
import StructCopy.Proofs.Go.Declaration
import StructCopy.Proofs.Go.FileGrammar
import StructCopy.Proofs.Go.Skipping
import StructCopy.Proofs.Go.WellFormed
import Mathlib.Data.List.Forall2

set_option autoImplicit false

namespace StructCopy.Go

/-! ## Functions -/

/-- The texts of some functions, each on lines of its own. -/
def functionsText : List (List Char) → List Char
  | [] => []
  | s :: rest => s ++ '\n' :: if rest.isEmpty then [] else '\n' :: functionsText rest

/-- No tokens, or those of a function. -/
def AtFunction (ts : List Located) : Prop :=
  ts = [] ∨ ∃ line more, ts = ⟨line, .word "func"⟩ :: more

/-- The text can be taken apart, and wherever it stands, it declares no type. -/
def DeclaresNone (s : List Char) : Prop :=
  ∃ ps, pieces s = (ps, none) ∧ ∀ line, typeDecls (layout line false ps).tokens = .ok []

theorem declaresNone_nil : DeclaresNone [] :=
  ⟨[], by rw [pieces], fun line => by rw [layout, if_neg Bool.false_ne_true, typeDecls]; rfl⟩

theorem DeclaresNone.lineBreak {s : List Char} (h : DeclaresNone s) : DeclaresNone ('\n' :: s) := by
  obtain ⟨ps, hpieces, hdecls⟩ := h
  exact ⟨.lineBreak :: ps, pieces_step rfl hpieces, fun line => hdecls (line + 1)⟩

/-- Functions that can be taken apart are passed over, one after another. -/
theorem exists_typeDecls_of_functions {fs : List (List Char)} {cleans : List Prop}
    (h : List.Forall₂ FunctionText fs cleans) (hclean : ∀ clean ∈ cleans, clean) :
    ∃ ps, pieces (functionsText fs) = (ps, none) ∧ ∀ line,
      AtFunction (layout line false ps).tokens ∧ typeDecls (layout line false ps).tokens = .ok [] := by
  induction h with
  | nil =>
    obtain ⟨ps, hpieces, hdecls⟩ := declaresNone_nil
    cases (pieces.eq_1).symm.trans hpieces
    exact ⟨[], hpieces, fun line => ⟨.inl rfl, hdecls line⟩⟩
  | @cons s clean rest cleans hs _ ih =>
    obtain ⟨hfirst, hmore⟩ := List.forall_mem_cons.1 hclean
    obtain ⟨ps, hps, hpieces⟩ := hs.pieces_eq hfirst
    have hrest : DeclaresNone (if rest.isEmpty then [] else '\n' :: functionsText rest) := by
      obtain ⟨ps', hpieces', hdecls⟩ := ih hmore
      split
      · exact declaresNone_nil
      · exact DeclaresNone.lineBreak ⟨ps', hpieces', fun line => (hdecls line).2⟩
    obtain ⟨more, hpieces', hdecls⟩ := hrest
    refine ⟨keywordPieces ++ (ps ++ .lineBreak :: more), ?_, fun line => ?_⟩
    · rw [functionsText, hpieces, pieces_step rfl hpieces']
    · obtain ⟨ts, line', htokens, hskip⟩ := exists_typeDecls_of_function hps line more
      rw [htokens]
      exact ⟨.inr ⟨_, ts, rfl⟩, hskip.trans (hdecls line')⟩

/-- Functions cannot be taken apart if one of them cannot. -/
theorem fault_of_functions {fs : List (List Char)} {cleans : List Prop}
    (h : List.Forall₂ FunctionText fs cleans) (hclean : ¬∀ clean ∈ cleans, clean) :
    (pieces (functionsText fs)).2 ≠ none := by
  induction h with
  | nil => exact absurd (fun _ h => absurd h List.not_mem_nil) hclean
  | @cons s clean rest cleans hs hrest ih =>
    rw [functionsText]
    by_cases hfirst : clean
    · obtain ⟨ps, -, hpieces⟩ := hs.pieces_eq hfirst
      have hmore : ¬∀ clean ∈ cleans, clean :=
        fun hall => hclean (List.forall_mem_cons.2 ⟨hfirst, hall⟩)
      have hnonempty : rest.isEmpty = false := by
        cases hrest with
        | nil => exact absurd (fun _ h => absurd h List.not_mem_nil) hmore
        | cons => rfl
      have hbreak : ∀ r, step '\n' r = .ok (.lineBreak, r) := fun _ => rfl
      rw [hpieces, hnonempty, if_neg Bool.false_ne_true, pieces_of_step (hbreak _),
        pieces_of_step (hbreak _)]
      exact ih hmore
    · exact hs.fault hfirst _

/-! ## Imports -/

/-- The name and the path of an import. -/
def Import.entry (i : Import) : Option String × String :=
  (i.name, i.path)

/-- The line of an import in a block. -/
def importText : Option String × String → String
  | (none, path) => "\t\"" ++ path ++ "\""
  | (some name, path) => "\t" ++ name ++ " \"" ++ path ++ "\""

/-- The name is an identifier, and the path needs no escapes. -/
structure Importable (entry : Option String × String) : Prop where
  name : ∀ name ∈ entry.1, Text.isIdentifier name.toList = true
  path : ∀ c ∈ entry.2.toList, c ≠ '"' ∧ c ≠ '\\' ∧ c ≠ '\n'

/-- A text without escapes is the value of its string literal. -/
theorem stringBody_append_mark {s : List Char} (h : ∀ c ∈ s, c ≠ '"' ∧ c ≠ '\\' ∧ c ≠ '\n')
    (r : List Char) : stringBody (s ++ '"' :: r) = .ok (s, r) := by
  induction s with
  | nil => rfl
  | cons c s ih =>
    obtain ⟨⟨hmark, hescape, hbreak⟩, hrest⟩ := List.forall_mem_cons.1 h
    rw [List.cons_append, stringBody.eq_def]
    split
    · next heq => cases heq
    · next heq => exact absurd (List.cons.inj heq).1 hbreak
    · next heq => exact absurd (List.cons.inj heq).1 hmark
    · next heq => exact absurd (List.cons.inj heq).1 hescape
    · next heq => exact absurd (List.cons.inj heq).1 hescape
    · next heq =>
      cases heq
      rw [ih hrest]
      rfl

theorem step_string {path : String} (h : ∀ c ∈ path.toList, c ≠ '"' ∧ c ≠ '\\' ∧ c ≠ '\n')
    (r : List Char) : step '"' (path.toList ++ '"' :: r) = .ok (.token (.str path) 0, r) := by
  have hlead : lead '"' (path.toList ++ '"' :: r) = .string := rfl
  rw [step_eq_cut, hlead, Lead.cut, stringBody_append_mark h]
  simp only [Except.map, String.ofList_toList]

/-- The pieces of the line of an import. -/
def importPieces : Option String × String → List Piece
  | (none, path) => [.blank, .token (.str path) 0, .lineBreak]
  | (some name, path) => [.blank, .token (.word name) 0, .blank, .token (.str path) 0, .lineBreak]

theorem pieces_importText {entry : Option String × String} (h : Importable entry) (r : List Char) :
    pieces ((importText entry).toList ++ '\n' :: r) =
      (importPieces entry ++ (pieces r).1, (pieces r).2) := by
  obtain ⟨name?, path⟩ := entry
  have hpath : ∀ r, pieces ('"' :: (path.toList ++ '"' :: '\n' :: r)) =
      (.token (.str path) 0 :: .lineBreak :: (pieces r).1, (pieces r).2) :=
    fun r => pieces_step (step_string h.path _) (pieces_of_step rfl)
  cases name? with
  | none =>
    have htext : (importText (none, path)).toList ++ '\n' :: r =
        '\t' :: '"' :: (path.toList ++ '"' :: '\n' :: r) := by
      unfold importText
      simp only [String.toList_append, List.append_assoc]
      rfl
    rw [htext]
    exact pieces_step rfl (hpath r)
  | some name =>
    have htext : (importText (some name, path)).toList ++ '\n' :: r =
        '\t' :: (name.toList ++ ' ' :: '"' :: (path.toList ++ '"' :: '\n' :: r)) := by
      unfold importText
      simp only [String.toList_append, List.append_assoc]
      rfl
    have hblank : ∀ r, step ' ' r = .ok (.blank, r) := fun _ => rfl
    have hname : pieces (name.toList ++ ' ' :: '"' :: (path.toList ++ '"' :: '\n' :: r)) = _ :=
      pieces_word (h.name name rfl) (boundary_cons rfl)
    rw [htext]
    refine pieces_step rfl ?_
    rw [hname, pieces_of_step (hblank _), hpath]
    rfl

theorem pieces_importTexts {entries : List (Option String × String)}
    (h : ∀ entry ∈ entries, Importable entry) (r : List Char) :
    pieces (entries.flatMap (fun entry => (importText entry).toList ++ ['\n']) ++ r) =
      (entries.flatMap importPieces ++ (pieces r).1, (pieces r).2) := by
  induction entries with
  | nil => rfl
  | cons entry entries ih =>
    obtain ⟨hentry, hrest⟩ := List.forall_mem_cons.1 h
    rw [List.flatMap_cons, List.flatMap_cons, List.append_assoc, List.append_assoc,
      List.singleton_append, pieces_importText hentry, ih hrest, List.append_assoc]

/-- The tokens of the line of an import. -/
def importTokens (line : Nat) : Option String × String → List Located
  | (none, path) => [⟨line, .str path⟩, ⟨line, .semicolon⟩]
  | (some name, path) => [⟨line, .word name⟩, ⟨line, .str path⟩, ⟨line, .semicolon⟩]

theorem layout_importPieces (line : Nat) (entry : Option String × String) (more : List Piece) :
    (layout line false (importPieces entry ++ more)).tokens =
      importTokens line entry ++ (layout (line + 1) false more).tokens := by
  obtain ⟨name?, path⟩ := entry
  cases name? <;> rfl

theorem outcome_importGroup_cons (line : Nat) (entry : Option String × String)
    {ts rest : List Located} {imports : List Import}
    (h : outcome (importGroup ts) = some (imports, rest)) :
    outcome (importGroup (importTokens line entry ++ ts)) =
      some (⟨line, entry.1, entry.2⟩ :: imports, rest) := by
  obtain ⟨name?, path⟩ := entry
  cases name? with
  | none =>
    change outcome (importGroup (⟨line, .str path⟩ :: ⟨line, .semicolon⟩ :: ts)) = _
    rw [importGroup.eq_def]
    change outcome (importGroup ts >>= _) = _
    rw [outcome_bind h]
    rfl
  | some name =>
    change outcome (importGroup
      (⟨line, .word name⟩ :: ⟨line, .str path⟩ :: ⟨line, .semicolon⟩ :: ts)) = _
    rw [importGroup.eq_def]
    change outcome (importGroup ts >>= _) = _
    rw [outcome_bind h]
    rfl

/-- The entries of a block are read up to its closing parenthesis. -/
theorem exists_importGroup (entries : List (Option String × String)) (line : Nat)
    (more : List Piece) :
    ∃ imports line', imports.map Import.entry = entries ∧
      outcome (importGroup (layout line false
        (entries.flatMap importPieces ++ .token .rightParen 0 :: more)).tokens) =
          some (imports, (layout line' true more).tokens) := by
  induction entries generalizing line with
  | nil =>
    refine ⟨[], line, rfl, ?_⟩
    change outcome (importGroup (⟨line, .rightParen⟩ :: (layout line true more).tokens)) = _
    rw [importGroup.eq_def]
    rfl
  | cons entry entries ih =>
    obtain ⟨imports, line', himports, hgroup⟩ := ih (line + 1)
    refine ⟨⟨line, entry.1, entry.2⟩ :: imports, line', ?_, ?_⟩
    · rw [List.map_cons, himports]
      rfl
    · rw [List.flatMap_cons, List.append_assoc, layout_importPieces]
      exact outcome_importGroup_cons line entry hgroup

/-! ## Import declarations -/

theorem AtFunction.importsRead {ts : List Located} (h : AtFunction ts) :
    importsRead ts = .ok ([], ts) := by
  rcases h with rfl | ⟨line, more, rfl⟩
  · rw [Go.importsRead, importDecls.eq_def]
    rfl
  · rw [Go.importsRead, importDecls.eq_def]
    dsimp only
    rw [if_neg (by decide)]
    rfl

/-- A block of imports is read, and functions behind it are left. -/
theorem importsRead_block {line line' line'' : Nat} {ts rest : List Located} {imports : List Import}
    (hgroup : outcome (importGroup ts) = some (imports, ⟨line'', .semicolon⟩ :: rest))
    (hrest : AtFunction rest) :
    importsRead (⟨line, .word "import"⟩ :: ⟨line', .leftParen⟩ :: ts) = .ok (imports, rest) := by
  obtain ⟨hlt, hok⟩ := ok_of_outcome hgroup
  obtain ⟨⟨none, left⟩, hnone, heq⟩ := ok_of_map_eq_ok hrest.importsRead
  obtain ⟨hempty, hleft⟩ := Prod.mk.inj heq
  dsimp only at hempty hleft
  rw [importsRead, importDecls.eq_def]
  dsimp only
  rw [if_pos rfl, hok]
  dsimp only [bind, Except.bind, terminator]
  rw [hnone, hempty]
  simp only [pure, Except.pure, Except.map, List.append_nil, hleft]

/-! ## Files -/

/-- The text of a block of imports, with a blank line behind it; empty for no imports. -/
def blockText (entries : List (Option String × String)) : List Char :=
  if entries.isEmpty then []
  else "import (\n".toList ++ (entries.flatMap (fun entry => (importText entry).toList ++ ['\n']) ++
    ")\n\n".toList)

/-- The text of a file with a line comment, a package clause, imports and functions. -/
def functionFileText (comment : List Char) (package : String)
    (entries : List (Option String × String)) (functions : List (List Char)) : List Char :=
  '/' :: '/' :: (comment ++ ['\n']) ++ ("package ".toList ++ (package.toList ++ ("\n\n".toList ++
    (blockText entries ++ functionsText functions))))

/-- The pieces before the imports. -/
def packagePieces (package : String) : List Piece :=
  [.comment 0, .lineBreak, .token (.word "package") 0, .blank, .token (.word package) 0, .lineBreak,
    .lineBreak]

theorem pieces_package {comment : List Char} (hcomment : '\n' ∉ comment) {package : String}
    (hpackage : Identifier package) (r : List Char) :
    pieces ('/' :: '/' :: (comment ++ ['\n']) ++ ("package ".toList ++ (package.toList ++
        ("\n\n".toList ++ r)))) = (packagePieces package ++ (pieces r).1, (pieces r).2) := by
  have hbreaks : pieces ("\n\n".toList ++ r) =
      (.lineBreak :: .lineBreak :: (pieces r).1, (pieces r).2) :=
    pieces_step rfl (pieces_of_step rfl)
  have hboundary : Boundary ("\n\n".toList ++ r) := boundary_cons rfl
  have hname := pieces_word hpackage.1 hboundary
  rw [hbreaks] at hname
  have hclause : pieces ("package ".toList ++ (package.toList ++ ("\n\n".toList ++ r))) =
      (.token (.word "package") 0 :: .blank :: .token (.word package) 0 :: .lineBreak ::
        .lineBreak :: (pieces r).1, (pieces r).2) :=
    pieces_step rfl (pieces_step rfl hname)
  rw [pieces_comment hcomment, hclause]
  rfl

/-- The tokens before the imports. -/
def packageTokens (package : String) : List Located :=
  [⟨2, .word "package"⟩, ⟨2, .word package⟩, ⟨2, .semicolon⟩]

theorem layout_packagePieces {package : String} (hpackage : Identifier package)
    (ps : List Piece) : (layout 1 false (packagePieces package ++ ps)).tokens =
      packageTokens package ++ (layout 4 false ps).tokens := by
  have hends : (Token.word package).endsStatement = true := by
    rw [Token.endsStatement, hpackage.2]
    rfl
  change ⟨2, .word "package"⟩ :: ⟨2, .word package⟩ ::
    (layout 2 (Token.word package).endsStatement (.lineBreak :: .lineBreak :: ps)).tokens = _
  rw [hends]
  rfl

/-- The pieces of a block of imports. -/
def blockPieces (entries : List (Option String × String)) : List Piece :=
  if entries.isEmpty then []
  else [.token (.word "import") 0, .blank, .token .leftParen 0, .lineBreak] ++
    (entries.flatMap importPieces ++ [.token .rightParen 0, .lineBreak, .lineBreak])

theorem pieces_blockText {entries : List (Option String × String)}
    (h : ∀ entry ∈ entries, Importable entry) (r : List Char) :
    pieces (blockText entries ++ r) = (blockPieces entries ++ (pieces r).1, (pieces r).2) := by
  unfold blockText blockPieces
  cases hempty : entries.isEmpty with
  | true =>
    rw [if_pos rfl, if_pos rfl]
    rfl
  | false =>
    have hopen : ∀ t, pieces ("import (\n".toList ++ t) =
        ([Piece.token (.word "import") 0, .blank, .token .leftParen 0, .lineBreak] ++ (pieces t).1,
          (pieces t).2) :=
      fun t => pieces_step rfl (pieces_step rfl (pieces_step rfl (pieces_step rfl rfl)))
    have hclose : pieces (")\n\n".toList ++ r) =
        ([Piece.token .rightParen 0, .lineBreak, .lineBreak] ++ (pieces r).1, (pieces r).2) :=
      pieces_step rfl (pieces_step rfl (pieces_step rfl rfl))
    rw [if_neg Bool.false_ne_true, if_neg Bool.false_ne_true, List.append_assoc, hopen,
      List.append_assoc, pieces_importTexts h, hclose]
    simp only [List.append_assoc]

/-- A block of imports in front of functions is read as its entries. -/
theorem exists_importsRead (entries : List (Option String × String)) {ps : List Piece}
    (hps : ∀ line, AtFunction (layout line false ps).tokens ∧
      typeDecls (layout line false ps).tokens = .ok []) (line : Nat) :
    ∃ imports rest,
      importsRead (layout line false (blockPieces entries ++ ps)).tokens = .ok (imports, rest) ∧
        imports.map Import.entry = entries ∧ typeDecls rest = .ok [] := by
  unfold blockPieces
  cases entries with
  | nil => exact ⟨[], _, (hps line).1.importsRead, rfl, (hps line).2⟩
  | cons entry entries =>
    obtain ⟨imports, line', himports, hread⟩ := exists_importGroup (entry :: entries) (line + 1)
      (.lineBreak :: .lineBreak :: ps)
    obtain ⟨hfunction, hdecls⟩ := hps (line' + 2)
    rw [List.isEmpty_cons, if_neg Bool.false_ne_true, List.append_assoc, List.append_assoc]
    exact ⟨imports, _, importsRead_block hread hfunction, himports, hdecls⟩

theorem withoutMark_functionFileText (comment : List Char) (package : String)
    (entries : List (Option String × String)) (functions : List (List Char)) :
    withoutMark (functionFileText comment package entries functions) =
      functionFileText comment package entries functions :=
  withoutMark_cons _ (by decide)

/-- The tokens of a package clause, of imports and of functions are read as a file. -/
theorem ofTokens_packageTokens {package : String} (hpackage : Identifier package)
    {ts rest : List Located} {imports : List Import} (h : importsRead ts = .ok (imports, rest))
    (hrest : typeDecls rest = .ok []) (name : String) :
    SourceFile.ofTokens name (packageTokens package ++ ts) =
      .ok ⟨name, package, imports, []⟩ := by
  obtain ⟨⟨imports', left⟩, hdecls, heq⟩ := ok_of_map_eq_ok h
  obtain ⟨rfl, rfl⟩ := Prod.mk.inj heq
  change identifier (⟨2, .word package⟩ :: ⟨2, .semicolon⟩ :: ts) >>= _ = _
  rw [identifier_cons hpackage.2]
  change importDecls ts >>= _ = _
  rw [hdecls]
  change typeDecls left.val >>= _ = _
  rw [hrest]
  rfl

variable {comment : List Char} {package : String} {entries : List (Option String × String)}
  {functions : List (List Char)} {cleans : List Prop} {text : String}

/-- A file of imports and functions is read as its package and its imports, in their order, if all
functions can be taken apart. -/
theorem exists_ofText_functionFile (hcomment : '\n' ∉ comment) (hpackage : Identifier package)
    (hentries : ∀ entry ∈ entries, Importable entry)
    (hfunctions : List.Forall₂ FunctionText functions cleans) (hclean : ∀ clean ∈ cleans, clean)
    (htext : text.toList = functionFileText comment package entries functions) (name : String) :
    ∃ imports, imports.map Import.entry = entries ∧
      SourceFile.ofText name text = .ok ⟨name, package, imports, []⟩ := by
  obtain ⟨ps, hps, hread⟩ := exists_typeDecls_of_functions hfunctions hclean
  obtain ⟨imports, rest, himports, hmap, hdecls⟩ := exists_importsRead entries hread 4
  refine ⟨imports, hmap, ?_⟩
  rw [SourceFile.ofText, tokenize, htext, withoutMark_functionFileText, functionFileText,
    pieces_package hcomment hpackage, pieces_blockText hentries, hps]
  dsimp only
  rw [layout_packagePieces hpackage, ofTokens_packageTokens hpackage himports hdecls]

/-- A file of imports and functions cannot be read if some function cannot be taken apart. -/
theorem ofText_functionFile_error (hcomment : '\n' ∉ comment) (hpackage : Identifier package)
    (hentries : ∀ entry ∈ entries, Importable entry)
    (hfunctions : List.Forall₂ FunctionText functions cleans) (hclean : ¬∀ clean ∈ cleans, clean)
    (htext : text.toList = functionFileText comment package entries functions) (name : String) :
    ∃ e, SourceFile.ofText name text = .error e := by
  have hfault := fault_of_functions hfunctions hclean
  rw [SourceFile.ofText, tokenize, htext, withoutMark_functionFileText, functionFileText,
    pieces_package hcomment hpackage, pieces_blockText hentries]
  obtain ⟨fault, hfault⟩ := Option.ne_none_iff_exists'.1 hfault
  rw [hfault]
  exact ⟨_, rfl⟩

end StructCopy.Go
