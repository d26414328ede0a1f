/-
  Proofs/Go/Declaration: a file whose only declaration is an alias.

  Such a file is read as its one declaration exactly when the tokens behind the equals
  sign are read as a type and nothing but the end of the statement is left.
-/
import StructCopy.Proofs.Go.Grammar
import StructCopy.Proofs.Go.Lexing

set_option autoImplicit false

namespace StructCopy.Go

/-! ## The file -/

/-- The text of a file that declares an alias for the type written as `text`. -/
def aliasSource (text : String) : String :=
  "package p\ntype X = " ++ text ++ "\n"

/-- What such a file is read as. -/
def aliasFile (name : String) (type : TypeExpr) : SourceFile :=
  { name, package := "p", imports := [],
    types := [{ line := 2, name := "X", params := [], isAlias := true, type }] }

/-! ## Its tokens -/

/-- The pieces before the type. -/
def aliasPieces : List Piece :=
  [.token (.word "package") 0, .blank, .token (.word "p") 0, .lineBreak, .token (.word "type") 0,
    .blank, .token (.word "X") 0, .blank, .token .assign 0, .blank]

/-- The tokens before the type. -/
def aliasTokens : List Located :=
  [⟨1, .word "package"⟩, ⟨1, .word "p"⟩, ⟨1, .semicolon⟩, ⟨2, .word "type"⟩, ⟨2, .word "X"⟩,
    ⟨2, .assign⟩]

theorem pieces_aliasSource (s : List Char) :
    pieces ("package p\ntype X = ".toList ++ s) = (aliasPieces ++ (pieces s).1, (pieces s).2) :=
  pieces_step rfl (pieces_step rfl (pieces_step rfl (pieces_step rfl (pieces_step rfl
    (pieces_step rfl (pieces_step rfl (pieces_step rfl (pieces_step rfl
      (pieces_step rfl rfl)))))))))

theorem layout_aliasPieces (ps : List Piece) :
    layout 1 false (aliasPieces ++ ps) =
      { layout 2 false ps with tokens := aliasTokens ++ (layout 2 false ps).tokens } :=
  rfl

/-- The tokens of the file, when its type can be taken apart. -/
theorem tokenize_aliasSource {text : String} {ps : List Piece}
    (h : pieces (text.toList ++ ['\n']) = (ps, none)) :
    tokenize (aliasSource text) =
      .ok { layout 2 false ps with tokens := aliasTokens ++ (layout 2 false ps).tokens } := by
  have happend : ∀ a b c : String,
      (a ++ b ++ c).toList = a.toList ++ (b.toList ++ c.toList) := by
    intro a b c
    rw [String.toList_append, String.toList_append, List.append_assoc]
  have htext : (aliasSource text).toList =
      "package p\ntype X = ".toList ++ (text.toList ++ ['\n']) := happend _ _ _
  have hmark : ∀ s : List Char, withoutMark ("package p\ntype X = ".toList ++ s) =
      "package p\ntype X = ".toList ++ s := fun _ => withoutMark_cons _ (by decide)
  rw [tokenize, htext, hmark, pieces_aliasSource, h]
  dsimp only
  rw [layout_aliasPieces]

/-! ## Its declaration -/

/-- The end of a statement at the end of a file. -/
def AtEnd (ts : List Located) : Prop :=
  ts = [] ∨ ∃ line, ts = [⟨line, .semicolon⟩]

theorem importDecls_of_type (line : Nat) (ts : List Located) :
    importDecls (⟨line, .word "type"⟩ :: ts) =
      .ok ([], ⟨⟨line, .word "type"⟩ :: ts, Nat.le_refl _⟩) := by
  rw [importDecls.eq_def]
  dsimp only
  exact if_neg (by decide)

theorem outcome_typeSpec_alias {line line' : Nat} {w : String} (hw : isKeyword w = false)
    {type : TypeExpr} {ts rest : List Located} (h : outcome (typeExpr ts) = some (type, rest)) :
    outcome (typeSpec (⟨line, .word w⟩ :: ⟨line', .assign⟩ :: ts)) =
      some (⟨line, w, [], true, type⟩, rest) := by
  rw [typeSpec, readers_eq, round, declRound, identifier_cons hw]
  change outcome (typeExpr ts >>= _) = _
  rw [outcome_bind h]
  rfl

theorem typeDecls_of_atEnd {ts : List Located} (h : AtEnd ts) :
    ∃ rest, terminator ts = .ok rest ∧ typeDecls rest.val = .ok [] := by
  rcases h with rfl | ⟨line, rfl⟩
  · exact ⟨_, rfl, typeDecls_nil⟩
  · exact ⟨_, rfl, typeDecls_nil⟩

theorem typeDecls_alias {line line' line'' : Nat} {w : String} (hw : isKeyword w = false)
    {type : TypeExpr} {ts rest : List Located} (h : outcome (typeExpr ts) = some (type, rest))
    (hrest : AtEnd rest) :
    typeDecls (⟨line, .word "type"⟩ :: ⟨line', .word w⟩ :: ⟨line'', .assign⟩ :: ts) =
      .ok [⟨line', w, [], true, type⟩] := by
  obtain ⟨hlt, hok⟩ := ok_of_outcome (outcome_typeSpec_alias hw h)
  obtain ⟨rest', hend, hnone⟩ := typeDecls_of_atEnd hrest
  have hopen : next (⟨line', .word w⟩ :: ⟨line'', .assign⟩ :: ts) ≠ some .leftParen := nofun
  rw [typeDecls_spec line hopen, hok]
  dsimp only [bind, Except.bind]
  rw [hend]
  dsimp only
  rw [hnone]
  rfl

/-- The file is read as its declaration when its type is read up to the end of the statement. -/
theorem ofTokens_alias (name : String) {type : TypeExpr} {ts rest : List Located}
    (h : Reads (.type type) ts rest) (hrest : AtEnd rest) :
    SourceFile.ofTokens name (aliasTokens ++ ts) = .ok (aliasFile name type) := by
  have hdecls : typeDecls (⟨2, .word "type"⟩ :: ⟨2, .word "X"⟩ :: ⟨2, .assign⟩ :: ts) =
      .ok [⟨2, "X", [], true, type⟩] := typeDecls_alias (by decide) h.outcome_eq hrest
  have himports := importDecls_of_type 2 (⟨2, .word "X"⟩ :: ⟨2, .assign⟩ :: ts)
  change importDecls (⟨2, .word "type"⟩ :: ⟨2, .word "X"⟩ :: ⟨2, .assign⟩ :: ts) >>= _ = _
  rw [himports]
  change typeDecls (⟨2, .word "type"⟩ :: ⟨2, .word "X"⟩ :: ⟨2, .assign⟩ :: ts) >>= _ = _
  rw [hdecls]
  rfl

/-- When the file is read as this declaration, its type has been read behind the equals sign. -/
theorem reads_of_ofTokens_alias {name : String} {type : TypeExpr} {ts : List Located}
    (h : SourceFile.ofTokens name (aliasTokens ++ ts) = .ok (aliasFile name type)) :
    ∃ rest, Reads (.type type) ts rest := by
  have himports := importDecls_of_type 2 (⟨2, .word "X"⟩ :: ⟨2, .assign⟩ :: ts)
  change importDecls (⟨2, .word "type"⟩ :: ⟨2, .word "X"⟩ :: ⟨2, .assign⟩ :: ts) >>= _ = _ at h
  rw [himports] at h
  change typeDecls (⟨2, .word "type"⟩ :: ⟨2, .word "X"⟩ :: ⟨2, .assign⟩ :: ts) >>= _ = _ at h
  obtain ⟨decls, hdecls, h⟩ := bind_eq_ok h
  cases h
  have hopen : next (⟨2, .word "X"⟩ :: ⟨2, .assign⟩ :: ts) ≠ some .leftParen := nofun
  rw [typeDecls_spec 2 hopen] at hdecls
  obtain ⟨⟨decl, rest⟩, hspec, hdecls⟩ := bind_eq_ok hdecls
  obtain ⟨rest', -, hdecls⟩ := bind_eq_ok hdecls
  obtain ⟨more, -, hdecls⟩ := bind_eq_ok hdecls
  cases hdecls
  rw [typeSpec, readers_eq, round, declRound, identifier_cons (by decide)] at hspec
  change typeExpr ts >>= _ = _ at hspec
  obtain ⟨⟨type', rest''⟩, hok, hspec⟩ := bind_eq_ok hspec
  cases hspec
  have houtcome : (Phrase.type type).Outcome ts rest''.val := congrArg outcome hok
  exact ⟨rest''.val, reads_of_outcome houtcome⟩

end StructCopy.Go
