/-
  Proofs/Go/Insertion: functions, variables and constants do not disturb the types read.

  A declaration that is no type declaration keeps its brackets balanced and ends with
  its only semicolon outside all of them, so that it is passed over as a whole, with the
  types and the semicolons inside it.  Put at a place between two declarations it changes
  nothing that is read there: what comes before is read up to the semicolon before the
  place, and what comes behind is read from the same state of the loop.
-/
import Mathlib.Data.List.Infix
import StructCopy.Proofs.Go.Relabeling
import StructCopy.Proofs.Go.Resumption

set_option autoImplicit false

namespace StructCopy.Go

/-! ## Declarations that are passed over -/

/-- The number of opening brackets less that of closing brackets. -/
def bracketDepth (ts : List Located) : Int :=
  (ts.countP fun t => t.token.opens : Nat) - (ts.countP fun t => t.token.closes : Nat)

/-- A declaration that is neither an import nor a type declaration, with the semicolon that ends
it. -/
structure OtherDecl (ts : List Located) : Prop where
  notType : next ts ≠ some (.word "type")
  notImport : next ts ≠ some (.word "import")
  notSemicolon : next ts ≠ some .semicolon
  /-- no bracket is closed that has not been opened -/
  nonneg : ∀ front, front <+: ts → 0 ≤ bracketDepth front
  closed : bracketDepth ts = 0
  ends : ∃ front line, ts = front ++ [⟨line, .semicolon⟩]
  /-- no other semicolon stands outside all brackets -/
  only : ∀ front line behind, ts = front ++ ⟨line, .semicolon⟩ :: behind →
    bracketDepth front = 0 → behind = []

theorem bracketDepth_concat (ts : List Located) (t : Located) :
    bracketDepth (ts ++ [t]) =
      bracketDepth ts + (if t.token.opens then 1 else 0) - (if t.token.closes then 1 else 0) := by
  unfold bracketDepth
  rw [List.countP_append, List.countP_append, List.countP_singleton, List.countP_singleton]
  split <;> split <;> omega

theorem Token.closes_of_opens {t : Token} (h : t.opens = true) : t.closes = false := by
  cases t <;> first | rfl | cases h

theorem bracketDepth_nonneg {ts front behind : List Located} {t : Located} (h : OtherDecl ts)
    (hts : ts = front ++ t :: behind) : 0 ≤ bracketDepth (front ++ [t]) := by
  refine h.nonneg _ ⟨behind, ?_⟩
  rw [hts, List.append_assoc]
  rfl

/-- The number of open brackets is followed token by token. -/
theorem bracketDepth_depthAfter {ts : List Located} {t : Located} {depth : Nat}
    (hdepth : bracketDepth ts = depth) (hnonneg : 0 ≤ bracketDepth (ts ++ [t])) :
    bracketDepth (ts ++ [t]) = t.token.depthAfter depth := by
  rw [bracketDepth_concat, hdepth] at hnonneg ⊢
  unfold Token.depthAfter
  cases hopens : t.token.opens with
  | true =>
    rw [Token.closes_of_opens hopens]
    rfl
  | false =>
    rw [hopens] at hnonneg
    cases hcloses : t.token.closes with
    | true =>
      rw [hcloses] at hnonneg
      simp only [Bool.false_eq_true, if_false, if_true] at hnonneg ⊢
      omega
    | false => simp

/-- No token but the last ends the declaration. -/
theorem OtherDecl.inside {ts front behind : List Located} {t t' : Located} (h : OtherDecl ts)
    (hts : ts = front ++ t :: t' :: behind) {depth : Nat} (hdepth : bracketDepth front = depth) :
    ¬(depth = 0 ∧ (t.token = .semicolon ∨ t.token.closes = true)) := by
  rintro ⟨rfl, hsemicolon | hcloses⟩
  · obtain ⟨line, token⟩ := t
    cases hsemicolon
    cases h.only front line (t' :: behind) hts hdepth
  · have hopens : t.token.opens = false := by
      cases hopens : t.token.opens with
      | false => rfl
      | true => rw [Token.closes_of_opens hopens] at hcloses; cases hcloses
    have hnonneg := bracketDepth_nonneg h hts
    rw [bracketDepth_concat, hdepth, hopens, hcloses] at hnonneg
    exact absurd hnonneg (by decide)

/-- From each of its tokens on, the declaration is passed over. -/
theorem OtherDecl.skips_from {ts : List Located} (h : OtherDecl ts) (rest : List Located)
    {front behind : List Located} {t : Located} (hts : ts = front ++ t :: behind) {depth : Nat}
    (hdepth : bracketDepth front = depth) : Skips depth (t :: behind ++ rest) rest := by
  induction behind generalizing front t depth with
  | nil =>
    obtain ⟨front', line, hends⟩ := h.ends
    obtain ⟨rfl, hlast⟩ := List.append_inj' (hts.symm.trans hends) rfl
    cases hlast
    have hafter := bracketDepth_depthAfter hdepth (bracketDepth_nonneg h hts)
    rw [← hts, h.closed] at hafter
    obtain rfl : 0 = depth := Int.ofNat.inj hafter
    exact .semicolon
  | cons t' behind ih =>
    have hafter := bracketDepth_depthAfter hdepth (bracketDepth_nonneg h hts)
    refine .next (h.inside hts hdepth) (ih ?_ hafter)
    rw [hts, List.append_assoc]
    rfl

theorem OtherDecl.ne_nil {ts : List Located} (h : OtherDecl ts) : ts ≠ [] := by
  rintro rfl
  obtain ⟨front, line, hts⟩ := h.ends
  exact List.append_ne_nil_of_right_ne_nil front (List.cons_ne_nil _ _) hts.symm

/-- A declaration that is passed over leaves the types behind it. -/
theorem OtherDecl.typeDecls_eq {ts : List Located} (h : OtherDecl ts) (rest : List Located) :
    typeDecls (ts ++ rest) = typeDecls rest := by
  cases ts with
  | nil => rfl
  | cons t ts =>
    have hround : DeclRound [] (t :: ts ++ rest) rest :=
      .other (fun htoken => h.notType (congrArg some htoken))
        (fun htoken => h.notSemicolon (congrArg some htoken))
        (@OtherDecl.skips_from _ h rest [] ts t rfl 0 rfl)
    rw [hround.typeDecls_eq]
    cases typeDecls rest <;> rfl

/-! ## Places between declarations -/

theorem NoImport.relocate {body r : List Located} (r' : List Located) (h : NoImport (body ++ r))
    (hsemicolon : next r' ≠ some .semicolon) (himport : next r' ≠ some (.word "import")) :
    NoImport (body ++ r') := by
  induction body with
  | nil =>
    rw [List.nil_append, NoImport, skipSemicolons_of_next_ne hsemicolon]
    exact himport
  | cons t body ih =>
    by_cases htoken : next (t :: body) = some .semicolon
    · obtain ⟨line, token⟩ := t
      cases htoken
      exact ih h
    · have hne : ∀ r, next (t :: body ++ r) ≠ some .semicolon := fun _ => htoken
      unfold NoImport at h ⊢
      rw [skipSemicolons_of_next_ne (hne r)] at h
      rw [skipSemicolons_of_next_ne (hne r')]
      exact h

/-- The front of a file up to a semicolon is read alike when the tokens behind it are replaced. -/
theorem ReadsFront.relocate {front : SourceFile} {ts r : List Located} (r' : List Located)
    (h : ReadsFront front ts r) (hlast : ¬Unfinished ts r)
    (hsemicolon : next r' ≠ some .semicolon) (himport : next r' ≠ some (.word "import")) :
    ∃ body, ts = body ++ r ∧ ReadsFront front (body ++ r') r' := by
  obtain ⟨hpackage, himports, hnone, hdecls⟩ := h
  have hstart := (resumes_package _).suffix hpackage
  have hmid := (himports.suffix resumes_importRound).trans hstart
  obtain ⟨body, rfl, hdecls'⟩ := @Resumes.relocate _ (resumes_rounds resumes_declRound _) _ [] r r'
    hdecls fun _ hunfinished => hlast (hunfinished.mono hmid)
  obtain ⟨body', rfl, himports'⟩ := (resumes_rounds resumes_importRound _).relocate r' himports
    fun _ hunfinished => hlast (hunfinished.mono hstart)
  obtain ⟨body'', rfl, hpackage'⟩ := (resumes_package _).relocate r' hpackage fun _ => hlast
  exact ⟨body'', rfl, .front hpackage' himports' (hnone.relocate r' hsemicolon himport) hdecls'⟩

/-- The loop that reads type declarations comes to `point`. -/
def AtDeclaration (ts point : List Located) : Prop :=
  ∃ front, ReadsFront front ts point

theorem ReadsFront.rename {front : SourceFile} {ts rest : List Located}
    (h : ReadsFront front ts rest) (name : String) :
    ReadsFront { front with name := name } ts rest := by
  obtain ⟨hpackage, himports, hnone, hdecls⟩ := h
  exact .front hpackage himports hnone hdecls

/-- A declaration put behind a semicolon at which the loop stands changes nothing. -/
theorem ofTokens_insert_eq (name : String) {before inserted point : List Located} {line : Nat}
    (hat : AtDeclaration (before ++ ⟨line, .semicolon⟩ :: point) point)
    (hinserted : OtherDecl inserted) :
    SourceFile.ofTokens name (before ++ ⟨line, .semicolon⟩ :: (inserted ++ point)) =
      SourceFile.ofTokens name (before ++ ⟨line, .semicolon⟩ :: point) := by
  obtain ⟨front, hfront⟩ := hat
  have hnamed := hfront.rename name
  have hnext : next (inserted ++ point) = next inserted := by
    rw [next_append hinserted.ne_nil point [], List.append_nil]
  obtain ⟨body, hbody, hnamed'⟩ := hnamed.relocate (inserted ++ point)
    (not_unfinished before point) (hnext ▸ hinserted.notSemicolon) (hnext ▸ hinserted.notImport)
  rw [List.append_cons] at hbody
  obtain rfl := List.append_cancel_right hbody
  rw [← List.append_cons] at hnamed'
  calc SourceFile.ofTokens name (before ++ ⟨line, .semicolon⟩ :: (inserted ++ point))
    _ = (typeDecls (inserted ++ point)).map fun more =>
          { front with name := name, types := front.types ++ more } := hnamed'.ofTokens_eq
    _ = (typeDecls point).map fun more =>
          { front with name := name, types := front.types ++ more } := by
        rw [hinserted.typeDecls_eq]
    _ = SourceFile.ofTokens name (before ++ ⟨line, .semicolon⟩ :: point) := hnamed.ofTokens_eq.symm

/-- Functions, variables and constants do not disturb the types that are read.  Where a file is
read, and the loop that reads its type declarations stands behind a semicolon, a declaration of
another kind may be put: the file is read as before, and also when lines are counted anew, up to
these lines. -/
theorem ofTokens_insert {name : String} {file : SourceFile} {before inserted point : List Located}
    {line : Nat}
    (hfile : SourceFile.ofTokens name (before ++ ⟨line, .semicolon⟩ :: point) = .ok file)
    (hat : AtDeclaration (before ++ ⟨line, .semicolon⟩ :: point) point)
    (hinserted : OtherDecl inserted) :
    SourceFile.ofTokens name (before ++ ⟨line, .semicolon⟩ :: (inserted ++ point)) = .ok file ∧
      ∀ ts, SameTokens (before ++ ⟨line, .semicolon⟩ :: (inserted ++ point)) ts →
        ∃ file', SourceFile.ofTokens name ts = .ok file' ∧ file'.eraseLines = file.eraseLines := by
  have hread := (ofTokens_insert_eq name hat hinserted).trans hfile
  exact ⟨hread, fun ts hsame => ofTokens_relabel hread hsame⟩

/-! ## A function with a type of its own -/

/-- The tokens of `package p`. -/
def frontTokens : List Located := [⟨1, .word "package"⟩, ⟨1, .word "p"⟩]

/-- The tokens of `type A int;`. -/
def typeTokens : List Located :=
  [⟨2, .word "type"⟩, ⟨2, .word "A"⟩, ⟨2, .word "int"⟩, ⟨2, .semicolon⟩]

/-- The tokens of a function `f` that declares a type `B` in its body. -/
def functionTokens : List Located :=
  [⟨2, .word "func"⟩, ⟨2, .word "f"⟩, ⟨2, .leftParen⟩, ⟨2, .rightParen⟩, ⟨2, .leftBrace⟩,
    ⟨2, .word "type"⟩, ⟨2, .word "B"⟩, ⟨2, .word "int"⟩, ⟨2, .semicolon⟩, ⟨2, .rightBrace⟩,
    ⟨2, .semicolon⟩]

theorem otherDecl_functionTokens : OtherDecl functionTokens where
  notType := nofun
  notImport := nofun
  notSemicolon := nofun
  nonneg front hfront :=
    (by decide : ∀ q ∈ functionTokens.inits, 0 ≤ bracketDepth q) front
      ((List.mem_inits _ _).2 hfront)
  closed := by decide
  ends := ⟨functionTokens.dropLast, 2, rfl⟩
  only front line behind hts hdepth := by
    have hall : ∀ q ∈ functionTokens.inits, bracketDepth q = 0 →
        next (functionTokens.drop q.length) = some .semicolon →
        functionTokens.drop (q.length + 1) = [] := by
      decide
    have hfront : front <+: functionTokens := ⟨_, hts.symm⟩
    have hlast := hall front ((List.mem_inits _ _).2 hfront) hdepth
    rw [hts, List.drop_left, ← List.drop_drop, List.drop_left] at hlast
    exact hlast rfl

/-- The file that declares `A` alone. -/
def fileOfA : SourceFile := ⟨"a.go", "p", [], [⟨2, "A", [], false, .named "int"⟩]⟩

theorem rounds_typeTokens : Rounds DeclRound fileOfA.types typeTokens [] := by
  have hround : DeclRound fileOfA.types typeTokens [] :=
    .clause (.single (.decl (by decide) (.none rfl) (.none nofun)
      (.name (.named (by decide) nofun) nofun)) .semicolon)
  exact .round hround (.refl [])

/-- The type declared inside the function does not get out. -/
theorem ofTokens_insert_function :
    SourceFile.ofTokens "a.go" (frontTokens ++ ⟨1, .semicolon⟩ :: typeTokens) = .ok fileOfA ∧
    AtDeclaration (frontTokens ++ ⟨1, .semicolon⟩ :: typeTokens) typeTokens ∧
    OtherDecl functionTokens ∧
    SourceFile.ofTokens "a.go" (frontTokens ++ ⟨1, .semicolon⟩ ::
      (functionTokens ++ typeTokens)) = .ok fileOfA := by
  have hpackage : ReadsPackage "p" (frontTokens ++ ⟨1, .semicolon⟩ :: typeTokens) typeTokens :=
    .clause (by decide) .semicolon
  have hnone : NoImport typeTokens := nofun
  have hfile : SourceFile.ofTokens "a.go" (frontTokens ++ ⟨1, .semicolon⟩ :: typeTokens) =
      .ok fileOfA :=
    readsFront_iff.2 ⟨rfl, .front hpackage (.refl _) hnone rounds_typeTokens⟩
  have hat : AtDeclaration (frontTokens ++ ⟨1, .semicolon⟩ :: typeTokens) typeTokens :=
    ⟨⟨"a.go", "p", [], []⟩, .front hpackage (.refl _) hnone (.refl _)⟩
  exact ⟨hfile, hat, otherDecl_functionTokens,
    (ofTokens_insert hfile hat otherDecl_functionTokens).1⟩

end StructCopy.Go
