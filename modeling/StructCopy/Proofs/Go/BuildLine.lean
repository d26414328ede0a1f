/-
  Proofs/Go/BuildLine: what a constraint on the first line of a file decides.

  A file whose name is bound to no platform takes part in a build as the expression behind
  `//go:build` says; a line that holds no expression is an error there.
-/
import Mathlib
import StructCopy.Proofs.Go.ConstraintGrammar
import StructCopy.Proofs.Go.HeaderLines

set_option autoImplicit false

namespace StructCopy

namespace Go

/-! ## Names -/

/-- The name of a file does not end in an underscore and the name of a system or an
architecture, with or without `.go` behind it. -/
def Unsuffixed (fileName : String) : Prop :=
  ∀ front, ∀ word ∈ operatingSystems ++ architectures,
    fileName ≠ front ++ "_" ++ word ∧ fileName ≠ front ++ "_" ++ word ++ ".go"

theorem unsuffixed_of_not_mem {fileName : String} (h : '_' ∉ fileName.toList) :
    Unsuffixed fileName := by
  intro front word _
  constructor <;> rintro rfl <;> simp at h

theorem Platform.allowsEnding_of_not_mem (p : Platform) {ending : String}
    (h : ending ∉ operatingSystems ++ architectures) : allowsName.allowsEnding p ending = true := by
  rw [List.mem_append, not_or] at h
  rw [allowsName.allowsEnding, if_neg (by simp [h.1, h.2])]

/-- What stands behind the last underscore of a name without `.go` binds it to no platform. -/
theorem Unsuffixed.not_mem {fileName : String} (h : Unsuffixed fileName) {stem : List Char}
    (hstem : fileName.toList = stem ∨ fileName.toList = stem ++ ".go".toList) {word : String}
    (hword : ((Text.splitAt '_' stem).tail.map String.ofList).getLast? = some word) :
    word ∉ operatingSystems ++ architectures := by
  intro hmem
  rw [List.getLast?_map, Option.map_eq_some_iff] at hword
  obtain ⟨last, hlast, rfl⟩ := hword
  obtain ⟨front, rfl⟩ := Text.suffix_of_getLast?_splitAt hlast
  obtain ⟨hbare, hgo⟩ := h (String.ofList front) _ hmem
  rcases hstem with hstem | hstem
  · exact hbare (String.toList_inj.1 (by simp [hstem]))
  · exact hgo (String.toList_inj.1 (by simp [hstem]))

theorem Platform.allowsName_of_unsuffixed (p : Platform) {fileName : String}
    (h : Unsuffixed fileName) : p.allowsName fileName = true := by
  unfold allowsName
  dsimp only
  generalize hstem : (Text.before? ".go".toList fileName.toList).getD fileName.toList = stem
  have hname : fileName.toList = stem ∨ fileName.toList = stem ++ ".go".toList := by
    cases hbefore : Text.before? ".go".toList fileName.toList with
    | none =>
      rw [hbefore] at hstem
      exact .inl hstem
    | some front =>
      rw [hbefore] at hstem
      cases hstem
      exact .inr (Text.before?_eq_some_iff.1 hbefore)
  have hlast : ∀ word, ((Text.splitAt '_' stem).tail.map String.ofList).getLast? = some word →
      word ∉ operatingSystems ++ architectures := fun _ => h.not_mem hname
  rw [List.getLast?_eq_head?_reverse] at hlast
  split
  · next arch os _ hendings =>
    have harch := hlast arch (by rw [hendings]; rfl)
    have hnone : arch ∉ architectures := fun hmem => harch (List.mem_append_right _ hmem)
    rw [if_neg (by simp [hnone]), p.allowsEnding_of_not_mem harch]
  · next ending hendings => exact p.allowsEnding_of_not_mem (hlast ending (by rw [hendings]; rfl))
  · rfl

/-! ## The first line -/

theorem afterKeyword?_eq_some_iff {keyword : String} {s rest : List Char} :
    afterKeyword? keyword s = some rest ↔
      s = keyword.toList ++ rest ∧ ∀ c ∈ rest.head?, Text.isBlank c = true := by
  rw [← Text.after?_eq_some]
  unfold afterKeyword?
  cases Text.after? keyword.toList s with
  | none => simp
  | some after =>
    cases after with
    | nil =>
      rw [Option.some_inj]
      refine ⟨?_, And.left⟩
      rintro rfl
      exact ⟨rfl, nofun⟩
    | cons c after =>
      dsimp only
      split
      · next hc =>
        rw [Option.some_inj]
        refine ⟨fun h => ⟨h, ?_⟩, And.left⟩
        rintro d hd
        subst h
        cases hd
        exact hc
      · next hc =>
        refine iff_of_false nofun ?_
        rintro ⟨h, hblank⟩
        cases h
        exact hc (hblank c rfl)

/-- The constraint on the first line of a file is its first directive. -/
theorem exists_headerDirectives {expr rest : String} (hexpr : '\n' ∉ expr.toList)
    (hrest : ∀ c ∈ rest.toList.head?, c = '\n') :
    ∃ ds, headerDirectives ("//go:build " ++ expr ++ rest) =
      .goBuild 1 (Text.trimEnd (' ' :: expr.toList)) :: ds := by
  have hsource : ("//go:build " ++ expr ++ rest).toList =
      [] ++ ("//".toList ++ ("go:build".toList ++ ' ' :: expr.toList)) ++ rest.toList := by
    rw [String.toList_append, String.toList_append]
    rfl
  have hbreak : '\n' ∉ [] ++ ("//".toList ++ ("go:build".toList ++ ' ' :: expr.toList)) := by
    simpa using hexpr
  obtain ⟨more, hmore⟩ := Text.exists_splitAt_append hbreak hrest
  have hkeyword : Text.trimEnd ("go:build".toList ++ ' ' :: expr.toList) =
      "go:build".toList ++ Text.trimEnd (' ' :: expr.toList) :=
    Text.trimEnd_append (by decide) _
  have hfront : ∀ c ∈ (Text.trimEnd (' ' :: expr.toList)).head?, Text.isBlank c = true := by
    intro c hc
    rw [Text.eq_of_mem_head?_trimEnd hc]
    decide
  have hdirective : directiveOf? 1 ("go:build".toList ++ Text.trimEnd (' ' :: expr.toList)) =
      some (.goBuild 1 (Text.trimEnd (' ' :: expr.toList))) := by
    rw [directiveOf?, afterKeyword?_eq_some_iff.2 ⟨rfl, hfront⟩]
  have hindent : ∀ c ∈ ([] : List Char), Text.isBlank c = true := nofun
  refine ⟨directives 2 false more, ?_⟩
  rw [headerDirectives_eq, hsource, withoutMark_eq_self (by simp), hmore, directives_cons,
    lineDirective?_lineComment hindent, readLine_lineComment hindent, hkeyword, hdirective]
  rfl

namespace Platform

/-- The first `//go:build` line decides alone. -/
theorem includes_eq (p : Platform) {fileName : String} (hname : Unsuffixed fileName)
    {source : String} {line : Nat} {expr : List Char}
    (hfirst : firstGoBuild? (headerDirectives source) = some (line, expr)) :
    p.includes fileName source =
      match Constraint.ofText expr with
      | .ok c => .ok (c.holds p.satisfies)
      | .error fault => .error ⟨fileName, line, .constraint fault⟩ := by
  rw [includes, if_pos (p.allowsName_of_unsuffixed hname), admits, hfirst]
  dsimp only
  cases Constraint.ofText expr <;> rfl

/-- A constraint on the first line of a file admits it exactly by the value of the expression
that it is a way to write, and is an error of this line if it is a way to write none.  With any
parentheses and any white space that leave its meaning, an expression has the same value. -/
theorem includes_buildLine (p : Platform) {fileName : String} (hname : Unsuffixed fileName)
    {expr rest : String} (hexpr : '\n' ∉ expr.toList) (hrest : ∀ c ∈ rest.toList.head?, c = '\n') :
    (∀ v, p.includes fileName ("//go:build " ++ expr ++ rest) = .ok v ↔
      ∃ c : Constraint, c.WrittenAs expr.toList ∧ c.holds p.satisfies = v) ∧
    ((¬ ∃ c : Constraint, c.WrittenAs expr.toList) →
      ∃ fault, p.includes fileName ("//go:build " ++ expr ++ rest) =
        .error ⟨fileName, 1, .constraint fault⟩) ∧
    ∀ c : Constraint, c.WrittenAs expr.toList →
      p.includes fileName ("//go:build " ++ expr ++ rest) = .ok (c.holds p.satisfies) := by
  obtain ⟨ds, hds⟩ := exists_headerDirectives hexpr hrest
  have hfirst : firstGoBuild? (headerDirectives ("//go:build " ++ expr ++ rest)) =
      some (1, Text.trimEnd (' ' :: expr.toList)) := by
    rw [hds]
    rfl
  obtain ⟨blanks, htrim, hblanks⟩ := Text.exists_append_trimEnd (' ' :: expr.toList)
  have hiff := fun c => Constraint.writtenAs_iff_of_blanks (c := c) (by decide) hblanks htrim
  have hvalue : ∀ c : Constraint, c.WrittenAs expr.toList →
      p.includes fileName ("//go:build " ++ expr ++ rest) = .ok (c.holds p.satisfies) := by
    intro c hc
    obtain ⟨d, hagrees, hd⟩ := ((hiff c).1 hc).ofText
    rw [p.includes_eq hname hfirst, hd]
    exact congrArg Except.ok (hagrees p.satisfies)
  have hread : (∃ c : Constraint, c.WrittenAs expr.toList) ∨
      ∃ fault, p.includes fileName ("//go:build " ++ expr ++ rest) =
        .error ⟨fileName, 1, .constraint fault⟩ := by
    rw [p.includes_eq hname hfirst]
    split
    · next c hc => exact .inl ⟨c, (hiff c).2 (Constraint.writtenAs_of_ofText hc)⟩
    · next fault _ => exact .inr ⟨fault, rfl⟩
  refine ⟨fun v => ⟨fun hv => ?_, ?_⟩, hread.resolve_left, hvalue⟩
  · rcases hread with ⟨c, hc⟩ | ⟨fault, hfault⟩
    · rw [hvalue c hc] at hv
      exact ⟨c, hc, Except.ok.inj hv⟩
    · rw [hfault] at hv
      cases hv
  · rintro ⟨c, hc, rfl⟩
    exact hvalue c hc

/-- An expression in more parentheses than it needs, and a line that breaks off. -/
theorem includes_buildLine_parentheses :
    Unsuffixed "windows.go" ∧
    (Platform.mk "linux" "amd64" false).includes "windows.go"
      ("//go:build " ++ "!(( darwin )||windows)&&linux\r" ++ "\n\npackage p\n") = .ok true ∧
    ∃ fault, (Platform.mk "linux" "amd64" false).includes "windows.go"
      ("//go:build " ++ "linux &&" ++ "") = .error ⟨"windows.go", 1, .constraint fault⟩ := by
  have hname : Unsuffixed "windows.go" := unsuffixed_of_not_mem (by decide)
  refine ⟨hname, ?_, ?_⟩
  · have hwritten : Constraint.Written .disjunction _ _ :=
      .conjunction (.and
        (.operand (.not (.paren (.or
          (.conjunction (.operand (.paren (.conjunction (.operand (.tag "darwin"))))))
          (.conjunction (.operand (.tag "windows")))))))
        (.operand (.tag "linux")))
    have hparts : Constraint.parts "!(( darwin )||windows)&&linux\r".toList =
        .ok [.not, .left, .left, .tag "darwin", .right, .or, .tag "windows", .right, .and,
          .tag "linux"] := by cbv
    exact (includes_buildLine _ hname (by decide) (by simp)).2.2 _
      ⟨_, Constraint.spells_of_parts hparts, hwritten⟩
  · refine (includes_buildLine _ hname (by decide) (by simp)).2.1 ?_
    rintro ⟨c, hc⟩
    obtain ⟨d, -, hd⟩ := hc.ofText
    have herror : Constraint.ofText "linux &&".toList = .error .endOfExpression := by cbv
    rw [herror] at hd
    cases hd

end Platform

end Go

end StructCopy
