/-
  Proofs/Go/HeaderLines: the lines of a header, read one after another.

  What a line means depends only on whether a block comment is open where it begins.  The
  state that the lines above leave is all that the lines below get to know of them, so that
  the directives of some lines are those of the upper ones and, unless these end the header,
  those of the lower ones.
-/
import StructCopy.Go.Header
import StructCopy.Proofs.Go.Joining
import StructCopy.Proofs.Text.Separators
import StructCopy.Proofs.Text.Trimming

set_option autoImplicit false

namespace StructCopy.Go

/-! ## One line -/

/-- Whether a block comment is open behind a line; nothing if the line ends the header. -/
def readLine (inside : Bool) (raw : List Char) : Option Bool :=
  let text := Text.trim raw
  if inside then some (!Text.contains "*/".toList text)
  else if text.isEmpty then some false
  else
    match Text.after? "/*".toList text with
    | some body => some (!Text.contains "*/".toList body)
    | none => (Text.after? "//".toList text).map fun _ => false

/-- The directive of a line. -/
def lineDirective? (line : Nat) (inside : Bool) (raw : List Char) : Option Directive :=
  if inside then none
  else (Text.after? "//".toList (Text.trim raw)).bind (directiveOf? line)

/-- Whether a block comment is open behind some lines; nothing if one of them ends the header. -/
def readLines (inside : Bool) (raws : List (List Char)) : Option Bool :=
  raws.foldlM readLine inside

theorem readLines_append (inside : Bool) (upper lower : List (List Char)) :
    readLines inside (upper ++ lower) =
      (readLines inside upper).bind fun open' => readLines open' lower :=
  List.foldlM_append

theorem directives_cons (line : Nat) (inside : Bool) (raw : List Char) (rest : List (List Char)) :
    directives line inside (raw :: rest) = (lineDirective? line inside raw).toList ++
      match readLine inside raw with
      | some inside' => directives (line + 1) inside' rest
      | none => [] := by
  rw [directives]
  unfold lineDirective? readLine
  cases inside with
  | true => rfl
  | false =>
    dsimp only
    generalize Text.trim raw = text
    cases text with
    | nil => rfl
    | cons c text =>
      cases hblock : Text.after? "/*".toList (c :: text) with
      | some body =>
        rw [Text.after?_eq_some] at hblock
        rw [hblock]
        rfl
      | none => cases Text.after? "//".toList (c :: text) <;> rfl

/-- Directives are collected from the top; what is open behind the upper lines decides how the
lower ones are read. -/
theorem directives_append (line : Nat) (inside : Bool) (upper lower : List (List Char)) :
    directives line inside (upper ++ lower) = directives line inside upper ++
      match readLines inside upper with
      | some inside' => directives (line + upper.length) inside' lower
      | none => [] := by
  induction upper generalizing line inside with
  | nil => rfl
  | cons raw upper ih =>
    rw [List.cons_append, directives_cons, directives_cons, readLines, List.foldlM_cons]
    cases readLine inside raw with
    | none => rw [List.append_nil]; exact (List.append_nil _).symm
    | some inside' =>
      dsimp only
      rw [ih, List.append_assoc, List.length_cons, Nat.add_right_comm, Nat.add_assoc]
      rfl

/-- A line that ends the header holds no directive. -/
theorem directives_of_readLine {inside : Bool} {raw : List Char} (h : readLine inside raw = none)
    (line : Nat) (rest : List (List Char)) : directives line inside (raw :: rest) = [] := by
  have hnone : lineDirective? line inside raw = none := by
    unfold readLine at h
    unfold lineDirective?
    dsimp only at h
    split at h
    · cases h
    split at h
    · cases h
    split at h
    · cases h
    next hinside _ _ _ =>
    rw [if_neg hinside, Option.map_eq_none_iff.1 h]
    rfl
  rw [directives_cons, h, hnone]
  rfl

/-- Nothing is read but what is left of the lines without the white space at their ends. -/
theorem directives_congr {line : Nat} {inside : Bool} {raws raws' : List (List Char)}
    (h : List.Forall₂ (fun raw raw' => Text.trim raw = Text.trim raw') raws raws') :
    directives line inside raws = directives line inside raws' := by
  induction h generalizing line inside with
  | nil => rfl
  | cons hraw _ ih =>
    rw [directives_cons, directives_cons, lineDirective?, lineDirective?, readLine, readLine, hraw]
    simp only [ih]

theorem directives_lines (line : Nat) (inside : Bool) (s : List Char) :
    directives line inside (Text.lines s) = directives line inside (Text.splitAt '\n' s) := by
  obtain ⟨parts, hparts, hlines⟩ := Text.exists_splitAt_lines s
  have htrim : directives line inside parts = directives line inside (Text.lines s) := by
    refine directives_congr (hlines.imp fun part raw hpart => ?_)
    rcases hpart with rfl | rfl
    · rfl
    · exact Text.trim_concat (by decide) raw
  rw [← htrim]
  rcases hparts with hparts | hparts
  · rw [hparts]
  · rw [hparts, directives_append]
    cases readLines inside parts with
    | none => exact (List.append_nil _).symm
    | some inside' => cases inside' <;> exact (List.append_nil _).symm

/-- The header is read from the parts of a source between its line feeds. -/
theorem headerDirectives_eq (source : String) :
    headerDirectives source =
      directives 1 false (Text.splitAt '\n' (withoutMark source.toList)) :=
  directives_lines 1 false _

theorem splitAt_withoutMark (s : List Char) :
    Text.splitAt '\n' (withoutMark s) = (Text.splitAt '\n' s).modifyHead withoutMark := by
  unfold Text.splitAt
  cases s with
  | nil => rfl
  | cons c s =>
    obtain ⟨part, parts, hparts⟩ :=
      List.exists_cons_of_ne_nil (Text.splitWhere_ne_nil (· == '\n') s)
    by_cases hmark : c = '\ufeff'
    · subst hmark
      rw [Text.splitWhere_cons_of_neg (by decide), hparts]
      exact hparts
    · rw [withoutMark_cons _ hmark]
      cases hc : c == '\n' with
      | true =>
        rw [Text.splitWhere_cons_of_pos (p := (· == '\n')) hc]
        rfl
      | false =>
        rw [Text.splitWhere_cons_of_neg (p := (· == '\n')) hc, hparts, List.modifyHead_cons,
          List.modifyHead_cons, withoutMark_cons _ hmark]

/-! ## The kinds of lines -/

theorem isBlank_of_mem_closing : ∀ c ∈ "*/".toList, Text.isBlank c = false :=
  List.forall_mem_cons.2 ⟨by decide, List.forall_mem_singleton.2 (by decide)⟩

theorem contains_trim (s : List Char) :
    Text.contains "*/".toList (Text.trim s) = Text.contains "*/".toList s := by
  rw [Bool.eq_iff_iff, Text.contains_iff, Text.contains_iff,
    Text.infix_trim_iff (by decide) isBlank_of_mem_closing]

theorem contains_trimEnd (s : List Char) :
    Text.contains "*/".toList (Text.trimEnd s) = Text.contains "*/".toList s := by
  rw [Bool.eq_iff_iff, Text.contains_iff, Text.contains_iff,
    Text.infix_trimEnd_iff (by decide) isBlank_of_mem_closing]

/-- Inside a block comment only the closing mark counts. -/
theorem readLine_inside (raw : List Char) :
    readLine true raw = some (!Text.contains "*/".toList raw) :=
  congrArg (fun closed => some (!closed)) (contains_trim raw)

/-- A block comment stays open over lines without the closing mark. -/
theorem readLines_inside {raws : List (List Char)} (h : ∀ raw ∈ raws, ¬ "*/".toList <:+: raw) :
    readLines true raws = some true := by
  induction raws with
  | nil => rfl
  | cons raw raws ih =>
    obtain ⟨hraw, hraws⟩ := List.forall_mem_cons.1 h
    have hnone : Text.contains "*/".toList raw = false := by
      rwa [← Bool.not_eq_true, Text.contains_iff]
    rw [readLines, List.foldlM_cons, readLine_inside, hnone]
    exact ih hraws

theorem directives_inside {raws : List (List Char)} (h : ∀ raw ∈ raws, ¬ "*/".toList <:+: raw)
    (line : Nat) : directives line true raws = [] := by
  induction raws generalizing line with
  | nil => rfl
  | cons raw raws ih =>
    obtain ⟨hraw, hraws⟩ := List.forall_mem_cons.1 h
    rw [← Text.contains_iff, Bool.not_eq_true] at hraw
    rw [directives_cons, readLine_inside, hraw]
    exact ih hraws (line + 1)

section

variable {indent : List Char} (hindent : ∀ c ∈ indent, Text.isBlank c = true)
include hindent

theorem readLine_blank : readLine false indent = some false := by
  unfold readLine
  rw [Text.trim_blanks hindent]
  rfl

theorem lineDirective?_blank (line : Nat) : lineDirective? line false indent = none := by
  unfold lineDirective?
  rw [Text.trim_blanks hindent]
  rfl

theorem trim_blockComment (body : List Char) :
    Text.trim (indent ++ ("/*".toList ++ body)) = "/*".toList ++ Text.trimEnd body := by
  rw [Text.trim_append_of_blanks hindent]
  exact Text.trim_append (by decide) (by decide) body

/-- A block comment is open behind the line unless it ends there. -/
theorem readLine_blockComment (body : List Char) :
    readLine false (indent ++ ("/*".toList ++ body)) =
      some (!Text.contains "*/".toList body) := by
  unfold readLine
  rw [trim_blockComment hindent, ← contains_trimEnd body]
  rfl

theorem lineDirective?_blockComment (line : Nat) (body : List Char) :
    lineDirective? line false (indent ++ ("/*".toList ++ body)) = none := by
  unfold lineDirective?
  rw [trim_blockComment hindent]
  rfl

theorem trim_lineComment (comment : List Char) :
    Text.trim (indent ++ ("//".toList ++ comment)) = "//".toList ++ Text.trimEnd comment := by
  rw [Text.trim_append_of_blanks hindent]
  exact Text.trim_append (by decide) (by decide) comment

theorem readLine_lineComment (comment : List Char) :
    readLine false (indent ++ ("//".toList ++ comment)) = some false := by
  unfold readLine
  rw [trim_lineComment hindent]
  rfl

theorem lineDirective?_lineComment (line : Nat) (comment : List Char) :
    lineDirective? line false (indent ++ ("//".toList ++ comment)) =
      directiveOf? line (Text.trimEnd comment) := by
  unfold lineDirective?
  rw [trim_lineComment hindent]
  rfl

/-- A line with other text ends the header. -/
theorem readLine_other {c : Char} (hc : Text.isBlank c = false) {rest : List Char}
    (hblock : ¬ "/*".toList <+: c :: rest) (hline : ¬ "//".toList <+: c :: rest) :
    readLine false (indent ++ c :: rest) = none := by
  have htrim : Text.trim (indent ++ c :: rest) = c :: Text.trimEnd rest := by
    rw [Text.trim_append_of_blanks hindent]
    have hend : Text.trimEnd [c] = [c] := Text.dropEndWhile_eq_self (by simpa using hc)
    exact Text.trim_append hc hend rest
  have hafter : ∀ {mark : List Char}, ¬ mark <+: c :: rest →
      Text.after? mark (c :: Text.trimEnd rest) = none := by
    intro mark hmark
    rw [Option.eq_none_iff_forall_ne_some]
    intro after hfound
    obtain ⟨back, hback, -⟩ := Text.exists_append_trimEnd rest
    refine hmark ⟨after ++ back, ?_⟩
    rw [← List.append_assoc, ← Text.after?_eq_some.1 hfound, List.cons_append, ← hback]
  unfold readLine
  rw [htrim]
  dsimp only
  rw [hafter hblock, hafter hline]
  rfl

end

end StructCopy.Go
