/-
  Proofs/Template/Placeholder: placeholders read back.

  A text with placeholders in it is read as the texts between them and their variables, as
  long as no two opening braces stand together in the texts and none of them ends in one:
  then the first braces of an action are those of the first placeholder.
-/
import StructCopy.Proofs.Aliases.Paths
import StructCopy.Proofs.Text.Marks
import StructCopy.Template.TypeTemplate

set_option autoImplicit false

namespace StructCopy

/-! ## Variables of imports -/

/-- The variable that stands for an entry of an import list, its number without leading zeros. -/
def importVariable (index : Nat) : String :=
  "Import" ++ toString index

theorem toList_importVariable (k : Nat) :
    (importVariable k).toList = "Import".toList ++ Nat.toDigits 10 k := by
  simp [importVariable]

theorem decimalValue_toDigits (k : Nat) : decimalValue (Nat.toDigits 10 k) = k := by
  unfold decimalValue
  rw [← Nat.ofDigitChars_eq_foldl, Nat.ofDigitChars_ten_toDigits]

theorem importIndex?_importVariable_eq (k : Nat) : importIndex? (importVariable k) =
    if k < UInt64.size then some k else none := by
  have hafter : Text.after? "Import".toList (importVariable k).toList =
      some (Nat.toDigits 10 k) := Text.after?_eq_some.2 (toList_importVariable k)
  have hdigits : (Nat.toDigits 10 k).all Char.isDigit = true :=
    List.all_eq_true.2 fun c hc => Nat.isDigit_of_mem_toDigits (by omega) (by omega) hc
  have hsome : (Nat.toDigits 10 k).isEmpty = false :=
    List.isEmpty_eq_false_iff.2 Nat.toDigits_ne_nil
  unfold importIndex?
  rw [hafter]
  simp [hdigits, hsome, decimalValue_toDigits]

/-- A variable stands for the entry that it spells, if that has a number of 64 bits. -/
theorem importIndex?_importVariable {k : Nat} (h : k < UInt64.size) :
    importIndex? (importVariable k) = some k := by
  rw [importIndex?_importVariable_eq, if_pos h]

/-- A variable can stand for no other entry than the one that it spells. -/
theorem eq_of_importIndex?_importVariable {k i : Nat}
    (h : importIndex? (importVariable k) = some i) : k = i := by
  rw [importIndex?_importVariable_eq] at h
  split at h
  · exact Option.some.inj h
  · cases h

/-! ## Marks -/

/-- A mark of two equal characters does not begin in a text without this character. -/
theorem not_infix_pair {c : Char} {s : List Char} (h : c ∉ s) : ¬ [c, c] <:+: s ++ [c] := by
  intro hin
  rcases List.infix_concat_iff.1 hin with hsuffix | hin
  · obtain ⟨front, hfront⟩ := hsuffix
    have hs := congrArg List.dropLast hfront
    rw [List.append_cons, List.dropLast_concat, List.dropLast_concat] at hs
    exact h (hs ▸ List.mem_append_right _ List.mem_cons_self)
  · exact h (hin.subset List.mem_cons_self)

/-- Opening braces end in the last character of a text, or they stand before it. -/
theorem openBraces_infix_concat {s : List Char} {c : Char} (h : openBraces <:+: s ++ [c]) :
    (c = '\x7b' ∧ s.getLast? = some '\x7b') ∨ openBraces <:+: s := by
  rcases List.infix_concat_iff.1 h with ⟨front, hfront⟩ | h
  · rw [openBraces, List.append_cons] at hfront
    obtain ⟨hs, hc⟩ := List.append_inj' hfront rfl
    cases hc
    exact .inl ⟨rfl, by rw [← hs, List.getLast?_concat]⟩
  · exact .inr h

/-- No two opening braces stand together in the text, also not when one more follows it. -/
def Unopened (s : List Char) : Prop :=
  ¬ openBraces <:+: s ++ ['\x7b']

namespace Unopened

theorem not_infix {s : List Char} (h : Unopened s) : ¬ openBraces <:+: s :=
  fun hin => h (hin.trans (List.prefix_append _ _).isInfix)

theorem append {s t : List Char} (hs : Unopened s) (ht : Unopened t) : Unopened (s ++ t) := by
  unfold Unopened
  rw [List.append_assoc, List.infix_append_iff]
  rintro (hin | hin | ⟨left, right, hsplit, hleft, hright⟩)
  · exact hs.not_infix hin
  · exact ht hin
  · cases left with
    | nil =>
      rw [List.nil_append] at hsplit
      exact ht (hsplit ▸ hright.isInfix)
    | cons c left =>
      -- a brace at the end of the first text is refused by its own condition
      refine hs ?_
      cases left with
      | nil =>
        cases hsplit
        obtain ⟨front, rfl⟩ := hleft
        exact ⟨front, [], by simp [openBraces]⟩
      | cons d left =>
        obtain ⟨rfl, rfl⟩ : c = '\x7b' ∧ d = '\x7b' := by
          simp only [openBraces, List.cons_append, List.cons.injEq] at hsplit
          exact ⟨hsplit.1.symm, hsplit.2.1.symm⟩
        obtain ⟨rfl, rfl⟩ : left = [] ∧ right = [] := by simpa [openBraces] using hsplit
        exact (hleft.isInfix.trans (List.prefix_append _ _).isInfix)

theorem of_not_mem {s : List Char} (h : '\x7b' ∉ s) : Unopened s :=
  not_infix_pair h

theorem concat {s : List Char} {c : Char} (h : ¬ openBraces <:+: s) (hc : c ≠ '\x7b') :
    Unopened (s ++ [c]) := by
  intro hin
  rcases openBraces_infix_concat hin with ⟨-, hend⟩ | hin
  · rw [List.getLast?_concat] at hend
    exact hc (Option.some.inj hend)
  · rcases openBraces_infix_concat hin with ⟨hend, -⟩ | hin
    · exact hc hend
    · exact h hin

end Unopened

/-! ## Reading -/

theorem isBlank_of_mem_identifier {name : List Char} (h : Text.isIdentifier name = true) {c : Char}
    (hc : c ∈ name) : Text.isBlank c = false := by
  rw [Bool.eq_false_iff]
  intro hblank
  have hpart := Go.isWordPart_of_mem h hc
  rw [Go.isWordPart_of_isBlank hblank] at hpart
  cases hpart

/-- A variable set off by spaces is read without them. -/
theorem Action.ofText_variable {name : List Char} (h : Text.isIdentifier name = true) :
    Action.ofText (' ' :: '.' :: (name ++ [' '])) = ⟨false, false, '.' :: name⟩ := by
  have hspace : Text.isBlank ' ' = true := by decide
  have hpoint : Text.isBlank '.' = false := by decide
  have hbefore : takeTrimMark (' ' :: '.' :: (name ++ [' '])) =
      (false, ' ' :: '.' :: (name ++ [' '])) := rfl
  have hreverse :
      (' ' :: '.' :: (name ++ [' '])).reverse = ' ' :: (' ' :: '.' :: name).reverse := by
    simp
  have hafter : takeTrimMark (' ' :: (' ' :: '.' :: name).reverse) =
      (false, ' ' :: (' ' :: '.' :: name).reverse) := rfl
  have hstart : Text.trimStart (' ' :: '.' :: (name ++ [' '])) = '.' :: (name ++ [' ']) := by
    simp [Text.trimStart, hspace, hpoint]
  have hname : ∀ c ∈ ('.' :: name).reverse, Text.isBlank c = false := by
    intro c hc
    rcases List.mem_cons.1 (List.mem_reverse.1 hc) with rfl | hc
    · exact hpoint
    · exact isBlank_of_mem_identifier h hc
  have hend : Text.trimEnd ('.' :: (name ++ [' '])) = '.' :: name := by
    unfold Text.trimEnd Text.dropEndWhile
    rw [← List.cons_append, List.reverse_concat, List.dropWhile_cons, hspace, if_pos rfl,
      Text.dropWhile_eq_self hname, List.reverse_reverse]
  unfold Action.ofText
  simp only [hbefore, hreverse, hafter]
  rw [← hreverse, List.reverse_reverse, Text.trim, hstart, hend]

/-- The text behind the opening braces of a variable is cut at the closing ones. -/
theorem cut?_closeBraces {name : List Char} (h : Text.isIdentifier name = true)
    (rest : List Char) :
    Text.cut? closeBraces (' ' :: '.' :: (name ++ [' ']) ++ (closeBraces ++ rest)) =
      some (' ' :: '.' :: (name ++ [' ']), rest) := by
  refine Text.cut?_of_first (by decide) ?_ rest
  have hbrace : Text.isWordPart '\x7d' = false := by decide
  have hinner : '\x7d' ∉ ' ' :: '.' :: (name ++ [' ']) := by
    have hname : '\x7d' ∉ name := fun hmem => by
      rw [Go.isWordPart_of_mem h hmem] at hbrace
      cases hbrace
    simp [hname]
  exact not_infix_pair hinner

theorem segmentsFrom_of_unopened {s : List Char} (h : Unopened s) (offset : Nat) :
    segmentsFrom offset s = .ok (textSegment s) := by
  rw [segmentsFrom, Text.cut?_eq_none h.not_infix]

/-- A text up to a variable is read as this text, the variable and what follows. -/
theorem segmentsFrom_variable {s name : List Char} (hs : Unopened s)
    (hname : Text.isIdentifier name = true) (offset : Nat) (rest : List Char) :
    ∃ offset', segmentsFrom offset (s ++ (openBraces ++ (' ' :: '.' :: (name ++ [' ']) ++
        (closeBraces ++ rest)))) =
      (segmentsFrom offset' rest).map fun more =>
        textSegment s ++ .var (String.ofList name) :: more := by
  have hbraces : openBraces ≠ [] := by decide
  have hopen := Text.cut?_of_first hbraces hs
    (' ' :: '.' :: (name ++ [' ']) ++ (closeBraces ++ rest))
  have hvariable : Action.variable? ⟨false, false, '.' :: name⟩ = some (String.ofList name) := by
    simp [ Action.variable?, hname]
  rw [segmentsFrom, hopen]
  dsimp only
  rw [cut?_closeBraces hname]
  dsimp only
  rw [Action.ofText_variable hname, hvariable]
  exact ⟨_, rfl⟩

/-! ## Checks -/

theorem Template.mem_variableNames {t : Template} {v : String} :
    v ∈ t.variableNames ↔ .var v ∈ t.segments := by
  unfold variableNames
  rw [List.mem_filterMap]
  constructor
  · rintro ⟨segment, hmem, hv⟩
    cases segment with
    | text => cases hv
    | var w =>
      cases hv
      exact hmem
  · exact fun hmem => ⟨.var v, hmem, rfl⟩

/-- A text whose variables stand for imports makes a type template. -/
theorem ofText?_eq_ok {text : String} {template : Template} (imports : List String)
    (h : Template.ofText? text text = .ok template)
    (hbound : ∀ v ∈ template.variableNames, isImportBelow imports.length v = true) :
    TypeTemplate.ofText? text imports = .ok ⟨template, imports, hbound⟩ := by
  have hcheck : template.check (isImportBelow imports.length) = .ok () := by
    unfold Template.check
    rw [List.find?_eq_none.2 fun v hv => by simp [hbound v hv]]
  unfold TypeTemplate.ofText?
  rw [h]
  dsimp only
  split
  · next hcheck' => cases hcheck.symm.trans hcheck'
  · rfl

end StructCopy
