/-
  Proofs/Template/Writing: templates written and read back.

  A template is written as texts with actions between them, each with its own white space
  and trim marks.  Reading it gives back the texts, cut where a trim mark stands, and the
  variables.  An action that is not closed is reported at the byte where its braces begin.
-/
import Mathlib
import StructCopy.Proofs.Template.TypeText
import StructCopy.Proofs.Text.Trimming

set_option autoImplicit false

namespace StructCopy

/-! ## Writing -/

/-- An action as it is written: a variable between two runs of white space. A trim mark stands
on the outer side of a run that is not empty. -/
structure WrittenAction where
  name : String
  /-- the white space in front of the variable -/
  front : List Char
  /-- the white space behind the variable -/
  back : List Char
  trimsBefore : Bool
  trimsAfter : Bool
  isIdentifier : Text.isIdentifier name.toList = true
  front_blank : ∀ c ∈ front, Text.isBlank c = true
  back_blank : ∀ c ∈ back, Text.isBlank c = true
  front_ne_nil : trimsBefore = true → front ≠ []
  back_ne_nil : trimsAfter = true → back ≠ []

/-- A trim mark, where one is set. -/
def trimMark (isSet : Bool) : List Char :=
  if isSet then ['-'] else []

namespace WrittenAction

/-- What stands between the braces. -/
def inner (a : WrittenAction) : List Char :=
  trimMark a.trimsBefore ++ (a.front ++ ('.' :: a.name.toList ++ a.back) ++
    trimMark a.trimsAfter)

/-- The action with its braces. -/
def text (a : WrittenAction) : List Char :=
  openBraces ++ (a.inner ++ closeBraces)

/-- What is left of the text in front of the action. -/
def cutBefore (a : WrittenAction) (text : List Char) : List Char :=
  if a.trimsBefore then Text.trimEnd text else text

/-- What is left of the text behind the action. -/
def cutAfter (a : WrittenAction) (text : List Char) : List Char :=
  if a.trimsAfter then Text.trimStart text else text

end WrittenAction

/-- A first text and the actions behind it, each with the text that follows it. -/
abbrev ActionRow : Type := List (WrittenAction × List Char)

/-- All texts of a template, the first and those behind the actions. -/
def writtenTexts (first : List Char) (row : ActionRow) : List (List Char) :=
  first :: row.map Prod.snd

/-- No text holds the opening braces, and none that stands in front of an action ends in one
of them. -/
structure TextsApart (first : List Char) (row : ActionRow) : Prop where
  not_infix : ∀ text ∈ writtenTexts first row, ¬ openBraces <:+: text
  getLast_ne : ∀ text ∈ (writtenTexts first row).dropLast, text.getLast? ≠ some '\x7b'

/-- The source of a template. -/
def writtenSource (first : List Char) : ActionRow → List Char
  | [] => first
  | (a, next) :: row => first ++ (a.text ++ writtenSource next row)

/-- The segments of a template, its texts cut at the trim marks. -/
def writtenSegments (first : List Char) : ActionRow → List Segment
  | [] => textSegment first
  | (a, next) :: row =>
    textSegment (a.cutBefore first) ++ .var a.name :: writtenSegments (a.cutAfter next) row

/-- The texts, cut at the trim marks, with the values of the variables between them. -/
def filledText (value : String → String) (first : List Char) : ActionRow → List Char
  | [] => first
  | (a, next) :: row =>
    a.cutBefore first ++ ((value a.name).toList ++ filledText value (a.cutAfter next) row)

/-! ## Actions read back -/

theorem takeTrimMark_of_ne {s : List Char} (h : s.head? ≠ some '-') :
    takeTrimMark s = (false, s) := by
  unfold takeTrimMark
  split
  · exact absurd rfl h
  · rfl

/-- A trim mark is taken off where it is set, if white space follows it. -/
theorem takeTrimMark_trimMark {isSet : Bool} {blanks rest : List Char}
    (hblank : ∀ c ∈ blanks, Text.isBlank c = true) (hne : isSet = true → blanks ≠ [])
    (hrest : rest.head? ≠ some '-') :
    takeTrimMark (trimMark isSet ++ (blanks ++ rest)) = (isSet, blanks ++ rest) := by
  have hhyphen : Text.isBlank '-' = false := by decide
  cases isSet with
  | false =>
    refine takeTrimMark_of_ne ?_
    cases blanks with
    | nil => exact hrest
    | cons c blanks =>
      intro heq
      cases heq
      rw [hblank '-' List.mem_cons_self] at hhyphen
      cases hhyphen
  | true =>
    obtain ⟨c, blanks, rfl⟩ := List.exists_cons_of_ne_nil (hne rfl)
    simp [takeTrimMark, trimMark, hblank c List.mem_cons_self]

theorem reverse_trimMark (isSet : Bool) : (trimMark isSet).reverse = trimMark isSet := by
  cases isSet <;> rfl

namespace WrittenAction

variable (a : WrittenAction)

/-- The inside of a written action is its variable behind a point, with its trim marks. -/
theorem ofText_inner :
    Action.ofText a.inner = ⟨a.trimsBefore, a.trimsAfter, '.' :: a.name.toList⟩ := by
  have hpoint : ∀ c ∈ '.' :: a.name.toList, Text.isBlank c = false := by
    rintro c (_ | ⟨_, hc⟩)
    · decide
    · exact isBlank_of_mem_identifier a.isIdentifier hc
  have hbefore : takeTrimMark a.inner = (a.trimsBefore,
      a.front ++ ('.' :: a.name.toList ++ a.back) ++ trimMark a.trimsAfter) := by
    unfold inner
    rw [List.append_assoc a.front]
    exact takeTrimMark_trimMark a.front_blank a.front_ne_nil (by simp)
  -- seen from its end, the inside is a mark, white space and the variable again
  have hafter : takeTrimMark
      (a.front ++ ('.' :: a.name.toList ++ a.back) ++ trimMark a.trimsAfter).reverse =
      (a.trimsAfter, (a.front ++ ('.' :: a.name.toList ++ a.back)).reverse) := by
    have hend : a.back.reverse ++ (a.front ++ '.' :: a.name.toList).reverse =
        (a.front ++ ('.' :: a.name.toList ++ a.back)).reverse := by
      simp
    rw [List.reverse_append, reverse_trimMark, ← hend]
    refine takeTrimMark_trimMark (fun c hc => a.back_blank c (List.mem_reverse.1 hc))
      (fun h => mt List.reverse_eq_nil_iff.1 (a.back_ne_nil h)) ?_
    intro hhead
    have hmem : '-' ∈ '.' :: a.name.toList := by
      rw [List.reverse_append, List.head?_append,
        List.head?_eq_some_head (by simp), Option.some_or] at hhead
      exact List.mem_reverse.1 (Option.some.inj hhead ▸ List.head_mem _)
    have hhyphen : Text.isWordPart '-' = false := by decide
    rcases List.mem_cons.1 hmem with heq | hmem
    · exact absurd heq (by decide)
    · rw [Go.isWordPart_of_mem a.isIdentifier hmem] at hhyphen
      cases hhyphen
  unfold Action.ofText
  simp only [hbefore, hafter, List.reverse_reverse]
  rw [Text.trim_between a.front_blank hpoint a.back_blank]

theorem not_mem_inner : '\x7d' ∉ a.inner := by
  have hblank : Text.isBlank '\x7d' = false := by decide
  have hword : Text.isWordPart '\x7d' = false := by decide
  have hruns : ∀ {blanks : List Char}, (∀ c ∈ blanks, Text.isBlank c = true) →
      '\x7d' ∉ blanks := by
    intro blanks hblanks hmem
    rw [hblanks _ hmem] at hblank
    cases hblank
  have hname : '\x7d' ∉ a.name.toList := by
    intro hmem
    rw [Go.isWordPart_of_mem a.isIdentifier hmem] at hword
    cases hword
  have hmark : ∀ isSet, '\x7d' ∉ trimMark isSet := by decide
  simp [inner, hmark, hruns a.front_blank, hruns a.back_blank, hname]

/-- The text behind the opening braces of a written action is cut at its closing ones. -/
theorem cut?_closeBraces_inner (rest : List Char) :
    Text.cut? closeBraces (a.inner ++ (closeBraces ++ rest)) = some (a.inner, rest) :=
  Text.cut?_of_first (by decide) (not_infix_pair a.not_mem_inner) rest

end WrittenAction

/-! ## Templates read back -/

namespace Unopened

theorem of_getLast_ne {s : List Char} (h : ¬ openBraces <:+: s) (hlast : s.getLast? ≠ some '\x7b') :
    Unopened s := by
  intro hin
  rcases openBraces_infix_concat hin with ⟨-, hend⟩ | hin
  · exact hlast hend
  · exact h hin

end Unopened

namespace TextsApart

variable {first next : List Char} {a : WrittenAction} {row : ActionRow}

/-- A text with an action behind it does not run into the braces of the action. -/
theorem unopened (h : TextsApart first ((a, next) :: row)) : Unopened first :=
  .of_getLast_ne (h.not_infix first List.mem_cons_self) (h.getLast_ne first List.mem_cons_self)

/-- The texts behind an action stay apart when the action cuts off white space. -/
theorem tail (h : TextsApart first ((a, next) :: row)) : TextsApart (a.cutAfter next) row := by
  have hcut : a.cutAfter next <:+ next := by
    unfold WrittenAction.cutAfter Text.trimStart
    split
    · exact List.dropWhile_suffix _
    · exact List.suffix_rfl
  constructor
  · rintro text (_ | ⟨_, htext⟩)
    · exact fun hin => h.not_infix next (by simp [writtenTexts]) (hin.trans hcut.isInfix)
    · exact h.not_infix text (List.mem_cons_of_mem _ (List.mem_cons_of_mem _ htext))
  · intro text htext
    cases row with
    | nil => cases htext
    | cons entry row =>
      rcases List.mem_cons.1 htext with rfl | htext
      · intro hlast
        obtain ⟨cut, hcut⟩ := hcut
        refine h.getLast_ne next (by simp [writtenTexts]) ?_
        rw [← hcut, List.getLast?_append, hlast, Option.some_or]
      · exact h.getLast_ne text (by simp [writtenTexts, htext])

end TextsApart

/-- The source behind an action, its first text cut by the action. -/
theorem cutAfter_writtenSource (a : WrittenAction) (next : List Char) (row : ActionRow) :
    a.cutAfter (writtenSource next row) = writtenSource (a.cutAfter next) row := by
  unfold WrittenAction.cutAfter
  split
  · cases row with
    | nil => rfl
    | cons entry row =>
      obtain ⟨b, following⟩ := entry
      exact Text.trimStart_append_cons (by decide) next _
  · rfl

/-- A source is read as its texts, cut at the trim marks, and its variables. -/
theorem segmentsFrom_writtenSource {first : List Char} {row : ActionRow} (h : TextsApart first row)
    (offset : Nat) :
    segmentsFrom offset (writtenSource first row) = .ok (writtenSegments first row) := by
  induction row generalizing first offset with
  | nil =>
    rw [writtenSource, segmentsFrom, Text.cut?_eq_none (h.not_infix first List.mem_cons_self)]
    rfl
  | cons entry row ih =>
    obtain ⟨a, next⟩ := entry
    have hbraces : openBraces ≠ [] := by decide
    have hopen := Text.cut?_of_first hbraces h.unopened
      (a.inner ++ (closeBraces ++ writtenSource next row))
    have hvariable : Action.variable? ⟨a.trimsBefore, a.trimsAfter, '.' :: a.name.toList⟩ =
        some a.name := by
      simp [a.isIdentifier, Action.variable?]
    have hsource : writtenSource first ((a, next) :: row) =
        first ++ (openBraces ++ (a.inner ++ (closeBraces ++ writtenSource next row))) := by
      simp [writtenSource, WrittenAction.text]
    rw [hsource, segmentsFrom, hopen]
    dsimp only
    rw [a.cut?_closeBraces_inner]
    dsimp only
    rw [a.ofText_inner, hvariable]
    dsimp only
    change (segmentsFrom _ (a.cutAfter (writtenSource next row))).map _ = _
    rw [cutAfter_writtenSource, ih h.tail]
    rfl

/-! ## Variables and values -/

namespace Template

theorem variableNames_append (name source : String) (segments more : List Segment) :
    variableNames ⟨name, source, segments ++ more⟩ =
      variableNames ⟨name, source, segments⟩ ++ variableNames ⟨name, source, more⟩ :=
  List.filterMap_append

theorem variableNames_textSegment (name source : String) (s : List Char) :
    variableNames ⟨name, source, textSegment s⟩ = [] := by
  unfold textSegment
  split <;> rfl

theorem variableNames_writtenSegments (name source : String) (first : List Char) (row : ActionRow) :
    variableNames ⟨name, source, writtenSegments first row⟩ =
      row.map fun entry => entry.1.name := by
  induction row generalizing first with
  | nil => exact variableNames_textSegment name source first
  | cons entry row ih =>
    obtain ⟨a, next⟩ := entry
    rw [writtenSegments, variableNames_append, variableNames_textSegment, List.nil_append,
      List.map_cons, ← ih (a.cutAfter next)]
    rfl

theorem renderSegments_eq_ok (value : String → String) (segments : List Segment) :
    renderSegments (fun v => some (value v)) segments =
      .ok (String.ofList (segments.flatMap (Segment.written value))) := by
  induction segments with
  | nil => rfl
  | cons segment rest ih =>
    have hwritten : String.ofList (segment.written value ++ rest.flatMap (Segment.written value)) =
        String.ofList (segment.written value) ++
          String.ofList (rest.flatMap (Segment.written value)) :=
      String.ofList_append
    rw [List.flatMap_cons, hwritten]
    cases segment <;> simp [renderSegments, ih, Segment.written, Except.map]

theorem written_writtenSegments (value : String → String) (first : List Char) (row : ActionRow) :
    (writtenSegments first row).flatMap (Segment.written value) = filledText value first row := by
  induction row generalizing first with
  | nil => exact written_textSegment value first
  | cons entry row ih =>
    obtain ⟨a, next⟩ := entry
    rw [writtenSegments, filledText, List.flatMap_append, List.flatMap_cons, written_textSegment,
      ih (a.cutAfter next)]
    rfl

end Template

/-! ## Actions that are not closed -/

theorem byteSize_append (s t : List Char) : byteSize (s ++ t) = byteSize s + byteSize t := by
  have hstart : ∀ (n : Nat) (s : List Char), s.foldl (fun n c => n + c.utf8Size) n =
      n + byteSize s := by
    intro n s
    unfold byteSize
    induction s generalizing n with
    | nil => rfl
    | cons c s ih =>
      rw [List.foldl_cons, List.foldl_cons, ih, ih (0 + c.utf8Size)]
      omega
  unfold byteSize
  rw [List.foldl_append]
  exact hstart _ t

/-- The number of bytes of a text is the size of its encoding. -/
theorem utf8ByteSize_ofList (s : List Char) : (String.ofList s).utf8ByteSize = byteSize s := by
  induction s with
  | nil => rfl
  | cons c s ih =>
    have hcons : String.ofList (c :: s) = String.singleton c ++ String.ofList s := by simp
    have hfront : byteSize (c :: s) = byteSize [c] + byteSize s := byteSize_append [c] s
    have hone : byteSize [c] = c.utf8Size := Nat.zero_add _
    rw [hcons, String.utf8ByteSize_append, ih, String.utf8ByteSize_singleton, hfront, hone]

/-- A fault for an action that is not closed stands at its opening braces: no closing braces
follow them. -/
theorem exists_of_unclosed {offset position : Nat} {s : List Char}
    (h : segmentsFrom offset s = .error (.unclosed position)) :
    ∃ before after, s = before ++ (openBraces ++ after) ∧ position = offset + byteSize before ∧
      ¬ closeBraces <:+: after := by
  fun_induction segmentsFrom offset s
  case case1 => cases h
  case case2 s literal afterOpen hopen hclose =>
    cases h
    refine ⟨literal, afterOpen, ?_, rfl, Text.not_infix_of_cut? hclose⟩
    rw [Text.eq_append_of_cut? hopen, List.append_assoc]
  case case3 => cases h
  case case4 offset s literal afterOpen hopen inner rest hclose action v hv literalKept restKept
      offset' ih =>
    have hinner : segmentsFrom offset' restKept = .error (.unclosed position) := by
      cases hread : segmentsFrom offset' restKept with
      | ok more =>
        rw [hread] at h
        cases h
      | error fault =>
        rw [hread] at h
        cases h
        rfl
    obtain ⟨before, after, hkept, hposition, hafter⟩ := ih hinner
    -- what the action takes off the front of the text is what its offset counts
    obtain ⟨taken, htaken⟩ : ∃ taken, s = taken ++ restKept := by
      have hrest : restKept <:+ rest := by
        unfold restKept Text.trimStart
        split
        · exact List.dropWhile_suffix _
        · exact List.suffix_rfl
      obtain ⟨cut, hcut⟩ := hrest
      refine ⟨literal ++ openBraces ++ (inner ++ closeBraces ++ cut), ?_⟩
      rw [Text.eq_append_of_cut? hopen, Text.eq_append_of_cut? hclose, ← hcut]
      simp only [List.append_assoc]
    have hoffset : offset' = offset + byteSize taken := by
      unfold offset'
      rw [htaken, byteSize_append]
      omega
    refine ⟨taken ++ before, after, ?_, ?_, hafter⟩
    · rw [List.append_assoc, ← hkept, htaken]
    · rw [hposition, hoffset, byteSize_append]
      omega

/-! ## Templates -/

namespace Template

/-- A written template is read, its variables are those of its actions, and values for them are
put between its texts, cut at the trim marks. Of a source that is refused for an action that is
not closed, the byte of opening braces is reported that no closing braces follow. -/
theorem ofText?_writtenSource (name : String) :
    (∀ first row, TextsApart first row →
      ∃ t, ofText? name (String.ofList (writtenSource first row)) = .ok t ∧
        t.variableNames = row.map (fun entry => entry.1.name) ∧
        ∀ value : String → String, t.render (fun v => some (value v)) =
          .ok (String.ofList (filledText value first row))) ∧
    ∀ source offset, ofText? name source = .error ⟨name, .unclosed offset⟩ →
      ∃ before after : String, source = before ++ "\x7b\x7b" ++ after ∧
        offset = before.utf8ByteSize ∧ ¬ closeBraces <:+: after.toList := by
  refine ⟨fun first row h => ?_, fun source offset h => ?_⟩
  · refine ⟨⟨name, String.ofList (writtenSource first row), writtenSegments first row⟩, ?_,
      variableNames_writtenSegments _ _ first row, fun value => ?_⟩
    · unfold ofText?
      rw [String.toList_ofList, segmentsFrom_writtenSource h]
    · unfold render
      rw [renderSegments_eq_ok, written_writtenSegments]
  · have hfault : segmentsFrom 0 source.toList = .error (.unclosed offset) := by
      unfold ofText? at h
      cases hread : segmentsFrom 0 source.toList with
      | ok segments =>
        rw [hread] at h
        cases h
      | error fault =>
        rw [hread] at h
        cases h
        rfl
    obtain ⟨before, after, hsource, hoffset, hafter⟩ := exists_of_unclosed hfault
    refine ⟨String.ofList before, String.ofList after, ?_, ?_, ?_⟩
    · rw [← String.toList_inj, hsource]
      simp [openBraces]
    · rw [hoffset, utf8ByteSize_ofList, Nat.zero_add]
    · rwa [String.toList_ofList]

/-- An action that cuts off white space on both sides. -/
def trimmingAction : WrittenAction where
  name := "X"
  front := [' ']
  back := ['\n', ' ']
  trimsBefore := true
  trimsAfter := true
  isIdentifier := by decide
  front_blank := List.all_eq_true.1 rfl
  back_blank := List.all_eq_true.1 rfl
  front_ne_nil := by decide
  back_ne_nil := by decide

/-- An action without white space. -/
def tightAction : WrittenAction where
  name := "Y"
  front := []
  back := []
  trimsBefore := false
  trimsAfter := false
  isIdentifier := by decide
  front_blank := List.all_eq_true.1 rfl
  back_blank := List.all_eq_true.1 rfl
  front_ne_nil := by decide
  back_ne_nil := by decide

theorem ofText?_writtenSource_trimmed :
    TextsApart "a \t".toList
      [(trimmingAction, "\n \x7d".toList), (tightAction, "\x7d \x7b".toList)] ∧
    (∃ t, ofText? "t" "a \t\x7b\x7b- .X\n -\x7d\x7d\n \x7d\x7b\x7b.Y\x7d\x7d\x7d \x7b" = .ok t ∧
      t.variableNames = ["X", "Y"] ∧
      t.render (fun v => some (v ++ v)) = .ok "aXX\x7dYY\x7d \x7b") ∧
    ofText? "t" "é\x7b\x7b.X\x7d\x7d\x7b\x7b.Y\x7d" = .error ⟨"t", .unclosed 8⟩ ∧
    ∃ before after : String, "é\x7b\x7b.X\x7d\x7d\x7b\x7b.Y\x7d" = before ++ "\x7b\x7b" ++ after ∧
      8 = before.utf8ByteSize ∧ ¬ closeBraces <:+: after.toList := by
  have hunclosed : ofText? "t" "é\x7b\x7b.X\x7d\x7d\x7b\x7b.Y\x7d" = .error ⟨"t", .unclosed 8⟩ := by
    cbv
  have hapart : TextsApart "a \t".toList
      [(trimmingAction, "\n \x7d".toList), (tightAction, "\x7d \x7b".toList)] :=
    ⟨by decide, by decide⟩
  obtain ⟨t, ht, hnames, hrender⟩ := (ofText?_writtenSource "t").1 _ _ hapart
  exact ⟨hapart, ⟨t, ht, hnames, hrender fun v => v ++ v⟩, hunclosed,
    (ofText?_writtenSource "t").2 _ _ hunclosed⟩

end Template

end StructCopy
