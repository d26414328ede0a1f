/-
  Proofs/Aliases/Pruning: imports that are kept.

  Which imports some code needs is found out by looking for a qualifier with its point
  behind it, and at the one character before it.  Taken apart into tokens, the code
  uses a qualifier where a word is followed by a point.  The search finds every such
  use, unless the word stands directly behind a point, an ellipsis or a number.
-/
import StructCopy.Proofs.Generator.Repetition
import StructCopy.Proofs.Go.Cutting

set_option autoImplicit false

namespace StructCopy

/-! ## The last character of a piece -/

/-- A piece whose last character joins a word directly behind it. -/
def Go.Piece.joinsWord : Go.Piece → Bool
  | .token .dot _ => true
  | .token .ellipsis _ => true
  | .token (.number _) _ => true
  | _ => false

namespace Go

open Aliases (joinsBefore)

theorem joinsBefore_of_isBlank {c : Char} (h : Text.isBlank c = true) :
    joinsBefore c = false := by
  have hpoint : c ≠ '.' := by
    rintro rfl
    cases h
  rw [joinsBefore, isWordPart_of_isBlank h, beq_false_of_ne hpoint]
  rfl

theorem joinsBefore_of_shortOperator? {c : Char} {token : Token}
    (h : shortOperator? c = some token) (htoken : (Piece.token token 0).joinsWord = false) :
    joinsBefore c = false := by
  unfold shortOperator? at h
  split at h
  case h_14 =>
    split at h
    · next hmem =>
      have hall : ("+-/%&|^<>!".toList.all fun d => !joinsBefore d) = true := by decide
      simpa using List.all_eq_true.1 hall c (List.contains_iff_mem.1 hmem)
    · cases h
  case h_8 =>
    cases h
    cases htoken
  all_goals decide

theorem exists_last_of_longOperator {text : String} (hmem : text ∈ longOperators) :
    ∃ front last, text.toList = front ++ [last] ∧
      ((Piece.token (longOperator text) 0).joinsWord = false → joinsBefore last = false) := by
  have hall : ∀ text ∈ longOperators, (Piece.token (longOperator text) 0).joinsWord = false →
      text.toList.getLast?.map joinsBefore = some false := by
    decide
  have hnonempty : ∀ text ∈ longOperators, text.toList ≠ [] := by decide
  have hne := hnonempty text hmem
  refine ⟨_, _, (List.dropLast_concat_getLast hne).symm, fun hjoins => ?_⟩
  have hlast := hall text hmem hjoins
  rw [List.getLast?_eq_some_getLast hne] at hlast
  exact Option.some.inj hlast

/-- A piece has a last character, and this one joins no word that follows, unless the piece does. -/
theorem CutsOff.exists_last {c : Char} {s rest : List Char} {piece : Piece}
    (h : CutsOff c s piece rest) : ∃ front last, c :: s = front ++ last :: rest ∧
      (piece.joinsWord = false → (∃ d ∈ rest.head?, Text.isWordStart d = true) →
        joinsBefore last = false) := by
  -- words, numbers and line comments go on up to where a character fails a test
  have hdrop : ∀ p : Char → Bool, ∃ front last, c :: s = front ++ last :: s.dropWhile p := by
    intro p
    have hne := List.cons_ne_nil c (s.takeWhile p)
    refine ⟨(c :: s.takeWhile p).dropLast, (c :: s.takeWhile p).getLast hne, ?_⟩
    rw [List.append_cons, List.dropLast_concat_getLast hne, List.cons_append,
      List.takeWhile_append_dropWhile]
  have hstop : ∀ (p : Char → Bool) (d : Char), d ∈ (s.dropWhile p).head? → p d = false := by
    intro p d hd
    have hne : s.dropWhile p ≠ [] := by
      intro hnil
      rw [hnil] at hd
      cases hd
    rw [List.head?_eq_some_head hne] at hd
    cases hd
    exact List.head_dropWhile_not p hne
  cases h with
  | lineBreak => exact ⟨[], '\n', rfl, fun _ _ => by decide⟩
  | lineComment =>
    obtain ⟨front, last, heq⟩ := hdrop (· != '\n')
    refine ⟨front, last, heq, ?_⟩
    rintro - ⟨d, hd, hstart⟩
    have hbreak : d = '\n' := by simpa using hstop _ d hd
    rw [hbreak] at hstart
    cases hstart
  | @blockComment s inside _ hbody =>
    rw [eq_append_of_commentBody hbody]
    exact ⟨'/' :: '*' :: (inside ++ ['*']), '/', by simp, fun _ _ => by decide⟩
  | blank hblank => exact ⟨[], c, rfl, fun _ _ => joinsBefore_of_isBlank hblank⟩
  | string hbody =>
    obtain ⟨inside, hs⟩ := eq_append_of_stringBody hbody
    exact ⟨'"' :: inside, '"', by rw [hs]; rfl, fun _ _ => by decide⟩
  | @rawString _ value _ hbody =>
    rw [eq_append_of_rawStringBody hbody]
    exact ⟨'\x60' :: value, '\x60', rfl, fun _ _ => by decide⟩
  | rune hbody =>
    obtain ⟨inside, hs⟩ := eq_append_of_runeBody hbody
    exact ⟨'\'' :: inside, '\'', by rw [hs]; rfl, fun _ _ => by decide⟩
  | number =>
    obtain ⟨front, last, heq⟩ := hdrop isNumberPart
    refine ⟨front, last, heq, ?_⟩
    rintro hjoins
    cases hjoins
  | word =>
    obtain ⟨front, last, heq⟩ := hdrop Text.isWordPart
    refine ⟨front, last, heq, ?_⟩
    rintro - ⟨d, hd, hstart⟩
    have hpart := hstop _ d hd
    rw [Text.isWordPart_of_isWordStart hstart] at hpart
    cases hpart
  | longOperator hmem htext =>
    obtain ⟨front, last, hend, hjoins⟩ := exists_last_of_longOperator hmem
    refine ⟨front, last, ?_, fun hpiece _ => hjoins hpiece⟩
    rw [htext, hend, List.append_assoc]
    rfl
  | shortOperator htoken =>
    exact ⟨[], c, rfl, fun hpiece _ => joinsBefore_of_shortOperator? htoken hpiece⟩

/-! ## Uses in a text -/

theorem step_of_pieces {s : List Char} {piece : Piece} {ps : List Piece}
    (h : (pieces s).1 = piece :: ps) :
    ∃ c t rest, s = c :: t ∧ step c t = .ok (piece, rest) ∧ (pieces rest).1 = ps := by
  cases s with
  | nil =>
    rw [pieces] at h
    cases h
  | cons c t =>
    rw [pieces] at h
    split at h
    · cases h
    · next rest hstep =>
      obtain ⟨rfl, hps⟩ := List.cons.inj h
      exact ⟨c, t, rest, rfl, hstep, hps⟩

/-- The first pieces of a text make up its front. -/
theorem exists_append_of_pieces {s : List Char} {before ps : List Piece}
    (h : (pieces s).1 = before ++ ps) : ∃ front mid, s = front ++ mid ∧ (pieces mid).1 = ps := by
  induction before generalizing s with
  | nil => exact ⟨[], s, rfl, h⟩
  | cons piece before ih =>
    obtain ⟨c, t, rest, rfl, hstep, hrest⟩ := step_of_pieces h
    obtain ⟨taken, last, htaken, -⟩ := (cutsOff_of_step hstep).exists_last
    obtain ⟨front, mid, rfl, hmid⟩ := ih hrest
    refine ⟨taken ++ last :: front, mid, ?_, hmid⟩
    rw [htaken, List.append_assoc, List.cons_append]

/-- Behind some pieces stand the word `q` and, directly behind it, a point. -/
def UsedBehind (ps before : List Piece) (q : String) : Prop :=
  ∃ breaks breaks' after, ps = before ++ .token (.word q) breaks :: .token .dot breaks' :: after

/-- A word with a point behind it stands in the text as it is. -/
theorem eq_append_of_pieces_word {s : List Char} {q : String} {breaks breaks' : Nat}
    {after : List Piece}
    (h : (pieces s).1 = .token (.word q) breaks :: .token .dot breaks' :: after) :
    (∃ c ∈ s.head?, Text.isWordStart c = true) ∧ '.' ∉ q.toList ∧
      ∃ back, s = q.toList ++ '.' :: back := by
  obtain ⟨c, t, rest, rfl, hword, hrest⟩ := step_of_pieces h
  obtain ⟨c', t', rest', rfl, hdot, -⟩ := step_of_pieces hrest
  obtain ⟨hstart, hpoint, heq⟩ := eq_append_of_cutsOff_word (cutsOff_of_step hword)
  obtain ⟨rfl, -⟩ := eq_of_cutsOff_dot (cutsOff_of_step hdot)
  exact ⟨⟨c, rfl, hstart⟩, hpoint, t', heq⟩

theorem UsedBehind.point_not_mem {s : List Char} {before : List Piece} {q : String}
    (h : UsedBehind (pieces s).1 before q) : '.' ∉ q.toList := by
  obtain ⟨breaks, breaks', after, hps⟩ := h
  obtain ⟨front, mid, -, hmid⟩ := exists_append_of_pieces hps
  exact (eq_append_of_pieces_word hmid).2.1

/-- A qualifier that is used behind a piece that joins nothing stands in the text at a place
without a joining character before it. -/
theorem UsedBehind.exists_append {s : List Char} {before : List Piece} {q : String}
    (h : UsedBehind (pieces s).1 before q)
    (hfree : ∀ piece ∈ before.getLast?, piece.joinsWord = false) :
    ∃ front back, s = front ++ (q.toList ++ ['.']) ++ back ∧
      ∀ c ∈ front.getLast?, joinsBefore c = false := by
  obtain ⟨breaks, breaks', after, hps⟩ := h
  rcases List.eq_nil_or_concat before with rfl | ⟨init, piece, rfl⟩
  · obtain ⟨-, -, back, rfl⟩ := eq_append_of_pieces_word hps
    exact ⟨[], back, by simp, by simp⟩
  · rw [List.concat_eq_append] at hps hfree
    rw [List.append_assoc] at hps
    obtain ⟨front, mid, rfl, hmid⟩ := exists_append_of_pieces hps
    obtain ⟨c, t, rest, rfl, hstep, hrest⟩ := step_of_pieces hmid
    obtain ⟨hstart, -, back, rfl⟩ := eq_append_of_pieces_word hrest
    obtain ⟨taken, last, htaken, hlast⟩ := (cutsOff_of_step hstep).exists_last
    refine ⟨front ++ taken ++ [last], back, by rw [htaken]; simp, ?_⟩
    intro d hd
    rw [List.getLast?_concat] at hd
    cases hd
    exact hlast (hfree piece List.getLast?_concat) hstart

end Go

/-! ## The search -/

namespace Aliases

/-- Two places of a mark that holds a point only at its end do not overlap. -/
theorem length_le_of_isPrefixOf {q front back : List Char} (hpoint : '.' ∉ q) (hne : front ≠ [])
    (h : (q ++ ['.']).isPrefixOf (front ++ (q ++ ['.']) ++ back) = true) :
    q.length + 1 ≤ front.length := by
  refine Nat.le_of_not_lt fun hlt => ?_
  obtain ⟨more, hmore⟩ := List.isPrefixOf_iff_prefix.1 h
  have hpos := List.length_pos_iff.2 hne
  -- the point at the end of the first place would stand inside the second one
  have hat := congrArg (·[q.length]?) hmore
  have hfirst : (q ++ ['.'] ++ more)[q.length]? = some '.' := by simp
  have hsecond : (front ++ (q ++ ['.']) ++ back)[q.length]? = q[q.length - front.length]? := by
    rw [List.append_assoc, List.getElem?_append_right (by omega), List.append_assoc,
      List.getElem?_append_left (by omega)]
  rw [hfirst, hsecond] at hat
  exact hpoint (List.mem_of_getElem? hat.symm)

theorem getLast?_or_some (front : List Char) (c : Char) (before : Option Char) :
    front.getLast?.or (some c) = (c :: front).getLast?.or before := by
  rw [List.getLast?_cons]
  cases front.getLast? <;> rfl

/-- A place without a joining character before it is found. -/
theorem standsFree_of_append {q front back : List Char} (hpoint : '.' ∉ q) {before : Option Char}
    {skip : Nat} (hskip : skip ≤ front.length)
    (hfree : ∀ c ∈ front.getLast?.or before, joinsBefore c = false) :
    standsFree (q ++ ['.']) before skip (front ++ (q ++ ['.']) ++ back) = true := by
  induction front generalizing before skip with
  | nil =>
    have hzero : skip = 0 := Nat.le_zero.1 hskip
    have hbefore : (before.map joinsBefore).getD false = false := by
      cases before with
      | none => rfl
      | some c => exact hfree c rfl
    have hstarts : (q ++ ['.']).isPrefixOf (q ++ ['.'] ++ back) = true :=
      List.isPrefixOf_iff_prefix.2 (List.prefix_append _ _)
    rw [List.nil_append]
    generalize htext : q ++ ['.'] ++ back = text at hstarts ⊢
    cases text with
    | nil => simp at htext
    | cons c s =>
      subst hzero
      unfold standsFree
      rw [hstarts, hbefore]
      rfl
  | cons c front ih =>
    have hlast : ∀ d ∈ front.getLast?.or (some c), joinsBefore d = false := by
      intro d hd
      rw [getLast?_or_some front c before] at hd
      exact hfree d hd
    rw [List.cons_append, List.cons_append]
    unfold standsFree
    cases skip with
    | succ skip => exact ih (Nat.le_of_succ_le_succ hskip) hlast
    | zero =>
      dsimp only
      split
      · next hstarts =>
        have hlength := length_le_of_isPrefixOf hpoint (List.cons_ne_nil c front) hstarts
        rw [List.length_cons] at hlength
        rw [ih (by simpa using hlength) hlast, Bool.or_true]
      · exact ih (Nat.zero_le _) hlast

/-- What is found is a place without a joining character before it. -/
theorem exists_append_of_standsFree {mark s : List Char} {before : Option Char} {skip : Nat}
    (h : standsFree mark before skip s = true) :
    ∃ front back, s = front ++ mark ++ back ∧
      ∀ c ∈ front.getLast?.or before, joinsBefore c = false := by
  induction s generalizing before skip with
  | nil => cases h
  | cons c s ih =>
    -- a place further on is one in the whole text
    have hlater : ∀ {skip : Nat}, standsFree mark (some c) skip s = true →
        ∃ front back, c :: s = front ++ mark ++ back ∧
          ∀ d ∈ front.getLast?.or before, joinsBefore d = false := by
      intro skip h
      obtain ⟨front, back, rfl, hfree⟩ := ih h
      rw [getLast?_or_some front c before] at hfree
      exact ⟨c :: front, back, rfl, hfree⟩
    unfold standsFree at h
    split at h
    · exact hlater h
    · split at h
      · next hstarts =>
        rcases Bool.or_eq_true _ _ ▸ h with h | h
        · obtain ⟨back, hback⟩ := List.isPrefixOf_iff_prefix.1 hstarts
          refine ⟨[], back, hback.symm, fun d hd => ?_⟩
          have hd : before = some d := hd
          rw [hd] at h
          simpa using h
        · exact hlater h
      · exact hlater h

/-- The qualifier and a point stand somewhere in the text without a joining character before
them. -/
def StandsIn (q : String) (text : List Char) : Prop :=
  ∃ front back, text = front ++ (q.toList ++ ['.']) ++ back ∧
    ∀ c ∈ front.getLast?, joinsBefore c = false

theorem references_iff {code q : String} (hpoint : '.' ∉ q.toList) :
    references code q = true ↔ StandsIn q code.toList := by
  unfold references
  constructor
  · intro h
    obtain ⟨front, back, htext, hfree⟩ := exists_append_of_standsFree h
    exact ⟨front, back, htext, by simpa using hfree⟩
  · rintro ⟨front, back, htext, hfree⟩
    rw [htext]
    exact standsFree_of_append hpoint (Nat.zero_le _) (by simpa using hfree)

/-- A byte-order mark joins nothing. -/
theorem joinsBefore_mark : joinsBefore '\ufeff' = false := by
  decide +kernel

/-- A use of a qualifier behind a piece that joins nothing is a place in the text. -/
theorem standsIn_of_usedBehind {s : List Char} {q : String} {before : List Go.Piece}
    (h : Go.UsedBehind (Go.pieces (Go.withoutMark s)).1 before q)
    (hfree : ∀ piece ∈ before.getLast?, piece.joinsWord = false) : StandsIn q s := by
  obtain ⟨front, back, htext, hfree⟩ := h.exists_append hfree
  rcases Go.withoutMark_eq_or s with hmark | hmark
  · exact ⟨front, back, hmark ▸ htext, hfree⟩
  · refine ⟨'\ufeff' :: front, back, by rw [hmark, htext]; rfl, fun c hc => ?_⟩
    rw [← Option.or_none (o := (_ :: _).getLast?), ← getLast?_or_some] at hc
    rcases Option.or_eq_some_iff.1 hc with hc | ⟨-, hc⟩
    · exact hfree c hc
    · cases hc
      exact joinsBefore_mark

/-! ## Import lines -/

/-- The line that imports what a qualifier stands for: a numbered path with its name, or a path
without a slash alone. -/
inductive ImportLine (a : Aliases) (q : String) : String → Prop where
  | numbered {path : String} (h : (q, path) ∈ a.bindings) :
      ImportLine a q ("\t" ++ q ++ " \"" ++ path ++ "\"")
  | plain (h : q ∈ a.plain) : ImportLine a q ("\t\"" ++ q ++ "\"")

/-- The text is an import block, and the line is one of its lines. -/
def IsBlockWith (block line : String) : Prop :=
  ∃ lines more, block = "import (\n" ++ String.intercalate "\n" (lines ++ line :: more) ++ "\n)\n"

/-- Texts without a blank are told apart by what stands before the first blank. -/
theorem eq_of_append_blank {s t x y : List Char} (hs : ' ' ∉ s) (ht : ' ' ∉ t)
    (h : s ++ ' ' :: x = t ++ ' ' :: y) : s = t := by
  have hfront : ∀ {u : List Char}, ' ' ∉ u → u.all (· != ' ') = true := by
    intro u hu
    rw [List.all_eq_true]
    intro c hc
    rw [bne_iff_ne]
    rintro rfl
    exact hu hc
  have hblank : ∀ {z : List Char}, ∀ c ∈ (' ' :: z).head?, (c != ' ') = false := by
    intro z c hc
    cases hc
    rfl
  rw [← (Go.takeWhile_dropWhile_append (hfront hs) (hblank (z := x))).1, h,
    (Go.takeWhile_dropWhile_append (hfront ht) (hblank (z := y))).1]

theorem blank_not_mem_aliasAt (position : Nat) : ' ' ∉ (aliasAt position).toList := by
  unfold aliasAt
  rw [String.toList_append, List.mem_append, not_or]
  refine ⟨by decide, fun hmem => ?_⟩
  rw [Nat.toString_eq_ofList_toDigits, String.toList_ofList] at hmem
  cases Nat.isDigit_of_mem_toDigits (b := 10) (by decide) (by decide) hmem

theorem exists_of_mem_bindings {a : Aliases} {q path : String} (h : (q, path) ∈ a.bindings) :
    ∃ position, q = aliasAt position := by
  obtain ⟨entry, -, heq⟩ := List.mem_map.1 h
  cases heq
  exact ⟨entry.2, rfl⟩

/-- The line of a qualifier is in the import block exactly if the qualifier is found. -/
theorem mem_importLines {a : Aliases} {code q line : String} (hline : a.ImportLine q line) :
    line ∈ a.importLines code ↔ references code q = true := by
  unfold importLines
  rw [List.mem_append, List.mem_map, List.mem_map]
  cases hline with
  | @numbered path hmem =>
    obtain ⟨position, rfl⟩ := exists_of_mem_bindings hmem
    constructor
    · rintro (⟨path', -, heq⟩ | ⟨⟨q', path'⟩, hentry, heq⟩)
      · have hchars := congrArg String.toList heq
        simp [String.toList_append, aliasAt] at hchars
      · obtain ⟨hmem', hfound⟩ := List.mem_filter.1 hentry
        obtain ⟨position', rfl⟩ := exists_of_mem_bindings hmem'
        have hchars := congrArg String.toList heq
        simp only [String.toList_append, List.append_assoc] at hchars
        have hsame := eq_of_append_blank (blank_not_mem_aliasAt position')
          (blank_not_mem_aliasAt position) (List.append_cancel_left hchars)
        rwa [String.toList_inj.1 hsame] at hfound
    · intro hfound
      exact .inr ⟨_, List.mem_filter.2 ⟨hmem, hfound⟩, rfl⟩
  | plain hmem =>
    constructor
    · rintro (⟨path', hentry, heq⟩ | ⟨⟨q', path'⟩, hentry, heq⟩)
      · obtain ⟨-, hfound⟩ := List.mem_filter.1 hentry
        have hsame : path' = q := by simpa using heq
        rwa [hsame] at hfound
      · obtain ⟨hmem', -⟩ := List.mem_filter.1 hentry
        obtain ⟨position', rfl⟩ := exists_of_mem_bindings hmem'
        have hchars := congrArg String.toList heq
        simp [String.toList_append, aliasAt] at hchars
    · intro hfound
      exact .inl ⟨_, List.mem_filter.2 ⟨hmem, hfound⟩, rfl⟩

theorem isBlockWith_render {a : Aliases} {code line : String} (h : line ∈ a.importLines code) :
    IsBlockWith (a.render code) line := by
  obtain ⟨lines, more, heq⟩ := List.append_of_mem h
  refine ⟨lines, more, ?_⟩
  unfold render
  rw [heq]
  dsimp only
  rw [if_neg (by simp)]

end Aliases

/-- The code of a file with some functions. -/
def codeOf (functions : List CopyFunction) : String :=
  String.intercalate "\n\n" (functions.map CopyFunction.text)

theorem fileText_of_render {line : String} {aliases : Aliases} {functions : List CopyFunction}
    (packageName : String)
    (h : Aliases.IsBlockWith (aliases.render (codeOf functions)) line) :
    ∃ block rest, Aliases.IsBlockWith block line ∧ fileText packageName aliases functions =
      generatedHeader ++ "\npackage " ++ packageName ++ "\n\n" ++ block ++ rest := by
  obtain ⟨lines, more, hblock⟩ := h
  refine ⟨_, "\n" ++ if (codeOf functions).isEmpty then "" else codeOf functions ++ "\n",
    ⟨lines, more, hblock⟩, ?_⟩
  have hnonempty : (aliases.render (codeOf functions)).isEmpty = false := by
    rw [hblock]
    simp
  unfold fileText
  dsimp only
  unfold codeOf at hnonempty ⊢
  rw [hnonempty, if_neg Bool.false_ne_true]
  simp only [String.append_assoc]

/-- A qualifier that the code uses is imported exactly if it stands somewhere in the text without a
joining character before it.  So it is if it is used behind anything but a point, an ellipsis or a
number: then its line is in the import block, also in that of a file that is generated with this
code. -/
theorem render_keeps_used_imports {a : Aliases} {code q line : String} {before : List Go.Piece}
    (huse : Go.UsedBehind (Go.pieces (Go.withoutMark code.toList)).1 before q)
    (hline : a.ImportLine q line) :
    (line ∈ a.importLines code ↔ Aliases.StandsIn q code.toList) ∧
      ((∀ piece ∈ before.getLast?, piece.joinsWord = false) →
        Aliases.IsBlockWith (a.render code) line ∧
        ∀ {L : Module.Loader} (s : Session L) (config : MappingConfig)
          (global : List ConversionRule) (functions : List CopyFunction) (after : Session L),
          (s.register (importsOf global)).functionsFor config global 0 config.mappings =
            (.ok functions, after) →
          codeOf functions = code → after.aliases = a →
          ∃ block rest, Aliases.IsBlockWith block line ∧ (s.generate config global).1 =
            .ok (generatedHeader ++ "\npackage " ++ config.packageName ++ "\n\n" ++ block ++
              rest)) := by
  have hexact : line ∈ a.importLines code ↔ Aliases.StandsIn q code.toList :=
    (Aliases.mem_importLines hline).trans (Aliases.references_iff huse.point_not_mem)
  refine ⟨hexact, fun hfree => ?_⟩
  have hblock := Aliases.isBlockWith_render
    (hexact.2 (Aliases.standsIn_of_usedBehind huse hfree))
  refine ⟨hblock, fun s config global functions after hrun hcode haliases => ?_⟩
  subst hcode
  subst haliases
  obtain ⟨block, rest, hwith, htext⟩ := fileText_of_render config.packageName hblock
  refine ⟨block, rest, hwith, ?_⟩
  rw [Session.generate_eq, hrun, ← htext]
  rfl

example : Aliases.render ⟨["a/b"], []⟩ "func F(v ...ref1.T) \x7b\x7d" = "" := by
  decide +kernel

/-- Behind the name of a variable, the use of a numbered path is found. -/
theorem render_keeps_used_imports_argument :
    Go.UsedBehind (Go.pieces (Go.withoutMark "v ref1.T".toList)).1
        [.token (.word "v") 0, .blank] "ref1" ∧
      Aliases.ImportLine ⟨["a/b"], []⟩ "ref1" "\tref1 \"a/b\"" ∧
      Aliases.IsBlockWith (Aliases.render ⟨["a/b"], []⟩ "v ref1.T") "\tref1 \"a/b\"" := by
  have hpieces : Go.pieces (Go.withoutMark "v ref1.T".toList) =
      ([.token (.word "v") 0, .blank, .token (.word "ref1") 0, .token .dot 0,
        .token (.word "T") 0], none) := by
    have hend : Go.pieces [] = ([], none) := by
      rw [Go.pieces]
    exact Go.pieces_step rfl (Go.pieces_step rfl (Go.pieces_step rfl (Go.pieces_step rfl
      (Go.pieces_step rfl hend))))
  have huse : Go.UsedBehind (Go.pieces (Go.withoutMark "v ref1.T".toList)).1
      [.token (.word "v") 0, .blank] "ref1" := by
    rw [hpieces]
    exact ⟨0, 0, [.token (.word "T") 0], rfl⟩
  have hline : Aliases.ImportLine ⟨["a/b"], []⟩ "ref1" "\tref1 \"a/b\"" :=
    @Aliases.ImportLine.numbered _ _ "a/b" List.mem_cons_self
  have hfree : ∀ piece ∈ [Go.Piece.token (.word "v") 0, .blank].getLast?,
      piece.joinsWord = false := by
    intro piece hpiece
    cases hpiece
    rfl
  exact ⟨huse, hline, ((render_keeps_used_imports huse hline).2 hfree).1⟩

end StructCopy
