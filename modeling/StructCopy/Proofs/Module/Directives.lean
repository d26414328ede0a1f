/-
  Proofs/Module/Directives: what is read from the lines that directives are written on.

  `Written` says how a list of directives is laid out in lines: each on a line of its own or in a
  block, with words in quotation marks or without, any white space between them, comments, and
  other directives in between.  Reading such lines gives the list back.
-/
import StructCopy.Module.ModFile
import StructCopy.Proofs.Text.Marks
import StructCopy.Proofs.Text.Words

set_option autoImplicit false

namespace StructCopy.Module

/-! ## Entries -/

/-- A word of an entry. -/
structure IsWord (w : String) : Prop where
  nonempty : w.toList ≠ []
  noBlank : ∀ c ∈ w.toList, Text.isBlank c = false
  noQuote : '"' ∉ w.toList
  noComment : ¬ ['/', '/'] <:+: w.toList
  noArrow : ¬ ['=', '>'] <:+: w.toList

/-- How a word may be spelled: as it is, or in quotation marks. -/
inductive Spelling (w : String) : List Char → Prop where
  | bare : Spelling w w.toList
  | quoted : Spelling w ('"' :: (w.toList ++ ['"']))

/-- The text spells these words, with white space between them and around them. -/
def Spells (ws : List String) (s : List Char) : Prop :=
  ∃ spellings, List.Forall₂ Spelling ws spellings ∧ Text.Spaced spellings s

/-- The text behind the verb of a directive, or a line in a block with this verb. -/
inductive Entry : Directive → List Char → List Char → Prop where
  | require {path version : String} {body : List Char} (hpath : IsWord path)
      (hversion : IsWord version) (hbody : Spells [path, version] body) :
      Entry (.require ⟨path, version⟩) "require".toList body
  | replace {path target : String} {old version : Option String} {left right : List Char}
      (hold : ∀ w ∈ path :: old.toList, IsWord w)
      (hnew : ∀ w ∈ target :: version.toList, IsWord w)
      (hleft : Spells (path :: old.toList) left)
      (hright : Spells (target :: version.toList) right) :
      Entry (.replace ⟨path, target, version⟩) "replace".toList (left ++ ("=>".toList ++ right))

/-! ## Lines -/

/-- The line holds this text, with or without a comment behind it. The comment begins at the first
place where two slashes stand together. -/
inductive Holds (code : List Char) : List Char → Prop where
  | bare : Holds code code
  | commented {comment : List Char} (hlast : code.getLast? ≠ some '/') :
      Holds code (code ++ (['/', '/'] ++ comment))

/-- The text begins with a verb, and this body follows behind white space. -/
def Headed (verb body code : List Char) : Prop :=
  ∃ before c, (∀ d ∈ before, Text.isBlank d = true) ∧ Text.isBlank c = true ∧
    code = before ++ (verb ++ c :: body)

/-- A line with nothing but white space or a comment. -/
def Idle (line : List Char) : Prop :=
  ∃ code, Holds code line ∧ ∀ c ∈ code, Text.isBlank c = true

/-- A line that opens a block. -/
def Opens (verb line : List Char) : Prop :=
  ∃ body code, Holds code line ∧ Headed verb body code ∧ Text.Spaced [['(']] body

/-- A line that closes a block. -/
def Closes (line : List Char) : Prop :=
  ∃ code, Holds code line ∧ Text.Spaced [[')']] code

/-- The word that a directive begins with. -/
structure IsVerb (verb : List Char) : Prop where
  nonempty : verb ≠ []
  noBlank : ∀ c ∈ verb, Text.isBlank c = false
  noComment : ¬ ['/', '/'] <:+: verb

/-- The verb of a directive that says nothing of dependencies. -/
structure OtherVerb (verb : List Char) : Prop extends IsVerb verb where
  ne_require : verb ≠ "require".toList
  ne_replace : verb ≠ "replace".toList

/-- A line with such a directive, which opens no block. -/
inductive Other (line : List Char) : Prop where
  | alone {verb code : List Char} (hverb : OtherVerb verb) (hline : Holds code line)
      (hcode : Text.Spaced [verb] code)
  | headed {verb body code : List Char} (hverb : OtherVerb verb) (hline : Holds code line)
      (hcode : Headed verb body code) (hcomment : ¬ ['/', '/'] <:+: body)
      (hparen : ¬ Text.Spaced [['(']] body)

/-- The lines inside a block with this verb. -/
inductive Inside (verb : List Char) : List Directive → List (List Char) → Prop where
  | nil : Inside verb [] []
  | idle {ds : List Directive} {line : List Char} {lines : List (List Char)} (hline : Idle line)
      (h : Inside verb ds lines) : Inside verb ds (line :: lines)
  | entry {d : Directive} {ds : List Directive} {body line : List Char} {lines : List (List Char)}
      (hentry : Entry d verb body) (hline : Holds body line) (h : Inside verb ds lines) :
      Inside verb (d :: ds) (line :: lines)

/-- The lines of a file with these directives, in this order. -/
inductive Written : List Directive → List (List Char) → Prop where
  | nil : Written [] []
  | idle {ds : List Directive} {line : List Char} {lines : List (List Char)} (hline : Idle line)
      (h : Written ds lines) : Written ds (line :: lines)
  | other {ds : List Directive} {line : List Char} {lines : List (List Char)} (hline : Other line)
      (h : Written ds lines) : Written ds (line :: lines)
  | entry {d : Directive} {ds : List Directive} {verb body code line : List Char}
      {lines : List (List Char)} (hentry : Entry d verb body) (hcode : Headed verb body code)
      (hline : Holds code line) (h : Written ds lines) : Written (d :: ds) (line :: lines)
  | block {ds more : List Directive} {verb first last : List Char} {inner lines : List (List Char)}
      (hverb : verb = "require".toList ∨ verb = "replace".toList) (hfirst : Opens verb first)
      (hinner : Inside verb ds inner) (hlast : Closes last) (h : Written more lines) :
      Written (ds ++ more) (first :: (inner ++ last :: lines))
  | otherBlock {ds : List Directive} {verb first last : List Char} {inner lines : List (List Char)}
      (hverb : OtherVerb verb) (hfirst : Opens verb first) (hinner : ∀ line ∈ inner, ¬ Closes line)
      (hlast : Closes last) (h : Written ds lines) :
      Written ds (first :: (inner ++ last :: lines))

/-! ## Words read back -/

theorem Spelling.trimQuotes_eq {w : String} {s : List Char} (hw : IsWord w) (h : Spelling w s) :
    Text.trimQuotes s = w.toList := by
  have hplain : ∀ c ∈ w.toList, (c == '"') = false := fun c hc => by
    rw [beq_eq_false_iff_ne]
    rintro rfl
    exact hw.noQuote hc
  obtain ⟨haround, hfirst, hlast⟩ := Text.Strips.of_forall hplain
  refine Text.trimQuotes_eq_iff.2 ⟨?_, hfirst, hlast⟩
  cases h with
  | bare => exact haround
  | quoted => exact ⟨['"'], ['"'], rfl, by simp, by simp⟩

theorem Spelling.not_pair_infix {a b : Char} (ha : a ≠ '"') (hb : b ≠ '"') {w : String}
    {s : List Char} (hw : ¬ [a, b] <:+: w.toList) (h : Spelling w s) : ¬ [a, b] <:+: s := by
  cases h with
  | bare => exact hw
  | quoted =>
    rw [Text.pair_infix_cons, Text.pair_infix_append]
    simp [hw, ha.symm, hb.symm, Text.pair_infix_cons]

/-- A mark that stands in no word stands in no text that spells them. -/
theorem Spells.not_pair_infix {a b : Char} (ha : Text.isBlank a = false)
    (hb : Text.isBlank b = false) (ha' : a ≠ '"') (hb' : b ≠ '"') {ws : List String}
    {s : List Char} (hws : ∀ w ∈ ws, ¬ [a, b] <:+: w.toList) (h : Spells ws s) :
    ¬ [a, b] <:+: s := by
  obtain ⟨spellings, hspellings, hspaced⟩ := h
  refine hspaced.not_pair_infix ha hb fun spelling hmem => ?_
  clear hspaced
  induction hspellings with
  | nil => cases hmem
  | cons hspelling _ ih =>
    obtain ⟨hw, hrest⟩ := List.forall_mem_cons.1 hws
    rcases List.mem_cons.1 hmem with rfl | hmem
    · exact hspelling.not_pair_infix ha' hb' hw
    · exact ih hrest hmem

/-- The words of a text that spells some words are these. -/
theorem Spells.bareWords_eq {ws : List String} {s : List Char} (hws : ∀ w ∈ ws, IsWord w)
    (h : Spells ws s) : bareWords s = ws := by
  obtain ⟨spellings, hspellings, hspaced⟩ := h
  rw [bareWords, hspaced.words_eq]
  clear hspaced
  induction hspellings with
  | nil => rfl
  | cons hspelling _ ih =>
    obtain ⟨hw, hrest⟩ := List.forall_mem_cons.1 hws
    rw [List.map_cons, ih hrest, hspelling.trimQuotes_eq hw, String.ofList_toList]

/-! ## Entries read back -/

/-- An arrow is found behind any text that holds none. -/
theorem cut?_arrow {left : List Char} (h : ¬ ['=', '>'] <:+: left) (right : List Char) :
    Text.cut? "=>".toList (left ++ ("=>".toList ++ right)) = some (left, right) := by
  refine Text.cut?_of_first (by decide) ?_ right
  change ¬ ['=', '>'] <:+: left ++ ['=']
  rw [Text.pair_infix_append]
  simp [h, Text.pair_infix_cons]

theorem Entry.directive?_eq {d : Directive} {verb body : List Char} (h : Entry d verb body) :
    directive? verb body = some d := by
  cases h with
  | require hpath hversion hbody =>
    have hwords := hbody.bareWords_eq (by simp [hpath, hversion])
    rw [directive?, if_pos rfl, hwords]
  | replace hold hnew hleft hright =>
    have harrow := hleft.not_pair_infix (by decide) (by decide) (by decide) (by decide)
      fun w hw => (hold w hw).noArrow
    rw [directive?, if_neg (by decide), if_pos rfl, cut?_arrow harrow]
    dsimp only
    rw [hleft.bareWords_eq hold, hright.bareWords_eq hnew]
    dsimp only
    rw [Option.head?_toList]

/-- White space around an entry may be left out. -/
theorem Entry.trim {d : Directive} {verb body : List Char} (h : Entry d verb body) :
    Entry d verb (Text.trim body) := by
  cases h with
  | require hpath hversion hbody =>
    obtain ⟨spellings, hspellings, hspaced⟩ := hbody
    exact .require hpath hversion ⟨spellings, hspellings, hspaced.trim⟩
  | @replace _ _ _ _ left right hold hnew hleft hright =>
    obtain ⟨spellings, hspellings, hspaced⟩ := hleft
    obtain ⟨spellings', hspellings', hspaced'⟩ := hright
    have hequals : Text.isBlank '=' = false := by decide
    have harrow : Text.trimEnd (Text.trimStart left ++ "=>".toList) =
        Text.trimStart left ++ "=>".toList := by
      simp [Text.trimEnd, Text.dropEndWhile, show Text.isBlank '>' = false by decide]
    have htrim : Text.trim (left ++ ("=>".toList ++ right)) =
        Text.trimStart left ++ ("=>".toList ++ Text.trimEnd right) := by
      rw [Text.trim, ← List.append_assoc, ← List.append_assoc, ← Text.trimEnd_append harrow]
      exact congrArg Text.trimEnd (by
        rw [List.append_assoc, List.append_assoc]
        exact Text.trimStart_append_cons hequals left _)
    rw [htrim]
    exact .replace hold hnew ⟨spellings, hspellings, hspaced.trimStart⟩
      ⟨spellings', hspellings', hspaced'.trimEnd⟩

theorem Entry.noComment {d : Directive} {verb body : List Char} (h : Entry d verb body) :
    ¬ ['/', '/'] <:+: body := by
  have hspells : ∀ {ws : List String} {s : List Char}, (∀ w ∈ ws, IsWord w) → Spells ws s →
      ¬ ['/', '/'] <:+: s := fun hws h =>
    h.not_pair_infix (by decide) (by decide) (by decide) (by decide)
      fun w hw => (hws w hw).noComment
  cases h with
  | require hpath hversion hbody => exact hspells (by simp [hpath, hversion]) hbody
  | replace hold hnew hleft hright =>
    change ¬ _ <:+: _ ++ '=' :: '>' :: _
    rw [Text.pair_infix_append, Text.pair_infix_cons, Text.pair_infix_cons]
    simp [hspells hold hleft, hspells hnew hright]

/-! ## Lines read back -/

/-- The content of a line is the text that it holds. -/
theorem Holds.content_eq {code line : List Char} (hcode : ¬ ['/', '/'] <:+: code)
    (h : Holds code line) : content line = Text.trim code := by
  have hcut : Text.upTo "//".toList line = code := by
    unfold Text.upTo
    cases h with
    | bare =>
      have hnone : Text.cut? "//".toList code = none := Text.cut?_eq_none hcode
      rw [hnone]
    | @commented comment hlast =>
      have hfirst : ¬ ['/', '/'] <:+: code ++ ['/'] := by
        rw [Text.pair_infix_append]
        simp [hcode, hlast, Text.pair_infix_cons]
      have hsome : Text.cut? "//".toList (code ++ (['/', '/'] ++ comment)) = some (code, comment) :=
        Text.cut?_of_first (List.cons_ne_nil _ _) hfirst comment
      rw [hsome]
  rw [content, hcut]

/-- A line whose content is a closing parenthesis closes a block. -/
theorem closes_of_content {line : List Char} (h : content line = [')']) : Closes line := by
  have hspaced : ∀ {code}, Text.trim code = [')'] → Text.Spaced [[')']] code := by
    intro code hcode
    rw [Text.spaced_iff, ← Text.words_trim, hcode]
    decide
  unfold content Text.upTo at h
  split at h
  · next left right hcut =>
    refine ⟨left, ?_, hspaced h⟩
    rw [Text.eq_append_of_cut? hcut, List.append_assoc]
    refine .commented fun hlast => Text.not_infix_before hcut (List.cons_ne_nil _ _) ?_
    change ['/', '/'] <:+: left ++ ['/']
    rw [Text.pair_infix_append]
    exact .inr (.inr ⟨hlast, rfl⟩)
  · exact ⟨line, .bare, hspaced h⟩

theorem Headed.noComment {verb body code : List Char} (h : Headed verb body code)
    (hverb : IsVerb verb) (hbody : ¬ ['/', '/'] <:+: body) : ¬ ['/', '/'] <:+: code := by
  obtain ⟨before, c, hbefore, hc, rfl⟩ := h
  have hslash : Text.isBlank '/' = false := by decide
  have hne : c ≠ '/' := by
    rintro rfl
    cases hc.symm.trans hslash
  have hnot : '/' ∉ before := fun hmem => by cases (hbefore _ hmem).symm.trans hslash
  have hfront : ¬ ['/', '/'] <:+: before := fun hin => hnot (hin.subset List.mem_cons_self)
  have hend : before.getLast? ≠ some '/' := fun hlast => hnot (List.mem_of_getLast? hlast)
  rw [Text.pair_infix_append, Text.pair_infix_append, Text.pair_infix_cons]
  simp [hfront, hend, hverb.noComment, hbody, hne]

/-- The verb of a line, and the body without the white space around it. -/
theorem Headed.verbAndRest?_eq {verb body code : List Char} (h : Headed verb body code)
    (hverb : IsVerb verb) (hbody : Text.trim body ≠ []) :
    verbAndRest? (Text.trim code) = some (verb, Text.trim body) := by
  obtain ⟨before, c, hbefore, hc, rfl⟩ := h
  have hend : Text.trimEnd body ≠ [] := by
    intro hnil
    rw [← Text.trim_trimEnd, hnil] at hbody
    exact hbody rfl
  have hcode : Text.trim (before ++ (verb ++ c :: body)) = verb ++ c :: Text.trimEnd body := by
    obtain ⟨hne, hplain, -⟩ := hverb
    obtain ⟨v, vs, rfl⟩ := List.exists_cons_of_ne_nil hne
    rw [Text.trim_append_of_blanks hbefore, Text.trim_append (hplain v List.mem_cons_self)
      (Text.dropEndWhile_eq_self hplain), Text.trimEnd_cons c hend]
  have hword : ∀ d ∈ verb, (!Text.isBlank d) = true := fun d hd => by rw [hverb.noBlank d hd]; rfl
  unfold verbAndRest?
  rw [hcode, List.dropWhile_append_of_pos hword, List.takeWhile_append_of_pos hword]
  simp [hc, Text.trim_trimEnd]

/-! ## One line after another -/

theorem directives_none_cons (line : List Char) (lines : List (List Char)) :
    directives none (line :: lines) =
      if (content line).isEmpty then directives none lines
      else match verbAndRest? (content line) with
        | none => directives none lines
        | some (verb, body) =>
          if body = ['('] then directives (some verb) lines
          else (directive? verb body).toList ++ directives none lines :=
  rfl

theorem directives_some_cons (verb line : List Char) (lines : List (List Char)) :
    directives (some verb) (line :: lines) =
      if (content line).isEmpty then directives (some verb) lines
      else if content line = [')'] then directives none lines
      else (directive? verb (content line)).toList ++ directives (some verb) lines :=
  rfl

theorem directives_of_idle {line : List Char} (h : content line = []) (block : Option (List Char))
    (lines : List (List Char)) : directives block (line :: lines) = directives block lines := by
  cases block with
  | none => rw [directives_none_cons, h]; rfl
  | some verb => rw [directives_some_cons, h]; rfl

theorem Idle.content_eq {line : List Char} (h : Idle line) : content line = [] := by
  obtain ⟨code, hline, hblank⟩ := h
  have hcomment : ¬ ['/', '/'] <:+: code := fun hin => by
    have hslash := hblank '/' (hin.subset List.mem_cons_self)
    rw [show Text.isBlank '/' = false by decide] at hslash
    cases hslash
  rw [hline.content_eq hcomment, Text.trim_blanks hblank]

theorem Closes.content_eq {line : List Char} (h : Closes line) : content line = [')'] := by
  obtain ⟨code, hline, hcode⟩ := h
  have hcomment : ¬ ['/', '/'] <:+: code :=
    hcode.not_pair_infix (by decide) (by decide) (by simp [Text.pair_infix_cons])
  rw [hline.content_eq hcomment, hcode.trim_eq]

theorem closes_iff {line : List Char} : Closes line ↔ content line = [')'] :=
  ⟨Closes.content_eq, closes_of_content⟩

theorem directives_of_closes {line : List Char} (h : Closes line) (verb : List Char)
    (lines : List (List Char)) :
    directives (some verb) (line :: lines) = directives none lines := by
  rw [directives_some_cons, h.content_eq]
  rfl

/-- A line that holds a verb and a body is not empty. -/
theorem isEmpty_content {line verb body : List Char}
    (h : verbAndRest? (content line) = some (verb, body)) : (content line).isEmpty = false := by
  rw [List.isEmpty_eq_false_iff]
  intro hnil
  rw [hnil] at h
  cases h

theorem directives_of_opens {verb line : List Char} (h : Opens verb line) (hverb : IsVerb verb)
    (lines : List (List Char)) :
    directives none (line :: lines) = directives (some verb) lines := by
  obtain ⟨body, code, hline, hcode, hparen⟩ := h
  have hbody : ¬ ['/', '/'] <:+: body :=
    hparen.not_pair_infix (by decide) (by decide) (by simp [Text.pair_infix_cons])
  have htrim := hparen.trim_eq
  have hread := hcode.verbAndRest?_eq hverb (by rw [htrim]; exact List.cons_ne_nil _ _)
  rw [← hline.content_eq (hcode.noComment hverb hbody), htrim] at hread
  rw [directives_none_cons, isEmpty_content hread, if_neg Bool.false_ne_true, hread]
  rfl

/-- A text without two words and without an arrow is no directive. -/
theorem directive?_of_short {s : List Char} (hs : s = [] ∨ s = ['('] ∨ s = [')'])
    (verb : List Char) : directive? verb s = none := by
  unfold directive?
  split
  · rcases hs with rfl | rfl | rfl <;> rfl
  split
  · rcases hs with rfl | rfl | rfl <;> rfl
  · rfl

theorem Entry.ne_of_short {d : Directive} {verb body s : List Char} (h : Entry d verb body)
    (hs : s = [] ∨ s = ['('] ∨ s = [')']) : Text.trim body ≠ s := by
  intro heq
  have hdirective := h.trim.directive?_eq
  rw [heq, directive?_of_short hs] at hdirective
  cases hdirective

theorem noBlank_of_any {s : List Char} (h : s.any Text.isBlank = false) :
    ∀ c ∈ s, Text.isBlank c = false := by
  simpa using h

/-- A text without a slash holds no two of them. -/
theorem noComment_of_not_mem {s : List Char} (h : '/' ∉ s) : ¬ ['/', '/'] <:+: s :=
  fun hin => h (hin.subset List.mem_cons_self)

theorem isVerb_require : IsVerb "require".toList :=
  ⟨by decide, noBlank_of_any rfl, noComment_of_not_mem (by decide)⟩

theorem isVerb_replace : IsVerb "replace".toList :=
  ⟨by decide, noBlank_of_any rfl, noComment_of_not_mem (by decide)⟩

theorem isVerb_of_counts {verb : List Char}
    (h : verb = "require".toList ∨ verb = "replace".toList) : IsVerb verb := by
  rcases h with rfl | rfl
  · exact isVerb_require
  · exact isVerb_replace

theorem Entry.isVerb {d : Directive} {verb body : List Char} (h : Entry d verb body) :
    IsVerb verb := by
  cases h with
  | require => exact isVerb_require
  | replace => exact isVerb_replace

theorem directives_of_entry {d : Directive} {verb body code line : List Char}
    (h : Entry d verb body) (hcode : Headed verb body code) (hline : Holds code line)
    (lines : List (List Char)) :
    directives none (line :: lines) = d :: directives none lines := by
  have hread := hcode.verbAndRest?_eq h.isVerb (h.ne_of_short (.inl rfl))
  rw [← hline.content_eq (hcode.noComment h.isVerb h.noComment)] at hread
  rw [directives_none_cons, isEmpty_content hread, if_neg Bool.false_ne_true, hread]
  dsimp only
  rw [if_neg (h.ne_of_short (.inr (.inl rfl))), h.trim.directive?_eq]
  rfl

theorem directives_of_blockEntry {d : Directive} {verb body line : List Char}
    (h : Entry d verb body) (hline : Holds body line) (lines : List (List Char)) :
    directives (some verb) (line :: lines) = d :: directives (some verb) lines := by
  have hsome : (Text.trim body).isEmpty = false :=
    List.isEmpty_eq_false_iff.2 (h.ne_of_short (.inl rfl))
  rw [directives_some_cons, hline.content_eq h.noComment, hsome, if_neg Bool.false_ne_true,
    if_neg (h.ne_of_short (.inr (.inr rfl))), h.trim.directive?_eq]
  rfl

theorem OtherVerb.directive?_eq {verb : List Char} (h : OtherVerb verb) (body : List Char) :
    directive? verb body = none := by
  rw [directive?, if_neg h.ne_require, if_neg h.ne_replace]

/-- A verb alone is no directive that is read. -/
theorem directives_of_verb {verb line : List Char} (hverb : IsVerb verb)
    (h : content line = verb) (lines : List (List Char)) :
    directives none (line :: lines) = directives none lines := by
  have hsome : verb.isEmpty = false := List.isEmpty_eq_false_iff.2 hverb.nonempty
  have hword : ∀ d ∈ verb, (!Text.isBlank d) = true := fun d hd => by rw [hverb.noBlank d hd]; rfl
  have hnone : verbAndRest? verb = none := by
    have hdrop : (verb ++ []).dropWhile (fun c => !Text.isBlank c) = [] :=
      List.dropWhile_append_of_pos hword
    rw [List.append_nil] at hdrop
    rw [verbAndRest?, hdrop]
  rw [directives_none_cons, h, hsome, if_neg Bool.false_ne_true, hnone]

theorem directives_of_other {line : List Char} (h : Other line) (lines : List (List Char)) :
    directives none (line :: lines) = directives none lines := by
  cases h with
  | @alone verb code hverb hline hcode =>
    have hcomment : ¬ ['/', '/'] <:+: code :=
      hcode.not_pair_infix (by decide) (by decide) (by simpa using hverb.noComment)
    exact directives_of_verb hverb.toIsVerb ((hline.content_eq hcomment).trans hcode.trim_eq) lines
  | @headed verb body code hverb hline hcode hcomment hparen =>
    have hcontent := hline.content_eq (hcode.noComment hverb.toIsVerb hcomment)
    by_cases hbody : Text.trim body = []
    · refine directives_of_verb hverb.toIsVerb (hcontent.trans ?_) lines
      obtain ⟨before, c, hbefore, hc, rfl⟩ := hcode
      have hblank := Text.isBlank_of_trim_eq_nil hbody
      exact Text.trim_between hbefore hverb.noBlank
        (List.forall_mem_cons.2 ⟨hc, hblank⟩)
    · have hread := hcode.verbAndRest?_eq hverb.toIsVerb hbody
      rw [← hcontent] at hread
      have hne : Text.trim body ≠ ['('] := fun heq => hparen (by
        rw [Text.spaced_iff, ← Text.words_trim, heq]
        decide)
      rw [directives_none_cons, isEmpty_content hread, if_neg Bool.false_ne_true, hread]
      dsimp only
      rw [if_neg hne, hverb.directive?_eq]
      rfl

/-! ## All lines -/

theorem Inside.directives_eq {verb : List Char} {ds : List Directive} {inner : List (List Char)}
    (h : Inside verb ds inner) (lines : List (List Char)) :
    directives (some verb) (inner ++ lines) = ds ++ directives (some verb) lines := by
  induction h with
  | nil => rfl
  | idle hline _ ih => rw [List.cons_append, directives_of_idle hline.content_eq, ih]
  | entry hentry hline _ ih =>
    rw [List.cons_append, directives_of_blockEntry hentry hline, ih, List.cons_append]

/-- A block of another directive is passed over up to its end. -/
theorem directives_of_otherBlock {verb : List Char} (hverb : OtherVerb verb)
    {inner : List (List Char)} (h : ∀ line ∈ inner, ¬ Closes line) (lines : List (List Char)) :
    directives (some verb) (inner ++ lines) = directives (some verb) lines := by
  induction inner with
  | nil => rfl
  | cons line inner ih =>
    obtain ⟨hline, hinner⟩ := List.forall_mem_cons.1 h
    rw [List.cons_append, directives_some_cons, if_neg (mt closes_iff.2 hline),
      hverb.directive?_eq, ih hinner]
    exact ite_self _

theorem Written.directives_eq {ds : List Directive} {lines : List (List Char)}
    (h : Written ds lines) : directives none lines = ds := by
  induction h with
  | nil => rfl
  | idle hline _ ih => rw [directives_of_idle hline.content_eq, ih]
  | other hline _ ih => rw [directives_of_other hline, ih]
  | entry hentry hcode hline _ ih => rw [directives_of_entry hentry hcode hline, ih]
  | block hverb hfirst hinner hlast _ ih =>
    rw [directives_of_opens hfirst (isVerb_of_counts hverb), hinner.directives_eq,
      directives_of_closes hlast, ih]
  | otherBlock hverb hfirst hinner hlast _ ih =>
    rw [directives_of_opens hfirst hverb.toIsVerb, directives_of_otherBlock hverb hinner,
      directives_of_closes hlast, ih]

/-! ## Texts -/

theorem content_concat_return (line : List Char) : content (line ++ ['\r']) = content line := by
  have hreturn : Text.isBlank '\r' = true := by decide
  unfold content Text.upTo
  cases hcut : Text.cut? "//".toList line with
  | some found =>
    obtain ⟨left, right⟩ := found
    rw [Text.cut?_append hcut (by decide)]
  | none =>
    have hnot : ¬ ['/', '/'] <:+: line := Text.not_infix_of_cut? hcut
    have hmore : ¬ ['/', '/'] <:+: line ++ ['\r'] := by
      rw [Text.pair_infix_append]
      simp [hnot, Text.pair_infix_cons]
    have hnone : Text.cut? "//".toList (line ++ ['\r']) = none := Text.cut?_eq_none hmore
    rw [hnone]
    exact Text.trim_concat hreturn line

theorem directives_congr {lines lines' : List (List Char)}
    (h : List.Forall₂ (fun line line' => content line = content line') lines lines')
    (block : Option (List Char)) : directives block lines = directives block lines' := by
  induction h generalizing block with
  | nil => rfl
  | cons hline _ ih =>
    cases block with
    | none => simp only [directives_none_cons, hline, ih]
    | some verb => simp only [directives_some_cons, hline, ih]

theorem directives_concat_empty (lines : List (List Char)) (block : Option (List Char)) :
    directives block (lines ++ [[]]) = directives block lines := by
  induction lines generalizing block with
  | nil => exact directives_of_idle rfl block []
  | cons line lines ih =>
    rw [List.cons_append]
    cases block with
    | none => simp only [directives_none_cons, ih]
    | some verb => simp only [directives_some_cons, ih]

/-- Lines are read as the parts of the text between line feeds. -/
theorem directives_lines (s : List Char) :
    directives none (Text.lines s) = directives none (Text.splitAt '\n' s) := by
  obtain ⟨parts, hparts, hlines⟩ := Text.exists_splitAt_lines s
  have hsame : directives none parts = directives none (Text.lines s) := by
    refine directives_congr (hlines.imp fun part line h => ?_) none
    rcases h with rfl | rfl
    · rfl
    · exact content_concat_return line
  rcases hparts with hparts | hparts
  · rw [hparts, hsame]
  · rw [hparts, directives_concat_empty, hsame]

/-- Directives that are written on the lines of a text are what is read from it: all requirements
and all replacements, each in their order. -/
theorem dependencies_of_written {ds : List Directive} {lines : List (List Char)}
    (h : Written ds lines) (hlines : ∀ line ∈ lines, '\n' ∉ line) {text : String}
    (htext : text.toList = ['\n'].intercalate lines) :
    dependencies text = ds ∧ ∀ file, ModFile.ofText? text = some file →
      file.requires = requirements ds ∧ file.replaces = replacements ds := by
  have hread : dependencies text = ds := by
    rw [dependencies, directives_lines, htext]
    cases lines with
    | nil => exact h.directives_eq
    | cons line lines =>
      rw [Text.splitAt_intercalate (List.cons_ne_nil _ _) hlines]
      exact h.directives_eq
  refine ⟨hread, fun file hfile => ?_⟩
  obtain ⟨path, -, rfl⟩ := Option.map_eq_some_iff.1 hfile
  rw [hread]
  exact ⟨rfl, rfl⟩

/-- The lines of a file with a requirement in a block, a block of another directive in which a line
begins like a requirement, and a replacement. -/
def mixedLines : List (List Char) :=
  ["module m".toList, "require (".toList, "\t\"a/b\" v1 // direct".toList, [], ")".toList,
    "exclude (".toList, "\trequire c v2".toList, ")".toList, "replace a/b=>./c".toList]

/-- The directives of these lines. -/
def mixedDirectives : List Directive :=
  [.require ⟨"a/b", "v1"⟩, .replace ⟨"a/b", "./c", none⟩]

theorem written_mixedLines : Written mixedDirectives mixedLines := by
  have hspace : Text.isBlank ' ' = true := by decide
  have hnone : ∀ d ∈ ([] : List Char), Text.isBlank d = true := List.forall_mem_nil _
  have hwords : IsWord "a/b" ∧ IsWord "v1" ∧ IsWord "./c" := by
    refine ⟨⟨by decide, noBlank_of_any rfl, by decide, ?_, ?_⟩,
      ⟨by decide, noBlank_of_any rfl, by decide, ?_, ?_⟩,
      ⟨by decide, noBlank_of_any rfl, by decide, ?_, ?_⟩⟩ <;> simp [Text.pair_infix_cons]
  obtain ⟨hold, hversion, hnew⟩ := hwords
  have hopens : ∀ {verb : List Char}, Opens verb (verb ++ " (".toList) := fun {verb} =>
    ⟨['('], verb ++ " (".toList, .bare, ⟨[], ' ', hnone, hspace, rfl⟩,
      Text.spaced_iff.2 (by decide)⟩
  have hcloses : Closes ")".toList := ⟨_, .bare, Text.spaced_iff.2 (by decide)⟩
  have hverb : OtherVerb "module".toList :=
    ⟨⟨by decide, noBlank_of_any rfl, noComment_of_not_mem (by decide)⟩, by decide, by decide⟩
  have hheaded : Headed "module".toList ['m'] "module m".toList := ⟨[], ' ', hnone, hspace, rfl⟩
  have hmodule : Other "module m".toList :=
    .headed hverb .bare hheaded (noComment_of_not_mem (by decide))
      fun h => absurd h.words_eq (by decide)
  have hrequire : Inside "require".toList [.require ⟨"a/b", "v1"⟩]
      ["\t\"a/b\" v1 // direct".toList, []] := by
    have hbody : Spells ["a/b", "v1"] "\t\"a/b\" v1 ".toList :=
      ⟨["\"a/b\"".toList, "v1".toList], .cons .quoted (.cons .bare .nil),
        Text.spaced_iff.2 (by decide)⟩
    exact .entry (.require hold hversion hbody) (.commented (by decide))
      (.idle ⟨[], .bare, hnone⟩ .nil)
  have hexclude : ∀ line ∈ ["\trequire c v2".toList], ¬ Closes line := by
    rw [List.forall_mem_singleton, closes_iff]
    decide
  have hreplace : Entry (.replace ⟨"a/b", "./c", none⟩) "replace".toList "a/b=>./c".toList :=
    @Entry.replace _ _ none none "a/b".toList "./c".toList (by simpa using hold)
      (by simpa using hnew) ⟨["a/b".toList], .cons .bare .nil, Text.spaced_iff.2 (by decide)⟩
      ⟨["./c".toList], .cons .bare .nil, Text.spaced_iff.2 (by decide)⟩
  have hlast : Written [.replace ⟨"a/b", "./c", none⟩] ["replace a/b=>./c".toList] :=
    .entry hreplace ⟨[], ' ', hnone, hspace, rfl⟩ .bare .nil
  have hother : OtherVerb "exclude".toList :=
    ⟨⟨by decide, noBlank_of_any rfl, noComment_of_not_mem (by decide)⟩, by decide, by decide⟩
  exact .other hmodule (.block (.inl rfl) hopens hrequire hcloses
    (.otherBlock hother hopens hexclude hcloses hlast))

theorem dependencies_of_written_mixed :
    dependencies ("module m\nrequire (\n\t\"a/b\" v1 // direct\n\n)\n" ++
      "exclude (\n\trequire c v2\n)\nreplace a/b=>./c") = mixedDirectives :=
  (dependencies_of_written written_mixedLines (by decide) (by decide)).1

end StructCopy.Module
