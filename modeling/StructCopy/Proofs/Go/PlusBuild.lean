/-
  Proofs/Go/PlusBuild: the two ways to write build constraints.

  A `// +build` line is a row of options, and an option is a row of terms.  A header that holds
  some of these lines decides as one that holds the `//go:build` line with the same expression,
  all lines joined by `&&`, the options of a line by `||` and the terms of an option by `&&`.
  In a header with a `//go:build` line they have no say.
-/
import StructCopy.Proofs.Go.BuildLine
import StructCopy.Proofs.Go.HeaderEnd

set_option autoImplicit false

namespace StructCopy.Go

/-! ## Rows -/

/-- A list that is not empty. -/
structure Row (α : Type) where
  first : α
  more : List α

namespace Row

variable {α : Type}

def toList (r : Row α) : List α :=
  r.first :: r.more

/-- The expressions of a row, joined. -/
def joined (join : Constraint → Constraint → Constraint) (f : α → Constraint) (r : Row α) :
    Constraint :=
  joinAll r.first r.more
where
  joinAll (a : α) : List α → Constraint
    | [] => f a
    | b :: more => join (f a) (joinAll b more)

theorem holds_joined_and (f : α → Constraint) (r : Row α) (value : String → Bool) :
    (r.joined .and f).holds value = r.toList.all fun a => (f a).holds value := by
  have hall : ∀ first more, (joined.joinAll .and f first more).holds value =
      (first :: more).all fun a => (f a).holds value := by
    intro first more
    induction more generalizing first with
    | nil => exact (Bool.and_true _).symm
    | cons next more ih =>
      rw [joined.joinAll, Constraint.holds, ih]
      rfl
  exact hall r.first r.more

theorem holds_joined_or (f : α → Constraint) (r : Row α) (value : String → Bool) :
    (r.joined .or f).holds value = r.toList.any fun a => (f a).holds value := by
  have hany : ∀ first more, (joined.joinAll .or f first more).holds value =
      (first :: more).any fun a => (f a).holds value := by
    intro first more
    induction more generalizing first with
    | nil => exact (Bool.or_false _).symm
    | cons next more ih =>
      rw [joined.joinAll, Constraint.holds, ih]
      rfl
  exact hany r.first r.more

end Row

/-! ## Terms, options and lines -/

instance (p : Constraint.Part) : Decidable p.Spellable :=
  match p with
  | .tag name =>
    decidable_of_iff (name.toList ≠ [] ∧ name.toList.all Constraint.isTagChar = true)
      (and_congr_right fun _ => List.all_eq_true)
  | .not | .and | .or | .left | .right => .isTrue trivial

/-- A tag, or `!` and a tag. -/
structure PlusTerm where
  negated : Bool
  tag : String
  isTag : (Constraint.Part.tag tag).Spellable

/-- Terms with commas between them. -/
abbrev PlusOption : Type :=
  Row PlusTerm

/-- Options with white space between them. -/
abbrev PlusLine : Type :=
  Row PlusOption

namespace PlusTerm

def text (t : PlusTerm) : List Char :=
  if t.negated then '!' :: t.tag.toList else t.tag.toList

def constraint (t : PlusTerm) : Constraint :=
  if t.negated then .not (.tag t.tag) else .tag t.tag

theorem isTagChar_or {t : PlusTerm} {c : Char} (hc : c ∈ t.text) :
    c = '!' ∨ Constraint.isTagChar c = true := by
  unfold text at hc
  split at hc
  · exact (List.mem_cons.1 hc).imp_right (t.isTag.2 c)
  · exact .inr (t.isTag.2 c hc)

theorem text_ne_nil (t : PlusTerm) : t.text ≠ [] := by
  unfold text
  split
  · exact List.cons_ne_nil _ _
  · exact t.isTag.1

theorem termHolds_text (t : PlusTerm) (value : String → Bool) :
    termHolds value t.text = t.constraint.holds value := by
  unfold text constraint
  split
  · rw [termHolds, String.ofList_toList]
    rfl
  · obtain ⟨c, name, hname⟩ := List.exists_cons_of_ne_nil t.isTag.1
    have hmark : c ≠ '!' := by
      rintro rfl
      have htag := t.isTag.2 '!' (hname ▸ List.mem_cons_self)
      exact absurd htag (by decide)
    have hterm : termHolds value (c :: name) = value (String.ofList (c :: name)) := by
      rw [termHolds]
      rintro rest ⟨⟩
      exact hmark rfl
    rw [hname, hterm, ← hname, String.ofList_toList]
    rfl

end PlusTerm

namespace PlusOption

def text (o : PlusOption) : List Char :=
  [','].intercalate (o.toList.map PlusTerm.text)

def constraint (o : PlusOption) : Constraint :=
  o.joined .and PlusTerm.constraint

theorem all_text (o : PlusOption) (value : String → Bool) :
    (Text.splitAt ',' o.text).all (termHolds value) = o.constraint.holds value := by
  have hparts : ∀ part ∈ o.toList.map PlusTerm.text, ',' ∉ part := by
    intro part hpart hmem
    obtain ⟨t, -, rfl⟩ := List.mem_map.1 hpart
    rcases t.isTagChar_or hmem with h | h
    · exact absurd h (by decide)
    · exact absurd h (by decide)
  rw [text, Text.splitAt_intercalate (by simp [Row.toList]) hparts, constraint,
    Row.holds_joined_and, List.all_map]
  exact List.all_congr rfl fun t => t.termHolds_text value

theorem text_ne_nil (o : PlusOption) : o.text ≠ [] := by
  have hfirst := o.first.text_ne_nil
  unfold text Row.toList
  cases o.more with
  | nil => simpa [List.intercalate_singleton] using hfirst
  | cons next more => simp [List.intercalate_cons_cons, hfirst]

theorem isBlank_of_mem_text {o : PlusOption} {c : Char} (hc : c ∈ o.text) :
    Text.isBlank c = false := by
  rw [Bool.eq_false_iff]
  intro hblank
  have htag := Constraint.isTagChar_of_isBlank hblank
  have hmark : c ≠ ',' ∧ c ≠ '!' := by
    constructor <;> rintro rfl <;> exact absurd hblank (by decide)
  rcases Text.mem_of_mem_intercalate hc with h | ⟨part, hpart, hmem⟩
  · exact hmark.1 h
  · obtain ⟨t, -, rfl⟩ := List.mem_map.1 hpart
    rcases t.isTagChar_or hmem with h | h
    · exact hmark.2 h
    · rw [htag] at h
      cases h

end PlusOption

namespace PlusLine

def constraint (l : PlusLine) : Constraint :=
  l.joined .or PlusOption.constraint

/-- The options of a line, with white space around them. -/
def Spelled (l : PlusLine) (options : List Char) : Prop :=
  Text.Spaced (l.toList.map PlusOption.text) options

/-- One space before each option. -/
def text (l : PlusLine) : List Char :=
  ' ' :: [' '].intercalate (l.toList.map PlusOption.text)

theorem spelled_text (l : PlusLine) : l.Spelled l.text := by
  refine .blank (by decide) (Text.spaced_intercalate fun w hw => ?_)
  obtain ⟨o, -, rfl⟩ := List.mem_map.1 hw
  exact ⟨o.text_ne_nil, fun _ => PlusOption.isBlank_of_mem_text⟩

theorem Spelled.optionsHold_eq {l : PlusLine} {options : List Char} (h : l.Spelled options)
    (value : String → Bool) : optionsHold value options = l.constraint.holds value := by
  unfold optionsHold constraint
  rw [h.words_eq, Row.holds_joined_or, List.any_map]
  exact List.any_congr rfl fun o => o.all_text value

/-- The text of a line comment that is a `// +build` line. -/
def WrittenAs (l : PlusLine) (comment : List Char) : Prop :=
  ∃ gap options, comment = gap ++ ("+build".toList ++ options) ∧
    (∀ c ∈ gap, Text.isBlank c = true) ∧ (∀ c ∈ options.head?, Text.isBlank c = true) ∧
    l.Spelled options

end PlusLine

theorem PlusLine.writtenAs_text (l : PlusLine) :
    l.WrittenAs (' ' :: ("+build".toList ++ l.text)) := by
  have hspace : Text.isBlank ' ' = true := by decide
  exact ⟨[' '], l.text, rfl, by simpa using hspace, by rintro c ⟨⟩; exact hspace, l.spelled_text⟩

/-- The expression of some lines. -/
def constraintOf (lines : Row PlusLine) : Constraint :=
  lines.joined .and PlusLine.constraint

/-! ## Headers that hold constraints -/

/-- The text of a line comment that is a `//go:build` line with the expression. -/
def IsBuildLine (c : Constraint) (comment : List Char) : Prop :=
  ∃ expr, comment = "go:build".toList ++ expr ∧ (∀ d ∈ expr.head?, Text.isBlank d = true) ∧
    c.WrittenAs expr

/-- The text of a line comment that begins as a constraint. -/
def Constrains (comment : List Char) : Prop :=
  ∃ gap rest, (∀ c ∈ gap, Text.isBlank c = true) ∧ (∀ c ∈ rest.head?, Text.isBlank c = true) ∧
    (comment = "go:build".toList ++ rest ∨ comment = gap ++ ("+build".toList ++ rest))

/-- Lines of a header that constrain nothing: a blank line, a line comment, and the lines of a block
comment. -/
inductive IsRemark : List (List Char) → Prop where
  | blank {raw : List Char} (hraw : ∀ c ∈ raw, Text.isBlank c = true) : IsRemark [raw]
  | lineComment {indent comment : List Char} (hindent : ∀ c ∈ indent, Text.isBlank c = true)
      (hcomment : ¬Constrains comment) : IsRemark [indent ++ ("//".toList ++ comment)]
  | blockComment {indent inside back : List Char} (hindent : ∀ c ∈ indent, Text.isBlank c = true)
      (hback : ∀ c ∈ back, Text.isBlank c = true) (hbreak : '\n' ∉ indent ++ back)
      (hmark : ¬ ['*', '/'] <:+: inside ++ ['*']) :
      IsRemark (Text.splitAt '\n' (indent ++ '/' :: '*' :: (inside ++ '*' :: '/' :: back)))

/-- Lines of a header that hold some constraints, each in a line comment as `Spells` says. -/
inductive HeaderOf {α : Type} (Spells : α → List Char → Prop) : List α → List (List Char) → Prop
  | nil : HeaderOf Spells [] []
  | remark {found : List α} {group raws : List (List Char)} (hgroup : IsRemark group)
      (h : HeaderOf Spells found raws) : HeaderOf Spells found (group ++ raws)
  | constraint {a : α} {found : List α} {indent comment : List Char} {raws : List (List Char)}
      (hindent : ∀ c ∈ indent, Text.isBlank c = true) (ha : Spells a comment)
      (h : HeaderOf Spells found raws) :
      HeaderOf Spells (a :: found) ((indent ++ ("//".toList ++ comment)) :: raws)

/-- The lines behind a header: none, or first one that is neither blank nor begins a comment. -/
def EndsHeader (rest : List (List Char)) : Prop :=
  ∀ raw ∈ rest.head?, ∃ indent c text, raw = indent ++ c :: text ∧
    (∀ d ∈ indent, Text.isBlank d = true) ∧ Text.isBlank c = false ∧
      ¬ "/*".toList <+: c :: text ∧ ¬ "//".toList <+: c :: text

/-- The header of the source holds these constraints and no other ones. -/
def HasHeader {α : Type} (Spells : α → List Char → Prop) (found : List α) (source : String) :
    Prop :=
  ∃ raws rest, Text.splitAt '\n' (withoutMark source.toList) = raws ++ rest ∧
    HeaderOf Spells found raws ∧ EndsHeader rest

/-! ## Reading them -/

theorem blank_head?_append {s blanks : List Char} (hs : ∀ c ∈ s.head?, Text.isBlank c = true)
    (hblanks : ∀ c ∈ blanks, Text.isBlank c = true) :
    ∀ c ∈ (s ++ blanks).head?, Text.isBlank c = true := by
  cases s with
  | nil => exact fun c hc => hblanks c (List.mem_of_mem_head? hc)
  | cons d s => exact hs

theorem blank_head?_trimEnd {s : List Char} (hs : ∀ c ∈ s.head?, Text.isBlank c = true) :
    ∀ c ∈ (Text.trimEnd s).head?, Text.isBlank c = true := by
  cases s with
  | nil => exact hs
  | cons d s => exact fun c hc => Text.eq_of_mem_head?_trimEnd hc ▸ hs d rfl

/-- A comment that does not begin as a constraint is none. -/
theorem directiveOf?_of_not {comment : List Char} (h : ¬Constrains comment) (line : Nat) :
    directiveOf? line (Text.trimEnd comment) = none := by
  obtain ⟨back, hback, hblanks⟩ := Text.exists_append_trimEnd comment
  unfold directiveOf?
  split
  · next expr hexpr =>
    obtain ⟨hsplit, hfront⟩ := afterKeyword?_eq_some_iff.1 hexpr
    refine absurd ⟨[], expr ++ back, nofun, blank_head?_append hfront hblanks, .inl ?_⟩ h
    rw [hback, hsplit, List.append_assoc]
  · rw [Option.map_eq_none_iff, Option.eq_none_iff_forall_ne_some]
    intro options hoptions
    obtain ⟨hsplit, hfront⟩ := afterKeyword?_eq_some_iff.1 hoptions
    refine h ⟨(Text.trimEnd comment).takeWhile Text.isBlank, options ++ back,
      fun c hc => List.mem_takeWhile_imp hc, blank_head?_append hfront hblanks, .inr ?_⟩
    rw [← List.append_assoc "+build".toList, ← hsplit, ← List.append_assoc, Text.trimStart,
      List.takeWhile_append_dropWhile]
    exact hback

/-- The directive holds a text of the expression. -/
def Constraint.IsMeantBy (c : Constraint) (d : Directive) : Prop :=
  ∃ line expr, d = .goBuild line expr ∧ c.WrittenAs expr

theorem IsBuildLine.exists_directive {c : Constraint} {comment : List Char}
    (h : IsBuildLine c comment) (line : Nat) :
    ∃ d, directiveOf? line (Text.trimEnd comment) = some d ∧ c.IsMeantBy d := by
  obtain ⟨expr, rfl, hfront, ps, hspells, hwritten⟩ := h
  obtain ⟨back, hback, hblanks⟩ := Text.exists_append_trimEnd expr
  refine ⟨.goBuild line (Text.trimEnd expr), ?_, line, _, rfl, ps,
    .of_append_blanks hblanks (hback ▸ hspells), hwritten⟩
  rw [Text.trimEnd_append (by decide), directiveOf?,
    afterKeyword?_eq_some_iff.2 ⟨rfl, blank_head?_trimEnd hfront⟩]

theorem directiveOf?_plusBuild {gap options : List Char}
    (hgap : ∀ c ∈ gap, Text.isBlank c = true) (hfront : ∀ c ∈ options.head?, Text.isBlank c = true)
    (line : Nat) : directiveOf? line (Text.trimEnd (gap ++ ("+build".toList ++ options))) =
      some (.plusBuild (Text.trimEnd options)) := by
  have htrim : Text.trimEnd (gap ++ ("+build".toList ++ options)) =
      gap ++ ("+build".toList ++ Text.trimEnd options) := by
    have hkeyword : Text.trimEnd (gap ++ "+build".toList) = gap ++ "+build".toList := by
      have hlast : Text.isBlank 'd' = false := by decide
      have hreverse : (gap ++ "+build".toList).reverse = 'd' :: ("liub+".toList ++ gap.reverse) :=
        List.reverse_append
      rw [Text.trimEnd, Text.dropEndWhile, hreverse, List.dropWhile_cons_of_neg (by simp [hlast]),
        ← hreverse, List.reverse_reverse]
    rw [← List.append_assoc, Text.trimEnd_append hkeyword, List.append_assoc]
  have hnone : afterKeyword? "go:build" (gap ++ ("+build".toList ++ Text.trimEnd options)) =
      none := by
    rw [Option.eq_none_iff_forall_ne_some]
    intro expr hexpr
    have hsplit := (afterKeyword?_eq_some_iff.1 hexpr).1
    cases gap with
    | nil => exact absurd (List.cons.inj hsplit).1 (by decide)
    | cons c gap =>
      have hc : c = 'g' := (List.cons.inj hsplit).1
      exact absurd (hgap c List.mem_cons_self) (by rw [hc]; decide)
  have hstart : Text.trimStart (gap ++ ("+build".toList ++ Text.trimEnd options)) =
      "+build".toList ++ Text.trimEnd options := by
    rw [Text.trimStart, List.dropWhile_append_of_pos hgap]
    rfl
  rw [htrim, directiveOf?, hnone]
  dsimp only
  rw [hstart, afterKeyword?_eq_some_iff.2 ⟨rfl, blank_head?_trimEnd hfront⟩]
  rfl

/-- The directive holds options with the value of the line. -/
def PlusLine.IsMeantBy (l : PlusLine) (d : Directive) : Prop :=
  ∃ options, d = .plusBuild options ∧ ∀ value, optionsHold value options = l.constraint.holds value

theorem PlusLine.WrittenAs.exists_directive {l : PlusLine} {comment : List Char}
    (h : l.WrittenAs comment) (line : Nat) :
    ∃ d, directiveOf? line (Text.trimEnd comment) = some d ∧ l.IsMeantBy d := by
  obtain ⟨gap, options, rfl, hgap, hfront, hspelled⟩ := h
  obtain ⟨back, hback, hblanks⟩ := Text.exists_append_trimEnd options
  refine ⟨_, directiveOf?_plusBuild hgap hfront line, _, rfl, fun value => ?_⟩
  rw [← hspelled.optionsHold_eq value, optionsHold, optionsHold]
  conv_rhs => rw [hback, Text.words_append_of_blanks hblanks]

theorem EndsHeader.directives_eq {rest : List (List Char)} (h : EndsHeader rest) (line : Nat) :
    directives line false rest = [] := by
  cases rest with
  | nil => rfl
  | cons raw rest =>
    obtain ⟨indent, c, text, rfl, hindent, hc, hblock, hline⟩ := h raw rfl
    exact directives_of_readLine (readLine_other hindent hc hblock hline) line rest

/-- A block comment leaves nothing open behind it, on whatever line it ends. -/
theorem exists_lines_remark {indent inside back : List Char}
    (hindent : ∀ c ∈ indent, Text.isBlank c = true) (hback : ∀ c ∈ back, Text.isBlank c = true)
    (hbreak : '\n' ∉ indent ++ back) (hmark : ¬ ['*', '/'] <:+: inside ++ ['*']) :
    ∃ upper last open', Text.splitAt '\n' (indent ++ '/' :: '*' :: (inside ++ '*' :: '/' :: back)) =
        upper ++ [last] ∧ readLines false upper = some open' ∧ readLine open' last = some false ∧
      (∀ line, directives line false upper = []) ∧
      ∀ line, lineDirective? line open' last = none := by
  rw [List.mem_append, not_or] at hbreak
  by_cases hinside : '\n' ∈ inside
  · obtain ⟨upper, last, hsplit, hread, hstate, hnone⟩ :=
      exists_lines_blockComment hindent hbreak.1 hinside hmark
    have htext : indent ++ '/' :: '*' :: (inside ++ '*' :: '/' :: back) =
        indent ++ '/' :: '*' :: (inside ++ ['*', '/']) ++ back := by simp
    refine ⟨upper, last ++ back, true, ?_, hread, (hstate.append (.blank hback)).readLine_eq,
      hnone, fun _ => rfl⟩
    rw [htext]
    exact Text.splitWhere_append_plain hsplit fun c hc =>
      beq_eq_false_iff_ne.2 fun heq => hbreak.2 (heq ▸ hc)
  · have hclosed : "*/".toList <:+: inside ++ '*' :: '/' :: back :=
      ⟨inside, back, by simp⟩
    refine ⟨[], _, false, Text.splitAt_of_not_mem ?_, rfl,
      (LineState.block hindent hclosed).readLine_eq, fun _ => rfl,
      fun line => lineDirective?_blockComment hindent line _⟩
    simpa [hinside] using hbreak

theorem IsRemark.reads {group : List (List Char)} (h : IsRemark group) :
    readLines false group = some false ∧ ∀ line, directives line false group = [] := by
  cases h with
  | blank hraw =>
    refine ⟨?_, fun line => ?_⟩
    · rw [readLines, List.foldlM_cons, readLine_blank hraw]
      rfl
    · rw [directives_cons, lineDirective?_blank hraw, readLine_blank hraw]
      rfl
  | lineComment hindent hcomment =>
    refine ⟨?_, fun line => ?_⟩
    · rw [readLines, List.foldlM_cons, readLine_lineComment hindent]
      rfl
    · rw [directives_cons, lineDirective?_lineComment hindent, readLine_lineComment hindent,
        directiveOf?_of_not hcomment]
      rfl
  | blockComment hindent hback hbreak hmark =>
    obtain ⟨upper, last, open', hsplit, hread, hlast, hnone, hlastNone⟩ :=
      exists_lines_remark hindent hback hbreak hmark
    rw [hsplit]
    refine ⟨?_, fun line => ?_⟩
    · rw [readLines_append, hread, Option.bind_some, readLines, List.foldlM_cons, hlast]
      rfl
    · rw [directives_append, hnone, hread, List.nil_append]
      dsimp only
      rw [directives_cons, hlastNone, hlast]
      rfl

/-- The directives of a header are those of the constraints it holds. -/
theorem HeaderOf.reads {α : Type} {Spells : α → List Char → Prop} {Means : α → Directive → Prop}
    (hmeans : ∀ a comment, Spells a comment →
      ∀ line, ∃ d, directiveOf? line (Text.trimEnd comment) = some d ∧ Means a d)
    {found : List α} {raws : List (List Char)} (h : HeaderOf Spells found raws) :
    readLines false raws = some false ∧
      ∀ line, List.Forall₂ Means found (directives line false raws) := by
  induction h with
  | nil => exact ⟨rfl, fun _ => .nil⟩
  | remark hgroup _ ih =>
    obtain ⟨hread, hnone⟩ := hgroup.reads
    refine ⟨?_, fun line => ?_⟩
    · rw [readLines_append, hread]
      exact ih.1
    · rw [directives_append, hread, hnone]
      exact ih.2 _
  | constraint hindent ha _ ih =>
    refine ⟨?_, fun line => ?_⟩
    · rw [readLines, List.foldlM_cons, readLine_lineComment hindent]
      exact ih.1
    · obtain ⟨d, hd, hmean⟩ := hmeans _ _ ha line
      rw [directives_cons, lineDirective?_lineComment hindent, readLine_lineComment hindent, hd]
      exact .cons hmean (ih.2 _)

theorem HasHeader.directives {α : Type} {Spells : α → List Char → Prop}
    {Means : α → Directive → Prop}
    (hmeans : ∀ a comment, Spells a comment →
      ∀ line, ∃ d, directiveOf? line (Text.trimEnd comment) = some d ∧ Means a d)
    {found : List α} {source : String} (h : HasHeader Spells found source) :
    List.Forall₂ Means found (headerDirectives source) := by
  obtain ⟨raws, rest, hsplit, hheader, hends⟩ := h
  obtain ⟨hread, hall⟩ := hheader.reads hmeans
  rw [headerDirectives_eq, hsplit, directives_append, hread]
  dsimp only
  rw [hends.directives_eq, List.append_nil]
  exact hall 1

/-! ## Decisions -/

theorem admits_plusBuild {lines : List PlusLine} {ds : List Directive}
    (h : List.Forall₂ PlusLine.IsMeantBy lines ds) (value : String → Bool) :
    admits value ds = .ok (lines.all fun l => l.constraint.holds value) := by
  have hnone : firstGoBuild? ds = none := by
    induction h with
    | nil => rfl
    | cons hd _ ih =>
      obtain ⟨options, rfl, -⟩ := hd
      exact ih
  have hall : (plusOptions ds).all (optionsHold value) =
      lines.all fun l => l.constraint.holds value := by
    clear hnone
    induction h with
    | nil => rfl
    | cons hd _ ih =>
      obtain ⟨options, rfl, hoptions⟩ := hd
      rw [List.all_cons, ← hoptions value, ← ih]
      rfl
  unfold admits
  rw [hnone, hall]

/-- An expression that can be read decides. -/
theorem Platform.includes_of_writtenAs (p : Platform) {fileName : String}
    (hname : Unsuffixed fileName) {source : String} {line : Nat} {expr : List Char}
    (hfirst : firstGoBuild? (headerDirectives source) = some (line, expr)) {c : Constraint}
    (hc : c.WrittenAs expr) : p.includes fileName source = .ok (c.holds p.satisfies) := by
  obtain ⟨d, hagrees, hd⟩ := hc.ofText
  rw [p.includes_eq hname hfirst, hd, ← hagrees p.satisfies]

/-- A header with `// +build` lines decides by their expression. -/
theorem Platform.includes_plusBuild (p : Platform) {fileName : String}
    (hname : Unsuffixed fileName) {lines : Row PlusLine} {source : String}
    (h : HasHeader PlusLine.WrittenAs lines.toList source) :
    p.includes fileName source = .ok ((constraintOf lines).holds p.satisfies) := by
  have hds := h.directives fun _ _ hl => hl.exists_directive
  rw [includes, if_pos (p.allowsName_of_unsuffixed hname), admits_plusBuild hds, constraintOf,
    Row.holds_joined_and]

theorem HasHeader.exists_firstGoBuild? {c : Constraint} {source : String}
    (h : HasHeader IsBuildLine [c] source) :
    ∃ line expr, firstGoBuild? (headerDirectives source) = some (line, expr) ∧
      c.WrittenAs expr := by
  have hds := h.directives fun _ _ hc => hc.exists_directive
  obtain ⟨d, more, ⟨line, expr, rfl, hexpr⟩, -, hds⟩ := List.forall₂_cons_left_iff.1 hds
  refine ⟨line, expr, ?_, hexpr⟩
  rw [hds]
  rfl

/-- A header with one `//go:build` line decides by its expression. -/
theorem Platform.includes_goBuild (p : Platform) {fileName : String}
    (hname : Unsuffixed fileName) {c : Constraint} {source : String}
    (h : HasHeader IsBuildLine [c] source) :
    p.includes fileName source = .ok (c.holds p.satisfies) := by
  obtain ⟨line, expr, hfirst, hexpr⟩ := h.exists_firstGoBuild?
  exact p.includes_of_writtenAs hname hfirst hexpr

/-! ## Lines that are put in -/

/-- A `// +build` line, whatever its options. -/
def IsPlusLine (raw : List Char) : Prop :=
  ∃ indent gap options, raw = indent ++ ("//".toList ++ (gap ++ ("+build".toList ++ options))) ∧
    (∀ c ∈ indent, Text.isBlank c = true) ∧ (∀ c ∈ gap, Text.isBlank c = true) ∧
      ∀ c ∈ options.head?, Text.isBlank c = true

theorem readLines_plusLines {added : List (List Char)} (h : ∀ raw ∈ added, IsPlusLine raw) :
    readLines false added = some false ∧
      ∀ line first expr, .goBuild first expr ∉ directives line false added := by
  induction added with
  | nil => exact ⟨rfl, fun _ _ _ => List.not_mem_nil⟩
  | cons raw added ih =>
    obtain ⟨hraw, hadded⟩ := List.forall_mem_cons.1 h
    obtain ⟨hread, hnone⟩ := ih hadded
    obtain ⟨indent, gap, options, rfl, hindent, hgap, hfront⟩ := hraw
    refine ⟨?_, fun line first expr hmem => ?_⟩
    · rw [readLines, List.foldlM_cons, readLine_lineComment hindent]
      exact hread
    · rw [directives_cons, readLine_lineComment hindent, lineDirective?_lineComment hindent,
        directiveOf?_plusBuild hgap hfront] at hmem
      rcases List.mem_cons.1 hmem with heq | hmem
      · cases heq
      · exact hnone _ _ _ hmem

/-- The same directive, `n` lines further down. -/
def Directive.below (n : Nat) : Directive → Directive
  | .goBuild line expr => .goBuild (line + n) expr
  | .plusBuild options => .plusBuild options

theorem directiveOf?_below (n line : Nat) (comment : List Char) :
    directiveOf? (line + n) comment = (directiveOf? line comment).map (Directive.below n) := by
  unfold directiveOf?
  split
  · rfl
  · rw [Option.map_map]
    rfl

theorem directives_below (n line : Nat) (inside : Bool) (raws : List (List Char)) :
    directives (line + n) inside raws = (directives line inside raws).map (Directive.below n) := by
  induction raws generalizing line inside with
  | nil => rfl
  | cons raw raws ih =>
    have hline : lineDirective? (line + n) inside raw =
        (lineDirective? line inside raw).map (Directive.below n) := by
      unfold lineDirective?
      split
      · rfl
      · cases Text.after? "//".toList (Text.trim raw) with
        | none => rfl
        | some comment => exact directiveOf?_below n line comment
    rw [directives_cons, directives_cons, List.map_append, hline, Nat.add_right_comm]
    refine congrArg₂ (· ++ ·) Option.toList_map ?_
    cases readLine inside raw with
    | none => rfl
    | some inside' => exact ih (line + 1) inside'

theorem firstGoBuild?_map_below (n : Nat) (ds : List Directive) :
    firstGoBuild? (ds.map (Directive.below n)) =
      (firstGoBuild? ds).map fun found => (found.1 + n, found.2) := by
  induction ds with
  | nil => rfl
  | cons d ds ih =>
    cases d with
    | goBuild line expr => rfl
    | plusBuild options => exact ih

theorem exists_firstGoBuild?_insert {upper added lower : List Directive} {n line : Nat}
    {expr : List Char} (hadded : ∀ first text, .goBuild first text ∉ added)
    (h : firstGoBuild? (upper ++ lower) = some (line, expr)) :
    ∃ line', (line' = line ∨ line' = line + n) ∧
      firstGoBuild? (upper ++ (added ++ lower.map (Directive.below n))) = some (line', expr) := by
  by_cases hupper : ∃ first text, .goBuild first text ∈ upper
  · obtain ⟨first, text, hmem⟩ := hupper
    obtain ⟨found, hfound⟩ := exists_firstGoBuild? hmem
    rw [hfound] at h
    exact ⟨line, .inl rfl, (hfound _).trans h⟩
  · have hnone : ∀ first text, .goBuild first text ∉ upper :=
      fun first text hmem => hupper ⟨first, text, hmem⟩
    rw [firstGoBuild?_append_of_none hnone] at h
    refine ⟨line + n, .inr rfl, ?_⟩
    rw [firstGoBuild?_append_of_none hnone, firstGoBuild?_append_of_none hadded,
      firstGoBuild?_map_below, h]
    rfl

/-- With `// +build` lines put in anywhere, the same `//go:build` line decides. -/
theorem exists_firstGoBuild?_plusLines {upper added lower : List (List Char)} {line : Nat}
    {expr : List Char} (hadded : ∀ raw ∈ added, IsPlusLine raw)
    (hopen : readLines false upper = some true → ∀ raw ∈ added, ¬ "*/".toList <:+: raw)
    (h : firstGoBuild? (directives 1 false (upper ++ lower)) = some (line, expr)) :
    ∃ line', (line' = line ∨ line' = line + added.length) ∧
      firstGoBuild? (directives 1 false (upper ++ (added ++ lower))) = some (line', expr) := by
  rw [directives_append] at h ⊢
  cases hread : readLines false upper with
  | none =>
    rw [hread] at h
    exact ⟨line, .inl rfl, h⟩
  | some inside =>
    rw [hread] at h
    have hpassed : readLines inside added = some inside ∧
        ∀ line first expr, .goBuild first expr ∉ directives line inside added := by
      cases inside with
      | false => exact readLines_plusLines hadded
      | true =>
        refine ⟨readLines_inside (hopen hread), fun line first expr => ?_⟩
        rw [directives_inside (hopen hread)]
        exact List.not_mem_nil
    dsimp only at h ⊢
    rw [directives_append, hpassed.1]
    dsimp only
    rw [directives_below added.length]
    exact exists_firstGoBuild?_insert (hpassed.2 _) h

/-- For a file whose name is bound to no platform, `// +build` lines decide as the `//go:build` line
with their expression does.  Put in anywhere beside a `//go:build` line that can be read, they
change nothing; if it cannot be read, the error moves with the line. -/
theorem Platform.includes_plusBuild_eq (p : Platform) {fileName : String}
    (hname : Unsuffixed fileName) :
    (∀ (lines : Row PlusLine) (source source' : String),
      HasHeader PlusLine.WrittenAs lines.toList source →
      HasHeader IsBuildLine [constraintOf lines] source' →
        p.includes fileName source = .ok ((constraintOf lines).holds p.satisfies) ∧
          p.includes fileName source' = p.includes fileName source) ∧
    ∀ (upper added lower : List (List Char)) (source source' : String),
      Text.splitAt '\n' (withoutMark source.toList) = upper ++ lower →
      Text.splitAt '\n' (withoutMark source'.toList) = upper ++ (added ++ lower) →
      (∀ raw ∈ added, IsPlusLine raw) →
      (readLines false upper = some true → ∀ raw ∈ added, ¬ "*/".toList <:+: raw) →
      ∀ line expr, firstGoBuild? (headerDirectives source) = some (line, expr) →
        (∀ c : Constraint, c.WrittenAs expr →
          p.includes fileName source' = p.includes fileName source) ∧
        ∀ e, p.includes fileName source = .error e →
          ∃ line', (line' = e.line ∨ line' = e.line + added.length) ∧
            p.includes fileName source' = .error { e with line := line' } := by
  refine ⟨fun lines source source' hplus hgo => ?_, ?_⟩
  · rw [p.includes_plusBuild hname hplus, p.includes_goBuild hname hgo]
    exact ⟨rfl, rfl⟩
  · intro upper added lower source source' hsource hsource' hadded hopen line expr hfirst
    have hinserted := hfirst
    rw [headerDirectives_eq, hsource] at hinserted
    obtain ⟨line', hline, hfirst'⟩ := exists_firstGoBuild?_plusLines hadded hopen hinserted
    rw [← hsource', ← headerDirectives_eq] at hfirst'
    refine ⟨fun c hc => ?_, fun e he => ?_⟩
    · rw [p.includes_of_writtenAs hname hfirst hc, p.includes_of_writtenAs hname hfirst' hc]
    · rw [p.includes_eq hname hfirst] at he
      rw [p.includes_eq hname hfirst']
      cases hread : Constraint.ofText expr with
      | ok c =>
        rw [hread] at he
        cases he
      | error fault =>
        rw [hread] at he
        cases he
        exact ⟨line', hline, rfl⟩

/-- Two lines, the first with a negated term in an option of two and with a second option. -/
def linuxLines : Row PlusLine :=
  ⟨⟨⟨⟨false, "linux", by decide⟩, [⟨true, "cgo", by decide⟩]⟩,
      [⟨⟨false, "windows", by decide⟩, []⟩]⟩,
    [⟨⟨⟨false, "amd64", by decide⟩, []⟩, []⟩]⟩

/-- Both ways to write these lines, and a line that excludes the platform below the second one. -/
theorem Platform.includes_plusBuild_eq_linuxLines :
    Unsuffixed "x.go" ∧
      HasHeader PlusLine.WrittenAs linuxLines.toList
        "// +build linux,!cgo windows\n// +build amd64\n\npackage p\n" ∧
      HasHeader IsBuildLine [constraintOf linuxLines]
        "//go:build (linux && !cgo || windows) && amd64\n\npackage p\n" ∧
      (Platform.mk "linux" "amd64" false).includes "x.go"
        "//go:build (linux && !cgo || windows) && amd64\n\npackage p\n" = .ok true ∧
      (Platform.mk "linux" "amd64" false).includes "x.go"
        "//go:build (linux && !cgo || windows) && amd64\n// +build windows\n\npackage p\n" =
          .ok true := by
  have hname : Unsuffixed "x.go" := unsuffixed_of_not_mem (by decide)
  have hspace : Text.isBlank ' ' = true := by decide
  have hempty : ∀ c ∈ ([] : List Char), Text.isBlank c = true := List.forall_mem_nil _
  have hblank : IsRemark [[]] := .blank hempty
  have hends : EndsHeader ["package p".toList, []] := by
    rintro raw ⟨⟩
    exact ⟨[], 'p', "ackage p".toList, rfl, hempty, by decide, by decide, by decide⟩
  have hplus : HasHeader PlusLine.WrittenAs linuxLines.toList
      "// +build linux,!cgo windows\n// +build amd64\n\npackage p\n" := by
    refine ⟨_, _, ?_, .constraint hempty linuxLines.first.writtenAs_text
      (.constraint hempty (PlusLine.writtenAs_text _) (.remark hblank .nil)), hends⟩
    decide
  have hgo : HasHeader IsBuildLine [constraintOf linuxLines]
      "//go:build (linux && !cgo || windows) && amd64\n\npackage p\n" := by
    have hparts : Constraint.parts " (linux && !cgo || windows) && amd64".toList =
        .ok [.left, .tag "linux", .and, .not, .tag "cgo", .or, .tag "windows", .right, .and,
          .tag "amd64"] := by cbv
    have hwritten : Constraint.Written .disjunction (constraintOf linuxLines) _ :=
      .conjunction (.and
        (.operand (.paren (.or
          (.conjunction (.and (.operand (.tag "linux")) (.operand (.not (.tag "cgo")))))
          (.conjunction (.operand (.tag "windows"))))))
        (.operand (.tag "amd64")))
    have hline : IsBuildLine (constraintOf linuxLines)
        ("go:build".toList ++ " (linux && !cgo || windows) && amd64".toList) :=
      ⟨_, rfl, by rintro c ⟨⟩; exact hspace, _, Constraint.spells_of_parts hparts, hwritten⟩
    refine ⟨_, _, ?_, .constraint hempty hline (.remark hblank .nil), hends⟩
    decide
  obtain ⟨line, expr, hfirst, hexpr⟩ := hgo.exists_firstGoBuild?
  obtain ⟨hagree, hinsert⟩ := (Platform.mk "linux" "amd64" false).includes_plusBuild_eq hname
  obtain ⟨hvalue, hsame⟩ := hagree _ _ _ hplus hgo
  have htrue : (Platform.mk "linux" "amd64" false).includes "x.go"
      "//go:build (linux && !cgo || windows) && amd64\n\npackage p\n" = .ok true := by
    rw [hsame, hvalue]
    decide
  have hadded : IsPlusLine "// +build windows".toList :=
    ⟨[], [' '], " windows".toList, rfl, hempty, by simpa using hspace,
      by rintro c ⟨⟩; exact hspace⟩
  have hinserted := (hinsert ["//go:build (linux && !cgo || windows) && amd64".toList]
    ["// +build windows".toList] [[], "package p".toList, []] _
    "//go:build (linux && !cgo || windows) && amd64\n// +build windows\n\npackage p\n"
    (by decide) (by decide) (by simpa using hadded) (fun hopen => absurd hopen (by decide))
    line expr hfirst).1 _ hexpr
  exact ⟨hname, hplus, hgo, htrue, hinserted.trans htrue⟩

end StructCopy.Go
