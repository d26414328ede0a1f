/-
  Proofs/Go/ConstraintGrammar: the grammar of build constraints, and its reader.

  `Written` says which parts form an expression: `!` binds closest and `||` least, and
  parentheses may stand around any expression.  `Spells` says which texts fall apart into
  these parts.  Both are free of any reading order.  The reader groups `a && b && c` to the
  right where the grammar leaves it open, so what it finds has the value of every tree that
  the text is written from, but need not be that tree.
-/
import Mathlib.Data.List.Chain
import StructCopy.Proofs.Go.Cutting
import StructCopy.Go.Constraint

set_option autoImplicit false

namespace StructCopy.Go.Constraint

/-! ## Grammar -/

/-- How tightly an expression binds. -/
inductive Level where
  | operand
  | conjunction
  | disjunction
  deriving DecidableEq, Repr

/-- The parts are a way to write the expression at the level. -/
inductive Written : Level → Constraint → List Part → Prop
  | tag (name : String) : Written .operand (.tag name) [.tag name]
  | not {c : Constraint} {ps : List Part} (h : Written .operand c ps) :
      Written .operand (.not c) (.not :: ps)
  | paren {c : Constraint} {ps : List Part} (h : Written .disjunction c ps) :
      Written .operand c (.left :: (ps ++ [.right]))
  | operand {c : Constraint} {ps : List Part} (h : Written .operand c ps) :
      Written .conjunction c ps
  | and {c d : Constraint} {ps qs : List Part} (hc : Written .conjunction c ps)
      (hd : Written .conjunction d qs) : Written .conjunction (.and c d) (ps ++ .and :: qs)
  | conjunction {c : Constraint} {ps : List Part} (h : Written .conjunction c ps) :
      Written .disjunction c ps
  | or {c d : Constraint} {ps qs : List Part} (hc : Written .disjunction c ps)
      (hd : Written .disjunction d qs) : Written .disjunction (.or c d) (ps ++ .or :: qs)

/-- Every expression can be written. -/
theorem exists_written (c : Constraint) : ∃ ps, Written .disjunction c ps := by
  induction c with
  | tag name => exact ⟨_, .conjunction (.operand (.tag name))⟩
  | not c ih =>
    obtain ⟨ps, hps⟩ := ih
    exact ⟨_, .conjunction (.operand (.not (.paren hps)))⟩
  | and c d ihc ihd =>
    obtain ⟨ps, hps⟩ := ihc
    obtain ⟨qs, hqs⟩ := ihd
    exact ⟨_, .conjunction (.and (.operand (.paren hps)) (.operand (.paren hqs)))⟩
  | or c d ihc ihd =>
    obtain ⟨ps, hps⟩ := ihc
    obtain ⟨qs, hqs⟩ := ihd
    exact ⟨_, .or hps hqs⟩

/-! ## Values -/

/-- Two expressions have the same value whatever their tags mean. -/
def Agrees (c d : Constraint) : Prop :=
  ∀ value, c.holds value = d.holds value

theorem Agrees.refl (c : Constraint) : c.Agrees c :=
  fun _ => rfl

theorem Agrees.trans {c d e : Constraint} (h : c.Agrees d) (h' : d.Agrees e) : c.Agrees e :=
  fun value => (h value).trans (h' value)

theorem Agrees.not {c d : Constraint} (h : c.Agrees d) : (Constraint.not c).Agrees (.not d) :=
  fun value => congrArg (! ·) (h value)

/-! ## Levels of the reader

`conjunction` and `disjunction` are one reader with two sets of values: it reads an
expression of the tighter level and, behind the mark, goes on at its own level. -/

/-- The mark and the operation that join expressions at a level, and the level below. -/
inductive Joined : Level → Level → Part → (Constraint → Constraint → Constraint) → Prop
  | and : Joined .conjunction .operand .and .and
  | or : Joined .disjunction .conjunction .or .or

/-- The parts do not go on with an expression of the level. -/
def Level.Ends : Level → List Part → Prop
  | .operand, _ => True
  | .conjunction, rest => rest.head? ≠ some .and
  | .disjunction, rest => rest.head? ≠ some .and ∧ rest.head? ≠ some .or

/-- The reader of a level. -/
def Level.read : Level → (ps : List Part) → Outcome ps
  | .operand, ps => Constraint.operand ps
  | .conjunction, ps => Constraint.conjunction ps
  | .disjunction, ps => Constraint.disjunction ps

/-- The reader of the level takes the expression off the front of the parts. -/
def Takes (level : Level) (ps : List Part) (c : Constraint) (rest : List Part) : Prop :=
  ∃ h, level.read ps = .ok (c, ⟨rest, h⟩)

theorem Takes.length_lt {level : Level} {ps rest : List Part} {c : Constraint}
    (h : Takes level ps c rest) : rest.length < ps.length :=
  h.1

theorem takes_operand_iff {ps rest : List Part} {c : Constraint} :
    Takes .operand ps c rest ↔
      (∃ name, ps = .tag name :: rest ∧ c = .tag name) ∨
      (∃ d more, ps = .not :: more ∧ Takes .operand more d rest ∧ c = .not d) ∨
      ∃ more, ps = .left :: more ∧ Takes .disjunction more c (.right :: rest) := by
  simp only [Takes, Level.read]
  constructor
  · rintro ⟨h, hread⟩
    rw [operand.eq_def] at hread
    split at hread
    · cases hread
    · cases hread
      exact .inl ⟨_, rfl, rfl⟩
    · obtain ⟨⟨d, rest', h'⟩, hd, hread⟩ := bind_eq_ok hread
      cases hread
      exact .inr (.inl ⟨_, _, rfl, ⟨_, hd⟩, rfl⟩)
    · obtain ⟨⟨d, rest', h'⟩, hd, hread⟩ := bind_eq_ok hread
      dsimp only at hread
      split at hread
      · cases hread
        exact .inr (.inr ⟨_, rfl, _, hd⟩)
      · cases hread
    · cases hread
  · rintro (⟨name, rfl, rfl⟩ | ⟨d, more, rfl, ⟨h, hd⟩, rfl⟩ | ⟨more, rfl, h, hd⟩)
    · exact ⟨Nat.lt_succ_self _, by rw [operand.eq_def]⟩
    · refine ⟨Nat.lt_succ_of_lt h, ?_⟩
      rw [operand.eq_def]
      dsimp only
      rw [hd]
      rfl
    · refine ⟨Nat.lt_succ_of_lt (Nat.lt_of_succ_lt h), ?_⟩
      rw [operand.eq_def]
      dsimp only
      rw [hd]
      rfl

section Joined

variable {level tighter : Level} {mark : Part} {join : Constraint → Constraint → Constraint}

theorem takes_joined_iff (hjoined : Joined level tighter mark join) {ps rest : List Part}
    {c : Constraint} :
    Takes level ps c rest ↔
      (Takes tighter ps c rest ∧ rest.head? ≠ some mark) ∨
      ∃ d e more, Takes tighter ps d (mark :: more) ∧ Takes level more e rest ∧ c = join d e := by
  cases hjoined <;> simp only [Takes, Level.read] <;> constructor
  -- the two readers differ in their names and marks only
  case and.mp | or.mp =>
    rintro ⟨h, hread⟩
    first
    | rw [conjunction.eq_def] at hread
    | rw [disjunction.eq_def] at hread
    obtain ⟨⟨d, rest', h'⟩, hd, hread⟩ := bind_eq_ok hread
    dsimp only at hread
    split at hread
    · obtain ⟨⟨e, rest'', h''⟩, he, hread⟩ := bind_eq_ok hread
      cases hread
      exact .inr ⟨_, _, _, ⟨_, hd⟩, ⟨_, he⟩, rfl⟩
    · next hne =>
      cases hread
      refine .inl ⟨⟨_, hd⟩, fun hmark => ?_⟩
      obtain ⟨more, rfl⟩ := List.head?_eq_some_iff.1 hmark
      exact hne more h rfl HEq.rfl
  case and.mpr | or.mpr =>
    rintro (⟨⟨h, hd⟩, hne⟩ | ⟨d, e, more, ⟨h, hd⟩, ⟨h', he⟩, rfl⟩)
    · refine ⟨h, ?_⟩
      first
      | rw [conjunction.eq_def, hd]
      | rw [disjunction.eq_def, hd]
      dsimp only [bind, Except.bind]
      split
      · exact absurd rfl hne
      · rfl
    · refine ⟨Nat.lt_trans h' (Nat.lt_of_succ_lt h), ?_⟩
      first
      | rw [conjunction.eq_def, hd]
      | rw [disjunction.eq_def, hd]
      dsimp only [bind, Except.bind]
      rw [he]
      rfl

theorem Joined.raise (hjoined : Joined level tighter mark join) {c : Constraint} {ps : List Part}
    (h : Written tighter c ps) : Written level c ps := by
  cases hjoined with
  | and => exact .operand h
  | or => exact .conjunction h

theorem Joined.written (hjoined : Joined level tighter mark join) {c d : Constraint}
    {ps qs : List Part} (hc : Written level c ps) (hd : Written level d qs) :
    Written level (join c d) (ps ++ mark :: qs) := by
  cases hjoined with
  | and => exact .and hc hd
  | or => exact .or hc hd

theorem Joined.ends_iff (hjoined : Joined level tighter mark join) {rest : List Part} :
    level.Ends rest ↔ tighter.Ends rest ∧ rest.head? ≠ some mark := by
  cases hjoined <;> simp [Level.Ends]

theorem Joined.ends_mark (hjoined : Joined level tighter mark join) (more : List Part) :
    tighter.Ends (mark :: more) := by
  cases hjoined <;> simp [Level.Ends]

theorem Joined.agrees (hjoined : Joined level tighter mark join) {c c' d d' : Constraint}
    (hc : c.Agrees c') (hd : d.Agrees d') : (join c d).Agrees (join c' d') := by
  intro value
  cases hjoined <;> simp only [holds, hc value, hd value]

theorem Joined.agrees_assoc (hjoined : Joined level tighter mark join) (c d e : Constraint) :
    (join c (join d e)).Agrees (join (join c d) e) := by
  intro value
  cases hjoined with
  | and => exact (Bool.and_assoc ..).symm
  | or => exact (Bool.or_assoc ..).symm

end Joined

/-! ## Soundness -/

/-- The level below which a level reads. -/
def Level.rank : Level → Nat
  | .operand => 0
  | .conjunction => 1
  | .disjunction => 2

theorem Joined.rank_lt {level tighter : Level} {mark : Part}
    {join : Constraint → Constraint → Constraint} (hjoined : Joined level tighter mark join) :
    tighter.rank < level.rank := by
  cases hjoined <;> decide

theorem Joined.exists_of_ne {level : Level} (h : level ≠ .operand) :
    ∃ tighter mark join, Joined level tighter mark join := by
  cases level with
  | operand => exact absurd rfl h
  | conjunction => exact ⟨_, _, _, .and⟩
  | disjunction => exact ⟨_, _, _, .or⟩

/-- What the reader of a level takes is written there. -/
theorem Takes.exists_written {level : Level} {ps rest : List Part} {c : Constraint}
    (h : Takes level ps c rest) : ∃ used, ps = used ++ rest ∧ Written level c used := by
  by_cases hlevel : level = .operand
  · subst hlevel
    rcases takes_operand_iff.1 h with ⟨name, rfl, rfl⟩ | ⟨d, more, hps, hd, rfl⟩ | ⟨more, hps, hc⟩
    · exact ⟨[.tag name], rfl, .tag name⟩
    · obtain ⟨used, rfl, hused⟩ := hd.exists_written
      exact ⟨.not :: used, hps, .not hused⟩
    · obtain ⟨used, rfl, hused⟩ := hc.exists_written
      exact ⟨.left :: (used ++ [.right]), by simp [hps], .paren hused⟩
  · obtain ⟨tighter, mark, join, hjoined⟩ := Joined.exists_of_ne hlevel
    have hrank := hjoined.rank_lt
    rcases (takes_joined_iff hjoined).1 h with ⟨hc, -⟩ | ⟨d, e, more, hd, he, rfl⟩
    · obtain ⟨used, rfl, hused⟩ := hc.exists_written
      exact ⟨used, rfl, hjoined.raise hused⟩
    · have hshorter := hd.length_lt
      obtain ⟨front, hps, hfront⟩ := hd.exists_written
      obtain ⟨back, rfl, hback⟩ := he.exists_written
      exact ⟨front ++ mark :: back, by simp [hps], hjoined.written (hjoined.raise hfront) hback⟩
termination_by 3 * ps.length + level.rank
decreasing_by all_goals grind [Level.rank]

/-! ## Completeness -/

/-- Wherever the parts stand, the reader of the level finds an expression of the same value in
them: alone if nothing goes on behind them, else joined with what stands behind the mark. -/
structure Readable (level : Level) (c : Constraint) (ps : List Part) : Prop where
  alone : ∀ {rest : List Part}, level.Ends rest →
    ∃ d, d.Agrees c ∧ Takes level (ps ++ rest) d rest
  joined : ∀ {tighter : Level} {mark : Part} {join : Constraint → Constraint → Constraint},
    Joined level tighter mark join → ∀ {d : Constraint} {more rest : List Part},
    Takes level more d rest → ∃ e, e.Agrees (join c d) ∧ Takes level (ps ++ mark :: more) e rest

/-- An operand goes on with nothing. -/
theorem Readable.operand {c : Constraint} {ps : List Part}
    (h : ∀ rest, ∃ d, d.Agrees c ∧ Takes .operand (ps ++ rest) d rest) :
    Readable .operand c ps where
  alone _ := h _
  joined hjoined := by cases hjoined

section Joined

variable {level tighter : Level} {mark : Part} {join : Constraint → Constraint → Constraint}

theorem Readable.raise (hjoined : Joined level tighter mark join) {c : Constraint}
    {ps : List Part} (h : Readable tighter c ps) : Readable level c ps where
  alone hends := by
    obtain ⟨hends, hne⟩ := hjoined.ends_iff.1 hends
    obtain ⟨d, hagrees, hd⟩ := h.alone hends
    exact ⟨d, hagrees, (takes_joined_iff hjoined).2 (.inl ⟨hd, hne⟩)⟩
  joined {_ mark' join'} hjoined' d more rest hmore := by
    obtain ⟨rfl, rfl⟩ : mark' = mark ∧ join' = join := by
      cases hjoined <;> cases hjoined' <;> exact ⟨rfl, rfl⟩
    obtain ⟨e, hagrees, he⟩ := h.alone (hjoined.ends_mark more)
    exact ⟨join' e d, hjoined.agrees hagrees (.refl d),
      (takes_joined_iff hjoined).2 (.inr ⟨e, d, more, he, hmore, rfl⟩)⟩

theorem Readable.append (hjoined : Joined level tighter mark join) {c d : Constraint}
    {ps qs : List Part} (hc : Readable level c ps) (hd : Readable level d qs) :
    Readable level (join c d) (ps ++ mark :: qs) where
  alone hends := by
    obtain ⟨d', hd', hmore⟩ := hd.alone hends
    obtain ⟨e, he, htakes⟩ := hc.joined hjoined hmore
    rw [List.append_assoc, List.cons_append]
    exact ⟨e, he.trans (hjoined.agrees (.refl c) hd'), htakes⟩
  joined {_ mark' join'} hjoined' x more rest hmore := by
    obtain ⟨rfl, rfl⟩ : mark' = mark ∧ join' = join := by
      cases hjoined <;> cases hjoined' <;> exact ⟨rfl, rfl⟩
    obtain ⟨d', hd', hmore⟩ := hd.joined hjoined hmore
    obtain ⟨e, he, htakes⟩ := hc.joined hjoined hmore
    rw [List.append_assoc, List.cons_append]
    -- the reader groups to the right what the tree groups to the left
    exact ⟨e, (he.trans (hjoined.agrees (.refl c) hd')).trans (hjoined.agrees_assoc c d x), htakes⟩

end Joined

/-- Whatever is written at a level is read there. -/
theorem Written.readable {level : Level} {c : Constraint} {ps : List Part}
    (h : Written level c ps) : Readable level c ps := by
  induction h with
  | tag name =>
    exact .operand fun rest => ⟨.tag name, .refl _, takes_operand_iff.2 (.inl ⟨name, rfl, rfl⟩)⟩
  | not h ih =>
    refine .operand fun rest => ?_
    obtain ⟨d, hagrees, hd⟩ := ih.alone trivial
    exact ⟨.not d, hagrees.not, takes_operand_iff.2 (.inr (.inl ⟨d, _, rfl, hd, rfl⟩))⟩
  | @paren c ps h ih =>
    refine .operand fun rest => ?_
    have hends : Level.disjunction.Ends (.right :: rest) := by simp [Level.Ends]
    obtain ⟨d, hagrees, hd⟩ := ih.alone hends
    exact ⟨d, hagrees, takes_operand_iff.2 (.inr (.inr ⟨ps ++ .right :: rest, by simp, hd⟩))⟩
  | operand h ih => exact ih.raise .and
  | and hc hd ihc ihd => exact .append .and ihc ihd
  | conjunction h ih => exact ih.raise .or
  | or hc hd ihc ihd => exact .append .or ihc ihd

/-! ## Whole expressions -/

theorem ofParts_eq_ok_iff {ps : List Part} {c : Constraint} :
    ofParts ps = .ok c ↔ Takes .disjunction ps c [] := by
  unfold ofParts Takes Level.read
  constructor
  · intro h
    obtain ⟨⟨d, rest, hlt⟩, hd, h⟩ := bind_eq_ok h
    dsimp only at h
    split at h
    · next hempty =>
      cases h
      cases List.isEmpty_iff.1 hempty
      exact ⟨hlt, hd⟩
    · cases h
  · rintro ⟨h, hd⟩
    dsimp only at hd
    rw [hd]
    rfl

theorem written_of_ofParts {ps : List Part} {c : Constraint} (h : ofParts ps = .ok c) :
    Written .disjunction c ps := by
  obtain ⟨used, rfl, hused⟩ := (ofParts_eq_ok_iff.1 h).exists_written
  rwa [List.append_nil]

theorem Written.ofParts {ps : List Part} {c : Constraint} (h : Written .disjunction c ps) :
    ∃ d, d.Agrees c ∧ Constraint.ofParts ps = .ok d := by
  have hends : Level.disjunction.Ends [] := by simp [Level.Ends]
  obtain ⟨d, hagrees, hd⟩ := h.readable.alone hends
  rw [List.append_nil] at hd
  exact ⟨d, hagrees, ofParts_eq_ok_iff.2 hd⟩

/-! ## Spelling -/

/-- The text of a part. -/
def Part.spelling : Part → List Char
  | .tag name => name.toList
  | .not => ['!']
  | .and => ['&', '&']
  | .or => ['|', '|']
  | .left => ['(']
  | .right => [')']

/-- A tag has a name, which consists of letters, numbers, underscores and points. -/
def Part.Spellable : Part → Prop
  | .tag name => name.toList ≠ [] ∧ ∀ c ∈ name.toList, isTagChar c = true
  | _ => True

/-- The text holds the parts in order, with white space wherever it likes between them. -/
inductive Spells : List Part → List Char → Prop
  | nil : Spells [] []
  | blank {c : Char} {ps : List Part} {s : List Char} (hc : Text.isBlank c = true)
      (h : Spells ps s) : Spells ps (c :: s)
  | part {p : Part} {ps : List Part} {s : List Char} (hp : p.Spellable) (h : Spells ps s) :
      Spells (p :: ps) (p.spelling ++ s)

theorem isTagChar_of_isBlank {c : Char} (h : Text.isBlank c = true) : isTagChar c = false := by
  have hword : (Text.isAlphanumeric c || c == '_') = false := isWordPart_of_isBlank h
  rw [isTagChar, hword, Bool.false_or, beq_eq_false_iff_ne]
  rintro rfl
  exact absurd h (by decide)

theorem isBlank_of_mem_spelling {p : Part} (hp : p.Spellable) {c : Char} (hc : c ∈ p.spelling) :
    Text.isBlank c = false := by
  cases p with
  | tag name =>
    rw [Bool.eq_false_iff]
    intro hblank
    have htag := hp.2 c hc
    rw [isTagChar_of_isBlank hblank] at htag
    cases htag
  | _ =>
    have hmarks : ['!', '&', '|', '(', ')'].all (fun d => !Text.isBlank d) = true := rfl
    simpa using List.all_eq_true.1 hmarks c (by simp_all [Part.spelling])

theorem spelling_ne_nil {p : Part} (hp : p.Spellable) : p.spelling ≠ [] := by
  cases p with
  | tag name => exact hp.1
  | _ => exact List.cons_ne_nil _ _

theorem eq_of_firstPart {c : Char} {s rest : List Char} {p : Part}
    (h : firstPart c s = .ok (p, rest)) : p.Spellable ∧ c :: s = p.spelling ++ rest := by
  have htwice : ∀ {d : Char}, c = d ∧ s.head? = some d → c :: s = d :: d :: s.tail := by
    rintro d ⟨rfl, hs⟩
    obtain ⟨t, rfl⟩ := List.head?_eq_some_iff.1 hs
    rfl
  unfold firstPart at h
  split at h
  · next hand =>
    cases h
    exact ⟨trivial, htwice hand⟩
  split at h
  · next hor =>
    cases h
    exact ⟨trivial, htwice hor⟩
  split at h
  · next hnot =>
    cases h
    exact ⟨trivial, congrArg (· :: s) hnot⟩
  split at h
  · next hleft =>
    cases h
    exact ⟨trivial, congrArg (· :: s) hleft⟩
  split at h
  · next hright =>
    cases h
    exact ⟨trivial, congrArg (· :: s) hright⟩
  split at h
  · next htag =>
    cases h
    simp only [Part.Spellable, Part.spelling]
    rw [String.toList_ofList, List.cons_append, List.takeWhile_append_dropWhile]
    refine ⟨⟨List.cons_ne_nil _ _, List.forall_mem_cons.2 ⟨htag, fun d hd => ?_⟩⟩, rfl⟩
    exact List.mem_takeWhile_imp hd
  · cases h

/-- The parts of a text spell it. -/
theorem spells_of_parts {s : List Char} {ps : List Part} (h : parts s = .ok ps) : Spells ps s := by
  fun_induction parts s generalizing ps with
  | case1 =>
    cases h
    exact .nil
  | case2 c s hc ih => exact .blank hc (ih h)
  | case3 c s hc fault hfirst => cases h
  | case4 c s hc p rest hfirst ih =>
    obtain ⟨qs, hqs, rfl⟩ := ok_of_map_eq_ok h
    obtain ⟨hp, heq⟩ := eq_of_firstPart hfirst
    rw [heq]
    exact .part hp (ih hqs)

/-! ## Reading of spellings -/

def Part.isTag : Part → Bool
  | .tag _ => true
  | _ => false

/-- Of two parts that stand side by side in an expression, one is no tag. -/
def Apart (p q : Part) : Prop :=
  p.isTag = true → q.isTag = false

theorem isChain_mark {mark : Part} (hmark : mark.isTag = false) {ps : List Part}
    (hps : ps.IsChain Apart) : (mark :: ps).IsChain Apart := by
  refine List.isChain_cons.2 ⟨fun q _ htag => ?_, hps⟩
  rw [hmark] at htag
  cases htag

theorem isChain_joined {mark : Part} (hmark : mark.isTag = false) {ps qs : List Part}
    (hps : ps.IsChain Apart) (hqs : qs.IsChain Apart) : (ps ++ mark :: qs).IsChain Apart := by
  refine List.isChain_append.2 ⟨hps, isChain_mark hmark hqs, ?_⟩
  rintro p - q hq -
  cases hq
  exact hmark

theorem Written.isChain {level : Level} {c : Constraint} {ps : List Part}
    (h : Written level c ps) : ps.IsChain Apart := by
  induction h with
  | tag name => exact .singleton _
  | not h ih => exact isChain_mark rfl ih
  | paren h ih => exact isChain_mark rfl (isChain_joined rfl ih .nil)
  | operand h ih => exact ih
  | and hc hd ihc ihd => exact isChain_joined rfl ihc ihd
  | conjunction h ih => exact ih
  | or hc hd ihc ihd => exact isChain_joined rfl ihc ihd

/-- A part is read off the front of a text that does not go on with it. -/
theorem firstPart_spelling {p : Part} (hp : p.Spellable) {s : List Char}
    (hs : p.isTag = true → ∀ c ∈ s.head?, isTagChar c = false) :
    ∃ c t, p.spelling = c :: t ∧ firstPart c (t ++ s) = .ok (p, s) := by
  cases p with
  | tag name =>
    obtain ⟨hname, hall⟩ := hp
    obtain ⟨c, t, ht⟩ := List.exists_cons_of_ne_nil hname
    rw [ht, List.forall_mem_cons] at hall
    obtain ⟨hc, hall⟩ := hall
    have hne : ∀ {d : Char}, isTagChar d = false → c ≠ d := by
      rintro d hd rfl
      rw [hc] at hd
      cases hd
    obtain ⟨htake, hdrop⟩ := takeWhile_dropWhile_append (List.all_eq_true.2 hall) (hs rfl)
    refine ⟨c, t, ht, ?_⟩
    rw [firstPart, if_neg fun h => hne (by decide) h.1, if_neg fun h => hne (by decide) h.1,
      if_neg (hne (by decide)), if_neg (hne (by decide)), if_neg (hne (by decide)), if_pos hc,
      htake, hdrop, ← ht, String.ofList_toList]
  | not => exact ⟨'!', [], rfl, rfl⟩
  | and => exact ⟨'&', ['&'], rfl, rfl⟩
  | or => exact ⟨'|', ['|'], rfl, rfl⟩
  | left => exact ⟨'(', [], rfl, rfl⟩
  | right => exact ⟨')', [], rfl, rfl⟩

theorem parts_blank {c : Char} (hc : Text.isBlank c = true) (s : List Char) :
    parts (c :: s) = parts s := by
  rw [parts, if_pos hc]

theorem parts_spelling {p : Part} (hp : p.Spellable) {s : List Char}
    (hs : p.isTag = true → ∀ c ∈ s.head?, isTagChar c = false) :
    parts (p.spelling ++ s) = (parts s).map (p :: ·) := by
  obtain ⟨c, t, ht, hfirst⟩ := firstPart_spelling hp hs
  have hblank : Text.isBlank c = false := isBlank_of_mem_spelling hp (ht ▸ List.mem_cons_self)
  rw [ht, List.cons_append, parts, if_neg (by simp [hblank])]
  split
  · next herror =>
    rw [hfirst] at herror
    cases herror
  · next hok =>
    rw [hfirst] at hok
    cases hok
    rfl

/-- A text goes on with a character of a tag only where it goes on with a tag. -/
theorem Spells.head {ps : List Part} {s : List Char} (h : Spells ps s)
    (hps : ∀ p ∈ ps.head?, p.isTag = false) : ∀ c ∈ s.head?, isTagChar c = false := by
  cases h with
  | nil => simp
  | blank hc h =>
    rintro d ⟨⟩
    exact isTagChar_of_isBlank hc
  | @part p ps s hp h =>
    have := hps p rfl
    cases p with
    | tag name => cases this
    | _ =>
      rintro d ⟨⟩
      decide

theorem parts_of_spells {s : List Char} {ps : List Part} (h : Spells ps s)
    (hchain : ps.IsChain Apart) : parts s = .ok ps := by
  induction h with
  | nil => rw [parts]
  | blank hc h ih => rw [parts_blank hc, ih hchain]
  | @part p ps s hp h ih =>
    obtain ⟨hhead, hchain⟩ := List.isChain_cons.1 hchain
    rw [parts_spelling hp fun htag => h.head fun q hq => hhead q hq htag, ih hchain]
    rfl

/-! ## White space at the ends -/

theorem Spells.of_blank_cons {c : Char} (hc : Text.isBlank c = true) {ps : List Part}
    {s : List Char} (h : Spells ps (c :: s)) : Spells ps s := by
  generalize ht : c :: s = t at h
  cases h with
  | nil => cases ht
  | blank hd h =>
    cases ht
    exact h
  | @part p ps u hp h =>
    obtain ⟨d, v, hv⟩ := List.exists_cons_of_ne_nil (spelling_ne_nil hp)
    rw [hv, List.cons_append] at ht
    have hd := isBlank_of_mem_spelling hp (hv ▸ List.mem_cons_self)
    cases ht
    rw [hc] at hd
    cases hd

theorem Spells.of_concat_blank {c : Char} (hc : Text.isBlank c = true) {ps : List Part}
    {s : List Char} (h : Spells ps (s ++ [c])) : Spells ps s := by
  generalize ht : s ++ [c] = t at h
  induction h generalizing s with
  | nil => simp at ht
  | blank hd h ih =>
    cases s with
    | nil =>
      cases ht
      exact h
    | cons d s =>
      cases ht
      exact .blank hd (ih rfl)
  | @part p ps t hp h ih =>
    rcases t.eq_nil_or_concat with rfl | ⟨u, d, rfl⟩
    · have hlast : c ∈ p.spelling := by
        rw [List.append_nil] at ht
        rw [← ht]
        exact List.mem_append_right s List.mem_cons_self
      have hd := isBlank_of_mem_spelling hp hlast
      rw [hc] at hd
      cases hd
    · rw [List.concat_eq_append, ← List.append_assoc] at ht
      obtain ⟨rfl, hcd⟩ := List.append_inj' ht rfl
      cases hcd
      exact .part hp (ih List.concat_eq_append.symm)

theorem Spells.append_blanks {ps : List Part} {s blanks : List Char} (h : Spells ps s)
    (hblanks : ∀ c ∈ blanks, Text.isBlank c = true) : Spells ps (s ++ blanks) := by
  induction h with
  | nil =>
    induction blanks with
    | nil => exact .nil
    | cons c blanks ih =>
      rw [List.forall_mem_cons] at hblanks
      exact .blank hblanks.1 (ih hblanks.2)
  | blank hc h ih => exact .blank hc ih
  | part hp h ih =>
    rw [List.append_assoc]
    exact .part hp ih

theorem Spells.of_append_blanks {ps : List Part} {s blanks : List Char}
    (hblanks : ∀ c ∈ blanks, Text.isBlank c = true) (h : Spells ps (s ++ blanks)) :
    Spells ps s := by
  induction blanks generalizing s with
  | nil => rwa [List.append_nil] at h
  | cons c blanks ih =>
    rw [List.forall_mem_cons] at hblanks
    rw [List.append_cons] at h
    exact (ih hblanks.2 h).of_concat_blank hblanks.1

/-! ## Texts of expressions -/

/-- The text is a way to write the expression, with any parentheses and any white space that
leave its meaning as it is. -/
def WrittenAs (c : Constraint) (s : List Char) : Prop :=
  ∃ ps, Spells ps s ∧ Written .disjunction c ps

/-- What a text is read as can be written as this text. -/
theorem writtenAs_of_ofText {s : List Char} {c : Constraint} (h : ofText s = .ok c) :
    c.WrittenAs s := by
  obtain ⟨ps, hps, h⟩ := bind_eq_ok h
  exact ⟨ps, spells_of_parts hps, written_of_ofParts h⟩

/-- However an expression is written, what is read has its value. -/
theorem WrittenAs.ofText {s : List Char} {c : Constraint} (h : c.WrittenAs s) :
    ∃ d, d.Agrees c ∧ Constraint.ofText s = .ok d := by
  obtain ⟨ps, hspells, hwritten⟩ := h
  obtain ⟨d, hagrees, hd⟩ := hwritten.ofParts
  refine ⟨d, hagrees, ?_⟩
  rw [Constraint.ofText, parts_of_spells hspells hwritten.isChain]
  exact hd

/-- White space at the ends of a text is free. -/
theorem writtenAs_iff_of_blanks {c : Constraint} {d : Char} {s t blanks : List Char}
    (hd : Text.isBlank d = true) (hblanks : ∀ e ∈ blanks, Text.isBlank e = true)
    (h : d :: s = t ++ blanks) : c.WrittenAs s ↔ c.WrittenAs t := by
  constructor
  · rintro ⟨ps, hspells, hwritten⟩
    refine ⟨ps, .of_append_blanks hblanks ?_, hwritten⟩
    rw [← h]
    exact .blank hd hspells
  · rintro ⟨ps, hspells, hwritten⟩
    refine ⟨ps, .of_blank_cons hd ?_, hwritten⟩
    rw [h]
    exact hspells.append_blanks hblanks

end StructCopy.Go.Constraint
