/-
  Proofs/Go/Containment: how far the trial of an array type can go.

  Behind the name of a struct member, a bracket may open an array length or type
  arguments, and the reader tries the array type first.  When the tokens are type
  arguments, the trial ends where they end, or before: the text of a length is passed
  over bracket by bracket, in step with the arguments, so that it ends at their
  closing bracket or inside one of them, and a type read from there ends there.
-/
import StructCopy.Proofs.Go.LengthText
import StructCopy.Proofs.Go.Lookahead

set_option autoImplicit false

namespace StructCopy.Go

/-! ## Progress and uniqueness -/

/-- Every phrase has at least one token. -/
theorem Reads.length_lt {phrase : Phrase} {ts rest : List Located} (h : Reads phrase ts rest) :
    rest.length < ts.length := by
  have houtcome := h.outcome_eq
  cases phrase <;>
    · have hlt := length_lt_of_outcome houtcome
      exact hlt

/-- There is one way to read a type. -/
theorem Reads.rest_unique {type type' : TypeExpr} {ts rest rest' : List Located}
    (h : Reads (.type type) ts rest) (h' : Reads (.type type') ts rest') : rest = rest' := by
  have heq : some (type, rest) = some (type', rest') :=
    h.outcome_eq.symm.trans h'.outcome_eq
  cases heq
  rfl

theorem Reads.length_lt_of_skipComma {phrase : Phrase} {ts rest : List Located}
    (h : Reads phrase (skipComma ts).val rest) : rest.length < ts.length :=
  Nat.lt_of_lt_of_le h.length_lt (skipComma ts).property

theorem Ends.length_le {ts rest : List Located} (h : Ends ts rest) :
    rest.length ≤ ts.length := by
  cases h with
  | semicolon => exact Nat.le_succ _
  | before => exact Nat.le_refl _

theorem ReadsTag.length_le {tag : Option String} {ts rest : List Located}
    (h : ReadsTag tag ts rest) : rest.length ≤ ts.length := by
  cases h with
  | tag => exact Nat.le_succ _
  | none => exact Nat.le_refl _

/-! ## Positions -/

/-- Whatever type is read from `ts`, at least `rest` is left. -/
def StaysBefore (ts rest : List Located) : Prop :=
  ∀ type mid, Reads (.type type) ts mid → rest.length ≤ mid.length

theorem NoType.staysBefore {ts : List Located} (h : NoType ts) (rest : List Located) :
    StaysBefore ts rest := by
  intro type mid hread
  have hstarts := hread.startsType
  rw [h] at hstarts
  cases hstarts

theorem staysBefore_cons {line : Nat} {token : Token} {ts : List Located}
    (h : token.startsType = false) (rest : List Located) :
    StaysBefore (⟨line, token⟩ :: ts) rest :=
  (noType_cons h).staysBefore rest

theorem Reads.staysBefore {type : TypeExpr} {ts mid rest : List Located}
    (h : Reads (.type type) ts mid) (hle : rest.length ≤ mid.length) : StaysBefore ts rest := by
  intro type' mid' h'
  rw [← h.rest_unique h']
  exact hle

theorem StaysBefore.mono {ts mid rest : List Located} (h : StaysBefore ts mid)
    (hle : rest.length ≤ mid.length) : StaysBefore ts rest :=
  fun type mid' hread => Nat.le_trans hle (h type mid' hread)

theorem Ends.noType {ts rest : List Located} (h : Ends ts rest) : NoType ts := by
  cases h with
  | semicolon => rfl
  | before h =>
    unfold NoType
    rcases h with h | h | rfl
    · rw [h]
      rfl
    · rw [h]
      rfl
    · rfl

/-- Behind the type of a member no type starts. -/
theorem ReadsTag.noType {tag : Option String} {ts mid rest : List Located}
    (h : ReadsTag tag ts mid) (hends : Ends mid rest) : NoType ts := by
  cases h with
  | tag => rfl
  | none => exact hends.noType

/-- A type read where parameters start ends inside them. -/
theorem Reads.staysBefore_of_params {params : List Param} {ts rest : List Located}
    (h : Reads (.params params) ts rest) : StaysBefore ts rest := by
  cases h with
  | paramSemicolon => exact staysBefore_cons rfl rest
  | noParam => exact staysBefore_cons rfl rest
  | ellipsisParam => exact staysBefore_cons rfl rest
  | typeParam h hparams =>
    exact h.staysBefore (Nat.le_succ_of_le (Nat.le_of_lt hparams.length_lt))
  | lastTypeParam h hparams => exact h.staysBefore (Nat.le_of_lt hparams.length_lt)
  | namedEllipsis hname h hparams =>
    have hmore := Nat.lt_trans hparams.length_lt_of_skipComma h.length_lt
    exact hname.staysBefore (Nat.le_succ_of_le (Nat.le_of_lt hmore))
  | namedParam hname h hparams =>
    have hmore := Nat.lt_trans hparams.length_lt_of_skipComma h.length_lt
    exact hname.staysBefore (Nat.le_of_lt hmore)

/-- Behind an entry of a parameter list that need not be followed by a comma, a type ends inside
the list. -/
theorem staysBefore_of_skipComma {params : List Param} {ts rest : List Located}
    (h : Reads (.params params) (skipComma ts).val rest) : StaysBefore ts rest := by
  unfold skipComma at h
  split at h
  · exact staysBefore_cons rfl rest
  · exact h.staysBefore_of_params

/-! ## Passing over a phrase inside an array length -/

/-- An array length that has reached `ts` with `depth` brackets open either passes over the tokens
up to `rest`, with fewer than `limit` brackets open then, or ends before. Where it ends, a type
that is read stays before `rest`; with `atEnd`, it may also end at `rest` itself. -/
def Passed (atEnd : Bool) (depth limit : Nat) (ts rest : List Located) : Prop :=
  (∃ depth' < limit, lengthEnd depth ts = lengthEnd depth' rest) ∨
    ∃ mid, lengthEnd depth ts = some mid ∧
      (StaysBefore mid rest ∨ atEnd = true ∧ mid = rest)

variable {atEnd atEnd' : Bool} {line depth limit limit' : Nat} {token : Token}
  {ts mid rest : List Located}

theorem Passed.nil (h : depth < limit) : Passed atEnd depth limit ts ts :=
  .inl ⟨depth, h, rfl⟩

theorem Passed.mono (h : Passed atEnd depth limit ts rest) (hle : limit ≤ limit') :
    Passed atEnd depth limit' ts rest := by
  rcases h with ⟨depth', hlt, hpass⟩ | hstop
  · exact .inl ⟨depth', Nat.lt_of_lt_of_le hlt hle, hpass⟩
  · exact .inr hstop

/-- One token that does not end a length. -/
theorem Passed.cons (hend : token ≠ .rightBracket)
    (h : Passed atEnd (lengthDepth token depth) limit ts rest) :
    Passed atEnd depth limit (⟨line, token⟩ :: ts) rest := by
  unfold Passed
  rw [lengthEnd_cons fun heq => hend heq.1]
  exact h

/-- A closing bracket, where the length may end. -/
theorem Passed.rightBracket (hstop : StaysBefore ts rest ∨ atEnd = true ∧ ts = rest)
    (h : ∀ depth', depth = depth' + 1 → Passed atEnd depth' limit ts rest) :
    Passed atEnd depth limit (⟨line, .rightBracket⟩ :: ts) rest := by
  cases depth with
  | zero => exact .inr ⟨ts, lengthEnd_end line ts, hstop⟩
  | succ depth =>
    unfold Passed
    rw [lengthEnd_cons fun heq => Nat.succ_ne_zero depth heq.2]
    exact h depth rfl

/-- Tokens that leave the open brackets as they are. -/
theorem Passed.of_eq {depth' : Nat} (heq : lengthEnd depth ts = lengthEnd depth' mid)
    (h : Passed atEnd depth' limit mid rest) : Passed atEnd depth limit ts rest := by
  unfold Passed
  rw [heq]
  exact h

theorem Passed.of_inside (h : Passed false depth limit ts rest) :
    Passed atEnd depth limit ts rest := by
  rcases h with hpass | ⟨mid, hstop, hstays | ⟨hfalse, -⟩⟩
  · exact .inl hpass
  · exact .inr ⟨mid, hstop, .inl hstays⟩
  · cases hfalse

/-- One phrase behind another: where the length may end just behind the first, a type read there
has to stay inside the second. -/
theorem Passed.append (h : Passed atEnd depth limit ts mid)
    (hmid : atEnd = true → StaysBefore mid rest) (hle : rest.length ≤ mid.length)
    (h' : ∀ depth' < limit, Passed atEnd' depth' limit' mid rest) :
    Passed atEnd' depth limit' ts rest := by
  rcases h with ⟨depth', hlt, hpass⟩ | ⟨stop, hstop, hstays | ⟨htrue, rfl⟩⟩
  · exact .of_eq hpass (h' depth' hlt)
  · exact .inr ⟨stop, hstop, .inl (hstays.mono hle)⟩
  · exact .inr ⟨stop, hstop, .inl (hmid htrue)⟩

/-! ## Small phrases leave the open brackets as they are -/

theorem lengthEnd_plain (hsame : lengthDepth token depth = depth) (hend : token ≠ .rightBracket) :
    lengthEnd depth (⟨line, token⟩ :: ts) = lengthEnd depth ts := by
  rw [lengthEnd_cons fun heq => hend heq.1, hsame]

theorem ReadsName.lengthEnd_eq {type : TypeExpr} (h : ReadsName type ts rest) (depth : Nat) :
    lengthEnd depth ts = lengthEnd depth rest := by
  cases h with
  | named => exact lengthEnd_plain rfl nofun
  | qualified =>
    exact Eq.trans (lengthEnd_plain rfl nofun)
      (Eq.trans (lengthEnd_plain rfl nofun) (lengthEnd_plain rfl nofun))

theorem ReadsNames.lengthEnd_eq {names : List String} (h : ReadsNames names ts rest)
    (depth : Nat) : lengthEnd depth ts = lengthEnd depth rest := by
  induction h with
  | last => exact lengthEnd_plain rfl nofun
  | cons _ _ ih =>
    exact Eq.trans (lengthEnd_plain rfl nofun) (Eq.trans (lengthEnd_plain rfl nofun) ih)

theorem ReadsTag.lengthEnd_eq {tag : Option String} (h : ReadsTag tag ts rest) (depth : Nat) :
    lengthEnd depth ts = lengthEnd depth rest := by
  cases h with
  | tag => exact lengthEnd_plain rfl nofun
  | none => rfl

theorem Ends.lengthEnd_eq (h : Ends ts rest) (depth : Nat) :
    lengthEnd depth ts = lengthEnd depth rest := by
  cases h with
  | semicolon => exact lengthEnd_plain rfl nofun
  | before => rfl

theorem lengthEnd_skipComma (depth : Nat) (ts : List Located) :
    lengthEnd depth ts = lengthEnd depth (skipComma ts).val := by
  unfold skipComma
  split
  · exact lengthEnd_plain rfl nofun
  · rfl

/-! ## Every phrase is passed over -/

/-- Whether a length that ends with a phrase may end just behind it: not when the phrase has a
closing token of another kind. -/
def Phrase.endsLength : Phrase → Bool
  | .params _ | .fields _ | .elems _ => false
  | _ => true

/-- How many brackets may be open behind a phrase, given those open before it. -/
def Phrase.depthLimit : Phrase → Nat → Nat
  | .args _, depth => depth
  | .params _, depth => depth - 1 + 1
  | _, depth => depth + 1

/-- A phrase passed over with as many brackets open as before, where at most `depth` were. -/
theorem Passed.at_most {depth' : Nat} (h : Passed atEnd depth (depth + 1) ts rest)
    (hle : depth ≤ depth') : Passed atEnd depth (depth' + 1) ts rest :=
  h.mono (Nat.succ_le_succ hle)

theorem Passed.params_mono {depth' : Nat} (h : Passed atEnd depth (depth - 1 + 1) ts rest)
    (hle : depth ≤ depth') : Passed atEnd depth (depth' - 1 + 1) ts rest :=
  h.mono (Nat.succ_le_succ (Nat.pred_le_pred hle))

/-- An array length passes over every phrase, or ends in it. -/
theorem Reads.passed {phrase : Phrase} (h : Reads phrase ts rest) (depth : Nat) :
    Passed phrase.endsLength depth (phrase.depthLimit depth) ts rest := by
  induction h generalizing depth with
  | pointer _ ih => exact .cons nofun (ih depth)
  | slice h ih =>
    refine .cons nofun (.rightBracket (.inl (h.staysBefore (Nat.le_refl _))) ?_)
    intro depth' heq
    cases heq
    exact ih depth
  | openArray h ih =>
    refine .cons nofun (.cons nofun (.rightBracket (.inl (h.staysBefore (Nat.le_refl _))) ?_))
    intro depth' heq
    cases heq
    exact ih depth
  | @array line length elem ts mid rest _ _ hlength h ih =>
    refine .cons nofun ?_
    have hinner : lengthEnd 0 ts = some mid := by
      rw [lengthEnd, hlength]
      rfl
    rcases lengthEnd_of_inner hinner (Nat.zero_le (depth + 1)) with hstop | ⟨d, hle, hpass⟩
    · exact .inr ⟨mid, hstop, .inl (h.staysBefore (Nat.le_refl _))⟩
    · exact .of_eq hpass ((ih d).at_most (Nat.le_of_succ_le_succ hle))
  | paren _ ih =>
    refine .cons nofun ((ih (depth + 1)).append (fun _ => staysBefore_cons rfl _)
      (Nat.le_succ _) ?_)
    intro d hlt
    have hclose : lengthDepth .rightParen d < depth + 1 :=
      Nat.lt_of_le_of_lt (Nat.pred_le_pred (Nat.le_of_lt_succ hlt)) (Nat.lt_succ_self depth)
    exact .cons nofun (.nil hclose)
  | receive _ ih => exact .cons nofun (.cons nofun (ih depth))
  | map _ hvalue ihkey ihvalue =>
    refine .cons nofun (.cons nofun ((ihkey (depth + 1)).append
      (fun _ => staysBefore_cons rfl _) (Nat.le_succ_of_le (Nat.le_of_lt hvalue.length_lt)) ?_))
    intro d hlt
    refine .rightBracket (.inl (hvalue.staysBefore (Nat.le_refl _))) ?_
    rintro d' rfl
    exact (ihvalue d').at_most (Nat.le_of_succ_le_succ (Nat.le_of_lt_succ hlt))
  | send _ ih => exact .cons nofun (.cons nofun (ih depth))
  | chan _ _ ih => exact .cons nofun (ih depth)
  | func _ ih => exact .cons nofun (ih depth)
  | struct _ ih => exact .cons nofun (.cons nofun (ih depth).of_inside)
  | interface _ ih => exact .cons nofun (.cons nofun (ih depth).of_inside)
  | name h => exact .of_eq (h.lengthEnd_eq depth) (.nil (Nat.lt_succ_self _))
  | generic hbase _ ih =>
    exact .of_eq (hbase.lengthEnd_eq depth) (.cons nofun (ih (depth + 1)))
  | lastArg _ ih =>
    refine (ih depth).append (fun _ => staysBefore_cons rfl _) (Nat.le_succ _) ?_
    intro d hlt
    refine .rightBracket (.inr ⟨rfl, rfl⟩) ?_
    rintro d' rfl
    exact .nil (Nat.lt_of_succ_lt_succ hlt)
  | lastArgComma _ ih =>
    refine (ih depth).append (fun _ => staysBefore_cons rfl _)
      (Nat.le_succ_of_le (Nat.le_succ _)) ?_
    intro d hlt
    refine .cons nofun (.rightBracket (.inr ⟨rfl, rfl⟩) ?_)
    rintro d' rfl
    exact .nil (Nat.lt_of_succ_lt_succ hlt)
  | nextArg _ _ hargs ih ihargs =>
    refine (ih depth).append (fun _ => staysBefore_cons rfl _)
      (Nat.le_succ_of_le (Nat.le_of_lt hargs.length_lt)) ?_
    intro d hlt
    exact .cons nofun ((ihargs d).mono (Nat.le_of_lt_succ hlt))
  | results _ hresults ihparams ihresults =>
    refine .cons nofun ((ihparams (depth + 1)).append nofun
      (Nat.le_succ_of_le (Nat.le_of_lt hresults.length_lt)) ?_)
    intro d hlt
    have hmore : Passed false (d + 1) (d + 1) _ _ := ihresults (d + 1)
    exact .cons nofun (hmore.mono hlt).of_inside
  | result _ _ _ hresult ihparams ihresult =>
    refine .cons nofun ((ihparams (depth + 1)).append nofun
      (Nat.le_of_lt hresult.length_lt) ?_)
    intro d hlt
    exact (ihresult d).at_most (Nat.le_of_lt_succ hlt)
  | noResult _ _ ih => exact .cons nofun (ih (depth + 1)).of_inside
  | paramSemicolon _ ih => exact .cons nofun (ih depth)
  | noParam => exact .cons nofun (.nil (Nat.lt_succ_self _))
  | ellipsisParam _ hparams ih ihparams =>
    refine .cons nofun ((ih depth).append (fun _ => staysBefore_of_skipComma hparams)
      (Nat.le_of_lt hparams.length_lt_of_skipComma) ?_)
    intro d hlt
    exact .of_eq (lengthEnd_skipComma d _) ((ihparams d).params_mono (Nat.le_of_lt_succ hlt))
  | typeParam _ hparams ih ihparams =>
    refine (ih depth).append (fun _ => staysBefore_cons rfl _)
      (Nat.le_succ_of_le (Nat.le_of_lt hparams.length_lt)) ?_
    intro d hlt
    exact .cons nofun ((ihparams d).params_mono (Nat.le_of_lt_succ hlt))
  | lastTypeParam _ hparams ih ihparams =>
    refine (ih depth).append (fun _ => staysBefore_cons rfl _)
      (Nat.le_of_lt hparams.length_lt) ?_
    intro d hlt
    exact (ihparams d).params_mono (Nat.le_of_lt_succ hlt)
  | namedEllipsis _ h hparams ihname ih ihparams =>
    have hmore := Nat.lt_trans hparams.length_lt_of_skipComma h.length_lt
    refine (ihname depth).append (fun _ => staysBefore_cons rfl _)
      (Nat.le_succ_of_le (Nat.le_of_lt hmore)) ?_
    intro d hlt
    refine .cons nofun ((ih d).append (fun _ => staysBefore_of_skipComma hparams)
      (Nat.le_of_lt hparams.length_lt_of_skipComma) ?_)
    intro d' hlt'
    have hle : d' ≤ depth := Nat.le_trans (Nat.le_of_lt_succ hlt') (Nat.le_of_lt_succ hlt)
    exact .of_eq (lengthEnd_skipComma d' _) ((ihparams d').params_mono hle)
  | namedParam _ h hparams ihname ih ihparams =>
    have hmore := Nat.lt_trans hparams.length_lt_of_skipComma h.length_lt
    refine (ihname depth).append
      (fun _ => h.staysBefore (Nat.le_of_lt hparams.length_lt_of_skipComma))
      (Nat.le_of_lt hmore) ?_
    intro d hlt
    refine (ih d).append (fun _ => staysBefore_of_skipComma hparams)
      (Nat.le_of_lt hparams.length_lt_of_skipComma) ?_
    intro d' hlt'
    have hle : d' ≤ depth := Nat.le_trans (Nat.le_of_lt_succ hlt') (Nat.le_of_lt_succ hlt)
    exact .of_eq (lengthEnd_skipComma d' _) ((ihparams d').params_mono hle)
  | fieldSemicolon _ ih => exact .cons nofun (ih depth)
  | noField => exact .cons nofun (.nil (Nat.lt_succ_self _))
  | field _ htag hends hfields ih ihfields =>
    have hle := Nat.le_trans (Nat.le_of_lt hfields.length_lt)
      (Nat.le_trans hends.length_le htag.length_le)
    refine (ih depth).append (fun _ => (htag.noType hends).staysBefore _) hle ?_
    intro d hlt
    exact .of_eq ((htag.lengthEnd_eq d).trans (hends.lengthEnd_eq d))
      ((ihfields d).at_most (Nat.le_of_lt_succ hlt))
  | embeddedPointer _ _ ih => exact ih depth
  | embeddedName _ _ ih => exact ih depth
  | arrayMember _ _ _ ih => exact .cons nofun (ih depth)
  | embeddedGeneric _ _ _ ih => exact ih depth
  | namedMember _ _ _ hnames _ ih => exact .of_eq (hnames.lengthEnd_eq depth) (ih depth)
  | elemSemicolon _ ih => exact .cons nofun (ih depth)
  | noElem => exact .cons nofun (.nil (Nat.lt_succ_self _))
  | method _ _ _ hends helems ih ihelems =>
    have hle := Nat.le_trans (Nat.le_of_lt helems.length_lt) hends.length_le
    refine .cons nofun ((ih depth).append (fun _ => hends.noType.staysBefore _) hle ?_)
    intro d hlt
    exact .of_eq (hends.lengthEnd_eq d) ((ihelems d).at_most (Nat.le_of_lt_succ hlt))
  | union _ _ hends helems ih ihelems =>
    have hle := Nat.le_trans (Nat.le_of_lt helems.length_lt) hends.length_le
    refine (ih depth).append (fun _ => hends.noType.staysBefore _) hle ?_
    intro d hlt
    exact .of_eq (hends.lengthEnd_eq d) ((ihelems d).at_most (Nat.le_of_lt_succ hlt))
  | lastTerm _ _ ih => exact ih depth
  | nextTerm _ hterms ih ihterms =>
    refine (ih depth).append (fun _ => staysBefore_cons rfl _)
      (Nat.le_succ_of_le (Nat.le_of_lt hterms.length_lt)) ?_
    intro d hlt
    exact .cons nofun ((ihterms d).at_most (Nat.le_of_lt_succ hlt))
  | approximate _ ih => exact .cons nofun (ih depth)
  | exact _ ih => exact ih depth

/-! ## The trial -/

/-- When type arguments are tried as an array type, the trial ends where the arguments end, or
before. -/
theorem Reads.trial_stays_of_args {args : List TypeExpr} {other : TypeExpr}
    (hargs : Reads (.args args) ts rest) (hrest : NoType rest)
    (htrial : Reads (.type other) (⟨line, .leftBracket⟩ :: ts) mid) :
    rest.length ≤ mid.length := by
  have hstarts := hargs.startsType_of_args
  cases htrial with
  | slice => cases hstarts
  | openArray => cases hstarts
  | @array _ length elem _ stop _ _ _ hlength h =>
    have hstop : lengthEnd 0 ts = some stop := by
      rw [lengthEnd, hlength]
      rfl
    rcases hargs.passed 0 with ⟨depth', hlt, -⟩ | ⟨stop', hstop', hstays⟩
    · cases hlt
    · rw [hstop] at hstop'
      cases hstop'
      rcases hstays with hstays | ⟨-, rfl⟩
      · exact hstays elem mid h
      · exact hrest.staysBefore stop elem mid h
  | name h | generic h =>
    obtain ⟨w, hw⟩ := h.next_eq
    cases hw

/-- When a map type without its word is tried as an array type, the trial ends where the map type
ends, or before. -/
theorem Reads.trial_stays_of_map {key value other : TypeExpr} {line' : Nat} {more : List Located}
    (hkey : Reads (.type key) ts (⟨line', .rightBracket⟩ :: more))
    (hvalue : Reads (.type value) more rest)
    (htrial : Reads (.type other) (⟨line, .leftBracket⟩ :: ts) mid) :
    rest.length ≤ mid.length := by
  have hstarts := hkey.startsType
  have hle : rest.length ≤ (⟨line', .rightBracket⟩ :: more).length :=
    Nat.le_succ_of_le (Nat.le_of_lt hvalue.length_lt)
  cases htrial with
  | slice => cases hstarts
  | openArray => cases hstarts
  | @array _ length elem _ stop _ _ _ hlength h =>
    have hstop : lengthEnd 0 ts = some stop := by
      rw [lengthEnd, hlength]
      rfl
    rcases hkey.passed 0 with ⟨depth', hlt, hpass⟩ | ⟨stop', hstop', hstays⟩
    · have hzero : depth' = 0 := Nat.lt_one_iff.1 hlt
      subst hzero
      rw [hstop, lengthEnd_end] at hpass
      cases hpass
      exact Nat.le_of_eq (congrArg List.length (hvalue.rest_unique h))
    · rw [hstop] at hstop'
      cases hstop'
      rcases hstays with hstays | ⟨-, rfl⟩
      · exact Nat.le_trans hle (hstays elem mid h)
      · exact absurd h.startsType nofun
  | name h | generic h =>
    obtain ⟨w, hw⟩ := h.next_eq
    cases hw

/-- When a type without its first word is tried as an array type, the trial ends where the type
ends, or before. -/
theorem Reads.trial_stays {w : String} {type other : TypeExpr}
    (h : Reads (.type type) (⟨line, .word w⟩ :: ts) rest) (hnext : next ts = some .leftBracket)
    (hrest : NoType rest) (htrial : Reads (.type other) ts mid) : rest.length ≤ mid.length := by
  cases h with
  | map hkey hvalue => exact hkey.trial_stays_of_map hvalue htrial
  | chan _ h => exact Nat.le_of_eq (congrArg List.length (h.rest_unique htrial))
  | generic hbase hargs =>
    cases hbase with
    | named => exact hargs.trial_stays_of_args hrest htrial
    | qualified => cases hnext
  | func h => cases h <;> cases hnext
  | name h hbracket =>
    cases h with
    | named => exact absurd hnext hbracket
    | qualified => cases hnext
  | _ => cases hnext

end StructCopy.Go
