/-
  Proofs/Go/Progress: reading goes on inside the tokens.

  Whatever is read, what is left is an end of the tokens, and so are the tokens from the
  place of a fault on.  Both are shown together, because a reader goes on with what the one
  before it has left.  With the lengths that are part of every reader's result this says that
  reading moves from each place of the tokens to a later one, at most to their end.
-/
import StructCopy.Proofs.Go.Nesting

set_option autoImplicit false

namespace StructCopy.Go

/-! ## Outcomes inside the tokens -/

/-- What a reader has left. -/
abbrev leftover {α : Type} {P : List Located → Prop}
    (found : α × { rest : List Located // P rest }) : List Located :=
  found.2.val

/-- What is left, or the place of the fault, is an end of `ts`. -/
def Inside {α : Type} (ts : List Located) (left : α → List Located) : Except Stuck α → Prop
  | .ok found => left found <:+ ts
  | .error stuck => stuck.place <:+ ts

theorem suffix_cons_cons (t t' : Located) (ts : List Located) : ts <:+ t :: t' :: ts :=
  (List.suffix_cons t' ts).trans (List.suffix_cons t _)

section Composition

variable {α β : Type} {ts us : List Located} {left : α → List Located}
  {left' : β → List Located}

theorem Inside.bind {x : Except Stuck α} {f : α → Except Stuck β} (hx : Inside us left x)
    (hus : us <:+ ts) (hf : ∀ found, left found <:+ ts → Inside ts left' (f found)) :
    Inside ts left' (x >>= f) := by
  cases x with
  | error stuck => exact List.IsSuffix.trans hx hus
  | ok found => exact hf found (List.IsSuffix.trans hx hus)

theorem Inside.mono {x : Except Stuck α} (hx : Inside us left x) (hus : us <:+ ts) :
    Inside ts left x := by
  cases x with
  | error stuck => exact List.IsSuffix.trans hx hus
  | ok found => exact List.IsSuffix.trans hx hus

theorem Inside.of_ok {x : Except Stuck α} {found : α} (hx : Inside ts left x)
    (h : x = .ok found) : left found <:+ ts := by
  rw [h] at hx
  exact hx

theorem inside_missing (what : Expected) (ts : List Located) :
    Inside ts left (missing what ts) :=
  List.suffix_rfl

end Composition

/-! ## Single tokens and names -/

theorem exactly_inside (token : Token) (ts : List Located) :
    Inside ts leftover (exactly token ts) := by
  rw [exactly.eq_def]
  split
  · split
    · exact List.suffix_cons _ _
    · exact inside_missing _ _
  · exact inside_missing _ _

theorem identifier_inside (ts : List Located) : Inside ts leftover (identifier ts) := by
  rw [identifier.eq_def]
  split
  · split
    · exact inside_missing _ _
    · exact List.suffix_cons _ _
  · exact inside_missing _ _

theorem stringLiteral_inside (ts : List Located) : Inside ts leftover (stringLiteral ts) := by
  rw [stringLiteral.eq_def]
  split
  · exact List.suffix_cons _ _
  · exact inside_missing _ _

theorem terminator_inside (ts : List Located) : Inside ts Subtype.val (terminator ts) := by
  rw [terminator.eq_def]
  split
  · exact List.suffix_cons _ _
  · exact List.suffix_rfl
  · exact List.suffix_rfl
  · exact List.suffix_rfl
  · exact inside_missing _ _

theorem skipComma_suffix (ts : List Located) : (skipComma ts).val <:+ ts := by
  unfold skipComma
  split
  · exact List.suffix_cons _ _
  · exact List.suffix_rfl

theorem chanDir_suffix (ts : List Located) : leftover (chanDir ts) <:+ ts := by
  unfold chanDir
  split
  · exact List.suffix_cons _ _
  · exact List.suffix_rfl

theorem optionalTag_suffix (ts : List Located) : leftover (optionalTag ts) <:+ ts := by
  unfold optionalTag
  split
  · exact List.suffix_cons _ _
  · exact List.suffix_rfl

theorem arrayLength_inside (depth : Nat) (ts : List Located) :
    Inside ts leftover (arrayLength depth ts) := by
  induction ts generalizing depth with
  | nil => exact List.suffix_rfl
  | cons t ts ih =>
    rw [arrayLength.eq_def]
    dsimp only
    split
    · exact List.suffix_cons _ _
    · exact (ih _).bind (List.suffix_cons _ _) fun _ hleft => hleft

theorem nameList_inside (ts : List Located) : Inside ts leftover (nameList ts) := by
  rw [nameList]
  refine (identifier_inside ts).bind List.suffix_rfl ?_
  rintro ⟨name, rest, hrest⟩ hleft
  dsimp only
  split
  · next more hmore =>
    exact (nameList_inside more).bind ((List.suffix_cons _ _).trans hleft) fun _ hleft => hleft
  · exact hleft
termination_by ts.length
decreasing_by grind

theorem typeName_inside (ts : List Located) : Inside ts leftover (typeName ts) := by
  rw [typeName]
  refine (identifier_inside ts).bind List.suffix_rfl ?_
  rintro ⟨first, rest, hrest⟩ hleft
  dsimp only
  split
  · exact (identifier_inside _).bind ((List.suffix_cons _ _).trans hleft) fun _ hleft => hleft
  · exact hleft

/-! ## Constructs -/

/-- Behind the first token, the readers stay inside the tokens. -/
def InsideBehind {ts : List Located} (inner : Behind ts) : Prop :=
  ∀ c us hus, Inside us leftover (inner c us hus)

section Constructs

variable {ts : List Located} {inner : Behind ts}

theorem InsideBehind.typeRound (h : InsideBehind inner) :
    Inside ts leftover (typeRound ts inner) := by
  rw [Go.typeRound.eq_def]
  split
  · exact (h .type _ _).bind (List.suffix_cons _ _) fun _ hleft => hleft
  · exact (h .type _ _).bind (suffix_cons_cons _ _ _) fun _ hleft => hleft
  · refine (exactly_inside _ _).bind (suffix_cons_cons _ _ _) ?_
    rintro ⟨_, rest, hrest⟩ hleft
    exact (h .type rest _).bind hleft fun _ hleft => hleft
  · refine (arrayLength_inside _ _).bind (List.suffix_cons _ _) ?_
    rintro ⟨_, rest, hrest⟩ hleft
    exact (h .type rest _).bind hleft fun _ hleft => hleft
  · refine (h .type _ _).bind (List.suffix_cons _ _) ?_
    rintro ⟨_, rest, hrest⟩ hleft
    exact (exactly_inside _ rest).bind hleft fun _ hleft => hleft
  · refine (exactly_inside _ _).bind (List.suffix_cons _ _) ?_
    rintro ⟨_, rest, hrest⟩ hleft
    exact (h .type rest _).bind hleft fun _ hleft => hleft
  -- a word is a keyword that starts a type, or a name
  · split
    · refine (exactly_inside _ _).bind (List.suffix_cons _ _) ?_
      rintro ⟨_, rest, hrest⟩ hleft
      refine (h .type rest _).bind hleft ?_
      rintro ⟨key, rest, hrest⟩ hleft
      refine (exactly_inside _ rest).bind hleft ?_
      rintro ⟨_, rest, hrest⟩ hleft
      exact (h .type rest _).bind hleft fun _ hleft => hleft
    split
    · refine (h .type _ _).bind ?_ fun _ hleft => hleft
      exact (chanDir_suffix _).trans (List.suffix_cons _ _)
    split
    · exact (h .signature _ _).bind (List.suffix_cons _ _) fun _ hleft => hleft
    split
    · refine (exactly_inside _ _).bind (List.suffix_cons _ _) ?_
      rintro ⟨_, rest, hrest⟩ hleft
      exact (h .members rest _).bind hleft fun _ hleft => hleft
    split
    · refine (exactly_inside _ _).bind (List.suffix_cons _ _) ?_
      rintro ⟨_, rest, hrest⟩ hleft
      exact (h .elements rest _).bind hleft fun _ hleft => hleft
    · refine (typeName_inside _).bind List.suffix_rfl ?_
      rintro ⟨base, rest, hrest⟩ hleft
      dsimp only
      split
      · exact (h .args _ _).bind ((List.suffix_cons _ _).trans hleft)
          fun _ hleft => hleft
      · exact hleft
  · exact inside_missing _ _

theorem InsideBehind.argsRound (h : InsideBehind inner) :
    Inside ts leftover (argsRound ts inner) := by
  rw [Go.argsRound]
  refine h.typeRound.bind List.suffix_rfl ?_
  rintro ⟨arg, rest, hrest⟩ hleft
  dsimp only
  split
  · exact (List.suffix_cons _ _).trans hleft
  · exact (suffix_cons_cons _ _ _).trans hleft
  · next more hmore _ =>
    exact (h .args more _).bind ((List.suffix_cons _ _).trans hleft) fun _ hleft => hleft
  · exact hleft

theorem InsideBehind.signatureRound (h : InsideBehind inner) :
    Inside ts leftover (signatureRound ts inner) := by
  rw [Go.signatureRound]
  refine (exactly_inside _ ts).bind List.suffix_rfl ?_
  rintro ⟨_, rest, hrest⟩ hleft
  refine (h .params rest _).bind hleft ?_
  rintro ⟨params, rest, hrest⟩ hleft
  dsimp only
  split
  · exact (h .params _ _).bind ((List.suffix_cons _ _).trans hleft) fun _ hleft => hleft
  · split
    · exact (h .type _ _).bind hleft fun _ hleft => hleft
    · exact hleft

theorem InsideBehind.paramsRound (h : InsideBehind inner) :
    Inside ts leftover (paramsRound ts inner) := by
  rw [Go.paramsRound.eq_def]
  split
  · exact (h .params _ _).bind (List.suffix_cons _ _) fun _ hleft => hleft
  · exact List.suffix_cons _ _
  · refine (h .type _ _).bind (List.suffix_cons _ _) ?_
    rintro ⟨elem, rest, hrest⟩ hleft
    dsimp only
    exact (h .params _ _).bind ((skipComma_suffix rest).trans hleft)
      fun _ hleft => hleft
  · refine h.typeRound.bind List.suffix_rfl ?_
    rintro ⟨first, rest, hrest⟩ hleft
    dsimp only
    split
    · exact (h .params _ _).bind ((List.suffix_cons _ _).trans hleft)
        fun _ hleft => hleft
    · exact (h .params _ _).bind hleft fun _ hleft => hleft
    · refine (h .type _ _).bind ((List.suffix_cons _ _).trans hleft) ?_
      rintro ⟨elem, rest, hrest⟩ hleft
      dsimp only
      exact (h .params _ _).bind ((skipComma_suffix rest).trans hleft)
        fun _ hleft => hleft
    · refine (h .type _ _).bind hleft ?_
      rintro ⟨type, rest, hrest⟩ hleft
      dsimp only
      exact (h .params _ _).bind ((skipComma_suffix rest).trans hleft)
        fun _ hleft => hleft
    · exact hleft

theorem InsideBehind.namesAndTypeRound (h : InsideBehind inner) :
    Inside ts leftover (namesAndTypeRound ts inner) := by
  -- an embedded type is read from the start again
  have hembedded : Inside ts leftover (do
      let found ← Go.typeRound ts inner
      return (([], found.1), found.2) : Reading (List String × TypeExpr) ts) :=
    h.typeRound.bind List.suffix_rfl fun _ hleft => hleft
  rw [Go.namesAndTypeRound.eq_def]
  split
  · exact hembedded
  · split
    · exact hembedded
    · exact hembedded
    · exact hembedded
    · exact hembedded
    · split
      · next type rest hrest htrial =>
        split
        · exact ((h .type _ _).of_ok htrial).trans (List.suffix_cons _ _)
        · exact hembedded
      · exact hembedded
    · refine (nameList_inside _).bind List.suffix_rfl ?_
      rintro ⟨names, rest, hrest⟩ hleft
      exact (h .type rest _).bind hleft fun _ hleft => hleft
  · exact inside_missing _ _

theorem InsideBehind.memberRound (h : InsideBehind inner) :
    Inside ts leftover (memberRound ts inner) := by
  rw [Go.memberRound]
  refine h.namesAndTypeRound.bind List.suffix_rfl ?_
  rintro ⟨⟨names, type⟩, rest, hrest⟩ hleft
  exact (optionalTag_suffix rest).trans hleft

theorem InsideBehind.membersRound (h : InsideBehind inner) :
    Inside ts leftover (membersRound ts inner) := by
  rw [Go.membersRound.eq_def]
  split
  · exact (h .members _ _).bind (List.suffix_cons _ _) fun _ hleft => hleft
  · exact List.suffix_cons _ _
  · refine h.memberRound.bind List.suffix_rfl ?_
    rintro ⟨field, rest, hrest⟩ hleft
    refine (terminator_inside rest).bind hleft ?_
    rintro ⟨rest, hrest⟩ hleft
    exact (h .members rest _).bind hleft fun _ hleft => hleft

theorem InsideBehind.termRound (h : InsideBehind inner) :
    Inside ts leftover (termRound ts inner) := by
  rw [Go.termRound.eq_def]
  split
  · exact (h .type _ _).bind (List.suffix_cons _ _) fun _ hleft => hleft
  · exact h.typeRound.bind List.suffix_rfl fun _ hleft => hleft

theorem InsideBehind.termsRound (h : InsideBehind inner) :
    Inside ts leftover (termsRound ts inner) := by
  rw [Go.termsRound]
  refine h.termRound.bind List.suffix_rfl ?_
  rintro ⟨term, rest, hrest⟩ hleft
  dsimp only
  split
  · split
    · exact (h .terms _ _).bind ((List.suffix_cons _ _).trans hleft) fun _ hleft => hleft
    · exact hleft
  · exact hleft

theorem InsideBehind.elementsRound (h : InsideBehind inner) :
    Inside ts leftover (elementsRound ts inner) := by
  rw [Go.elementsRound.eq_def]
  split
  · exact (h .elements _ _).bind (List.suffix_cons _ _) fun _ hleft => hleft
  · exact List.suffix_cons _ _
  · refine (identifier_inside _).bind List.suffix_rfl ?_
    rintro ⟨name, _⟩ _
    refine (h .signature _ _).bind (List.suffix_cons _ _) ?_
    rintro ⟨signature, rest, hrest⟩ hleft
    refine (terminator_inside rest).bind hleft ?_
    rintro ⟨rest, hrest⟩ hleft
    exact (h .elements rest _).bind hleft fun _ hleft => hleft
  · refine h.termsRound.bind List.suffix_rfl ?_
    rintro ⟨terms, rest, hrest⟩ hleft
    refine (terminator_inside rest).bind hleft ?_
    rintro ⟨rest, hrest⟩ hleft
    exact (h .elements rest _).bind hleft fun _ hleft => hleft

end Constructs

/-! ## Declarations -/

theorem typeParams_inside (depth : Nat) (atName : Bool) (ts : List Located) :
    Inside ts leftover (typeParams depth atName ts) := by
  induction ts generalizing depth atName with
  | nil => exact List.suffix_rfl
  | cons t ts ih =>
    rw [typeParams]
    split
    · exact List.suffix_cons _ _
    · refine (ih _ _).bind (List.suffix_cons _ _) ?_
      rintro ⟨names, rest, hrest⟩ hleft
      dsimp only
      split
      · exact hleft
      · exact hleft

theorem optionalTypeParams_inside (ts : List Located) :
    Inside ts leftover (optionalTypeParams ts) := by
  unfold optionalTypeParams
  split
  · exact (typeParams_inside _ _ _).bind (List.tail_suffix ts) fun _ hleft => hleft
  · exact List.suffix_rfl

theorem aliasMark_suffix (ts : List Located) : leftover (aliasMark ts) <:+ ts := by
  unfold aliasMark
  split
  · exact List.suffix_cons _ _
  · exact List.suffix_rfl

section Declarations

variable {ts : List Located} {inner : Behind ts}

theorem InsideBehind.declRound (h : InsideBehind inner) :
    Inside ts leftover (declRound ts inner) := by
  rw [Go.declRound]
  refine (identifier_inside ts).bind List.suffix_rfl ?_
  rintro ⟨name, rest, hrest⟩ hleft
  refine (optionalTypeParams_inside rest).bind hleft ?_
  rintro ⟨params, rest, hrest⟩ hleft
  dsimp only
  exact (h .type _ _).bind ((aliasMark_suffix rest).trans hleft) fun _ hleft => hleft

theorem InsideBehind.declsRound (h : InsideBehind inner) :
    Inside ts leftover (declsRound ts inner) := by
  rw [Go.declsRound.eq_def]
  split
  · exact (h .decls _ _).bind (List.suffix_cons _ _) fun _ hleft => hleft
  · exact List.suffix_cons _ _
  · refine h.declRound.bind List.suffix_rfl ?_
    rintro ⟨decl, rest, hrest⟩ hleft
    refine (terminator_inside rest).bind hleft ?_
    rintro ⟨rest, hrest⟩ hleft
    exact (h .decls rest _).bind hleft fun _ hleft => hleft

/-- A round stays inside the tokens if what it uses behind its start does. -/
theorem InsideBehind.round (h : InsideBehind inner) (c : Construct) :
    Inside ts leftover (round c ts inner) := by
  cases c with
  | type => exact h.typeRound
  | args => exact h.argsRound
  | signature => exact h.signatureRound
  | params => exact h.paramsRound
  | member => exact h.memberRound
  | members => exact h.membersRound
  | terms => exact h.termsRound
  | elements => exact h.elementsRound
  | decl => exact h.declRound
  | decls => exact h.declsRound

end Declarations

/-- Constructs are read inside the tokens. -/
theorem readers_inside (c : Construct) (ts : List Located) : Inside ts leftover (readers c ts) := by
  have hbehind : InsideBehind fun c us (_ : us.length < ts.length) => readers c us :=
    fun c us _hus => readers_inside c us
  rw [readers_eq]
  exact hbehind.round c
termination_by ts.length
decreasing_by exact _hus

/-! ## Files -/

theorem importName_suffix (ts : List Located) : leftover (importName ts) <:+ ts := by
  unfold importName
  split
  · exact List.suffix_cons _ _
  · exact List.suffix_cons _ _
  · exact List.suffix_rfl

theorem importSpec_inside (ts : List Located) : Inside ts leftover (importSpec ts) := by
  unfold importSpec
  exact (stringLiteral_inside _).bind (importName_suffix ts) fun _ hleft => hleft

theorem importGroup_inside (ts : List Located) : Inside ts leftover (importGroup ts) := by
  rw [importGroup.eq_def]
  split
  · exact (importGroup_inside _).bind (List.suffix_cons _ _) fun _ hleft => hleft
  · exact List.suffix_cons _ _
  · refine (importSpec_inside _).bind List.suffix_rfl ?_
    rintro ⟨spec, rest, hrest⟩ hleft
    refine (terminator_inside rest).bind hleft ?_
    rintro ⟨rest, hrest⟩ hleft
    exact (importGroup_inside rest).bind hleft fun _ hleft => hleft
termination_by ts.length
decreasing_by all_goals grind

theorem importDecls_inside (ts : List Located) : Inside ts leftover (importDecls ts) := by
  rw [importDecls.eq_def]
  split
  · exact (importDecls_inside _).bind (List.suffix_cons _ _) fun _ hleft => hleft
  · split
    · split
      · refine (importGroup_inside _).bind (suffix_cons_cons _ _ _) ?_
        rintro ⟨group, rest, hrest⟩ hleft
        refine (terminator_inside rest).bind hleft ?_
        rintro ⟨rest, hrest⟩ hleft
        exact (importDecls_inside rest).bind hleft fun _ hleft => hleft
      · refine (importSpec_inside _).bind (List.suffix_cons _ _) ?_
        rintro ⟨spec, rest, hrest⟩ hleft
        refine (terminator_inside rest).bind hleft ?_
        rintro ⟨rest, hrest⟩ hleft
        exact (importDecls_inside rest).bind hleft fun _ hleft => hleft
    · exact List.suffix_rfl
  · exact List.suffix_rfl
termination_by ts.length
decreasing_by all_goals grind

/-- Passing over a declaration stays inside the tokens, though open brackets are reported at its
start. -/
theorem skipDecl_inside {start all : List Located} (hstart : start <:+ all) (depth : Nat)
    (t : Located) (ts : List Located) (hts : t :: ts <:+ all) :
    Inside all Subtype.val (skipDecl start depth t ts) := by
  have hbehind := (List.suffix_cons t ts).trans hts
  induction ts generalizing depth t with
  | nil =>
    rw [skipDecl]
    split
    · exact hbehind
    · split
      · exact hts
      · dsimp only
        split
        · exact hbehind
        · exact hstart
  | cons t' ts ih =>
    rw [skipDecl]
    split
    · exact hbehind
    · split
      · exact hts
      · exact (ih _ t' hbehind ((List.suffix_cons _ _).trans hbehind)).bind List.suffix_rfl
          fun _ hleft => hleft

theorem InsideBehind.typeDeclsRound {ts : List Located} {inner : Behind ts}
    {later : (us : List Located) → us.length < ts.length → Except Stuck (List TypeDecl)}
    (h : InsideBehind inner) (hlater : ∀ us hus, Inside us (fun _ => []) (later us hus)) :
    Inside ts (fun _ => []) (typeDeclsRound ts inner later) := by
  rw [Go.typeDeclsRound.eq_def]
  split
  · exact List.suffix_rfl
  · exact (hlater _ _).mono (List.suffix_cons _ _)
  · split
    · split
      · refine (h .decls _ _).bind (suffix_cons_cons _ _ _) ?_
        rintro ⟨group, rest, hrest⟩ hleft
        refine (terminator_inside rest).bind hleft ?_
        rintro ⟨rest, hrest⟩ hleft
        exact (hlater rest _).bind hleft fun _ hleft => hleft
      · refine (h .decl _ _).bind (List.suffix_cons _ _) ?_
        rintro ⟨decl, rest, hrest⟩ hleft
        refine (terminator_inside rest).bind hleft ?_
        rintro ⟨rest, hrest⟩ hleft
        exact (hlater rest _).bind hleft fun _ hleft => hleft
    · refine (skipDecl_inside List.suffix_rfl 0 _ _ List.suffix_rfl).bind List.suffix_rfl ?_
      rintro ⟨rest, hrest⟩ hleft
      exact (hlater rest _).mono hleft

theorem typeDecls_inside (ts : List Located) : Inside ts (fun _ => []) (typeDecls ts) := by
  rw [typeDecls]
  exact InsideBehind.typeDeclsRound (fun c us _ => readers_inside c us)
    fun us _hus => typeDecls_inside us
termination_by ts.length
decreasing_by exact _hus

theorem ofTokens_inside (name : String) (ts : List Located) :
    Inside ts (fun _ => []) (SourceFile.ofTokens name ts) := by
  rw [SourceFile.ofTokens, SourceFile.ofTokensBy]
  refine (exactly_inside _ _).bind (List.dropWhile_suffix _) ?_
  rintro ⟨_, rest, hrest⟩ hleft
  refine (identifier_inside rest).bind hleft ?_
  rintro ⟨package, rest, hrest⟩ hleft
  refine (terminator_inside rest).bind hleft ?_
  rintro ⟨rest, hrest⟩ hleft
  refine (importDecls_inside rest).bind hleft ?_
  rintro ⟨imports, rest, hrest⟩ hleft
  exact (typeDecls_inside rest).bind hleft fun _ hleft => hleft

/-! ## Places -/

/-- Reading at the place `i` of `all` goes on to a later one, at most to the end, or fails at a
place from there on. -/
def Advances {α : Type} (all : List Located) (i : Nat) (left : α → List Located) :
    Except Stuck α → Prop
  | .ok found => ∃ j, i < j ∧ j ≤ all.length ∧ left found = all.drop j
  | .error stuck => ∃ j, i ≤ j ∧ j ≤ all.length ∧ stuck.place = all.drop j

theorem exists_place {all us : List Located} {i : Nat} (hi : i ≤ all.length)
    (hus : us <:+ all.drop i) : ∃ j, i ≤ j ∧ j ≤ all.length ∧ us = all.drop j := by
  obtain ⟨front, hfront⟩ := hus
  have hlength : front.length + us.length = all.length - i := by
    rw [← List.length_append, hfront, List.length_drop]
  refine ⟨i + front.length, Nat.le_add_right _ _, by omega, ?_⟩
  rw [← List.drop_drop, ← hfront, List.drop_left]

/-- Reading that stays inside the tokens and leaves fewer of them advances. -/
theorem Inside.advances {α : Type} {all : List Located} {i : Nat} {left : α → List Located}
    {x : Except Stuck α} (h : Inside (all.drop i) left x) (hi : i ≤ all.length)
    (hfewer : ∀ found, (left found).length < (all.drop i).length) : Advances all i left x := by
  cases x with
  | error stuck => exact exists_place hi h
  | ok found =>
    obtain ⟨j, hij, hj, hleft⟩ := exists_place hi h
    have hlength := hfewer found
    rw [hleft, List.length_drop, List.length_drop] at hlength
    exact ⟨j, by omega, hj, hleft⟩

theorem readers_advance (c : Construct) (all : List Located) {i : Nat} (hi : i ≤ all.length) :
    Advances all i leftover (readers c (all.drop i)) :=
  (readers_inside c _).advances hi fun found => found.2.property

/-- Reads a parameter list with both its parentheses. -/
def parameterList (ts : List Located) : Reading (List Param) ts := do
  let opening ← exactly .leftParen ts
  let params ← parameters opening.2.val
  return (params.1, ⟨params.2.val, Nat.lt_trans params.2.property opening.2.property⟩)

theorem parameterList_inside (ts : List Located) : Inside ts leftover (parameterList ts) := by
  rw [parameterList]
  refine (exactly_inside _ ts).bind List.suffix_rfl fun opening hleft => ?_
  exact (readers_inside .params opening.2.val).bind hleft fun _ hleft => hleft

/-- A signature is a parameter list with the results behind it: another parameter list, a type or
nothing. -/
theorem signature_eq (ts : List Located) : signature ts = (do
    let params ← parameterList ts
    if next params.2.val = some .leftParen then do
      let results ← parameterList params.2.val
      return (.mk params.1 results.1 true,
        ⟨results.2.val, Nat.lt_trans results.2.property params.2.property⟩)
    else if ((next params.2.val).map Token.startsType).getD false then do
      let result ← typeExpr params.2.val
      return (.mk params.1 [.mk none result.1] false,
        ⟨result.2.val, Nat.lt_trans result.2.property params.2.property⟩)
    else return (.mk params.1 [] false, params.2)) := by
  rw [signature, readers_eq, round, signatureRound, parameterList, bind_assoc]
  refine bind_rest_congr fun _ rest hrest => ?_
  dsimp only
  rw [bind_assoc]
  refine bind_rest_congr fun params rest hrest => ?_
  rw [pure_bind]
  dsimp only
  rcases rest with _ | ⟨⟨line, token⟩, more⟩
  · rfl
  · cases token with
    | leftParen =>
      rw [if_pos (show next (⟨line, .leftParen⟩ :: more) = some .leftParen from rfl)]
      change _ = (parameters more >>= _) >>= _
      rw [bind_assoc]
      rfl
    | _ => rfl

theorem skipDecl_advances {all ts : List Located} {t : Located} {i : Nat}
    (hi : all.drop i = t :: ts) : Advances all i Subtype.val (skipDecl (t :: ts) 0 t ts) := by
  have hlength := congrArg List.length hi
  rw [List.length_drop, List.length_cons] at hlength
  have hinside : Inside (all.drop i) Subtype.val (skipDecl (t :: ts) 0 t ts) := by
    rw [hi]
    exact skipDecl_inside List.suffix_rfl 0 t ts List.suffix_rfl
  refine hinside.advances (by omega) fun rest => ?_
  rw [hi]
  exact Nat.lt_succ_of_le rest.property

/-- Reading comes to an end inside the tokens: from each place, a type, a type declaration, a
struct member, a parameter list, a signature or a declaration to pass over is read up to a later
place, at most the end, or there is a fault at a place from there on.  So is a file read or found
faulty at one of its places, with at most as many rounds inside one another as it has places. -/
theorem reading_ends (name : String) (all : List Located) :
    (∀ i ≤ all.length,
      Advances all i leftover (typeExpr (all.drop i)) ∧
      Advances all i leftover (typeSpec (all.drop i)) ∧
      Advances all i leftover (member (all.drop i)) ∧
      Advances all i leftover (parameterList (all.drop i)) ∧
      Advances all i leftover (signature (all.drop i))) ∧
    (∀ i t ts, all.drop i = t :: ts →
      Advances all i Subtype.val (skipDecl (t :: ts) 0 t ts)) ∧
    ((∃ file, SourceFile.ofTokens name all = .ok file) ∨
      ∃ fault, ∃ j ≤ all.length, SourceFile.ofTokens name all = .error ⟨fault, all.drop j⟩) ∧
    ∀ giveUp stop depth, all.length < depth →
      SourceFile.ofTokensWithin giveUp stop depth name all = SourceFile.ofTokens name all := by
  refine ⟨fun i hi => ⟨?_, ?_, ?_, ?_, ?_⟩, fun i t ts hi => skipDecl_advances hi, ?_, ?_⟩
  · exact readers_advance .type all hi
  · exact readers_advance .decl all hi
  · exact readers_advance .member all hi
  · exact (parameterList_inside _).advances hi fun found => found.2.property
  · exact readers_advance .signature all hi
  · have hinside := ofTokens_inside name all
    cases hfile : SourceFile.ofTokens name all with
    | ok file => exact .inl ⟨file, rfl⟩
    | error stuck =>
      rw [hfile] at hinside
      obtain ⟨j, -, hj, hplace⟩ := exists_place (Nat.zero_le _) hinside
      exact .inr ⟨stuck.fault, j, hj, by rw [← hplace]⟩
  · exact fun giveUp stop depth hdepth => SourceFile.ofTokensWithin_eq giveUp stop name hdepth

/-- The tokens of a file with one struct, which has the embedded member `Base[int]`. -/
def embeddingTokens : List Located :=
  [⟨1, .word "package"⟩, ⟨1, .word "p"⟩, ⟨1, .semicolon⟩, ⟨2, .word "type"⟩, ⟨2, .word "T"⟩,
    ⟨2, .word "struct"⟩, ⟨2, .leftBrace⟩, ⟨2, .word "Base"⟩, ⟨2, .leftBracket⟩,
    ⟨2, .word "int"⟩, ⟨2, .rightBracket⟩, ⟨2, .rightBrace⟩, ⟨2, .semicolon⟩]

-- behind `Base` there is no array length and type, so that the member is read from `Base` again
theorem reading_ends_embedded :
    7 ≤ embeddingTokens.length ∧
    (∃ found, member (embeddingTokens.drop 7) = .ok found ∧
      leftover found = embeddingTokens.drop 11) ∧
    Advances embeddingTokens 7 leftover (member (embeddingTokens.drop 7)) ∧
    Advances embeddingTokens 3 Subtype.val
      (skipDecl (embeddingTokens.drop 3) 0 ⟨2, .word "type"⟩ (embeddingTokens.drop 4)) ∧
    embeddingTokens.length < 14 ∧
    SourceFile.ofTokensWithin (fun _ ts => missing .type ts) (fun _ => .ok []) 14 "a.go"
      embeddingTokens = SourceFile.ofTokens "a.go" embeddingTokens := by
  have hplace : 7 ≤ embeddingTokens.length := by decide
  have hdepth : embeddingTokens.length < 14 := by decide
  obtain ⟨hconstructs, hskip, -, hwithin⟩ := reading_ends "a.go" embeddingTokens
  refine ⟨hplace, ?_, (hconstructs 7 hplace).2.2.1, hskip 3 _ _ rfl, hdepth,
    hwithin _ _ 14 hdepth⟩
  change ∃ found, readers .member (embeddingTokens.drop 7) = .ok found ∧ _
  rw [← readersWithin_eq (fun _ ts => missing .type ts)
    (show (embeddingTokens.drop 7).length < 7 by decide)]
  exact ⟨_, rfl, rfl⟩

end StructCopy.Go
