/-
  Proofs/Go/Names: names in declared types are identifiers.

  Every word among the tokens of a text starts with a letter or an underscore and goes on
  with what an identifier may hold.  What a reader leaves is always an end of the tokens
  that it was given, so that the names in a type, those of struct members among them, are
  words of the file.
-/
import StructCopy.Proofs.Go.Cutting
import StructCopy.Proofs.Go.FileGrammar
import StructCopy.Proofs.Go.Progress
import StructCopy.Proofs.Go.Relocation
import StructCopy.Proofs.Go.TypeParts

set_option autoImplicit false

namespace StructCopy.Go

/-! ## Words of a text -/

/-- Every word among the tokens is an identifier. -/
def Spelled (ts : List Located) : Prop :=
  ∀ t ∈ ts, ∀ w, t.token = .word w → Text.isIdentifier w.toList = true

theorem isIdentifier_of_cutsOff {c : Char} {s rest : List Char} {w : String} {breaks : Nat}
    (h : CutsOff c s (.token (.word w) breaks) rest) : Text.isIdentifier w.toList = true := by
  generalize hpiece : Piece.token (.word w) breaks = piece at h
  cases h with
  | word hstart =>
    cases hpiece
    rw [String.toList_ofList, Text.isIdentifier, hstart, List.all_takeWhile]
    rfl
  | @longOperator _ _ _ text =>
    rcases longOperator_cases text with h | h | h <;> rw [h] at hpiece <;> cases hpiece
  | shortOperator htoken =>
    cases hpiece
    exact absurd htoken (shortOperator?_ne_word _ w)
  | _ => cases hpiece

theorem isIdentifier_of_mem_pieces {s : List Char} {w : String} {breaks : Nat}
    (h : .token (.word w) breaks ∈ (pieces s).1) : Text.isIdentifier w.toList = true := by
  fun_induction pieces s with
  | case1 => cases h
  | case2 => cases h
  | case3 c s piece rest hstep found ih =>
    rcases List.mem_cons.1 h with rfl | h
    · exact isIdentifier_of_cutsOff (cutsOff_of_step hstep)
    · exact ih h

/-- Layout makes up semicolons, but no words. -/
theorem mem_of_mem_layout {w : String} {ps : List Piece} {line : Nat} {pending : Bool}
    {t : Located} (h : t ∈ (layout line pending ps).tokens) (hw : t.token = .word w) :
    ∃ breaks, .token (.word w) breaks ∈ ps := by
  have hsemicolon : ∀ {line}, t ≠ ⟨line, .semicolon⟩ := by
    rintro line rfl
    cases hw
  induction ps generalizing line pending with
  | nil =>
    rw [layout] at h
    split at h
    · exact absurd (List.mem_singleton.1 h) hsemicolon
    · cases h
  | cons piece ps ih =>
    -- what is found further on is found in the whole text
    have hlater : ∀ {line pending}, t ∈ (layout line pending ps).tokens →
        ∃ breaks, .token (.word w) breaks ∈ piece :: ps := by
      intro line pending hmem
      obtain ⟨breaks, hbreaks⟩ := ih hmem
      exact ⟨breaks, List.mem_cons_of_mem _ hbreaks⟩
    cases piece with
    | token token breaks =>
      rcases List.mem_cons.1 h with rfl | h
      · cases hw
        exact ⟨breaks, List.mem_cons_self⟩
      · exact hlater h
    | blank => exact hlater h
    | lineBreak =>
      rw [layout] at h
      split at h
      · rcases List.mem_cons.1 h with h | h
        · exact absurd h hsemicolon
        · exact hlater h
      · exact hlater h
    | comment breaks =>
      rw [layout] at h
      split at h
      · rcases List.mem_cons.1 h with h | h
        · exact absurd h hsemicolon
        · exact hlater h
      · exact hlater h

theorem spelled_of_tokenize {source : String} {list : TokenList} (h : tokenize source = .ok list) :
    Spelled list.tokens := by
  unfold tokenize at h
  split at h
  · next ps hpieces =>
    cases h
    intro t ht w hw
    obtain ⟨breaks, hmem⟩ := mem_of_mem_layout ht hw
    have hps : ps = (pieces (withoutMark source.toList)).1 := by rw [hpieces]
    rw [hps] at hmem
    exact isIdentifier_of_mem_pieces hmem
  · cases h

/-! ## What readers leave -/

theorem Ends.suffix {ts rest : List Located} (h : Ends ts rest) : rest <:+ ts := by
  cases h with
  | semicolon => exact List.suffix_cons _ _
  | before => exact List.suffix_rfl

theorem ReadsTag.suffix {tag : Option String} {ts rest : List Located} (h : ReadsTag tag ts rest) :
    rest <:+ ts := by
  cases h with
  | tag => exact List.suffix_cons _ _
  | none => exact List.suffix_rfl

theorem suffix_of_arrayLength {depth : Nat} {text : String} {ts rest : List Located}
    (h : outcome (arrayLength depth ts) = some (text, rest)) : rest <:+ ts := by
  obtain ⟨body, heq, -⟩ := @outcome_arrayLength_relocate [] rest rest depth ts text h
  exact ⟨body, heq.symm⟩

/-! ## Names of a phrase -/

/-- The parts of the text of a phrase, without what stands between the entries of a list. -/
def Phrase.parts : Phrase → List TypePart
  | .type t => t.parts
  | .args ts => (partsOfTypes ts).flatten
  | .signature s => s.parts
  | .params ps => (partsOfParams ps).flatten
  | .fields fs => (partsOfFields fs).flatten
  | .member names t => names.map .name ++ t.parts
  | .elems es => (partsOfElems es).flatten
  | .terms ts => (partsOfTerms ts).flatten
  | .term t => t.parts

/-- The names in a phrase. -/
def Phrase.names (phrase : Phrase) : List String :=
  phrase.parts.flatMap TypePart.names

theorem names_signature (params results : List Param) (parenResults : Bool) :
    (Phrase.signature (.mk params results parenResults)).names =
      (Phrase.params params).names ++ (Phrase.params results).names :=
  flatMap_signatureParts_of_marks (fun _ => rfl) params results parenResults

/-- The name is a word among the tokens. -/
def WordIn (ts : List Located) (name : String) : Prop :=
  ∃ t ∈ ts, t.token = .word name

theorem WordIn.mono {ts rest : List Located} {name : String} (h : WordIn rest name)
    (hrest : rest <:+ ts) : WordIn ts name := by
  obtain ⟨t, ht, hword⟩ := h
  exact ⟨t, hrest.subset ht, hword⟩

/-- Some tokens end in others, and the names are words among them. -/
structure Takes (names : List String) (ts rest : List Located) : Prop where
  suffix : rest <:+ ts
  words : ∀ name ∈ names, WordIn ts name

namespace Takes

variable {names more : List String} {ts mid rest : List Located}

theorem nothing {ts rest : List Located} (h : rest <:+ ts) : Takes [] ts rest :=
  ⟨h, fun _ hname => absurd hname List.not_mem_nil⟩

theorem before (h : Takes names ts rest) {start : List Located} (hstart : ts <:+ start) :
    Takes names start rest :=
  ⟨h.suffix.trans hstart, fun name hname => (h.words name hname).mono hstart⟩

theorem cons (h : Takes names ts rest) (t : Located) : Takes names (t :: ts) rest :=
  h.before (List.suffix_cons t ts)

theorem word (line : Nat) (w : String) (rest : List Located) :
    Takes [w] (⟨line, .word w⟩ :: rest) rest := by
  refine ⟨List.suffix_cons _ _, fun name hname => ?_⟩
  rw [List.mem_singleton.1 hname]
  exact ⟨_, List.mem_cons_self, rfl⟩

theorem drop {t : Located} (h : Takes names ts (t :: rest)) : Takes names ts rest :=
  ⟨(List.suffix_cons _ _).trans h.suffix, h.words⟩

theorem append (h : Takes names ts mid) (h' : Takes more mid rest) :
    Takes (names ++ more) ts rest := by
  refine ⟨h'.suffix.trans h.suffix, fun name hname => ?_⟩
  rcases List.mem_append.1 hname with hname | hname
  · exact h.words name hname
  · exact (h'.words name hname).mono h.suffix

theorem of_eq (h : Takes names ts rest) (heq : more = names) : Takes more ts rest := by
  rwa [heq]

end Takes

theorem ReadsName.takes {type : TypeExpr} {ts rest : List Located} (h : ReadsName type ts rest) :
    Takes type.names ts rest := by
  cases h with
  | named => exact .word _ _ _
  | qualified => exact ((Takes.word _ _ _).cons _).cons _

theorem ReadsNames.takes {names : List String} {ts rest : List Located}
    (h : ReadsNames names ts rest) : Takes names ts rest := by
  induction h with
  | last => exact .word _ _ _
  | cons _ _ ih => exact (Takes.word _ _ _).append (ih.cons _)

/-- The names in a phrase are words among the tokens that it is read from. -/
theorem Reads.takes {phrase : Phrase} {ts rest : List Located} (h : Reads phrase ts rest) :
    Takes phrase.names ts rest := by
  induction h with
  -- types
  | pointer _ ih => exact ih.cons _
  | slice _ ih => exact (ih.cons _).cons _
  | openArray _ ih => exact ((ih.cons _).cons _).cons _
  | array _ _ hlength _ ih => exact (ih.before (suffix_of_arrayLength hlength)).cons _
  | paren _ ih =>
    refine (ih.drop.cons _).of_eq ?_
    simp [Phrase.names, Phrase.parts, TypeExpr.parts, TypePart.names]
  | receive _ ih => exact (ih.cons _).cons _
  | map _ _ ihkey ihvalue =>
    refine (((ihkey.drop.append ihvalue).cons _).cons _).of_eq ?_
    simp [Phrase.names, Phrase.parts, TypeExpr.parts, TypePart.names]
  | send _ ih => exact (ih.cons _).cons _
  | chan _ _ ih => exact ih.cons _
  | func _ ih => exact ih.cons _
  | struct _ ih =>
    refine ((ih.cons _).cons _).of_eq ?_
    simp [Phrase.names, Phrase.parts, TypeExpr.parts]
  | interface _ ih =>
    refine ((ih.cons _).cons _).of_eq ?_
    simp [Phrase.names, Phrase.parts, TypeExpr.parts]
  | name h _ => exact h.takes
  | generic hbase _ ih =>
    refine (hbase.takes.drop.append ih).of_eq ?_
    simp [Phrase.names, Phrase.parts, TypeExpr.parts, TypePart.names, TypeExpr.names]
  -- type arguments
  | lastArg _ ih =>
    refine ih.drop.of_eq ?_
    simp [Phrase.names, Phrase.parts, partsOfTypes]
  | lastArgComma _ ih =>
    refine ih.drop.drop.of_eq ?_
    simp [Phrase.names, Phrase.parts, partsOfTypes]
  | nextArg _ _ _ ih ihargs =>
    refine (ih.drop.append ihargs).of_eq ?_
    simp [Phrase.names, Phrase.parts, partsOfTypes]
  -- signatures
  | results _ _ ihparams ihresults =>
    exact ((ihparams.drop.append ihresults).cons _).of_eq (names_signature _ _ _)
  | result _ _ _ _ ihparams ihresult =>
    refine ((ihparams.append ihresult).cons _).of_eq ((names_signature _ _ _).trans ?_)
    simp [Phrase.names, Phrase.parts, partsOfParams, Param.parts]
  | noResult _ _ ih =>
    refine (ih.cons _).of_eq ((names_signature _ _ _).trans ?_)
    simp [Phrase.names, Phrase.parts, partsOfParams]
  -- parameters
  | paramSemicolon _ ih => exact ih.cons _
  | noParam => exact .nothing (List.suffix_cons _ _)
  | ellipsisParam _ _ ih ihparams =>
    refine ((ih.append (ihparams.before (skipComma_suffix _))).cons _).of_eq ?_
    simp [Phrase.names, Phrase.parts, partsOfParams, Param.parts, TypeExpr.parts, TypePart.names]
  | typeParam _ _ ih ihparams =>
    refine (ih.drop.append ihparams).of_eq ?_
    simp [Phrase.names, Phrase.parts, partsOfParams, Param.parts]
  | lastTypeParam _ _ ih ihparams =>
    refine (ih.append ihparams).of_eq ?_
    simp [Phrase.names, Phrase.parts, partsOfParams, Param.parts]
  | namedEllipsis _ _ _ ihname ih ihparams =>
    refine (ihname.drop.append (ih.append (ihparams.before (skipComma_suffix _)))).of_eq ?_
    simp [Phrase.names, Phrase.parts, partsOfParams, Param.parts, TypeExpr.parts, TypePart.names]
  | namedParam _ _ _ ihname ih ihparams =>
    refine (ihname.append (ih.append (ihparams.before (skipComma_suffix _)))).of_eq ?_
    simp [Phrase.names, Phrase.parts, partsOfParams, Param.parts, TypeExpr.parts, TypePart.names]
  -- struct members
  | fieldSemicolon _ ih => exact ih.cons _
  | noField => exact .nothing (List.suffix_cons _ _)
  | field _ htag hends _ ih ihfields =>
    refine (ih.append (ihfields.before (hends.suffix.trans htag.suffix))).of_eq ?_
    simp [Phrase.names, Phrase.parts, partsOfFields, Field.parts, names_nameParts, names_tagParts]
  | embeddedPointer _ _ ih => exact ih
  | embeddedName _ _ ih => exact ih
  | arrayMember _ _ _ ih => exact (Takes.word _ _ _).append ih
  | embeddedGeneric _ _ _ ih => exact ih
  | namedMember _ _ _ hnames _ ih =>
    refine (hnames.takes.append ih).of_eq ?_
    simp [Phrase.names, Phrase.parts]
  -- interface elements
  | elemSemicolon _ ih => exact ih.cons _
  | noElem => exact .nothing (List.suffix_cons _ _)
  | method _ _ _ hends _ ih ihelems =>
    refine ((Takes.word _ _ _).append (ih.append (ihelems.before hends.suffix))).of_eq ?_
    simp [Phrase.names, Phrase.parts, partsOfElems, InterfaceElem.parts, TypePart.names]
  | union _ _ hends _ ih ihelems =>
    refine (ih.append (ihelems.before hends.suffix)).of_eq ?_
    simp [Phrase.names, Phrase.parts, partsOfElems, InterfaceElem.parts]
  | lastTerm _ _ ih =>
    refine ih.of_eq ?_
    simp [Phrase.names, Phrase.parts, partsOfTerms]
  | nextTerm _ _ ih ihterms =>
    refine (ih.drop.append ihterms).of_eq ?_
    simp [Phrase.names, Phrase.parts, partsOfTerms]
  | approximate _ ih => exact ih.cons _
  | exact _ ih => exact ih

theorem Reads.suffix {phrase : Phrase} {ts rest : List Located} (h : Reads phrase ts rest) :
    rest <:+ ts :=
  h.takes.suffix

/-! ## Names in declarations -/

theorem ReadsParamNames.suffix {depth : Nat} {atName : Bool} {names : List String}
    {ts rest : List Located} (h : ReadsParamNames depth atName names ts rest) : rest <:+ ts := by
  induction h with
  | close => exact List.suffix_cons _ _
  | name _ ih => exact ih.trans (List.suffix_cons _ _)
  | other _ _ _ ih => exact ih.trans (List.suffix_cons _ _)

theorem ReadsParams.suffix {names : List String} {ts rest : List Located}
    (h : ReadsParams names ts rest) : rest <:+ ts := by
  cases h with
  | list _ h => exact h.suffix.trans (List.suffix_cons _ _)
  | none => exact List.suffix_rfl

theorem ReadsAliasMark.suffix {isAlias : Bool} {ts rest : List Located}
    (h : ReadsAliasMark isAlias ts rest) : rest <:+ ts := by
  cases h with
  | mark => exact List.suffix_cons _ _
  | none => exact List.suffix_rfl

theorem ReadsDecl.takes {decl : TypeDecl} {ts rest : List Located} (h : ReadsDecl decl ts rest) :
    Takes decl.type.names ts rest := by
  obtain ⟨-, hparams, halias, htype⟩ := h
  have htakes : Takes _ _ rest := htype.takes
  exact (htakes.before (halias.suffix.trans hparams.suffix)).cons _

theorem ReadsImport.suffix {spec : Import} {ts rest : List Located}
    (h : ReadsImport spec ts rest) : rest <:+ ts := by
  cases h with
  | plain => exact List.suffix_cons _ _
  | named => exact (List.suffix_cons _ _).trans (List.suffix_cons _ _)
  | dot => exact (List.suffix_cons _ _).trans (List.suffix_cons _ _)

theorem Skips.suffix {depth : Nat} {ts rest : List Located} (h : Skips depth ts rest) :
    rest <:+ ts := by
  induction h with
  | semicolon => exact List.suffix_cons _ _
  | last => exact List.nil_suffix
  | next _ _ ih => exact ih.trans (List.suffix_cons _ _)

section

variable {α : Type} {namesOf : α → List String} {specs : List α} {ts rest : List Located}

theorem ReadsGroup.takes {Spec : α → List Located → List Located → Prop}
    (hspec : ∀ spec ts rest, Spec spec ts rest → Takes (namesOf spec) ts rest)
    (h : ReadsGroup Spec specs ts rest) : Takes (specs.flatMap namesOf) ts rest := by
  induction h with
  | semicolon _ ih => exact ih.cons _
  | done => exact .nothing (List.suffix_cons _ _)
  | spec h hends _ ih => exact (hspec _ _ _ h).append (ih.before hends.suffix)

theorem ReadsClause.takes {Spec : α → List Located → List Located → Prop} {keyword : String}
    (hspec : ∀ spec ts rest, Spec spec ts rest → Takes (namesOf spec) ts rest)
    (h : ReadsClause Spec keyword specs ts rest) : Takes (specs.flatMap namesOf) ts rest := by
  cases h with
  | group h hends =>
    refine ((((h.takes hspec).append (.nothing hends.suffix)).cons _).cons _).of_eq ?_
    rw [List.append_nil]
  | single h hends => exact ((hspec _ _ _ h).append (.nothing hends.suffix)).cons _

/-- What the rounds of a loop take is what each of them takes. -/
theorem Rounds.takes {Round : List α → List Located → List Located → Prop}
    (hround : ∀ specs ts rest, Round specs ts rest → Takes (specs.flatMap namesOf) ts rest)
    (h : Rounds Round specs ts rest) : Takes (specs.flatMap namesOf) ts rest := by
  induction h with
  | refl ts => exact .nothing List.suffix_rfl
  | round h _ ih => exact ((hround _ _ _ h).append ih).of_eq List.flatMap_append

end

theorem ImportRound.takes {imports : List Import} {ts rest : List Located}
    (h : ImportRound imports ts rest) : Takes (imports.flatMap fun _ => []) ts rest := by
  cases h with
  | semicolon => exact .nothing (List.suffix_cons _ _)
  | clause h => exact h.takes fun _ _ _ hspec => .nothing hspec.suffix

theorem DeclRound.takes {decls : List TypeDecl} {ts rest : List Located}
    (h : DeclRound decls ts rest) : Takes (decls.flatMap fun decl => decl.type.names) ts rest := by
  cases h with
  | semicolon => exact .nothing (List.suffix_cons _ _)
  | clause h => exact h.takes fun _ _ _ hspec => hspec.takes
  | other _ _ h => exact .nothing h.suffix

theorem ReadsPackage.suffix {package : String} {ts rest : List Located}
    (h : ReadsPackage package ts rest) : rest <:+ ts := by
  induction h with
  | semicolon _ ih => exact ih.trans (List.suffix_cons _ _)
  | clause _ hends =>
    exact (hends.suffix.trans (List.suffix_cons _ _)).trans (List.suffix_cons _ _)

/-- The names in the types that a file declares are words of the file. -/
theorem ReadsFront.takes {file : SourceFile} {ts rest : List Located}
    (h : ReadsFront file ts rest) :
    Takes (file.types.flatMap fun decl => decl.type.names) ts rest := by
  obtain ⟨hpackage, himports, -, hdecls⟩ := h
  exact (hdecls.takes fun _ _ _ hround => hround.takes).before
    ((himports.takes fun _ _ _ hround => hround.takes).suffix.trans hpackage.suffix)

/-- The names in the types that a file declares are identifiers. -/
theorem isIdentifier_of_mem_names {name text : String} {file : SourceFile}
    (h : SourceFile.ofText name text = .ok file) {decl : TypeDecl} (hdecl : decl ∈ file.types)
    {w : String} (hw : w ∈ decl.type.names) : Text.isIdentifier w.toList = true := by
  unfold SourceFile.ofText at h
  split at h
  · cases h
  · next list htokens =>
    split at h
    · cases h
    · next file' hfile =>
      cases h
      obtain ⟨-, hfront⟩ := readsFront_iff.1 hfile
      obtain ⟨t, ht, hword⟩ := hfront.takes.words w (List.mem_flatMap.2 ⟨decl, hdecl, hw⟩)
      exact spelled_of_tokenize htokens t ht w hword

/-- The members of the struct types that a file declares have identifiers for names. -/
theorem isIdentifier_of_ofText {name text : String} {file : SourceFile}
    (h : SourceFile.ofText name text = .ok file) {decl : TypeDecl} (hdecl : decl ∈ file.types)
    {members : List Field} (htype : decl.type.Encloses (.struct members)) {member : Field}
    (hmember : member ∈ members) {field : String} (hfield : field ∈ member.names) :
    Text.isIdentifier field.toList = true := by
  refine isIdentifier_of_mem_names h hdecl ?_
  obtain ⟨part, hpart, hname⟩ := List.mem_flatMap.1 (member.names_subset hfield)
  exact List.mem_flatMap.2 ⟨part, Field.parts_subset htype hmember hpart, hname⟩

end StructCopy.Go
