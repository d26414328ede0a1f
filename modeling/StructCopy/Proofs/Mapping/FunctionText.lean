/-
  Proofs/Mapping/FunctionText: the text of a generated function, read as one declaration.

  Without conversions and further arguments, a function is a comment line, a head with
  two types, and a body of assignments and comments, each on a line of its own.  Its
  brackets are balanced and its statements end inside them, so that it is passed over
  as one declaration, as soon as its two types can be taken apart.
-/
import StructCopy.Proofs.Go.Skipping
import StructCopy.Proofs.Mapping.Assembly

set_option autoImplicit false

namespace StructCopy

open Go (isPlain isBarrier Leads Place pieces)

/-! ## Lines -/

/-- The text has one line, which is not empty. -/
structure OneLine (s : List Char) : Prop where
  nonempty : s ≠ []
  noBreak : '\n' ∉ s
  noReturn : '\r' ∉ s

theorem lines_cons_of_ne {c : Char} (hbreak : c ≠ '\n') (hreturn : c ≠ '\r') (s : List Char) :
    Text.lines (c :: s) =
      match Text.lines s with
      | [] => [[c]]
      | line :: rest => (c :: line) :: rest := by
  rw [Text.lines.eq_def]
  split
  · next heq => cases heq
  · next heq =>
    cases heq
    exact absurd rfl hbreak
  · next heq =>
    cases heq
    exact absurd rfl hreturn
  · next heq =>
    cases heq
    rfl

theorem lines_append_break {s : List Char} (hbreak : '\n' ∉ s) (hreturn : '\r' ∉ s)
    (rest : List Char) : Text.lines (s ++ '\n' :: rest) = s :: Text.lines rest := by
  induction s with
  | nil => rfl
  | cons c s ih =>
    rw [List.mem_cons, not_or] at hbreak hreturn
    rw [List.cons_append, lines_cons_of_ne (Ne.symm hbreak.1) (Ne.symm hreturn.1),
      ih hbreak.2 hreturn.2]

theorem OneLine.lines_eq {s : List Char} (h : OneLine s) : Text.lines s = [s] := by
  obtain ⟨hne, hbreak, hreturn⟩ := h
  induction s with
  | nil => exact absurd rfl hne
  | cons c s ih =>
    rw [List.mem_cons, not_or] at hbreak hreturn
    rw [lines_cons_of_ne (Ne.symm hbreak.1) (Ne.symm hreturn.1)]
    cases s with
    | nil => rfl
    | cons d s => rw [ih (List.cons_ne_nil d s) hbreak.2 hreturn.2]

/-- Lines that have been joined are told apart again. -/
theorem lines_intercalate {codes : List String} (h : ∀ code ∈ codes, OneLine code.toList) :
    Text.lines (String.intercalate "\n" codes).toList = codes.map String.toList := by
  induction codes with
  | nil =>
    rw [String.intercalate_nil]
    rfl
  | cons code codes ih =>
    obtain ⟨hcode, hrest⟩ := List.forall_mem_cons.1 h
    cases codes with
    | nil =>
      rw [String.intercalate_singleton]
      exact hcode.lines_eq
    | cons next codes =>
      have hbreak : "\n".toList = ['\n'] := rfl
      rw [String.intercalate_cons_cons, String.toList_append, String.toList_append, hbreak,
        List.append_assoc, List.singleton_append, lines_append_break hcode.noBreak hcode.noReturn,
        ih hrest]
      rfl

/-- A body that is indented has a tab before each of its lines. -/
theorem toList_indentedBody {codes : List String} (h : ∀ code ∈ codes, OneLine code.toList) :
    (indentedBody (String.intercalate "\n" codes)).toList =
      codes.flatMap fun code => '\t' :: code.toList ++ ['\n'] := by
  unfold indentedBody
  rw [String.toList_ofList, lines_intercalate h, List.flatMap_map]
  refine List.flatMap_congr fun code hcode => ?_
  unfold indented
  rw [if_neg]
  rw [List.isEmpty_iff]
  exact (h code hcode).nonempty

/-! ## Entries -/

/-- The code of an entry for a destination field, when there are neither rules nor arguments: a
comment, or the assignment of a source field. -/
inductive PlainCode (sources : List StructField) (dest : StructField) : String → Prop where
  | comment : PlainCode sources dest (unmappedComment dest)
  | assignment {f : StructField} (hf : f ∈ sources) :
      PlainCode sources dest ("dst." ++ dest.name ++ " = " ++ ("src." ++ f.name))

theorem Stock.Entry.plainCode {k : Stock} {sources : List StructField} {tagKey : String}
    (hindex : k.index = .ofFields sources tagKey) (hrules : k.rules = []) (hargs : k.mapping.args = [])
    {dest : StructField} {entry : Assignment} (h : k.Entry dest entry) :
    PlainCode sources dest entry.code ∧ entry.fallible = false := by
  cases h with
  | unmapped => exact ⟨.comment, rfl⟩
  | converted happlies =>
    obtain ⟨type, d, -, hfirst, -⟩ := happlies
    rw [hrules] at hfirst
    cases hfirst
  | direct hsource =>
    cases hsource with
    | argument hsplit =>
      rw [hargs] at hsplit
      simp at hsplit
    | field _ hmatch =>
      rw [hindex] at hmatch
      exact ⟨.assignment (SourceIndex.field_mem_of_match? hmatch), rfl⟩

variable {sources : List StructField} {dest : StructField}

/-- An identifier holds nothing but letters, numbers and `_`. -/
theorem not_mem_of_isIdentifier {w : List Char} (hw : Text.isIdentifier w = true) {c : Char}
    (hc : Text.isWordPart c = false) : c ∉ w := by
  intro hmem
  rw [Go.isWordPart_of_mem hw hmem] at hc
  cases hc

theorem not_mem_toList_append {c : Char} {s t : String} (hs : c ∉ s.toList) (ht : c ∉ t.toList) :
    c ∉ (s ++ t).toList := by
  rw [String.toList_append, List.mem_append, not_or]
  exact ⟨hs, ht⟩

theorem PlainCode.oneLine {code : String} (h : PlainCode sources dest code)
    (hdest : Text.isIdentifier dest.name.toList = true)
    (hsources : ∀ f ∈ sources, Text.isIdentifier f.name.toList = true) : OneLine code.toList := by
  cases h with
  | comment =>
    have hno : ∀ c, Text.isWordPart c = false →
        c ∉ "// no matching source found for field: ".toList →
        c ∉ ", consider adding an additional arg or aligning the fields".toList →
        c ∉ (unmappedComment dest).toList := by
      intro c hc hfront hback
      exact not_mem_toList_append
        (not_mem_toList_append hfront (not_mem_of_isIdentifier hdest hc)) hback
    refine ⟨?_, hno _ (by decide) (by decide) (by decide),
      hno _ (by decide) (by decide) (by decide)⟩
    unfold unmappedComment
    rw [String.append_assoc, String.toList_append]
    exact List.cons_ne_nil _ _
  | @assignment f hf =>
    have hno : ∀ c, Text.isWordPart c = false → c ∉ "dst.".toList → c ∉ " = ".toList →
        c ∉ "src.".toList → c ∉ ("dst." ++ dest.name ++ " = " ++ ("src." ++ f.name)).toList := by
      intro c hc hdst hmark hsrc
      have hfront := not_mem_toList_append hdst (not_mem_of_isIdentifier hdest hc)
      have hback := not_mem_toList_append hsrc (not_mem_of_isIdentifier (hsources f hf) hc)
      exact not_mem_toList_append (not_mem_toList_append hfront hmark) hback
    refine ⟨?_, hno _ (by decide) (by decide) (by decide) (by decide),
      hno _ (by decide) (by decide) (by decide) (by decide)⟩
    rw [String.append_assoc, String.append_assoc, String.toList_append]
    exact List.cons_ne_nil _ _

/-! ## Entries as parts of a declaration -/

/-- A field of `dst` or `src` leads on with what stands behind it. -/
theorem leads_selector {owner field : String} (howner : owner = "dst." ∨ owner = "src.")
    (hfield : Text.isIdentifier field.toList = true) {d : Char} {t : List Char}
    (hd : isBarrier d = true) {ps : List Go.Piece}
    (hpieces : ∀ r, pieces (d :: t ++ r) = (ps ++ (pieces r).1, (pieces r).2)) {p q : Place}
    (hq : ∀ pending, Place.after? ⟨p.depth, pending⟩ ps = some q) :
    Leads ((owner ++ field).toList ++ d :: t) True p q := by
  have hplain : owner.toList.all isPlain = true := by
    rcases howner with rfl | rfl <;> decide
  have hwords : Go.lettersFirst false owner.toList = true := by
    rcases howner with rfl | rfl <;> decide
  have hall : (owner ++ field).toList.all isPlain = true := by
    rw [String.toList_append, List.all_append, hplain, Go.isPlain_of_isIdentifier hfield]
    rfl
  refine (Go.leads_plain hall hd hpieces hq).congr (iff_true_intro ?_)
  have hnone := @Go.fault_eq_none_before_word _ _ [] hplain hwords hfield rfl
    Go.boundary_nil fun d hd => absurd hd List.not_mem_nil
  rwa [List.append_nil, ← String.toList_append] at hnone

/-- An entry on a line of its own leads to the next line. -/
theorem PlainCode.leads {code : String} (h : PlainCode sources dest code)
    (hdest : Text.isIdentifier dest.name.toList = true)
    (hsources : ∀ f ∈ sources, Text.isIdentifier f.name.toList = true) (depth : Nat) :
    Leads ('\t' :: code.toList ++ ['\n']) True ⟨depth + 1, false⟩ ⟨depth + 1, false⟩ := by
  have htab : ∀ p, Leads ['\t'] True p p := fun p =>
    @Go.leads_of_pieces _ [.blank] p p (fun r => Go.pieces_of_step rfl) rfl
  have hline : ∀ pending, Place.nextLine? ⟨depth + 1, pending⟩ = some ⟨depth + 1, false⟩ :=
    fun pending => if_neg fun h => Nat.succ_ne_zero depth h.2
  change Leads (['\t'] ++ (code.toList ++ ['\n'])) True _ _
  refine (htab _).prepend ?_
  cases h with
  | comment =>
    have hrest : '\n' ∉ (" no matching source found for field: " ++ dest.name ++
        ", consider adding an additional arg or aligning the fields").toList :=
      not_mem_toList_append (not_mem_toList_append (by decide)
        (not_mem_of_isIdentifier hdest (by decide))) (by decide)
    have htext : (unmappedComment dest).toList = '/' :: '/' ::
        (" no matching source found for field: " ++ dest.name ++
          ", consider adding an additional arg or aligning the fields").toList := by
      unfold unmappedComment
      rw [String.toList_append, String.toList_append, String.toList_append, String.toList_append]
      rfl
    rw [htext]
    exact Go.leads_comment hrest (hline false)
  | @assignment f hf =>
    have htext : ("dst." ++ dest.name ++ " = " ++ ("src." ++ f.name)).toList ++ ['\n'] =
        ("dst." ++ dest.name).toList ++ " = ".toList ++ (("src." ++ f.name).toList ++ ['\n']) := by
      rw [String.toList_append, String.toList_append, List.append_assoc]
    have hmark : ∀ r, pieces (" = ".toList ++ r) =
        ([Go.Piece.blank, .token .assign 0, .blank] ++ (pieces r).1, (pieces r).2) :=
      fun r => Go.pieces_step rfl (Go.pieces_step rfl (Go.pieces_step rfl rfl))
    have hbreak : ∀ r, pieces (['\n'] ++ r) =
        ([Go.Piece.lineBreak] ++ (pieces r).1, (pieces r).2) :=
      fun r => Go.pieces_of_step rfl
    have hdst : Leads (("dst." ++ dest.name).toList ++ " = ".toList) True ⟨depth + 1, false⟩
        ⟨depth + 1, false⟩ :=
      leads_selector (.inl rfl) hdest (by decide) hmark fun pending => rfl
    have hsrc : Leads (("src." ++ f.name).toList ++ ['\n']) True ⟨depth + 1, false⟩
        ⟨depth + 1, false⟩ :=
      leads_selector (.inr rfl) (hsources f hf) (by decide) hbreak fun pending =>
        Place.after?_cons.2 ⟨_, hline pending, rfl⟩
    rw [htext]
    exact hdst.append hsrc

/-- The entries of a body lead from its first line to the line behind it. -/
theorem leads_body {codes : List String} (h : ∀ code ∈ codes,
      Leads ('\t' :: code.toList ++ ['\n']) True ⟨1, false⟩ ⟨1, false⟩) :
    Leads (codes.flatMap fun code => '\t' :: code.toList ++ ['\n']) True ⟨1, false⟩ ⟨1, false⟩ := by
  induction codes with
  | nil => exact Go.leads_nil _
  | cons code codes ih =>
    obtain ⟨hcode, hrest⟩ := List.forall_mem_cons.1 h
    exact hcode.append (ih hrest)

/-! ## The parts of a function -/

/-- The name of a function, up to its first type. -/
theorem leads_functionName {name : List Char} (h : Text.isIdentifier name = true) :
    Leads (name ++ "(src ".toList) True .start ⟨1, true⟩ := by
  have hopen : ∀ r, pieces ("(src ".toList ++ r) =
      ([Go.Piece.token .leftParen 0, .token (.word "src") 0, .blank] ++ (pieces r).1,
        (pieces r).2) :=
    fun r => Go.pieces_step rfl (Go.pieces_step rfl (Go.pieces_step rfl rfl))
  refine (Go.leads_plain (Go.isPlain_of_isIdentifier h) (by decide) hopen
    fun pending => rfl).congr (iff_true_intro ?_)
  have hword := Go.pieces_word (w := String.ofList name) (by rwa [String.toList_ofList])
    Go.boundary_nil
  rw [String.toList_ofList, List.append_nil] at hword
  rw [hword, Go.pieces]

/-- The type of a source, up to the type that it is copied to. -/
theorem leads_sourceType {type : List Char} (h : type.all isPlain = true) :
    Leads (type ++ ") (dst ".toList) ((pieces type).2 = none) ⟨1, true⟩ ⟨1, true⟩ := by
  have hbetween : ∀ r, pieces (") (dst ".toList ++ r) =
      ([Go.Piece.token .rightParen 0, .blank, .token .leftParen 0, .token (.word "dst") 0,
        .blank] ++ (pieces r).1, (pieces r).2) :=
    fun r => Go.pieces_step rfl (Go.pieces_step rfl (Go.pieces_step rfl (Go.pieces_step rfl
      (Go.pieces_step rfl rfl))))
  exact Go.leads_plain h (by decide) hbetween fun pending => rfl

/-- The type that is copied to, up to the body. -/
theorem leads_destType {type : List Char} (h : type.all isPlain = true) :
    Leads (type ++ ") \x7b\n".toList) ((pieces type).2 = none) ⟨1, true⟩ ⟨1, false⟩ := by
  have hbrace : ∀ r, pieces (") \x7b\n".toList ++ r) =
      ([Go.Piece.token .rightParen 0, .blank, .token .leftBrace 0, .lineBreak] ++
        (pieces r).1, (pieces r).2) :=
    fun r => Go.pieces_step rfl (Go.pieces_step rfl (Go.pieces_step rfl (Go.pieces_step rfl rfl)))
  exact Go.leads_plain h (by decide) hbrace fun pending => rfl

theorem leads_return : Leads "\treturn\n\x7d".toList True ⟨1, false⟩ ⟨0, true⟩ := by
  have hreturn : ∀ r, pieces ("\treturn\n\x7d".toList ++ r) =
      ([Go.Piece.blank, .token (.word "return") 0, .lineBreak, .token .rightBrace 0] ++
        (pieces r).1, (pieces r).2) :=
    fun r => Go.pieces_step rfl (Go.pieces_step rfl (Go.pieces_step rfl (Go.pieces_step rfl rfl)))
  exact Go.leads_of_pieces hreturn rfl

/-! ## Functions -/

/-- The text of a function, spelled out. -/
theorem CopyFunction.text_eq (f : CopyFunction) :
    f.text.toList = f.doc.toList ++ ['\n'] ++ (f.signature.toList ++ (" \x7b\n".toList ++
      ((indentedBody f.body).toList ++ "\treturn\n\x7d".toList))) := by
  unfold CopyFunction.text
  simp only [String.toList_append, List.append_assoc]
  rfl

/-- The head of a function that has one parameter and one result. -/
theorem signatureOf_eq_head {m : MappingSpec} (hargs : m.args = []) (aliases : Aliases) :
    (signatureOf m aliases false).toList = "func ".toList ++ (m.functionName.toList ++
      ("(src ".toList ++ ((m.source.render aliases).toList ++ (") (dst ".toList ++
        ((m.dest.render aliases).toList ++ ")".toList))))) := by
  rw [signatureOf_eq_append, hargs, List.map_nil, String.intercalate_singleton,
    if_neg Bool.false_ne_true]
  simp only [String.toList_append, List.append_assoc, String.append_empty]
  rfl

/-- The mapping has nothing but its two types, whose texts have one line, and a name. -/
structure MappingSpec.Bare (m : MappingSpec) : Prop where
  conversions : m.conversions = []
  args : m.args = []
  name : Text.isIdentifier m.functionName.toList = true
  source : '\n' ∉ m.source.unaliased.toList
  dest : '\n' ∉ m.dest.unaliased.toList

theorem exists_of_mem_right {α β : Type} {R : α → β → Prop} {xs : List α} {ys : List β}
    (h : List.Forall₂ R xs ys) {y : β} (hy : y ∈ ys) : ∃ x ∈ xs, R x y := by
  induction h with
  | nil => cases hy
  | cons hxy _ ih =>
    rcases List.mem_cons.1 hy with rfl | hy
    · exact ⟨_, List.mem_cons_self, hxy⟩
    · obtain ⟨x, hx, hxy⟩ := ih hy
      exact ⟨x, List.mem_cons_of_mem _ hx, hxy⟩

/-- What a function for a mapping without rules and arguments consists of. -/
theorem MappingSpec.Bare.of_assemble {m : MappingSpec} (hm : m.Bare) {sources dests : List StructField}
    {defaultTag : String} {aliases : Aliases} {f : CopyFunction}
    (h : assemble m sources dests [] defaultTag aliases = .ok f) :
    f.doc = "// " ++ m.functionName ++ " copies " ++ m.source.unaliased ++ " → " ++
        m.dest.unaliased ∧
      f.signature = signatureOf m aliases false ∧
      ∃ codes, f.body = String.intercalate "\n" codes ∧
        ∀ code ∈ codes, ∃ dest ∈ dests, PlainCode sources dest code := by
  obtain ⟨entries, hentries, rfl⟩ := Go.ok_of_map_eq_ok h
  let k : Stock := ⟨m, .ofFields sources (m.tagKeyOr defaultTag), m.conversions ++ [], aliases⟩
  have hrules : k.rules = [] := by
    change m.conversions ++ [] = []
    rw [hm.conversions]
    rfl
  have hall : List.Forall₂ k.Entry dests entries := by
    have hassign := assignments_eq_ok_iff.1 hentries
    exact hassign.imp fun dest entry hentry => Stock.assignmentFor_eq_ok_iff.1 hentry
  have hcodes : ∀ entry ∈ entries, (∃ dest ∈ dests, PlainCode sources dest entry.code) ∧
      entry.fallible = false := by
    intro entry hentry
    obtain ⟨dest, hdest, hk⟩ := exists_of_mem_right hall hentry
    obtain ⟨hcode, hfallible⟩ := hk.plainCode rfl hrules hm.args
    exact ⟨⟨dest, hdest, hcode⟩, hfallible⟩
  have hreturns : entries.any (·.fallible) = false := by
    rw [List.any_eq_false]
    intro entry hentry
    rw [(hcodes entry hentry).2]
    exact Bool.false_ne_true
  refine ⟨rfl, ?_, entries.map (·.code), rfl, ?_⟩
  · dsimp only
    rw [hreturns]
  · intro code hcode
    obtain ⟨entry, hentry, rfl⟩ := List.mem_map.1 hcode
    exact (hcodes entry hentry).1

/-- The text of a function for a mapping without rules and arguments is passed over as one
declaration exactly if its two types can be taken apart. -/
theorem MappingSpec.Bare.isFunctionText {m : MappingSpec} (hm : m.Bare)
    {sources dests : List StructField} {defaultTag : String} {aliases : Aliases} {f : CopyFunction}
    (h : assemble m sources dests [] defaultTag aliases = .ok f)
    (hsources : ∀ f ∈ sources, Text.isIdentifier f.name.toList = true)
    (hdests : ∀ f ∈ dests, Text.isIdentifier f.name.toList = true)
    (hsource : (m.source.render aliases).toList.all isPlain = true)
    (hdest : (m.dest.render aliases).toList.all isPlain = true) :
    Go.FunctionText f.text.toList ((pieces (m.source.render aliases).toList).2 = none ∧
      (pieces (m.dest.render aliases).toList).2 = none) := by
  obtain ⟨hdoc, hsignature, codes, hbody, hcodes⟩ := hm.of_assemble h
  have hlines : ∀ code ∈ codes, OneLine code.toList := by
    intro code hcode
    obtain ⟨dest, hmem, hplain⟩ := hcodes code hcode
    exact hplain.oneLine (hdests dest hmem) hsources
  have hleads : ∀ code ∈ codes,
      Leads ('\t' :: code.toList ++ ['\n']) True ⟨1, false⟩ ⟨1, false⟩ := by
    intro code hcode
    obtain ⟨dest, hmem, hplain⟩ := hcodes code hcode
    exact hplain.leads (hdests dest hmem) hsources 0
  have hbodyEnd := (leads_body hleads).append leads_return
  have htail := (leads_functionName hm.name).prepend
    ((leads_sourceType hsource).trans ((leads_destType hdest).append hbodyEnd))
  refine ⟨(" " ++ m.functionName ++ " copies " ++ m.source.unaliased ++ " → " ++
    m.dest.unaliased).toList, _, ?_, ?_, htail⟩
  · have hfront : f.doc.toList = '/' :: '/' :: (" " ++ m.functionName ++ " copies " ++
        m.source.unaliased ++ " → " ++ m.dest.unaliased).toList := by
      rw [hdoc]
      simp only [String.toList_append, List.append_assoc]
      rfl
    have hlast : ")".toList ++ " \x7b\n".toList = ") \x7b\n".toList := rfl
    rw [f.text_eq, hfront, hsignature, signatureOf_eq_head hm.args, hbody,
      toList_indentedBody hlines, ← hlast]
    simp only [List.append_assoc, List.cons_append]
  · exact not_mem_toList_append (not_mem_toList_append (not_mem_toList_append
      (not_mem_toList_append (not_mem_toList_append (by decide)
        (not_mem_of_isIdentifier hm.name (by decide))) (by decide)) hm.source) (by decide)) hm.dest

end StructCopy
