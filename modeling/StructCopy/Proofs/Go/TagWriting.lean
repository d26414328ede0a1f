/-
  Proofs/Go/TagWriting: struct tags written and looked up.

  A tag is written as a row of pairs, each value between quotation marks with its marks and
  backslashes escaped.  Whatever follows the row, looking up one of its keys gives the value
  of the first pair with this key.
-/
import StructCopy.Proofs.Go.TagBytes

set_option autoImplicit false

namespace StructCopy.Go.Tag

/-! ## Writing -/

/-- How a character is written between quotation marks. White space other than the space may be
escaped or not. -/
inductive Writes : Char → List Char → Prop where
  | plain {c : Char} (hmark : c ≠ '"') (hslash : c ≠ '\\') : Writes c [c]
  | mark : Writes '"' ['\\', '"']
  | slash : Writes '\\' ['\\', '\\']
  | lineFeed : Writes '\n' ['\\', 'n']
  | tab : Writes '\t' ['\\', 't']
  | carriageReturn : Writes '\r' ['\\', 'r']

/-- The text is a way to write the value between quotation marks. -/
inductive Escapes : (value written : List Char) → Prop where
  | nil : Escapes [] []
  | cons {c : Char} {w value written : List Char} (hc : Writes c w) (h : Escapes value written) :
      Escapes (c :: value) (w ++ written)

/-- A pair of a tag as it is written, with the spaces in front of it. -/
structure WrittenPair where
  spaces : Nat
  key : String
  value : String
  /-- the text between the quotation marks -/
  quoted : List Char
  key_ne_empty : key ≠ ""
  key_free : ∀ c ∈ key.toList, ' ' < c ∧ c ≠ ':' ∧ c ≠ '"' ∧ c ≠ '\x7f'
  escapes : Escapes value.toList quoted

namespace WrittenPair

/-- The text of a pair. -/
def text (p : WrittenPair) : List Char :=
  List.replicate p.spaces ' ' ++ (p.key.toList ++ ':' :: '"' :: (p.quoted ++ ['"']))

/-- The text of some pairs in a row. -/
def rowText (pairs : List WrittenPair) : List Char :=
  pairs.flatMap text

end WrittenPair

/-! ## Values read back -/

variable {c : Char} {value written : List Char}

theorem quotedPart?_plain (hmark : c ≠ '"') (hslash : c ≠ '\\') (s : List Char) :
    quotedPart? (c :: s) = (quotedPart? s).map fun found => (c :: found.1, found.2) := by
  rw [quotedPart?] <;> simp_all

/-- A written value ends at the quotation mark behind it. -/
theorem Escapes.quotedPart?_eq (h : Escapes value written) (rest : List Char) :
    quotedPart? (written ++ '"' :: rest) = some (written, rest) := by
  induction h with
  | nil => rfl
  | cons hc _ ih =>
    cases hc with
    | plain hmark hslash =>
      rw [List.singleton_append, List.cons_append, quotedPart?_plain hmark hslash, ih]
      rfl
    | _ => simp [quotedPart?, ih]

theorem unescape?_plain (hslash : c ≠ '\\') (s : List Char) :
    unescape? (c :: s) = (unescape? s).map (c :: ·) := by
  rw [unescape?] <;> simp_all

/-- A written value stands for the value. -/
theorem Escapes.unescape?_eq (h : Escapes value written) : unescape? written = some value := by
  induction h with
  | nil => rfl
  | cons hc _ ih =>
    cases hc with
    | plain _ hslash =>
      rw [List.singleton_append, unescape?_plain hslash, ih]
      rfl
    | _ => simp [unescape?, ih]

/-! ## Pairs read back -/

theorem isKeyChar_iff : isKeyChar c = true ↔ ' ' < c ∧ c ≠ ':' ∧ c ≠ '"' ∧ c ≠ '\x7f' := by
  have hspace : 32 < c.toNat ↔ ' ' < c := Iff.rfl
  have hdelete : c.toNat ≠ 127 ↔ c ≠ '\x7f' := not_congr (Char.toNat_inj (d := '\x7f'))
  rw [← hspace, ← hdelete]
  simp [isKeyChar, and_assoc]

namespace WrittenPair

variable (p : WrittenPair)

theorem all_isKeyChar : p.key.toList.all isKeyChar = true := by
  exact List.all_eq_true.2 fun c hc => isKeyChar_iff.2 (p.key_free c hc)

theorem head?_key_ne_space (rest : List Char) :
    ∀ c ∈ (p.key.toList ++ rest).head?, (c == ' ') = false := by
  cases hkey : p.key.toList with
  | nil => exact absurd (String.toList_eq_nil_iff.1 hkey) p.key_ne_empty
  | cons c key =>
    intro d hd
    cases hd
    have hspace := (p.key_free c (hkey ▸ List.mem_cons_self)).1
    exact beq_false_of_ne fun heq => absurd (heq ▸ hspace) (by decide)

/-- A written pair is the first one of what begins with it. -/
theorem nextPair?_text (rest : List Char) :
    nextPair? (p.text ++ rest) = some (⟨p.key.toList, p.quoted⟩, rest) := by
  have hsource : p.text ++ rest = List.replicate p.spaces ' ' ++
      (p.key.toList ++ ':' :: '"' :: (p.quoted ++ '"' :: rest)) := by
    simp [text]
  have hspaces : (List.replicate p.spaces ' ').all (· == ' ') = true := by simp
  have hbody := (takeWhile_dropWhile_append hspaces
    (p.head?_key_ne_space (':' :: '"' :: (p.quoted ++ '"' :: rest)))).2
  have hcolon : ∀ c ∈ (':' :: '"' :: (p.quoted ++ '"' :: rest)).head?, isKeyChar c = false := by
    intro c hc
    cases hc
    decide
  obtain ⟨htake, hdrop⟩ := takeWhile_dropWhile_append p.all_isKeyChar hcolon
  have hkey : p.key.toList.isEmpty = false := by simpa using p.key_ne_empty
  unfold nextPair?
  rw [hsource, hbody]
  simp only [htake, hdrop, hkey, Bool.false_eq_true, if_false, p.escapes.quotedPart?_eq,
    Option.map_some]

end WrittenPair

/-- Among pairs in a row, the first one with a key gives the value for it. -/
theorem find?_rowText (pairs : List WrittenPair) (tail : List Char) {key : String}
    {pair : WrittenPair} (h : pairs.find? (fun p => p.key == key) = some pair) :
    find? key.toList (WrittenPair.rowText pairs ++ tail) = some pair.value.toList := by
  induction pairs with
  | nil => cases h
  | cons p pairs ih =>
    have hrow : WrittenPair.rowText (p :: pairs) ++ tail =
        p.text ++ (WrittenPair.rowText pairs ++ tail) := by
      simp [WrittenPair.rowText]
    rw [hrow, find?_of_some (p.nextPair?_text _)]
    rw [List.find?_cons] at h
    by_cases hkey : p.key = key
    · rw [beq_iff_eq.2 hkey] at h
      cases h
      rw [if_pos (congrArg String.toList hkey), pair.escapes.unescape?_eq]
    · rw [beq_false_of_ne hkey] at h
      rw [if_neg fun heq => hkey (String.toList_inj.1 heq), ih h]

/-- The name under a key is what stands before the first comma of the value. -/
theorem name?_of_lookup {tag key value : String} (h : lookup tag key = some value) :
    ∃ first rest, value.toList = first ++ rest ∧ ',' ∉ first ∧
      (rest = [] ∨ rest.head? = some ',') ∧
      name? tag key = if first = [] ∨ first = ['-'] then none else some (String.ofList first) := by
  refine ⟨value.toList.takeWhile (· != ','), value.toList.dropWhile (· != ','),
    List.takeWhile_append_dropWhile.symm, fun hmem => ?_, ?_, ?_⟩
  · have hcomma := List.all_eq_true.1 List.all_takeWhile _ hmem
    exact absurd hcomma (by decide)
  · cases hrest : value.toList.dropWhile (· != ',') with
    | nil => exact .inl rfl
    | cons c rest =>
      have hc := List.head_dropWhile_not (· != ',') (l := value.toList) (by simp [hrest])
      simp only [hrest, List.head_cons, bne_eq_false_iff_eq] at hc
      exact .inr (congrArg some hc)
  · simp [name?, h]

/-- The name under a key is what the value begins with up to a comma or its end, unless this is
empty or a dash. -/
theorem name?_eq_some_iff {tag key name : String} :
    name? tag key = some name ↔ (∃ value rest, lookup tag key = some value ∧
      value.toList = name.toList ++ rest ∧ (rest = [] ∨ rest.head? = some ',')) ∧
      ',' ∉ name.toList ∧ name ≠ "" ∧ name ≠ "-" := by
  constructor
  · intro h
    obtain ⟨value, hvalue, -⟩ := Option.bind_eq_some_iff.1 h
    obtain ⟨first, rest, hsplit, hcomma, hrest, hname⟩ := name?_of_lookup hvalue
    rw [hname] at h
    split at h
    · cases h
    · next habsent =>
      cases h
      rw [not_or] at habsent
      refine ⟨⟨value, rest, hvalue, ?_, hrest⟩, ?_, fun h => habsent.1 ?_, fun h => habsent.2 ?_⟩
      · rwa [String.toList_ofList]
      · rwa [String.toList_ofList]
      · rw [← String.toList_ofList (l := first), h]
        rfl
      · rw [← String.toList_ofList (l := first), h]
        rfl
  · rintro ⟨⟨value, rest, hvalue, hsplit, hrest⟩, hcomma, hempty, hdash⟩
    have hname : name.toList.all (· != ',') = true :=
      List.all_eq_true.2 fun c hc => bne_iff_ne.2 fun heq => hcomma (heq ▸ hc)
    have hstop : ∀ c ∈ rest.head?, (c != ',') = false := by
      rintro c hc
      rcases hrest with rfl | hrest
      · cases hc
      · rw [hrest] at hc
        cases hc
        rfl
    have htake := (takeWhile_dropWhile_append hname hstop).1
    have hne : name.toList ≠ [] := fun h => hempty (String.toList_eq_nil_iff.1 h)
    have hne' : name.toList ≠ ['-'] := fun h => hdash (String.toList_inj.1 h)
    have hsome : ¬ (name.toList.isEmpty || name.toList == ['-']) = true := by
      rw [Bool.or_eq_true, List.isEmpty_iff, beq_iff_eq]
      exact not_or.2 ⟨hne, hne'⟩
    have hparts : name? tag key =
        let first := value.toList.takeWhile (· != ',')
        if first.isEmpty || first == ['-'] then none else some (String.ofList first) := by
      rw [name?, hvalue]
      rfl
    rw [hparts, hsplit]
    dsimp only
    rw [htake, if_neg hsome, String.ofList_toList]

/-- Whatever follows a row of written pairs, each of its keys leads to the value of the first pair
with this key, and to the name that is the part of this value before its first comma. The same is
found over bytes, where no tag makes a cut fall inside a character or outside the tag. -/
theorem lookup_rowText (pairs : List WrittenPair) (tail : List Char) :
    (∀ key ∈ pairs.map WrittenPair.key,
      ∃ pair, pairs.find? (fun p => p.key == key) = some pair ∧
        lookup (String.ofList (WrittenPair.rowText pairs ++ tail)) key = some pair.value ∧
        ∃ first rest, pair.value.toList = first ++ rest ∧ ',' ∉ first ∧
          (rest = [] ∨ rest.head? = some ',') ∧
          name? (String.ofList (WrittenPair.rowText pairs ++ tail)) key =
            if first = [] ∨ first = ['-'] then none else some (String.ofList first)) ∧
    ∀ tag key, lookupBytes? tag key = some (lookup tag key) := by
  refine ⟨fun key hkey => ?_, lookupBytes?_eq⟩
  obtain ⟨p, hp, rfl⟩ := List.mem_map.1 hkey
  have hfound : (pairs.find? fun q => q.key == p.key).isSome = true :=
    List.find?_isSome.2 ⟨p, hp, beq_self_eq_true p.key⟩
  obtain ⟨pair, hpair⟩ := Option.isSome_iff_exists.1 hfound
  have hlookup : lookup (String.ofList (WrittenPair.rowText pairs ++ tail)) p.key =
      some pair.value := by
    rw [lookup, String.toList_ofList, find?_rowText pairs tail hpair, Option.map_some,
      String.ofList_toList]
  exact ⟨pair, hpair, hlookup, name?_of_lookup hlookup⟩

/-- A pair whose value holds a quotation mark, a line feed that is not escaped, and a comma. -/
def markedPair : WrittenPair where
  spaces := 1
  key := "json"
  value := "a\"\n,b"
  quoted := ['a', '\\', '"', '\n', ',', 'b']
  key_ne_empty := by decide
  key_free c hc := isKeyChar_iff.1 (List.all_eq_true.1 rfl c hc)
  escapes := .cons (.plain (by decide) (by decide)) (.cons .mark
    (.cons (.plain (by decide) (by decide)) (.cons (.plain (by decide) (by decide))
      (.cons (.plain (by decide) (by decide)) .nil))))

/-- A pair whose name counts as absent. -/
def dashPair (key : String) (hne : key ≠ "") (hkey : key.toList.all isKeyChar = true) :
    WrittenPair where
  spaces := 0
  key := key
  value := "-"
  quoted := ['-']
  key_ne_empty := hne
  key_free c hc := isKeyChar_iff.1 (List.all_eq_true.1 hkey c hc)
  escapes := .cons (.plain (by decide) (by decide)) .nil

theorem lookup_rowText_repeated :
    WrittenPair.rowText [dashPair "é" (by decide) (by decide), markedPair,
        dashPair "json" (by decide) (by decide)] ++ " x".toList =
      "é:\"-\" json:\"a\\\"\n,b\"json:\"-\" x".toList ∧
    lookup "é:\"-\" json:\"a\\\"\n,b\"json:\"-\" x" "json" = some "a\"\n,b" ∧
    lookup "é:\"-\" json:\"a\\\"\n,b\"json:\"-\" x" "é" = some "-" ∧
    lookupBytes? "é:\"\\é\"" "é" = some (lookup "é:\"\\é\"" "é") := by
  let pairs : List WrittenPair := [dashPair "é" (by decide) (by decide), markedPair,
    dashPair "json" (by decide) (by decide)]
  have htext : WrittenPair.rowText pairs ++ " x".toList =
      "é:\"-\" json:\"a\\\"\n,b\"json:\"-\" x".toList := by decide
  obtain ⟨hrow, hbytes⟩ := lookup_rowText pairs " x".toList
  obtain ⟨first, hfirst, hjson, -⟩ := hrow "json" (by decide)
  obtain ⟨second, hsecond, haccent, -⟩ := hrow "é" (by decide)
  cases hfirst
  cases hsecond
  rw [htext, String.ofList_toList] at hjson haccent
  exact ⟨htext, hjson, haccent, hbytes _ _⟩

end StructCopy.Go.Tag
