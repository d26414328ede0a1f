/-
  Proofs/Go/TagBytes: look-up in struct tags over bytes.

  A tag can be scanned byte by byte in UTF-8, its keys and values cut out at byte offsets.
  An escape then skips two bytes, which may end in the middle of a character.  All the same
  every cut stands between two characters of the tag, and the look-up over bytes gives what
  the look-up over characters gives, for every tag and every key.
-/
import StructCopy.Go.Tag
import StructCopy.Proofs.Go.Lexing

set_option autoImplicit false

namespace StructCopy

/-! ## Bytes of texts -/

namespace Text

/-- The bytes of a text in UTF-8. -/
def bytes (s : List Char) : List UInt8 :=
  s.flatMap String.utf8EncodeChar

theorem bytes_cons (c : Char) (s : List Char) :
    bytes (c :: s) = String.utf8EncodeChar c ++ bytes s :=
  List.flatMap_cons

theorem bytes_append (s t : List Char) : bytes (s ++ t) = bytes s ++ bytes t :=
  List.flatMap_append

/-- The text up to a byte offset and what follows it, if the offset stands between two characters
or at an end. -/
def splitAtByte? : Nat → List Char → Option (List Char × List Char)
  | 0, s => some ([], s)
  | _ + 1, [] => none
  | n + 1, c :: s =>
    if c.utf8Size ≤ n + 1 then
      (splitAtByte? (n + 1 - c.utf8Size) s).map fun cut => (c :: cut.1, cut.2)
    else none

/-- The text between two byte offsets, if both stand between two characters or at an end, in this
order. -/
def slice? (s : List Char) (start stop : Nat) : Option (List Char) := do
  let (front, _) ← splitAtByte? stop s
  let (_, part) ← splitAtByte? start front
  return part

theorem length_bytes_cons (c : Char) (s : List Char) :
    (bytes (c :: s)).length = c.utf8Size + (bytes s).length := by
  rw [bytes_cons, List.length_append, String.length_utf8EncodeChar]

theorem splitAtByte?_eq_some_iff {n : Nat} {s front back : List Char} :
    splitAtByte? n s = some (front, back) ↔ s = front ++ back ∧ n = (bytes front).length := by
  fun_induction splitAtByte? n s generalizing front with
  | case1 s =>
    constructor
    · intro h
      cases h
      exact ⟨rfl, rfl⟩
    · rintro ⟨rfl, hsize⟩
      cases front with
      | nil => rfl
      | cons c front =>
        have hpos := Char.utf8Size_pos c
        rw [length_bytes_cons] at hsize
        omega
  | case2 n =>
    constructor
    · intro h
      cases h
    · rintro ⟨hs, hsize⟩
      obtain ⟨rfl, -⟩ := List.append_eq_nil_iff.1 hs.symm
      cases hsize
  | case3 n c s hle ih =>
    rw [Option.map_eq_some_iff]
    constructor
    · rintro ⟨⟨front', back'⟩, hcut, heq⟩
      cases heq
      obtain ⟨rfl, hsize⟩ := ih.1 hcut
      refine ⟨rfl, ?_⟩
      dsimp only
      rw [length_bytes_cons]
      omega
    · rintro ⟨hs, hsize⟩
      cases front with
      | nil => cases hsize
      | cons d front =>
        cases hs
        rw [length_bytes_cons] at hsize
        exact ⟨(front, back), ih.2 ⟨rfl, by omega⟩, rfl⟩
  | case4 n c s hlt =>
    constructor
    · intro h
      cases h
    · rintro ⟨hs, hsize⟩
      cases front with
      | nil => cases hsize
      | cons d front =>
        cases hs
        rw [length_bytes_cons] at hsize
        omega

theorem slice?_append (front part back : List Char) :
    slice? (front ++ (part ++ back)) (bytes front).length (bytes (front ++ part)).length =
      some part := by
  have hstop : splitAtByte? (bytes (front ++ part)).length (front ++ (part ++ back)) =
      some (front ++ part, back) :=
    splitAtByte?_eq_some_iff.2 ⟨(List.append_assoc _ _ _).symm, rfl⟩
  have hstart : splitAtByte? (bytes front).length (front ++ part) = some (front, part) :=
    splitAtByte?_eq_some_iff.2 ⟨rfl, rfl⟩
  simp [slice?, hstop, hstart]

/-! ## Bytes of characters -/

theorem utf8EncodeChar_of_lt {c : Char} (h : c.toNat < 128) :
    String.utf8EncodeChar c = [UInt8.ofNat c.toNat] := by
  have hval : c.val.toNat ≤ 127 := Nat.le_of_lt_succ h
  unfold String.utf8EncodeChar
  exact if_pos hval

/-- Every byte of a character beyond ASCII is beyond ASCII. -/
theorem le_of_mem_utf8EncodeChar {c : Char} (h : 128 ≤ c.toNat) {b : UInt8}
    (hb : b ∈ String.utf8EncodeChar c) : 128 ≤ b.toNat := by
  have hval : ¬ c.val.toNat ≤ 127 := Nat.not_le.2 h
  have hbyte : ∀ n, 128 ≤ n % 256 → 128 ≤ (UInt8.ofNat n).toNat := fun n hn => by simpa using hn
  unfold String.utf8EncodeChar at hb
  dsimp only at hb
  rw [if_neg hval] at hb
  split at hb
  · simp only [List.mem_cons, List.not_mem_nil, or_false] at hb
    rcases hb with rfl | rfl <;> exact hbyte _ (by omega)
  · split at hb
    · simp only [List.mem_cons, List.not_mem_nil, or_false] at hb
      rcases hb with rfl | rfl | rfl <;> exact hbyte _ (by omega)
    · simp only [List.mem_cons, List.not_mem_nil, or_false] at hb
      rcases hb with rfl | rfl | rfl | rfl <;> exact hbyte _ (by omega)

/-- What holds of the ASCII characters one by one holds of all of them. -/
theorem forall_ascii {P : Char → Prop} (h : ∀ n ∈ List.range 128, P (Char.ofNat n)) {c : Char}
    (hc : c.toNat < 128) : P c := by
  have hn := h c.toNat (List.mem_range.2 hc)
  rwa [Char.ofNat_toNat] at hn

/-- A test of bytes that follows a test of characters: it holds of all bytes of a character that
passes, and not of the first byte of one that does not. -/
structure Follows (p : UInt8 → Bool) (q : Char → Bool) : Prop where
  all : ∀ c, q c = true → ∀ b ∈ String.utf8EncodeChar c, p b = true
  first : ∀ c, q c = false → ∃ b bs, String.utf8EncodeChar c = b :: bs ∧ p b = false

theorem exists_utf8EncodeChar_eq_cons (c : Char) :
    ∃ b bs, String.utf8EncodeChar c = b :: bs := by
  refine List.exists_cons_of_length_pos ?_
  rw [String.length_utf8EncodeChar]
  exact Char.utf8Size_pos c

/-- A test that agrees on ASCII, and holds beyond ASCII of all bytes and all characters or of
none. -/
theorem Follows.of_ascii {p : UInt8 → Bool} {q : Char → Bool} (beyond : Bool)
    (hascii : ∀ n ∈ List.range 128, p (UInt8.ofNat (Char.ofNat n).toNat) = q (Char.ofNat n))
    (hbyte : ∀ b : UInt8, 128 ≤ b.toNat → p b = beyond)
    (hchar : ∀ c : Char, 128 ≤ c.toNat → q c = beyond) : Follows p q := by
  have hsame : ∀ {c : Char}, c.toNat < 128 → p (UInt8.ofNat c.toNat) = q c :=
    fun {c} hc => forall_ascii (P := fun c => p (UInt8.ofNat c.toNat) = q c) hascii hc
  constructor
  · intro c hc b hb
    rcases Nat.lt_or_ge c.toNat 128 with hlt | hge
    · rw [utf8EncodeChar_of_lt hlt, List.mem_singleton] at hb
      rw [hb, hsame hlt, hc]
    · rw [hbyte b (le_of_mem_utf8EncodeChar hge hb), ← hchar c hge, hc]
  · intro c hc
    obtain ⟨b, bs, hencoded⟩ := exists_utf8EncodeChar_eq_cons c
    refine ⟨b, bs, hencoded, ?_⟩
    rcases Nat.lt_or_ge c.toNat 128 with hlt | hge
    · rw [utf8EncodeChar_of_lt hlt] at hencoded
      cases hencoded
      rw [hsame hlt, hc]
    · have hb : b ∈ String.utf8EncodeChar c := hencoded ▸ List.mem_cons_self
      rw [hbyte b (le_of_mem_utf8EncodeChar hge hb), ← hchar c hge, hc]

theorem takeWhile_bytes {p : UInt8 → Bool} {q : Char → Bool} (h : Follows p q) (s : List Char) :
    (bytes s).takeWhile p = bytes (s.takeWhile q) := by
  induction s with
  | nil => rfl
  | cons c s ih =>
    cases hc : q c with
    | true =>
      rw [bytes_cons, List.takeWhile_append_of_pos (h.all c hc), ih,
        List.takeWhile_cons_of_pos hc, bytes_cons]
    | false =>
      obtain ⟨b, bs, hencoded, hb⟩ := h.first c hc
      have hneg : ¬ q c = true := by simp [hc]
      rw [bytes_cons, hencoded, List.cons_append, List.takeWhile_cons, hb,
        List.takeWhile_cons_of_neg hneg]
      rfl

end Text

/-! ## Scanning -/

namespace Go.Tag

open Text (bytes slice? Follows)

/-- A byte that a key may hold: above the space, and none of colon, quotation mark and delete. -/
def isKeyByte (b : UInt8) : Bool :=
  32 < b && b != 58 && b != 34 && b != 127

/-- The number of bytes up to the closing quotation mark. A backslash takes the byte behind it
along, whatever that is. -/
def quotedSize? : List UInt8 → Option Nat
  | [] => none
  | [b] => if b = 34 then some 0 else none
  | b :: d :: bs =>
    if b = 34 then some 0
    else if b = 92 then (quotedSize? bs).map (· + 2)
    else (quotedSize? (d :: bs)).map (· + 1)

/-- The byte offsets of a pair: of its key, and of the text between its quotation marks. -/
structure PairOffsets where
  keyStart : Nat
  keyStop : Nat
  quotedStart : Nat
  quotedStop : Nat

/-- The first pair behind an offset. -/
def pairAt? (bs : List UInt8) (start : Nat) : Option PairOffsets :=
  let keyStart := start + ((bs.drop start).takeWhile (· == 32)).length
  let keyStop := keyStart + ((bs.drop keyStart).takeWhile isKeyByte).length
  if keyStop = keyStart then none
  else if bs[keyStop]? = some 58 ∧ bs[keyStop + 1]? = some 34 then
    (quotedSize? (bs.drop (keyStop + 2))).map fun n =>
      ⟨keyStart, keyStop, keyStop + 2, keyStop + 2 + n⟩
  else none

theorem lt_quotedStop_of_pairAt? {bs : List UInt8} {start : Nat} {x : PairOffsets}
    (h : pairAt? bs start = some x) : start < x.quotedStop := by
  unfold pairAt? at h
  dsimp only at h
  split at h
  · cases h
  · split at h
    · obtain ⟨n, -, rfl⟩ := Option.map_eq_some_iff.1 h
      dsimp only
      omega
    · cases h

/-- The value of the first pair with the given key behind an offset. It is missing as a whole if a
key or a value would be cut out anywhere but between two characters of the tag. -/
def findFrom? (key tag : List Char) (start : Nat) : Option (Option (List Char)) :=
  if start < (bytes tag).length then
    match _h : pairAt? (bytes tag) start with
    | none => some none
    | some x =>
      match slice? tag x.keyStart x.keyStop, slice? tag x.quotedStart x.quotedStop with
      | some name, some quoted =>
        if name = key then some (unescape? quoted) else findFrom? key tag (x.quotedStop + 1)
      | _, _ => none
  else some none
termination_by (bytes tag).length - start
decreasing_by
  have := lt_quotedStop_of_pairAt? _h
  omega

/-! ## Agreement with the scan over characters -/

theorem ne_of_high {b d : UInt8} (hb : 128 ≤ b.toNat) (hd : d.toNat < 128) : b ≠ d := by
  rintro rfl
  omega

theorem follows_space : Follows (· == 32) (· == ' ') := by
  refine .of_ascii false (by decide +kernel) (fun b hb => ?_) fun c hc => ?_
  · exact beq_false_of_ne (ne_of_high hb (by decide))
  · refine beq_false_of_ne fun heq => ?_
    rw [heq] at hc
    exact absurd hc (by decide)

theorem follows_isKeyChar : Follows isKeyByte isKeyChar := by
  refine .of_ascii true (by decide +kernel) (fun b hb => ?_) fun c hc => ?_
  · have hspace : (32 : UInt8) < b := UInt8.lt_iff_toNat_lt.2 (Nat.lt_of_lt_of_le (by decide) hb)
    simp [isKeyByte, hspace, ne_of_high hb (d := 58) (by decide),
      ne_of_high hb (d := 34) (by decide), ne_of_high hb (d := 127) (by decide)]
  · have hne : ∀ {d : Char}, d.toNat < 128 → c ≠ d := by
      rintro d hd rfl
      omega
    have hdelete : c.toNat ≠ 127 := by omega
    have hspace : 32 < c.toNat := by omega
    simp [isKeyChar, hspace, hdelete, hne (d := ':') (by decide), hne (d := '"') (by decide)]

theorem quotedSize?_cons {b : UInt8} (hmark : b ≠ 34) (hslash : b ≠ 92) (bs : List UInt8) :
    quotedSize? (b :: bs) = (quotedSize? bs).map (· + 1) := by
  cases bs with
  | nil => simp [quotedSize?, hmark]
  | cons d bs => simp [quotedSize?, hmark, hslash]

/-- Bytes beyond ASCII are passed over. -/
theorem quotedSize?_append {high : List UInt8} (h : ∀ b ∈ high, 128 ≤ b.toNat) (bs : List UInt8) :
    quotedSize? (high ++ bs) = (quotedSize? bs).map (· + high.length) := by
  induction high with
  | nil => simp
  | cons b high ih =>
    have hb := h b List.mem_cons_self
    rw [List.cons_append, quotedSize?_cons (ne_of_high hb (by decide)) (ne_of_high hb (by decide)),
      ih fun d hd => h d (List.mem_cons_of_mem _ hd)]
    cases quotedSize? bs <;> simp [Nat.add_assoc]

theorem quotedSize?_plain {c : Char} (hmark : c ≠ '"') (hslash : c ≠ '\\') (s : List Char) :
    quotedSize? (bytes (c :: s)) = (quotedSize? (bytes s)).map (· + c.utf8Size) := by
  rw [Text.bytes_cons, ← String.length_utf8EncodeChar]
  rcases Nat.lt_or_ge c.toNat 128 with hlt | hge
  · have hbyte : UInt8.ofNat c.toNat ≠ 34 ∧ UInt8.ofNat c.toNat ≠ 92 :=
      Text.forall_ascii (P := fun c => c ≠ '"' → c ≠ '\\' →
        UInt8.ofNat c.toNat ≠ 34 ∧ UInt8.ofNat c.toNat ≠ 92) (by decide +kernel) hlt hmark hslash
    rw [Text.utf8EncodeChar_of_lt hlt]
    exact quotedSize?_cons hbyte.1 hbyte.2 _
  · exact quotedSize?_append (fun b hb => Text.le_of_mem_utf8EncodeChar hge hb) _

/-- An escape takes one byte along; what is left of a longer character is passed over. -/
theorem quotedSize?_escape (c : Char) (s : List Char) :
    quotedSize? (bytes ('\\' :: c :: s)) =
      (quotedSize? (bytes s)).map (· + (1 + c.utf8Size)) := by
  obtain ⟨b, high, hencoded⟩ := Text.exists_utf8EncodeChar_eq_cons c
  have hhigh : ∀ d ∈ high, 128 ≤ d.toNat := by
    intro d hd
    rcases Nat.lt_or_ge c.toNat 128 with hlt | hge
    · rw [Text.utf8EncodeChar_of_lt hlt] at hencoded
      cases hencoded
      cases hd
    · exact Text.le_of_mem_utf8EncodeChar hge (hencoded ▸ List.mem_cons_of_mem _ hd)
  have hsize : c.utf8Size = high.length + 1 := by
    rw [← String.length_utf8EncodeChar, hencoded, List.length_cons]
  have hslash : String.utf8EncodeChar '\\' = [92] := by decide
  rw [Text.bytes_cons, Text.bytes_cons, hslash, hencoded, List.singleton_append, List.cons_append,
    quotedSize?, if_neg (by decide), if_pos rfl, quotedSize?_append hhigh, hsize]
  cases quotedSize? (bytes s) <;> simp
  omega

theorem quotedSize?_bytes (s : List Char) :
    quotedSize? (bytes s) = (quotedPart? s).map fun found => (bytes found.1).length := by
  fun_induction quotedPart? s with
  | case1 => rfl
  | case2 s =>
    have hmark : String.utf8EncodeChar '"' = [34] := by decide
    rw [Text.bytes_cons, hmark]
    cases bytes s <;> simp [quotedSize?, bytes]
  | case3 c s ih =>
    rw [quotedSize?_escape, ih]
    cases quotedPart? s with
    | none => rfl
    | some found =>
      have hslash : Char.utf8Size '\\' = 1 := by decide
      simp only [Option.map_some, Text.length_bytes_cons, hslash, Option.some.injEq]
      omega
  | case4 => decide
  | case5 c s hmark hescape hlast ih =>
    have hslash : c ≠ '\\' := by
      intro hc
      cases s with
      | nil => exact hlast hc rfl
      | cons d s => exact hescape d s hc rfl
    rw [quotedSize?_plain hmark hslash, ih]
    cases quotedPart? s with
    | none => rfl
    | some found =>
      simp only [Option.map_some, Text.length_bytes_cons, Option.some.injEq]
      omega

/-! ## Pairs -/

theorem eq_append_of_quotedPart? {s v rest : List Char} (h : quotedPart? s = some (v, rest)) :
    s = v ++ '"' :: rest := by
  fun_induction quotedPart? s generalizing v with
  | case1 => cases h
  | case2 s =>
    cases h
    rfl
  | case3 c s ih =>
    obtain ⟨⟨u, r⟩, hfound, heq⟩ := Option.map_eq_some_iff.1 h
    cases heq
    rw [ih hfound]
    rfl
  | case4 => cases h
  | case5 c s _ _ _ ih =>
    obtain ⟨⟨u, r⟩, hfound, heq⟩ := Option.map_eq_some_iff.1 h
    cases heq
    rw [ih hfound]
    rfl

/-- A pair is its key, a colon and its value between quotation marks, behind spaces. -/
theorem eq_append_of_nextPair? {s rest : List Char} {pair : Pair}
    (h : nextPair? s = some (pair, rest)) :
    s = s.takeWhile (· == ' ') ++ (pair.key ++ ':' :: '"' :: (pair.quoted ++ '"' :: rest)) := by
  unfold nextPair? at h
  dsimp only at h
  split at h
  · cases h
  · split at h
    · next t ht =>
      obtain ⟨⟨v, r⟩, hfound, heq⟩ := Option.map_eq_some_iff.1 h
      cases heq
      rw [← eq_append_of_quotedPart? hfound, ← ht, List.takeWhile_append_dropWhile,
        List.takeWhile_append_dropWhile]
    · cases h

theorem byte_injective {c d : Char} (hc : c.toNat < 128) (hd : d.toNat < 128)
    (h : UInt8.ofNat c.toNat = UInt8.ofNat d.toNat) : c = d := by
  have hnat := congrArg UInt8.toNat h
  simp only [UInt8.toNat_ofNat'] at hnat
  exact Char.toNat_inj.1 (by omega)

/-- A text that begins with an ASCII byte begins with this character. -/
theorem head?_of_getElem?_bytes {d : Char} (hd : d.toNat < 128) {s : List Char}
    (h : (bytes s)[0]? = some (UInt8.ofNat d.toNat)) : s.head? = some d := by
  cases s with
  | nil => cases h
  | cons c s =>
    obtain ⟨b, high, hencoded⟩ := Text.exists_utf8EncodeChar_eq_cons c
    rw [Text.bytes_cons, hencoded] at h
    have hb : b = UInt8.ofNat d.toNat := Option.some.inj h
    rcases Nat.lt_or_ge c.toNat 128 with hlt | hge
    · rw [Text.utf8EncodeChar_of_lt hlt] at hencoded
      cases hencoded
      rw [byte_injective hlt hd hb]
      rfl
    · have hhigh : 128 ≤ b.toNat :=
        Text.le_of_mem_utf8EncodeChar hge (hencoded ▸ List.mem_cons_self)
      refine absurd hb (ne_of_high hhigh ?_)
      rw [UInt8.toNat_ofNat']
      omega

theorem drop_bytes (front back : List Char) :
    (bytes (front ++ back)).drop (bytes front).length = bytes back := by
  rw [Text.bytes_append]
  exact List.drop_left

theorem length_add_takeWhile {p : UInt8 → Bool} {q : Char → Bool} (h : Follows p q)
    (front s : List Char) :
    (bytes front).length + ((bytes s).takeWhile p).length =
      (bytes (front ++ s.takeWhile q)).length := by
  rw [Text.takeWhile_bytes h, Text.bytes_append, List.length_append]

theorem length_bytes_append_eq_iff {front s : List Char} :
    (bytes (front ++ s)).length = (bytes front).length ↔ s = [] := by
  rw [Text.bytes_append, List.length_append]
  cases s with
  | nil => simp [bytes]
  | cons c s =>
    have hpos := Char.utf8Size_pos c
    rw [Text.length_bytes_cons]
    simp only [reduceCtorEq, iff_false]
    omega

/-- A key is followed by a colon and a quotation mark in bytes exactly if it is in characters. -/
theorem bytes_begin_iff (front after : List Char) :
    ((bytes (front ++ after))[(bytes front).length]? = some 58 ∧
      (bytes (front ++ after))[(bytes front).length + 1]? = some 34) ↔
      ∃ t, after = ':' :: '"' :: t := by
  have hcolon : String.utf8EncodeChar ':' = [58] := by decide
  have hmark : String.utf8EncodeChar '"' = [34] := by decide
  have hzero : (bytes (front ++ after))[(bytes front).length]? = (bytes after)[0]? := by
    rw [← drop_bytes front after, List.getElem?_drop, Nat.add_zero]
  have hone : (bytes (front ++ after))[(bytes front).length + 1]? = (bytes after)[1]? := by
    rw [← drop_bytes front after, List.getElem?_drop]
  rw [hzero, hone]
  constructor
  · rintro ⟨hfirst, hsecond⟩
    have hafter := head?_of_getElem?_bytes (d := ':') (by decide) hfirst
    obtain ⟨t, rfl⟩ := List.head?_eq_some_iff.1 hafter
    rw [Text.bytes_cons, hcolon] at hsecond
    have hnext := head?_of_getElem?_bytes (d := '"') (by decide) hsecond
    obtain ⟨t, rfl⟩ := List.head?_eq_some_iff.1 hnext
    exact ⟨t, rfl⟩
  · rintro ⟨t, rfl⟩
    rw [Text.bytes_cons, Text.bytes_cons, hcolon, hmark]
    exact ⟨rfl, rfl⟩

/-- The byte offsets of a pair that stands behind a text. -/
def offsetsOf (before : List Char) (pair : Pair) : PairOffsets :=
  let keyStop := (bytes (before ++ pair.key)).length
  ⟨(bytes before).length, keyStop, keyStop + 2, keyStop + 2 + (bytes pair.quoted).length⟩

/-- The scan over bytes finds the pairs that the scan over characters finds. -/
theorem pairAt?_bytes (front s : List Char) :
    pairAt? (bytes (front ++ s)) (bytes front).length =
      (nextPair? s).map fun found => offsetsOf (front ++ s.takeWhile (· == ' ')) found.1 := by
  let before := front ++ s.takeWhile (· == ' ')
  let body := s.dropWhile (· == ' ')
  let key := body.takeWhile isKeyChar
  let after := body.dropWhile isKeyChar
  have hbody : front ++ s = before ++ body := by
    rw [List.append_assoc, List.takeWhile_append_dropWhile]
  have hafter : front ++ s = before ++ key ++ after := by
    have hsplit : key ++ after = body := List.takeWhile_append_dropWhile
    rw [hbody, List.append_assoc before, hsplit]
  have hstart : (bytes front).length +
      (((bytes (front ++ s)).drop (bytes front).length).takeWhile (· == 32)).length =
      (bytes before).length := by
    rw [drop_bytes]
    exact length_add_takeWhile follows_space front s
  have hstop : (bytes before).length +
      (((bytes (front ++ s)).drop (bytes before).length).takeWhile isKeyByte).length =
      (bytes (before ++ key)).length := by
    rw [hbody, drop_bytes]
    exact length_add_takeWhile follows_isKeyChar before body
  have hquoted : ∀ t, after = ':' :: '"' :: t →
      (bytes (front ++ s)).drop ((bytes (before ++ key)).length + 2) = bytes t := by
    intro t ht
    rw [hafter, ← List.drop_drop, drop_bytes, ht]
    rfl
  unfold pairAt? nextPair?
  dsimp only
  rw [hstart, hstop]
  by_cases hkey : key = []
  · have hempty : key.isEmpty = true := by rw [hkey]; rfl
    rw [if_pos (length_bytes_append_eq_iff.2 hkey), if_pos hempty]
    rfl
  · have hempty : ¬ key.isEmpty = true := by simpa using hkey
    rw [if_neg (mt length_bytes_append_eq_iff.1 hkey), if_neg hempty]
    by_cases hmarks : ∃ t, after = ':' :: '"' :: t
    · obtain ⟨t, ht⟩ := hmarks
      have hbegin := (bytes_begin_iff (before ++ key) after).2 ⟨t, ht⟩
      rw [← hafter] at hbegin
      have hdrop : (s.dropWhile (· == ' ')).dropWhile isKeyChar = ':' :: '"' :: t := ht
      rw [if_pos hbegin, hquoted t ht, quotedSize?_bytes, hdrop]
      simp only [Option.map_map]
      rfl
    · have hbegin := mt (bytes_begin_iff (before ++ key) after).1 hmarks
      rw [← hafter] at hbegin
      rw [if_neg hbegin]
      split
      · next t ht => exact absurd ⟨t, ht⟩ hmarks
      · rfl

/-! ## Look-up -/

theorem find?_of_none {key s : List Char} (h : nextPair? s = none) : find? key s = none := by
  rw [find?]
  split
  · rfl
  · next found =>
    rw [h] at found
    cases found

theorem find?_of_some {key s rest : List Char} {pair : Pair} (h : nextPair? s = some (pair, rest)) :
    find? key s = if pair.key = key then unescape? pair.quoted else find? key rest := by
  rw [find?]
  split
  · next hnone =>
    rw [h] at hnone
    cases hnone
  · next found =>
    rw [h] at found
    cases found
    rfl

/-- The offsets of a pair cut out its key and its value, and what follows the pair begins between
two characters. -/
theorem slices_of_nextPair? {s rest : List Char} {pair : Pair} (front : List Char)
    (h : nextPair? s = some (pair, rest)) :
    let x := offsetsOf (front ++ s.takeWhile (· == ' ')) pair
    slice? (front ++ s) x.keyStart x.keyStop = some pair.key ∧
      slice? (front ++ s) x.quotedStart x.quotedStop = some pair.quoted ∧
      ∃ front', front ++ s = front' ++ rest ∧ x.quotedStop + 1 = (bytes front').length := by
  have hsplit := eq_append_of_nextPair? h
  generalize s.takeWhile (· == ' ') = spaces at hsplit ⊢
  have hcolon : (bytes [':', '"']).length = 2 := by decide
  have hmark : (bytes ['"']).length = 1 := by decide
  have hkey : front ++ s =
      (front ++ spaces) ++ (pair.key ++ ':' :: '"' :: (pair.quoted ++ '"' :: rest)) := by
    rw [hsplit, List.append_assoc]
  have hquoted : front ++ s =
      (front ++ spaces ++ pair.key ++ [':', '"']) ++ (pair.quoted ++ '"' :: rest) := by
    rw [hkey]
    simp
  have hstart : (bytes (front ++ spaces ++ pair.key ++ [':', '"'])).length =
      (bytes (front ++ spaces ++ pair.key)).length + 2 := by
    rw [Text.bytes_append, List.length_append, hcolon]
  have hstop : (bytes (front ++ spaces ++ pair.key ++ [':', '"'] ++ pair.quoted)).length =
      (bytes (front ++ spaces ++ pair.key)).length + 2 + (bytes pair.quoted).length := by
    rw [Text.bytes_append, List.length_append, hstart]
  refine ⟨?_, ?_, front ++ spaces ++ pair.key ++ [':', '"'] ++ pair.quoted ++ ['"'], ?_, ?_⟩
  · rw [hkey]
    exact Text.slice?_append _ _ _
  · have hslice := Text.slice?_append (front ++ spaces ++ pair.key ++ [':', '"']) pair.quoted
      ('"' :: rest)
    rwa [hstart, hstop, ← hquoted] at hslice
  · rw [hquoted]
    simp
  · rw [Text.bytes_append, List.length_append, hstop, hmark]
    rfl

/-- From between two characters on, the look-up over bytes cuts between characters only, and finds
what the look-up over characters finds. -/
theorem findFrom?_bytes (key front s : List Char) :
    findFrom? key (front ++ s) (bytes front).length = some (find? key s) := by
  induction hsize : s.length using Nat.strongRecOn generalizing front s with
  | ind size ih =>
    rw [findFrom?]
    split
    · have hpair := pairAt?_bytes front s
      cases hnext : nextPair? s with
      | none =>
        rw [hnext] at hpair
        split
        · rw [find?_of_none hnext]
        · next x hx =>
          rw [hpair] at hx
          cases hx
      | some found =>
        obtain ⟨pair, rest⟩ := found
        rw [hnext] at hpair
        obtain ⟨hkey, hquoted, front', hrest, hstop⟩ := slices_of_nextPair? front hnext
        split
        · next hx =>
          rw [hpair] at hx
          cases hx
        · next x hx =>
          cases hpair.symm.trans hx
          rw [hkey, hquoted, find?_of_some hnext]
          dsimp only
          split
          · rfl
          · have hshorter := length_lt_of_nextPair? hnext
            rw [hrest, hstop]
            exact ih rest.length (hsize ▸ hshorter) front' rest rfl
    · next hend =>
      have hnil : s = [] := by
        refine length_bytes_append_eq_iff.1 (Nat.le_antisymm (Nat.not_lt.1 hend) ?_)
        rw [Text.bytes_append, List.length_append]
        exact Nat.le_add_right _ _
      rw [hnil, find?_of_none rfl]

/-- The value under a key, looked up over bytes. -/
def lookupBytes? (tag key : String) : Option (Option String) :=
  (findFrom? key.toList tag.toList 0).map fun value => value.map String.ofList

/-- No tag and no key make the look-up over bytes cut inside a character or outside the tag, and
it gives what the look-up over characters gives. -/
theorem lookupBytes?_eq (tag key : String) : lookupBytes? tag key = some (lookup tag key) := by
  have hfind : findFrom? key.toList tag.toList 0 = some (find? key.toList tag.toList) :=
    findFrom?_bytes key.toList [] tag.toList
  rw [lookupBytes?, hfind]
  rfl

end Go.Tag

end StructCopy
