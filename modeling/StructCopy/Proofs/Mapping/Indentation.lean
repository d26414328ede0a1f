/-
  Proofs/Mapping/Indentation: the tokens of a body that has been indented.

  Every line of a body that is not empty is put behind a tab, whatever stands on it.  Between
  tokens that is white space; inside a literal it is a part of its value.  So the indented body
  has the tokens of the body exactly if no literal of it goes over a line break, apart from a
  byte-order mark, which is passed over at the front of the body only.
-/
import StructCopy.Mapping.Function
import StructCopy.Proofs.Go.Gaps
import StructCopy.Proofs.Mapping.FunctionText

set_option autoImplicit false

namespace StructCopy

open Go

/-! ## Character by character -/

/-- A text as it is indented from some place on, inside a line or at the start of one. -/
def indentedFrom : Bool → List Char → List Char
  | inLine, [] => if inLine then ['\n'] else []
  | _, '\n' :: s => '\n' :: indentedFrom false s
  | _, '\r' :: '\n' :: s => '\n' :: indentedFrom false s
  | inLine, c :: s => if inLine then c :: indentedFrom true s else '\t' :: c :: indentedFrom true s

/-- The character stays: it is no line feed and no carriage return before one. -/
def Stays (c : Char) (s : List Char) : Prop :=
  c ≠ '\n' ∧ (c = '\r' → s.head? ≠ some '\n')

theorem Stays.of_not {c : Char} {s : List Char} (hbreak : c ≠ '\n')
    (hreturn : ∀ t, c = '\r' → s = '\n' :: t → False) : Stays c s := by
  refine ⟨hbreak, fun hc hhead => ?_⟩
  obtain ⟨t, ht⟩ := List.head?_eq_some_iff.1 hhead
  exact hreturn t hc ht

theorem Stays.of_ne {c : Char} (h : c ≠ '\n' ∧ c ≠ '\r') (s : List Char) : Stays c s :=
  ⟨h.1, fun hc => absurd hc h.2⟩

theorem indentedFrom_cons (inLine : Bool) {c : Char} {s : List Char} (h : Stays c s) :
    indentedFrom inLine (c :: s) =
      if inLine then c :: indentedFrom true s else '\t' :: c :: indentedFrom true s := by
  rw [indentedFrom.eq_4]
  · exact h.1
  · rintro t hc rfl
    exact h.2 hc rfl

theorem indentedFrom_true_cons {c : Char} {s : List Char} (h : Stays c s) :
    indentedFrom true (c :: s) = c :: indentedFrom true s :=
  indentedFrom_cons true h

/-- A text begins with a line feed, with a carriage return before one, or with a character that
stays. -/
theorem cases_stays (c : Char) (s : List Char) :
    c = '\n' ∨ (c = '\r' ∧ ∃ t, s = '\n' :: t) ∨ Stays c s := by
  by_cases hbreak : c = '\n'
  · exact .inl hbreak
  by_cases hreturn : c = '\r' ∧ s.head? = some '\n'
  · exact .inr (.inl ⟨hreturn.1, List.head?_eq_some_iff.1 hreturn.2⟩)
  · exact .inr (.inr ⟨hbreak, fun hc hhead => hreturn ⟨hc, hhead⟩⟩)

/-- The text begins with a character that stays, so the line is not over. -/
def KeepsLine (s : List Char) : Prop :=
  ∃ c t, s = c :: t ∧ Stays c t

theorem KeepsLine.stays {s : List Char} (h : KeepsLine s) {c : Char} (hc : c ≠ '\n') :
    Stays c s := by
  obtain ⟨d, t, rfl, hstays⟩ := h
  exact ⟨hc, fun _ => by simpa using hstays.1⟩

/-- A new line that is not empty is put behind a tab. -/
theorem KeepsLine.indentedFrom_false {s : List Char} (h : KeepsLine s) :
    indentedFrom false s = '\t' :: indentedFrom true s := by
  obtain ⟨c, t, rfl, hstays⟩ := h
  rw [indentedFrom_cons false hstays, indentedFrom_cons true hstays]
  rfl

/-- Lines that are indented one by one make the text that is indented from the start of a line; if
the first of them has been begun, it is the text that is indented from inside a line. -/
theorem flatMap_indented (s : List Char) :
    (Text.lines s).flatMap indented = indentedFrom false s ∧
      (match Text.lines s with
        | [] => ['\n']
        | line :: rest => line ++ '\n' :: rest.flatMap indented) = indentedFrom true s := by
  fun_induction Text.lines s with
  | case1 => exact ⟨rfl, rfl⟩
  | case2 s ih => exact ⟨congrArg (List.cons '\n') ih.1, congrArg (List.cons '\n') ih.1⟩
  | case3 s ih => exact ⟨congrArg (List.cons '\n') ih.1, congrArg (List.cons '\n') ih.1⟩
  | case4 c s hbreak hreturn hlines ih =>
    have hstays := Stays.of_not hbreak hreturn
    rw [hlines] at ih
    rw [indentedFrom_cons false hstays, indentedFrom_cons true hstays, ← ih.2]
    exact ⟨rfl, rfl⟩
  | case5 c s hbreak hreturn line rest hlines ih =>
    have hstays := Stays.of_not hbreak hreturn
    rw [hlines] at ih
    rw [indentedFrom_cons false hstays, indentedFrom_cons true hstays, ← ih.2]
    exact ⟨by simp [indented], rfl⟩

/-! ## Marks and words -/

theorem takeWhile_indentedFrom {p : Char → Bool} (hbreak : p '\n' = false)
    (hreturn : p '\r' = false) (s : List Char) :
    (indentedFrom true s).takeWhile p = s.takeWhile p := by
  induction s with
  | nil => simp [indentedFrom, hbreak]
  | cons c s ih =>
    rcases cases_stays c s with rfl | ⟨rfl, t, rfl⟩ | hstays
    · simp [indentedFrom, hbreak]
    · simp [indentedFrom, hbreak, hreturn]
    · rw [indentedFrom_true_cons hstays, List.takeWhile_cons, List.takeWhile_cons, ih]

theorem dropWhile_indentedFrom {p : Char → Bool} (hbreak : p '\n' = false) (s : List Char) :
    (indentedFrom true s).dropWhile p = indentedFrom true (s.dropWhile p) := by
  induction s with
  | nil => simp [indentedFrom, hbreak]
  | cons c s ih =>
    rcases cases_stays c s with rfl | ⟨rfl, t, rfl⟩ | hstays
    · simp [indentedFrom, hbreak]
    · rw [List.dropWhile_cons]
      split <;> simp [indentedFrom, hbreak]
    · rw [indentedFrom_true_cons hstays, List.dropWhile_cons, List.dropWhile_cons]
      split
      · exact ih
      · exact (indentedFrom_true_cons hstays).symm

/-- The text holds no character that a line ends with. -/
def Inline (s : List Char) : Prop :=
  ∀ c ∈ s, c ≠ '\n' ∧ c ≠ '\r'

theorem after?_indentedFrom {front : List Char} (h : Inline front) (s : List Char) :
    Text.after? front (indentedFrom true s) = (Text.after? front s).map (indentedFrom true) := by
  induction front generalizing s with
  | nil => simp only [Text.after?, Option.map_some]
  | cons f front ih =>
    obtain ⟨⟨hbreak, hreturn⟩, hfront⟩ := List.forall_mem_cons.1 h
    cases s with
    | nil => simp [indentedFrom, Text.after?, hbreak]
    | cons c s =>
      rcases cases_stays c s with rfl | ⟨rfl, t, rfl⟩ | hstays
      · simp [indentedFrom, Text.after?, hbreak]
      · simp [indentedFrom, Text.after?, hbreak, hreturn]
      · rw [indentedFrom_true_cons hstays, Text.after?, Text.after?]
        split
        · exact ih hfront s
        · rfl

theorem head?_indentedFrom {m : Char} (hbreak : m ≠ '\n') (hreturn : m ≠ '\r') (s : List Char) :
    (indentedFrom true s).head? = some m ↔ s.head? = some m := by
  cases s with
  | nil => simp [indentedFrom, hbreak.symm]
  | cons c s =>
    rcases cases_stays c s with rfl | ⟨rfl, t, rfl⟩ | hstays
    · simp [indentedFrom]
    · simp [indentedFrom, hbreak.symm, hreturn.symm]
    · rw [indentedFrom_true_cons hstays, List.head?_cons, List.head?_cons]

theorem startsNumber_indentedFrom (c : Char) (s : List Char) :
    startsNumber c (indentedFrom true s) = startsNumber c s := by
  unfold startsNumber
  cases s with
  | nil => rfl
  | cons d s =>
    rcases cases_stays d s with rfl | ⟨rfl, t, rfl⟩ | hstays
    · rfl
    · rfl
    · rw [indentedFrom_true_cons hstays, List.head?_cons, List.head?_cons]

theorem longOperator?_indentedFrom (s : List Char) :
    longOperator? (indentedFrom true s) =
      (longOperator? s).map fun found => (found.1, indentedFrom true found.2) := by
  have hinline : ∀ text ∈ longOperators, Inline text.toList := by
    intro text htext c hc
    constructor
    · rintro rfl
      exact not_mem_longOperator (by decide) htext hc
    · rintro rfl
      exact not_mem_longOperator (by decide) htext hc
  unfold longOperator?
  generalize longOperators = texts at hinline
  induction texts with
  | nil => rfl
  | cons text texts ih =>
    rw [List.forall_mem_cons] at hinline
    rw [List.findSome?_cons, List.findSome?_cons, after?_indentedFrom hinline.1]
    cases Text.after? text.toList s with
    | some => rfl
    | none => exact ih hinline.2

/-! ## Literals -/

/-- What has become of the inside of a literal: it is as before if it holds no line feed, and has
more tabs than before if it holds one. -/
def Widened (inside before after : List Char) : Prop :=
  if '\n' ∈ inside then before.count '\t' < after.count '\t' else after = before

namespace Widened

variable {inside before after : List Char}

theorem count_le (h : Widened inside before after) : before.count '\t' ≤ after.count '\t' := by
  unfold Widened at h
  split at h
  · exact Nat.le_of_lt h
  · exact Nat.le_of_eq (congrArg _ h.symm)

theorem nil : Widened [] [] [] := by
  simp [Widened]

/-- A part in front that is as before. -/
theorem append (h : Widened inside before after) {text : List Char} (htext : '\n' ∉ text)
    (front : List Char) :
    Widened (text ++ inside) (front ++ before) (front ++ after) := by
  unfold Widened at h ⊢
  simp only [List.mem_append, htext, false_or, List.count_append]
  split at h
  · next hmem =>
    rw [if_pos hmem]
    omega
  · next hmem => rw [if_neg hmem, h]

/-- A line feed in front, and the tab behind it. -/
theorem of_tab (h : Widened inside before after) {text : List Char} (htext : '\n' ∈ text)
    (front : List Char) :
    Widened (text ++ inside) (front ++ before) (front ++ '\t' :: after) := by
  have hle := h.count_le
  unfold Widened
  rw [if_pos (List.mem_append_left _ htext), List.count_append, List.count_append,
    List.count_cons_self]
  omega

end Widened

theorem stringBody_tab (s : List Char) : stringBody ('\t' :: s) =
    (stringBody s).map fun found => ('\t' :: found.1, found.2) := by
  rw [stringBody] <;> simp

/-- The inside of a string literal begins with a character that stays: a line feed is not read. -/
theorem keepsLine_of_stringBody {s value rest : List Char}
    (h : stringBody s = .ok (value, rest)) : KeepsLine s := by
  cases s with
  | nil => cases h
  | cons c t =>
    rcases cases_stays c t with rfl | ⟨rfl, t, rfl⟩ | hstays
    · cases h
    · cases h
    · exact ⟨c, t, rfl, hstays⟩

/-- A string literal is read up to the same mark, with a tab behind every line feed in it. -/
theorem stringBody_indentedFrom {s value rest : List Char} (h : stringBody s = .ok (value, rest)) :
    ∃ inside value', s = inside ++ '"' :: rest ∧ Widened inside value value' ∧
      stringBody (indentedFrom true s) = .ok (value', indentedFrom true rest) := by
  fun_induction stringBody s generalizing value with
  | case1 => cases h
  | case2 => cases h
  | case3 s =>
    cases h
    refine ⟨[], [], rfl, .nil, ?_⟩
    rw [indentedFrom_true_cons (.of_ne (by decide) _), stringBody]
  | case4 => cases h
  | case5 c s ih =>
    obtain ⟨⟨value', rest'⟩, hfound, heq⟩ := ok_of_map_eq_ok h
    cases heq
    obtain ⟨inside, value'', hs, hwidened, hbody⟩ := ih hfound
    have hkeeps := keepsLine_of_stringBody hfound
    by_cases hc : c = '\n'
    · -- the backslash is read with the line feed, and the next line starts with a tab
      subst hc
      have hescaped : '\n' ∈ ['\\', '\n'] := by simp
      have htab : indentedFrom true ('\\' :: '\n' :: s) =
          '\\' :: '\n' :: '\t' :: indentedFrom true s := by
        rw [indentedFrom_true_cons (.of_ne (by decide) _), ← hkeeps.indentedFrom_false]
        rfl
      refine ⟨'\\' :: '\n' :: inside, escaped '\n' ++ '\t' :: value'', by rw [hs]; rfl,
        hwidened.of_tab hescaped (escaped '\n'), ?_⟩
      rw [htab, stringBody, stringBody_tab, hbody]
      rfl
    · have hescaped : '\n' ∉ ['\\', c] := by simpa using Ne.symm hc
      refine ⟨'\\' :: c :: inside, escaped c ++ value'', by rw [hs]; rfl,
        hwidened.append hescaped (escaped c), ?_⟩
      rw [indentedFrom_true_cons (.of_ne (by decide) _),
        indentedFrom_true_cons (hkeeps.stays hc), stringBody, hbody]
      rfl
  | case6 c s hbreak hclose hend hescape ih =>
    obtain ⟨⟨value', rest'⟩, hfound, heq⟩ := ok_of_map_eq_ok h
    cases heq
    have hplain := ne_backslash hend hescape
    have hkeeps := keepsLine_of_stringBody hfound
    have hone : '\n' ∉ [c] := by simpa using Ne.symm hbreak
    obtain ⟨inside, value'', hs, hwidened, hbody⟩ := ih hfound
    refine ⟨c :: inside, c :: value'', congrArg _ hs,
      hwidened.append hone [c], ?_⟩
    rw [indentedFrom_true_cons (hkeeps.stays hbreak), stringBody, hbody]
    · rfl
    · exact hbreak
    · exact hclose
    · exact fun hc _ => hplain hc
    · exact fun _ _ hc _ => hplain hc

theorem runeBody_tab (s : List Char) : runeBody ('\t' :: s) =
    (runeBody s).map fun found => ('\t' :: found.1, found.2) := by
  rw [runeBody] <;> simp

/-- The inside of a rune literal begins with a character that stays: a line feed is not read. -/
theorem keepsLine_of_runeBody {s value rest : List Char}
    (h : runeBody s = .ok (value, rest)) : KeepsLine s := by
  cases s with
  | nil => cases h
  | cons c t =>
    rcases cases_stays c t with rfl | ⟨rfl, t, rfl⟩ | hstays
    · cases h
    · cases h
    · exact ⟨c, t, rfl, hstays⟩

/-- A rune literal is read up to the same mark, with a tab behind every line feed in it. -/
theorem runeBody_indentedFrom {s value rest : List Char} (h : runeBody s = .ok (value, rest)) :
    ∃ inside value', s = inside ++ '\'' :: rest ∧ Widened inside value value' ∧
      runeBody (indentedFrom true s) = .ok (value', indentedFrom true rest) := by
  fun_induction runeBody s generalizing value with
  | case1 => cases h
  | case2 s =>
    cases h
    refine ⟨[], [], rfl, .nil, ?_⟩
    rw [indentedFrom_true_cons (.of_ne (by decide) _), runeBody]
  | case3 => cases h
  | case4 => cases h
  | case5 c s ih =>
    obtain ⟨⟨value', rest'⟩, hfound, heq⟩ := ok_of_map_eq_ok h
    cases heq
    obtain ⟨inside, value'', hs, hwidened, hbody⟩ := ih hfound
    have hkeeps := keepsLine_of_runeBody hfound
    by_cases hc : c = '\n'
    · -- the backslash is read with the line feed, and the next line starts with a tab
      subst hc
      have hescaped : '\n' ∈ ['\\', '\n'] := by simp
      have htab : indentedFrom true ('\\' :: '\n' :: s) =
          '\\' :: '\n' :: '\t' :: indentedFrom true s := by
        rw [indentedFrom_true_cons (.of_ne (by decide) _), ← hkeeps.indentedFrom_false]
        rfl
      refine ⟨'\\' :: '\n' :: inside, ['\\', '\n'] ++ '\t' :: value'', by rw [hs]; rfl,
        hwidened.of_tab hescaped ['\\', '\n'], ?_⟩
      rw [htab, runeBody, runeBody_tab, hbody]
      rfl
    · have hescaped : '\n' ∉ ['\\', c] := by simpa using Ne.symm hc
      refine ⟨'\\' :: c :: inside, ['\\', c] ++ value'', by rw [hs]; rfl,
        hwidened.append hescaped ['\\', c], ?_⟩
      rw [indentedFrom_true_cons (.of_ne (by decide) _),
        indentedFrom_true_cons (hkeeps.stays hc), runeBody, hbody]
      rfl
  | case6 c s hclose hbreak hend hescape ih =>
    obtain ⟨⟨value', rest'⟩, hfound, heq⟩ := ok_of_map_eq_ok h
    cases heq
    have hplain := ne_backslash hend hescape
    have hkeeps := keepsLine_of_runeBody hfound
    have hone : '\n' ∉ [c] := by simpa using Ne.symm hbreak
    obtain ⟨inside, value'', hs, hwidened, hbody⟩ := ih hfound
    refine ⟨c :: inside, c :: value'', congrArg _ hs,
      hwidened.append hone [c], ?_⟩
    rw [indentedFrom_true_cons (hkeeps.stays hbreak), runeBody, hbody]
    · rfl
    · exact hclose
    · exact hbreak
    · exact fun hc _ => hplain hc
    · exact fun _ _ hc _ => hplain hc

theorem cut?_cons_of_not_mem {mark s : List Char} (hne : mark ≠ []) {c : Char} (hc : c ∉ mark) :
    Text.cut? mark (c :: s) = (Text.cut? mark s).map fun found => (c :: found.1, found.2) := by
  obtain ⟨m, mark, rfl⟩ := List.exists_cons_of_ne_nil hne
  rw [List.mem_cons, not_or] at hc
  rw [Text.cut?, Text.after?, if_neg (Ne.symm hc.1)]

/-- A part before a mark, and the same part of the indented text: it has more tabs than before if it
begins with a line or holds a line feed, and is as before otherwise. -/
structure Shifted (inLine : Bool) (before after : List Char) : Prop where
  feeds : lineFeeds after = lineFeeds before
  tabs : inLine = false ∨ '\n' ∈ before → before.count '\t' < after.count '\t'
  same : inLine = true → '\n' ∉ before → after = before

namespace Shifted

variable {inLine : Bool} {before after : List Char}

theorem lineFeed (h : Shifted false before after) :
    Shifted inLine ('\n' :: before) ('\n' :: after) where
  feeds := by simpa [lineFeeds] using h.feeds
  tabs _ := by simpa using h.tabs (.inl rfl)
  same _ hbreak := absurd List.mem_cons_self hbreak

theorem dropReturn (h : Shifted inLine ('\n' :: before) after) :
    Shifted inLine ('\r' :: '\n' :: before) after where
  feeds := by simpa [lineFeeds] using h.feeds
  tabs _ := by simpa using h.tabs (.inr List.mem_cons_self)
  same _ hbreak := absurd (by simp) hbreak

theorem cons (h : Shifted true before after) {c : Char} (hc : c ≠ '\n') :
    Shifted true (c :: before) (c :: after) where
  feeds := by simpa [lineFeeds, hc] using h.feeds
  tabs hbreak := by
    have hlt := h.tabs (.inr (by simpa [hc.symm] using hbreak))
    rw [List.count_cons, List.count_cons]
    omega
  same _ hbreak := congrArg _ (h.same rfl fun hmem => hbreak (List.mem_cons_of_mem _ hmem))

/-- At the start of a line there is a tab more. -/
theorem tab (h : Shifted true before after) : Shifted false before ('\t' :: after) where
  feeds := by simpa [lineFeeds] using h.feeds
  tabs _ := by
    rw [List.count_cons_self]
    by_cases hbreak : '\n' ∈ before
    · have hlt := h.tabs (.inr hbreak)
      omega
    · rw [h.same rfl hbreak]
      omega
  same hfalse := nomatch hfalse

end Shifted

/-- A text is cut at the same mark when it is indented. -/
theorem cut?_indentedFrom {mark : List Char} (hne : mark ≠ []) (hmark : Inline mark)
    (htab : '\t' ∉ mark) (inLine : Bool) {s left right : List Char}
    (h : Text.cut? mark s = some (left, right)) :
    ∃ left', Text.cut? mark (indentedFrom inLine s) = some (left', indentedFrom true right) ∧
      Shifted inLine left left' := by
  have hbreak : '\n' ∉ mark := fun hmem => (hmark _ hmem).1 rfl
  have hreturn : '\r' ∉ mark := fun hmem => (hmark _ hmem).2 rfl
  induction s generalizing inLine left with
  | nil =>
    rw [Text.cut?, if_neg (by simpa using hne)] at h
    cases h
  | cons c s ih =>
    rcases cases_stays c s with rfl | ⟨rfl, t, rfl⟩ | hstays
    · rw [cut?_cons_of_not_mem hne hbreak] at h
      obtain ⟨⟨front, rest⟩, hcut, heq⟩ := Option.map_eq_some_iff.1 h
      cases heq
      obtain ⟨front', hcut', hshifted⟩ := ih false hcut
      refine ⟨'\n' :: front', ?_, hshifted.lineFeed⟩
      rw [indentedFrom, cut?_cons_of_not_mem hne hbreak, hcut']
      rfl
    · rw [cut?_cons_of_not_mem hne hreturn] at h
      obtain ⟨⟨front, rest⟩, hcut, heq⟩ := Option.map_eq_some_iff.1 h
      cases heq
      obtain ⟨front', hcut', hshifted⟩ := ih inLine hcut
      rw [cut?_cons_of_not_mem hne hbreak] at hcut
      obtain ⟨⟨front, rest⟩, -, heq⟩ := Option.map_eq_some_iff.1 hcut
      cases heq
      exact ⟨front', hcut', hshifted.dropReturn⟩
    · have hline : ∃ left', Text.cut? mark (c :: indentedFrom true s) =
          some (left', indentedFrom true right) ∧ Shifted true left left' := by
        have hafter := after?_indentedFrom hmark (c :: s)
        rw [indentedFrom_true_cons hstays] at hafter
        rw [Text.cut?] at h ⊢
        rw [hafter]
        split at h
        · next rest hrest =>
          cases h
          rw [hrest]
          exact ⟨[], rfl, rfl, fun hnone => by simp at hnone, fun _ _ => rfl⟩
        · next hnone =>
          obtain ⟨⟨front, rest⟩, hcut, heq⟩ := Option.map_eq_some_iff.1 h
          cases heq
          obtain ⟨front', hcut', hshifted⟩ := ih true hcut
          rw [hnone, Option.map_none]
          dsimp only
          rw [hcut']
          exact ⟨c :: front', rfl, hshifted.cons hstays.1⟩
      obtain ⟨left', hcut, hshifted⟩ := hline
      rw [indentedFrom_cons inLine hstays]
      cases inLine with
      | true => exact ⟨left', hcut, hshifted⟩
      | false =>
        refine ⟨'\t' :: left', ?_, hshifted.tab⟩
        rw [if_neg Bool.false_ne_true, cut?_cons_of_not_mem hne htab, hcut]
        rfl

/-- A raw string literal is read up to the same mark, with a tab behind every line feed in it whose
line is not empty. -/
theorem rawStringBody_indentedFrom {s value rest : List Char}
    (h : rawStringBody s = .ok (value, rest)) :
    ∃ value', rawStringBody (indentedFrom true s) = .ok (value', indentedFrom true rest) ∧
      lineFeeds value' = lineFeeds value ∧
      Widened value (value.filter (· != '\r')) (value'.filter (· != '\r')) := by
  unfold rawStringBody at h
  split at h
  · next hcut =>
    cases h
    obtain ⟨value', hcut', hshifted⟩ :=
      cut?_indentedFrom (by simp) (by simp [Inline]) (by simp) true hcut
    refine ⟨value', by rw [rawStringBody, hcut'], hshifted.feeds, ?_⟩
    unfold Widened
    split
    · next hbreak =>
      have htabs := hshifted.tabs (.inr hbreak)
      rwa [List.count_filter (by decide), List.count_filter (by decide)]
    · next hbreak => rw [hshifted.same rfl hbreak]
  · cases h

/-- A block comment ends at the same mark and holds as many line feeds. -/
theorem commentBody_indentedFrom {s inside rest : List Char}
    (h : commentBody s = .ok (inside, rest)) :
    ∃ inside', commentBody (indentedFrom true s) = .ok (inside', indentedFrom true rest) ∧
      lineFeeds inside' = lineFeeds inside := by
  unfold commentBody at h
  split at h
  · next hcut =>
    cases h
    obtain ⟨inside', hcut', hshifted⟩ :=
      cut?_indentedFrom (by simp) (by simp [Inline]) (by simp) true hcut
    exact ⟨inside', by rw [commentBody, hcut'], hshifted.feeds⟩
  · cases h

/-! ## One piece -/

/-- What has become of a piece that is cut from a text: it is as before, or it was a literal with a
line feed and is one of another value. -/
inductive Reread (text : List Char) : Piece → Piece → Prop where
  | same {piece : Piece} (h : ∀ t n, piece = .token t n → '\n' ∉ text) : Reread text piece piece
  | widened {t t' : Token} {breaks : Nat} (hbreak : '\n' ∈ text) (hne : t' ≠ t) :
      Reread text (.token t breaks) (.token t' breaks)

/-- A literal is read again as its value is. -/
theorem Widened.reread {inside before after text : List Char}
    (h : Widened inside before after) (htext : '\n' ∈ text ↔ '\n' ∈ inside)
    (literal : String → Token) (hinj : ∀ v v', literal v = literal v' → v = v') (breaks : Nat) :
    Reread text (.token (literal (String.ofList before)) breaks)
      (.token (literal (String.ofList after)) breaks) := by
  unfold Widened at h
  split at h
  · next hbreak =>
    refine .widened (htext.2 hbreak) fun heq => ?_
    rw [String.ofList_inj.1 (hinj _ _ heq)] at h
    omega
  · next hbreak =>
    subst h
    exact .same fun _ _ _ hmem => hbreak (htext.1 hmem)

theorem Reread.of_not_token {text : List Char} {piece : Piece} (h : ∀ t n, piece ≠ .token t n) :
    Reread text piece piece :=
  .same fun t n heq => absurd heq (h t n)

/-- The text starts as it did when its first character stays: no mark of the first two is put in. -/
theorem lead_indentedFrom (c : Char) (s : List Char) :
    lead c (indentedFrom true s) = lead c s := by
  refine lead_congr (fun m hm => ?_) (startsNumber_indentedFrom c s)
  exact head?_indentedFrom (ne_of_mem_of_not_mem hm (by decide))
    (ne_of_mem_of_not_mem hm (by decide)) s

/-- A piece that begins with a character that stays is cut off the indented text as well. -/
theorem step_indentedFrom {c : Char} {s rest : List Char} {piece : Piece} (hstays : Stays c s)
    (h : step c s = .ok (piece, rest)) :
    ∃ text piece', c :: s = text ++ rest ∧
      step c (indentedFrom true s) = .ok (piece', indentedFrom true rest) ∧
      Reread text piece piece' := by
  have hbreak := hstays.1
  have hwhile : ∀ p : Char → Bool, c :: s = c :: s.takeWhile p ++ s.dropWhile p := by
    intro p
    rw [List.cons_append, List.takeWhile_append_dropWhile]
  have hplain : ∀ {p : Char → Bool}, p '\n' = false → '\n' ∉ c :: s.takeWhile p := by
    intro p hp hmem
    rcases List.mem_cons.1 hmem with heq | hmem
    · exact hbreak heq.symm
    · rw [List.mem_takeWhile_imp hmem] at hp
      cases hp
  have hone : '\n' ∉ [c] := fun hmem => hbreak (List.mem_singleton.1 hmem).symm
  have hfits := fits_lead c s
  rw [step_eq_cut] at h
  rw [step_eq_cut, lead_indentedFrom]
  cases hlead : lead c s with rw [hlead] at h hfits
  | lineBreak => exact absurd hfits hbreak
  | lineComment =>
    cases h
    rw [Lead.cut, dropWhile_indentedFrom rfl]
    exact ⟨_, _, hwhile _, rfl, .of_not_token fun _ _ => Piece.noConfusion⟩
  | blockComment =>
    obtain ⟨rfl, hstar⟩ := hfits
    obtain ⟨s, rfl⟩ := List.head?_eq_some_iff.1 hstar
    obtain ⟨⟨inside, rest⟩, hbody, heq⟩ := ok_of_map_eq_ok h
    cases heq
    rw [List.tail_cons] at hbody
    obtain ⟨inside', hbody', hfeeds⟩ := commentBody_indentedFrom hbody
    rw [Lead.cut, indentedFrom_true_cons (.of_ne (by decide) _), List.tail_cons, hbody']
    refine ⟨'/' :: '*' :: (inside ++ ['*', '/']), .comment (lineFeeds inside), ?_, ?_,
      .of_not_token fun _ _ => Piece.noConfusion⟩
    · rw [eq_append_of_commentBody hbody]
      simp
    · rw [← hfeeds]
      rfl
  | blank =>
    cases h
    exact ⟨[c], _, rfl, rfl, .of_not_token fun _ _ => Piece.noConfusion⟩
  | string =>
    obtain ⟨⟨value, rest⟩, hbody, heq⟩ := ok_of_map_eq_ok h
    cases heq
    obtain ⟨inside, value', rfl, hwidened, hbody'⟩ := stringBody_indentedFrom hbody
    obtain rfl : c = '"' := hfits
    rw [Lead.cut, hbody']
    refine ⟨'"' :: (inside ++ ['"']), _, by simp, rfl, ?_⟩
    exact hwidened.reread (by simp) .str (by simp) 0
  | rawString =>
    obtain ⟨⟨value, rest⟩, hbody, heq⟩ := ok_of_map_eq_ok h
    cases heq
    obtain ⟨value', hbody', hfeeds, hwidened⟩ := rawStringBody_indentedFrom hbody
    obtain rfl : c = '\x60' := hfits
    rw [Lead.cut, hbody', eq_append_of_rawStringBody hbody]
    refine ⟨'\x60' :: (value ++ ['\x60']), _, by simp, rfl, ?_⟩
    dsimp only
    rw [hfeeds]
    exact hwidened.reread (by simp) .str (by simp) _
  | rune =>
    obtain ⟨⟨value, rest⟩, hbody, heq⟩ := ok_of_map_eq_ok h
    cases heq
    obtain ⟨inside, value', rfl, hwidened, hbody'⟩ := runeBody_indentedFrom hbody
    obtain rfl : c = '\'' := hfits
    rw [Lead.cut, hbody']
    refine ⟨'\'' :: (inside ++ ['\'']), _, by simp, rfl, ?_⟩
    exact hwidened.reread (by simp) .rune (by simp) 0
  | number =>
    cases h
    rw [Lead.cut, takeWhile_indentedFrom rfl rfl, dropWhile_indentedFrom rfl]
    exact ⟨_, _, hwhile _, rfl, .same fun _ _ _ => hplain rfl⟩
  | word =>
    cases h
    rw [Lead.cut, takeWhile_indentedFrom (by decide) (by decide),
      dropWhile_indentedFrom (by decide)]
    exact ⟨_, _, hwhile _, rfl, .same fun _ _ _ => hplain (by decide)⟩
  | operator =>
    rw [Lead.cut] at h
    rw [Lead.cut, ← indentedFrom_true_cons hstays, longOperator?_indentedFrom]
    split at h
    · next hlong =>
      cases h
      obtain ⟨text, hmem, hfound⟩ := List.exists_of_findSome?_eq_some hlong
      obtain ⟨rest', hafter, heq⟩ := Option.map_eq_some_iff.1 hfound
      cases heq
      rw [hlong]
      refine ⟨text.toList, _, Text.after?_eq_some.1 hafter, rfl, .same fun _ _ _ => ?_⟩
      exact not_mem_longOperator (by decide) hmem
    · next hlong =>
      rw [hlong]
      split at h
      · cases h
        exact ⟨[c], _, rfl, rfl, .same fun _ _ _ => hone⟩
      · cases h

/-! ## All pieces -/

/-- The cut is no literal that goes over a line break. -/
def OnOneLine (cut : Cut) : Prop :=
  cut.isToken = true → '\n' ∉ cut.text

/-- How pieces and the pieces that they have become are laid out.  If no literal goes over a line
break, the tokens are the same, on the same lines; otherwise the tokens alone are not. -/
structure Agrees (cs : List Cut) (before after : List Piece) : Prop where
  same : (∀ cut ∈ cs, OnOneLine cut) → ∀ line pending,
    (layout line pending after).tokens = (layout line pending before).tokens
  onOneLine : ∀ line pending, (layout line pending after).tokens.map Located.token =
    (layout line pending before).tokens.map Located.token → ∀ cut ∈ cs, OnOneLine cut

/-- What a piece gives stands in front of what the pieces behind it give. -/
theorem exists_layout_cons (piece : Piece) (line : Nat) (pending : Bool) :
    ∃ front line' pending', ∀ rest, (layout line pending (piece :: rest)).tokens =
      front ++ (layout line' pending' rest).tokens := by
  cases piece with
  | token t n => exact ⟨[⟨line, t⟩], _, _, fun _ => rfl⟩
  | blank => exact ⟨[], _, _, fun _ => rfl⟩
  | lineBreak =>
    cases pending with
    | true => exact ⟨[⟨line, .semicolon⟩], _, _, fun _ => rfl⟩
    | false => exact ⟨[], _, _, fun _ => rfl⟩
  | comment n =>
    by_cases hbreak : (pending && n != 0) = true
    · refine ⟨[⟨line, .semicolon⟩], line + n, false, fun rest => ?_⟩
      rw [layout, if_pos hbreak]
      rfl
    · refine ⟨[], line + n, pending, fun rest => ?_⟩
      rw [layout, if_neg hbreak]
      rfl

namespace Agrees

variable {cs : List Cut} {before after : List Piece}

/-- White space in front gives nothing. -/
theorem blank (h : Agrees cs before after) : Agrees cs before (.blank :: after) :=
  ⟨h.same, h.onOneLine⟩

/-- White space that has been left out gave nothing. -/
theorem leftOut (h : Agrees cs before after) (text : List Char) :
    Agrees (⟨.blank, text⟩ :: cs) (.blank :: before) after where
  same hcuts := h.same fun cut hcut => hcuts cut (List.mem_cons_of_mem _ hcut)
  onOneLine line pending htokens :=
    List.forall_mem_cons.2 ⟨nofun, h.onOneLine line pending htokens⟩

theorem cons (h : Agrees cs before after) {text : List Char} {piece piece' : Piece}
    (hpiece : Reread text piece piece') :
    Agrees (⟨piece, text⟩ :: cs) (piece :: before) (piece' :: after) := by
  cases hpiece with
  | same hline =>
    have hcut : OnOneLine ⟨piece, text⟩ := by
      intro htoken
      cases piece with
      | token t n => exact hline t n rfl
      | _ => cases htoken
    refine ⟨fun hcuts line pending => ?_, fun line pending htokens => ?_⟩
    · obtain ⟨front, line', pending', hlayout⟩ := exists_layout_cons piece line pending
      rw [hlayout, hlayout, h.same (fun cut hmem => hcuts cut (List.mem_cons_of_mem _ hmem))]
    · obtain ⟨front, line', pending', hlayout⟩ := exists_layout_cons piece line pending
      rw [hlayout, hlayout, List.map_append, List.map_append] at htokens
      exact List.forall_mem_cons.2
        ⟨hcut, h.onOneLine line' pending' (List.append_cancel_left htokens)⟩
  | widened hbreak hne =>
    refine ⟨fun hcuts => absurd hbreak (hcuts _ List.mem_cons_self rfl), ?_⟩
    intro line pending htokens
    exact absurd (List.cons.inj htokens).1 hne

end Agrees

/-- A text that can be taken apart to its end can still be when it is indented. -/
theorem agrees_indentedFrom {s : List Char} (h : (pieces s).2 = none) (inLine : Bool) :
    (pieces (indentedFrom inLine s)).2 = none ∧
      Agrees (cuts s) (pieces s).1 (pieces (indentedFrom inLine s)).1 := by
  fun_induction pieces s generalizing inLine with
  | case1 =>
    rw [cuts]
    cases inLine with
    | false =>
      have hnone : pieces (indentedFrom false []) = ([], none) := by
        rw [indentedFrom, if_neg Bool.false_ne_true, pieces]
      rw [hnone]
      exact ⟨rfl, fun _ _ _ => rfl, fun _ _ _ => List.forall_mem_nil _⟩
    | true =>
      have hpieces : pieces ['\n'] = ([.lineBreak], none) :=
        pieces_step rfl (by rw [pieces])
      rw [indentedFrom, if_pos rfl, hpieces]
      refine ⟨rfl, fun _ line pending => ?_, fun _ _ _ => List.forall_mem_nil _⟩
      cases pending <;> rfl
  | case2 => cases h
  | case3 c s piece rest hstep found ih =>
    obtain ⟨text, htext, hcuts, -⟩ := cuts_of_step hstep
    rw [hcuts]
    rcases cases_stays c s with rfl | ⟨rfl, t, rfl⟩ | hstays
    · cases hstep
      obtain ⟨hfault, hagrees⟩ := ih h false
      rw [indentedFrom, pieces_of_step rfl]
      exact ⟨hfault, hagrees.cons (.of_not_token fun _ _ => Piece.noConfusion)⟩
    · have hblank : step '\r' ('\n' :: t) = .ok (.blank, '\n' :: t) := rfl
      cases hblank.symm.trans hstep
      obtain ⟨hfault, hagrees⟩ := ih h inLine
      exact ⟨hfault, hagrees.leftOut text⟩
    · obtain ⟨text', piece', htext', hstep', hreread⟩ := step_indentedFrom hstays hstep
      obtain rfl := List.append_cancel_right (htext.symm.trans htext')
      obtain ⟨hfault, hagrees⟩ := ih h true
      have hpieces := pieces_of_step hstep'
      rw [indentedFrom_cons inLine hstays]
      cases inLine with
      | true =>
        rw [if_pos rfl, hpieces]
        exact ⟨hfault, hagrees.cons hreread⟩
      | false =>
        have htab : ∀ s, step '\t' s = .ok (.blank, s) := fun _ => rfl
        rw [if_neg Bool.false_ne_true, pieces_of_step (htab _), hpieces]
        exact ⟨hfault, (hagrees.cons hreread).blank⟩

/-! ## Bodies -/

theorem toList_indentedBody_eq (body : String) :
    (indentedBody body).toList = indentedFrom false body.toList := by
  rw [indentedBody, String.toList_ofList, (flatMap_indented _).1]

/-- An indented text starts with a tab or a line feed. -/
theorem head?_indentedFrom_false (s : List Char) :
    (indentedFrom false s).head? ≠ some '\ufeff' := by
  cases s with
  | nil => simp [indentedFrom]
  | cons c s =>
    rcases cases_stays c s with rfl | ⟨rfl, t, rfl⟩ | hstays
    · simp [indentedFrom]
    · simp [indentedFrom]
    · simp [indentedFrom_cons false hstays]

theorem tokenize_indentedBody_eq (body : String) :
    tokenize (indentedBody body) =
      match pieces (indentedFrom false body.toList) with
      | (ps, none) => .ok (layout 1 false ps)
      | (ps, some fault) => .error ⟨1 + totalBreaks ps, fault⟩ := by
  have hrunes : withoutMark (indentedBody body).toList = indentedFrom false body.toList := by
    rw [toList_indentedBody_eq, withoutMark_eq_self (head?_indentedFrom_false _)]
  change (match pieces (withoutMark (indentedBody body).toList) with
    | (ps, none) => Except.ok (layout 1 false ps)
    | (ps, some fault) => Except.error (LexError.mk (1 + totalBreaks ps) fault)) = _
  rw [hrunes]

theorem pieces_byteOrderMark (s : List Char) :
    pieces ('\ufeff' :: s) = ([], some (.strayCharacter '\ufeff')) := by
  have hnumber : startsNumber '\ufeff' s = false := by simp [startsNumber]
  have hlong : longOperator? ('\ufeff' :: s) = none := by
    simp [longOperator?, longOperators, Text.after?]
  have hshort : shortOperator? '\ufeff' = none := by decide
  have hstep : step '\ufeff' s = .error (.strayCharacter '\ufeff') := by
    rw [step_eq_cut, lead_of_unmarked (p := (· == '\ufeff')) rfl rfl rfl, hnumber,
      if_neg Bool.false_ne_true, if_neg (by decide +kernel), Lead.cut, hlong, hshort]
  rw [pieces]
  split
  · next heq =>
    cases hstep.symm.trans heq
    rfl
  · next heq => cases hstep.symm.trans heq

/-- A byte-order mark is passed over at the front of a body, and is a stray character behind a
tab. -/
theorem tokenize_indentedBody_mark {body : String} (h : body.toList.head? = some '\ufeff') :
    ∃ e, tokenize (indentedBody body) = .error e := by
  obtain ⟨s, hs⟩ := List.head?_eq_some_iff.1 h
  have htab : ∀ s, step '\t' s = .ok (.blank, s) := fun _ => rfl
  rw [tokenize_indentedBody_eq, hs, indentedFrom_cons false (.of_ne (by decide) _),
    if_neg Bool.false_ne_true, pieces_of_step (htab _), pieces_byteOrderMark]
  exact ⟨_, rfl⟩

/-- A body that has tokens, once it is indented: it has the same tokens exactly if it does not start
with a byte-order mark and no literal in it goes over a line break, and then they stand on the
same lines.  Without a byte-order mark it always has tokens. -/
theorem tokenize_indentedBody {body : String} {list : TokenList} (h : tokenize body = .ok list) :
    ((∃ after, tokenize (indentedBody body) = .ok after ∧
        after.tokens.map Located.token = list.tokens.map Located.token) ↔
      body.toList.head? ≠ some '\ufeff' ∧ ∀ cut ∈ cuts body.toList, OnOneLine cut) ∧
    (body.toList.head? ≠ some '\ufeff' → ∃ after, tokenize (indentedBody body) = .ok after ∧
      ((∀ cut ∈ cuts body.toList, OnOneLine cut) → after.tokens = list.tokens)) := by
  obtain ⟨hfault, hlist⟩ := pieces_of_tokenize h
  have hindented : body.toList.head? ≠ some '\ufeff' →
      ∃ ps, tokenize (indentedBody body) = .ok (layout 1 false ps) ∧
        list = layout 1 false (pieces body.toList).1 ∧
        Agrees (cuts body.toList) (pieces body.toList).1 ps := by
    intro hmark
    rw [withoutMark_eq_self hmark] at hfault hlist
    obtain ⟨hfault', hagrees⟩ := agrees_indentedFrom hfault false
    refine ⟨_, ?_, hlist, hagrees⟩
    rw [tokenize_indentedBody_eq, ← Prod.eta (pieces (indentedFrom false _)), hfault']
  refine ⟨⟨?_, ?_⟩, ?_⟩
  · rintro ⟨after, hafter, htokens⟩
    have hmark : body.toList.head? ≠ some '\ufeff' := by
      intro hmark
      obtain ⟨e, he⟩ := tokenize_indentedBody_mark hmark
      cases he.symm.trans hafter
    obtain ⟨ps, hps, rfl, hagrees⟩ := hindented hmark
    cases hps.symm.trans hafter
    exact ⟨hmark, hagrees.onOneLine 1 false htokens⟩
  · rintro ⟨hmark, hcuts⟩
    obtain ⟨ps, hps, rfl, hagrees⟩ := hindented hmark
    exact ⟨_, hps, congrArg _ (hagrees.same hcuts 1 false)⟩
  · intro hmark
    obtain ⟨ps, hps, rfl, hagrees⟩ := hindented hmark
    exact ⟨_, hps, fun hcuts => hagrees.same hcuts 1 false⟩

/-- A raw string literal over two lines has another value behind a tab. -/
theorem tokenize_indentedBody_rawString :
    tokenize "\x60a\nb\x60" = .ok ⟨[⟨1, .str "a\nb"⟩, ⟨2, .semicolon⟩], 2⟩ ∧
      ¬ ∃ after, tokenize (indentedBody "\x60a\nb\x60") = .ok after ∧
        after.tokens.map Located.token = [.str "a\nb", .semicolon] := by
  have hstep : step '\x60' ['a', '\n', 'b', '\x60'] = .ok (.token (.str "a\nb") 1, []) := rfl
  have htokens : tokenize "\x60a\nb\x60" = .ok ⟨[⟨1, .str "a\nb"⟩, ⟨2, .semicolon⟩], 2⟩ := by
    have hpieces : pieces (withoutMark "\x60a\nb\x60".toList) =
        ([.token (.str "a\nb") 1], none) :=
      pieces_step hstep (by rw [pieces])
    rw [tokenize, hpieces]
    rfl
  refine ⟨htokens, fun hsame => ?_⟩
  obtain ⟨text, htext, hcuts, -⟩ := cuts_of_step hstep
  obtain rfl : _ = text := htext.trans (List.append_nil _)
  have hmem : ⟨.token (.str "a\nb") 1, ['\x60', 'a', '\n', 'b', '\x60']⟩ ∈
      cuts ['\x60', 'a', '\n', 'b', '\x60'] := by
    rw [hcuts]
    exact List.mem_cons_self
  exact ((tokenize_indentedBody htokens).1.1 hsame).2 _ hmem rfl (by decide)

end StructCopy
