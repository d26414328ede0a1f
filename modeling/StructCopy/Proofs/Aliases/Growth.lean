/-
  Proofs/Aliases/Growth: what registering more paths changes, and what it leaves.

  Registered paths only ever grow at the end of their lists.  A path that is known, by
  being registered or by being empty, stays known, and to register it again changes
  nothing.  It keeps its qualifier as long as no path is registered that it is confused
  with: a path is stripped once when it is registered and twice when it is looked up.
-/
import StructCopy.Aliases
import StructCopy.Proofs.Text.Trimming

set_option autoImplicit false

namespace StructCopy.Aliases

/-! ## Growth -/

/-- All that `a` has registered, `b` has registered first. -/
structure Extends (a b : Aliases) : Prop where
  numbered : a.numbered <+: b.numbered
  plain : a.plain <+: b.plain

theorem Extends.refl (a : Aliases) : a.Extends a :=
  ⟨List.prefix_rfl, List.prefix_rfl⟩

theorem Extends.trans {a b c : Aliases} (h : a.Extends b) (h' : b.Extends c) : a.Extends c :=
  ⟨h.numbered.trans h'.numbered, h.plain.trans h'.plain⟩

theorem prefix_addOnce (paths : List String) (path : String) : paths <+: addOnce paths path := by
  unfold addOnce
  split
  · exact List.prefix_rfl
  · exact List.prefix_append _ _

theorem mem_addOnce (paths : List String) (path : String) : path ∈ addOnce paths path := by
  unfold addOnce
  split
  · next h => simpa using h
  · exact List.mem_append_right _ (List.mem_singleton.2 rfl)

theorem addOnce_of_mem {paths : List String} {path : String} (h : path ∈ paths) :
    addOnce paths path = paths := by
  unfold addOnce
  rw [if_pos (by simpa using h)]

/-- What registering does with a path that has been stripped. -/
def put (a : Aliases) (path : String) : Aliases :=
  if path.isEmpty then a
  else if isNumbered path then { a with numbered := addOnce a.numbered path }
  else { a with plain := addOnce a.plain path }

theorem register_eq_put (a : Aliases) (path : String) : a.register path = a.put (normal path) :=
  rfl

theorem extends_put (a : Aliases) (path : String) : a.Extends (a.put path) := by
  unfold put
  split
  · exact .refl a
  · split
    · exact ⟨prefix_addOnce _ _, List.prefix_rfl⟩
    · exact ⟨List.prefix_rfl, prefix_addOnce _ _⟩

theorem registerAll_cons (a : Aliases) (path : String) (paths : List String) :
    a.registerAll (path :: paths) = (a.put (normal path)).registerAll paths := by
  rw [← register_eq_put]
  exact List.foldl_cons ..

theorem extends_registerAll (a : Aliases) (paths : List String) :
    a.Extends (a.registerAll paths) := by
  induction paths generalizing a with
  | nil => exact .refl a
  | cons path paths ih =>
    rw [registerAll_cons]
    exact (a.extends_put _).trans (ih _)

theorem registerAll_append (a : Aliases) (paths more : List String) :
    a.registerAll (paths ++ more) = (a.registerAll paths).registerAll more :=
  List.foldl_append

/-! ## Known paths -/

/-- A stripped path that needs no registration any more. -/
inductive Holds (a : Aliases) (path : String) : Prop where
  | empty (h : path.isEmpty = true)
  | numbered (h : isNumbered path = true) (hmem : path ∈ a.numbered)
  | plain (h : isNumbered path = false) (hmem : path ∈ a.plain)

theorem Holds.mono {a b : Aliases} {path : String} (h : a.Holds path) (hab : a.Extends b) :
    b.Holds path := by
  cases h with
  | empty h => exact .empty h
  | numbered h hmem => exact .numbered h (hab.numbered.subset hmem)
  | plain h hmem => exact .plain h (hab.plain.subset hmem)

theorem holds_put (a : Aliases) (path : String) : (a.put path).Holds path := by
  unfold put
  split
  · next hempty => exact .empty hempty
  · split
    · next hnumbered => exact .numbered hnumbered (mem_addOnce _ _)
    · next hnumbered => exact .plain (Bool.eq_false_iff.2 hnumbered) (mem_addOnce _ _)

theorem Holds.put_eq {a : Aliases} {path : String} (h : a.Holds path) : a.put path = a := by
  unfold put
  cases h with
  | empty h => rw [if_pos h]
  | numbered h hmem => rw [if_pos h, addOnce_of_mem hmem, ite_self]
  | plain h hmem => rw [if_neg (Bool.eq_false_iff.1 h), addOnce_of_mem hmem, ite_self]

/-- A path that needs no registration any more. -/
def Knows (a : Aliases) (path : String) : Prop :=
  a.Holds (normal path)

theorem Knows.mono {a b : Aliases} {path : String} (h : a.Knows path) (hab : a.Extends b) :
    b.Knows path :=
  Holds.mono h hab

theorem knows_registerAll {paths : List String} {path : String} (a : Aliases)
    (h : path ∈ paths) : (a.registerAll paths).Knows path := by
  induction paths generalizing a with
  | nil => cases h
  | cons first paths ih =>
    rw [registerAll_cons]
    rcases List.mem_cons.1 h with rfl | h
    · exact Knows.mono (a.holds_put _) (extends_registerAll _ paths)
    · exact ih _ h

theorem registerAll_eq_of_knows {a : Aliases} {paths : List String}
    (h : ∀ path ∈ paths, a.Knows path) : a.registerAll paths = a := by
  induction paths with
  | nil => rfl
  | cons path paths ih =>
    rw [registerAll_cons, Holds.put_eq (h path List.mem_cons_self)]
    exact ih fun p hp => h p (List.mem_cons_of_mem _ hp)

/-! ## Paths of a kind -/

/-- All numbered paths have a slash and come from registering paths of a kind. -/
def From (kind : String → Prop) (a : Aliases) : Prop :=
  ∀ p ∈ a.numbered, isNumbered p = true ∧ ∃ path, kind path ∧ normal path = p

theorem from_empty (kind : String → Prop) : empty.From kind := by
  intro p hp
  cases hp

theorem mem_of_mem_addOnce {paths : List String} {path p : String} (h : p ∈ addOnce paths path) :
    p ∈ paths ∨ p = path := by
  unfold addOnce at h
  split at h
  · exact .inl h
  · rcases List.mem_append.1 h with h | h
    · exact .inl h
    · exact .inr (List.mem_singleton.1 h)

theorem From.put {kind : String → Prop} {a : Aliases} (h : a.From kind) {path p : String}
    (hkind : kind path) (hp : normal path = p) : (a.put p).From kind := by
  unfold Aliases.put
  split
  · exact h
  · split
    · next hnumbered =>
      intro q hq
      rcases mem_of_mem_addOnce hq with hq | rfl
      · exact h q hq
      · exact ⟨hnumbered, path, hkind, hp⟩
    · exact h

theorem From.registerAll {kind : String → Prop} {a : Aliases} (h : a.From kind)
    {paths : List String} (hkind : ∀ path ∈ paths, kind path) :
    (a.registerAll paths).From kind := by
  induction paths generalizing a with
  | nil => exact h
  | cons path paths ih =>
    rw [registerAll_cons]
    have hfirst := h.put (hkind path List.mem_cons_self) rfl
    exact ih hfirst fun p hp => hkind p (List.mem_cons_of_mem _ hp)

/-! ## Stripping -/

/-- A path is stripped of the white space around it, and then of the quotation marks. -/
theorem normal_eq_iff {path name : String} :
    normal path = name ↔ ∃ inner, Text.Strips Text.isBlank path.toList inner ∧
      Text.Strips (· == '"') inner name.toList := by
  unfold normal
  constructor
  · rintro rfl
    rw [String.toList_ofList]
    exact ⟨_, Text.trim_eq_iff.1 rfl, Text.trimQuotes_eq_iff.1 rfl⟩
  · rintro ⟨inner, hblank, hquote⟩
    rw [Text.trim_eq_iff.2 hblank, Text.trimQuotes_eq_iff.2 hquote, String.ofList_toList]

/-- Stripping a path leaves its slashes. -/
theorem isNumbered_normal {path : String} (h : isNumbered path = true) :
    isNumbered (normal path) = true := by
  have hblank : Text.isBlank '/' = false := by decide
  have hquote : ('/' == '"') = false := by decide
  have hmem : '/' ∈ path.toList := by simpa [isNumbered] using h
  have htrim := Text.mem_dropEndWhile hblank (Text.mem_dropWhile hblank hmem)
  have hstrip : '/' ∈ Text.trimQuotes (Text.trim path.toList) :=
    Text.mem_dropEndWhile (p := (· == '"')) hquote
      (Text.mem_dropWhile (p := (· == '"')) hquote htrim)
  unfold isNumbered normal
  rw [String.toList_ofList]
  simpa using hstrip

/-! ## Qualifiers -/

/-- The first path is looked up as the one that is registered for the second path, and not as the
one that is registered for itself. -/
def Confused (path other : String) : Prop :=
  isNumbered (normal path) = true ∧ normal (normal path) ≠ normal path ∧
    normal (normal path) = normal other

/-- No path of a kind is confused with another one. -/
def Distinct (kind : String → Prop) : Prop :=
  ∀ path other, kind path → kind other → ¬ Confused path other

theorem idxOf?_eq_of_isPrefix {paths more : List String} {path : String} (h : paths <+: more)
    (hmem : path ∈ more → path ∈ paths) : more.idxOf? path = paths.idxOf? path := by
  by_cases hpath : path ∈ paths
  · obtain ⟨rest, rfl⟩ := h
    obtain ⟨i, hi⟩ := Option.isSome_iff_exists.1 (List.isSome_idxOf?.2 hpath)
    unfold List.idxOf? at hi ⊢
    rw [List.findIdx?_append, hi]
    rfl
  · rw [List.idxOf?_eq_none_iff.2 hpath, List.idxOf?_eq_none_iff.2 fun h => hpath (hmem h)]

/-- The name under which a stripped path without a name of its own is imported. -/
def lookUp (a : Aliases) (path : String) : String :=
  match a.numbered.idxOf? path with
  | some position => aliasAt position
  | none => ""

theorem qualifierFor_eq_lookUp (a : Aliases) (path : String) :
    a.qualifierFor path =
      if !(normal path).isEmpty && !isNumbered (normal path) then normal path
      else a.lookUp (normal (normal path)) :=
  rfl

theorem lookUp_eq_of_extends {a b : Aliases} {path : String} (hab : a.Extends b)
    (hmem : path ∈ b.numbered → path ∈ a.numbered) : b.lookUp path = a.lookUp path := by
  unfold lookUp
  rw [idxOf?_eq_of_isPrefix hab.numbered hmem]

theorem normal_empty : normal "" = "" := by
  decide

theorem not_isNumbered_empty : isNumbered "" = false := by
  decide

/-- A known path keeps its qualifier while paths of its kind are registered, if none of them is
confused with another one. -/
theorem Knows.qualifierFor_eq {kind : String → Prop} {a b : Aliases} {path : String}
    (h : a.Knows path) (hdistinct : Distinct kind) (hkind : kind path) (hab : a.Extends b)
    (hb : b.From kind) : b.qualifierFor path = a.qualifierFor path := by
  unfold Knows at h
  rw [qualifierFor_eq_lookUp, qualifierFor_eq_lookUp]
  have hlookUp : (normal path).isEmpty = true ∨ isNumbered (normal path) = true →
      b.lookUp (normal (normal path)) = a.lookUp (normal (normal path)) := by
    intro hcase
    refine lookUp_eq_of_extends hab fun hmem => ?_
    obtain ⟨hnumbered, other, hother, heq⟩ := hb _ hmem
    by_cases hstrip : normal (normal path) = normal path
    · rw [hstrip] at hnumbered ⊢
      cases h with
      | empty h =>
        rw [String.isEmpty_iff.1 h, not_isNumbered_empty] at hnumbered
        cases hnumbered
      | numbered _ hmem => exact hmem
      | plain h => rw [h] at hnumbered; cases hnumbered
    · rcases hcase with hempty | hslash
      · rw [String.isEmpty_iff.1 hempty] at hstrip
        exact absurd normal_empty hstrip
      · exact absurd ⟨hslash, hstrip, heq.symm⟩ (hdistinct path other hkind hother)
  generalize normal path = p at hlookUp ⊢
  by_cases hplain : (!p.isEmpty && !isNumbered p) = true
  · rw [if_pos hplain, if_pos hplain]
  · rw [if_neg hplain, if_neg hplain]
    refine hlookUp ?_
    cases hempty : p.isEmpty with
    | true => exact .inl rfl
    | false =>
      cases hslash : isNumbered p with
      | true => exact .inr rfl
      | false => simp [hempty, hslash] at hplain

end StructCopy.Aliases
