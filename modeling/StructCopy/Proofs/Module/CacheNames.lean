/-
  Proofs/Module/CacheNames: module versions are kept apart in the module cache.

  The name of a module version has no upper-case letter, so a file system that takes letters
  of either case for the same one tells names apart as well as any other.  A name is read
  back letter by letter: two names are one exactly if what they are made of reads the same,
  and a text without `!` reads as itself.
-/
import StructCopy.Proofs.Module.Dependency
import StructCopy.Proofs.Text.Marks

set_option autoImplicit false

namespace StructCopy

namespace Text

/-! ## Letters -/

/-- A character between two others is found by counting from the first one. -/
theorem exists_eq_ofNat (first last : Char) {c : Char} (hfirst : first.val ≤ c.val)
    (hlast : c.val ≤ last.val) :
    ∃ n < last.toNat - first.toNat + 1, c = Char.ofNat (first.toNat + n) := by
  have hfirst : first.toNat ≤ c.toNat := UInt32.le_iff_toNat_le.1 hfirst
  have hlast : c.toNat ≤ last.toNat := UInt32.le_iff_toNat_le.1 hlast
  refine ⟨c.toNat - first.toNat, by omega, ?_⟩
  rw [Nat.add_sub_cancel' hfirst, Char.ofNat_toNat]

theorem lower_of_isUpper {c : Char} (h : c.isUpper = true) :
    c.toLower.isLower = true ∧ c.toLower.toUpper = c := by
  obtain ⟨hfirst, hlast⟩ : 'A'.val ≤ c.val ∧ c.val ≤ 'Z'.val := of_decide_eq_true h
  obtain ⟨n, hn, rfl⟩ := exists_eq_ofNat 'A' 'Z' hfirst hlast
  -- the 26 letters are gone through one by one
  clear h hfirst hlast
  revert n
  decide

theorem upper_of_isLower {c : Char} (h : c.isLower = true) :
    c.isUpper = false ∧ c.toUpper.isUpper = true ∧ c.toUpper.toLower = c := by
  obtain ⟨hfirst, hlast⟩ := Bool.and_eq_true_iff.1 h
  obtain ⟨n, hn, rfl⟩ :=
    exists_eq_ofNat 'a' 'z' (of_decide_eq_true hfirst) (of_decide_eq_true hlast)
  clear h hfirst hlast
  revert n
  decide

theorem toLower_of_not_isUpper {c : Char} (h : c.isUpper = false) : c.toLower = c := by
  have hno : ¬ ('A'.val ≤ c.val ∧ c.val ≤ 'Z'.val) := of_decide_eq_false h
  exact dif_neg hno

theorem toList_toLower (s : String) : s.toLower.toList = s.toList.map Char.toLower :=
  String.toList_map

theorem toLower_append (s t : String) : (s ++ t).toLower = s.toLower ++ t.toLower := by
  rw [← String.toList_inj, String.toList_append, toList_toLower, toList_toLower, toList_toLower,
    String.toList_append, List.map_append]

end Text

namespace Module

/-! ## Reading a spelling -/

/-- What a spelling stands for: `!` in front of a lower-case letter makes it an upper-case one, and
everything else stands for itself. -/
def unescapeChars : List Char → List Char
  | [] => []
  | [c] => [c]
  | c :: d :: s =>
    if c = '!' ∧ d.isLower = true then d.toUpper :: unescapeChars s
    else c :: unescapeChars (d :: s)

/-- What a text in the module cache stands for. -/
def unescape (text : String) : String :=
  String.ofList (unescapeChars text.toList)

theorem escapeChar_of_isUpper {c : Char} (h : c.isUpper = true) :
    escapeChar c = ['!', c.toLower] :=
  if_pos h

theorem escapeChar_of_not_isUpper {c : Char} (h : c.isUpper = false) : escapeChar c = [c] :=
  if_neg (Bool.eq_false_iff.1 h)

theorem unescapeChars_mark {c : Char} (h : c.isLower = true) (s : List Char) :
    unescapeChars ('!' :: c :: s) = c.toUpper :: unescapeChars s := by
  rw [unescapeChars, if_pos ⟨rfl, h⟩]

theorem unescapeChars_cons {c : Char} {s : List Char}
    (h : c = '!' → ∀ d ∈ s.head?, d.isLower = false) :
    unescapeChars (c :: s) = c :: unescapeChars s := by
  cases s with
  | nil => rfl
  | cons d s =>
    rw [unescapeChars, if_neg]
    rintro ⟨hc, hd⟩
    exact Bool.false_ne_true ((h hc d rfl).symm.trans hd)

/-- The spelling of a character is read back, whatever follows it, but for a `!` in front of a
lower-case letter. -/
theorem unescapeChars_escapeChar {c : Char} {s : List Char}
    (h : c = '!' → ∀ d ∈ s.head?, d.isLower = false) :
    unescapeChars (escapeChar c ++ s) = c :: unescapeChars s := by
  cases hc : c.isUpper with
  | true =>
    obtain ⟨hlower, hback⟩ := Text.lower_of_isUpper hc
    rw [escapeChar_of_isUpper hc, List.cons_append, List.singleton_append,
      unescapeChars_mark hlower, hback]
  | false => rw [escapeChar_of_not_isUpper hc, List.singleton_append, unescapeChars_cons h]

/-- A spelling begins with no lower-case letter unless the text does. -/
theorem head?_flatMap_escapeChar {c : Char} (h : c.isLower = false) (s : List Char) :
    ∀ d ∈ ((c :: s).flatMap escapeChar).head?, d.isLower = false := by
  intro d hd
  rw [List.flatMap_cons] at hd
  cases hc : c.isUpper with
  | true =>
    rw [escapeChar_of_isUpper hc] at hd
    cases hd
    rfl
  | false =>
    rw [escapeChar_of_not_isUpper hc] at hd
    cases hd
    exact h

/-- Spelling a text changes nothing of what it stands for. -/
theorem unescapeChars_flatMap (s : List Char) :
    unescapeChars (s.flatMap escapeChar) = unescapeChars s := by
  fun_induction unescapeChars s with
  | case1 => rfl
  | case2 c =>
    rw [List.flatMap_cons, List.flatMap_nil]
    exact unescapeChars_escapeChar fun _ _ => nofun
  | case3 c d s hmark ih =>
    obtain ⟨rfl, hd⟩ := hmark
    rw [List.flatMap_cons, List.flatMap_cons, escapeChar_of_not_isUpper rfl,
      escapeChar_of_not_isUpper (Text.upper_of_isLower hd).1, List.singleton_append,
      List.singleton_append, unescapeChars_mark hd, ih]
  | case4 c d s hmark ih =>
    rw [List.flatMap_cons, unescapeChars_escapeChar, ih]
    intro hc
    exact head?_flatMap_escapeChar (Bool.eq_false_iff.2 fun hd => hmark ⟨hc, hd⟩) s

/-- What a text stands for is spelled as the text is. -/
theorem flatMap_unescapeChars (s : List Char) :
    (unescapeChars s).flatMap escapeChar = s.flatMap escapeChar := by
  fun_induction unescapeChars s with
  | case1 => rfl
  | case2 c => rfl
  | case3 c d s hmark ih =>
    obtain ⟨rfl, hd⟩ := hmark
    obtain ⟨hno, hupper, hback⟩ := Text.upper_of_isLower hd
    simp only [List.flatMap_cons, ih, escapeChar_of_isUpper hupper, hback,
      escapeChar_of_not_isUpper hno, escapeChar_of_not_isUpper (c := '!') rfl, List.cons_append,
      List.nil_append]
  | case4 c d s hmark ih => rw [List.flatMap_cons, ih, List.flatMap_cons (x := c)]

theorem unescapeChars_of_not_mem {s : List Char} (h : '!' ∉ s) : unescapeChars s = s := by
  induction s with
  | nil => rfl
  | cons c s ih =>
    rw [List.mem_cons, not_or] at h
    rw [unescapeChars_cons fun hc => absurd hc.symm h.1, ih h.2]

/-- Two texts are spelled alike exactly if they stand for the same text. -/
theorem escape_eq_escape_iff {s t : String} : escape s = escape t ↔ unescape s = unescape t := by
  unfold escape unescape
  rw [String.ofList_inj, String.ofList_inj]
  constructor
  · intro h
    rw [← unescapeChars_flatMap s.toList, h, unescapeChars_flatMap]
  · intro h
    rw [← flatMap_unescapeChars s.toList, h, flatMap_unescapeChars]

theorem unescape_of_not_mem {s : String} (h : '!' ∉ s.toList) : unescape s = s := by
  rw [unescape, unescapeChars_of_not_mem h, String.ofList_toList]

/-! ## Lower case -/

theorem isUpper_of_mem_escapeChar {c d : Char} (h : d ∈ escapeChar c) : d.isUpper = false := by
  cases hc : c.isUpper with
  | true =>
    rw [escapeChar_of_isUpper hc, List.mem_pair] at h
    rcases h with rfl | rfl
    · rfl
    · exact (Text.upper_of_isLower (Text.lower_of_isUpper hc).1).1
  | false =>
    rw [escapeChar_of_not_isUpper hc, List.mem_singleton] at h
    rw [h, hc]

/-- A spelling has no upper-case letter. -/
theorem toLower_escape (s : String) : (escape s).toLower = escape s := by
  have hfixed : ∀ d ∈ (escape s).toList, d.toLower = id d := by
    intro d hd
    rw [escape, String.toList_ofList] at hd
    obtain ⟨c, -, hc⟩ := List.mem_flatMap.1 hd
    exact Text.toLower_of_not_isUpper (isUpper_of_mem_escapeChar hc)
  rw [← String.toList_inj, Text.toList_toLower, List.map_congr_left hfixed, List.map_id]

/-! ## Names -/

theorem escape_append (s t : String) : escape (s ++ t) = escape s ++ escape t := by
  rw [escape, String.toList_append, List.flatMap_append, String.ofList_append]
  rfl

/-- The name of a module version is spelled as a whole. -/
theorem cacheName_eq (path version : String) :
    cacheName path version = escape (path ++ "@" ++ version) := by
  rw [escape_append, escape_append]
  rfl

/-- Two module versions have one name, whatever the case of its letters, exactly if path and
version stand for the same text. -/
theorem toLower_cacheName_eq_iff {path version path' version' : String} :
    (cacheName path version).toLower = (cacheName path' version').toLower ↔
      unescape (path ++ "@" ++ version) = unescape (path' ++ "@" ++ version') := by
  rw [cacheName_eq, cacheName_eq, toLower_escape, toLower_escape, escape_eq_escape_iff]

/-- An upper-case letter and its spelling are spelled alike. -/
example : cacheName "!azure" "v1" = cacheName "Azure" "v1" := by decide

/-- A module path and a version that hold nothing that a name adds to them: no mark of an
upper-case letter, and in the path no sign that the version follows. -/
structure Nameable (path version : String) : Prop where
  path_mark : '!' ∉ path.toList
  path_sign : '@' ∉ path.toList
  version_mark : '!' ∉ version.toList

variable {path version path' version' : String}

theorem Nameable.unescape_eq (h : Nameable path version) :
    unescape (path ++ "@" ++ version) = path ++ "@" ++ version := by
  refine unescape_of_not_mem ?_
  rw [String.toList_append, String.toList_append, List.mem_append, List.mem_append]
  rintro ((hpath | hsign) | hversion)
  · exact h.path_mark hpath
  · exact absurd hsign (by decide)
  · exact h.version_mark hversion

theorem Nameable.cut?_sign (h : Nameable path version) :
    Text.cut? ['@'] (path ++ "@" ++ version).toList = some (path.toList, version.toList) := by
  rw [String.toList_append, String.toList_append, List.append_assoc]
  exact Text.cut?_append_cons h.path_sign version.toList

theorem Nameable.append_inj (h : Nameable path version) (h' : Nameable path' version')
    (heq : path ++ "@" ++ version = path' ++ "@" ++ version') :
    path = path' ∧ version = version' := by
  have hcut := h.cut?_sign
  rw [heq, h'.cut?_sign, Option.some_inj, Prod.mk.injEq, String.toList_inj,
    String.toList_inj] at hcut
  exact ⟨hcut.1.symm, hcut.2.symm⟩

/-! ## Directories -/

theorem isAbsolute_cacheName (path version : String) :
    (⟨cacheName path version⟩ : Files.Path).isAbsolute = (⟨path⟩ : Files.Path).isAbsolute := by
  have hname : (cacheName path version).toList =
      path.toList.flatMap escapeChar ++ '@' :: (escape version).toList := by
    rw [cacheName, String.toList_append, String.toList_append, List.append_assoc, escape,
      String.toList_ofList]
    rfl
  unfold Files.Path.isAbsolute
  dsimp only
  rw [hname]
  cases path.toList with
  | nil => rfl
  | cons c s =>
    rw [List.flatMap_cons]
    cases hc : c.isUpper with
    | true =>
      have hslash : c ≠ '/' := by
        rintro rfl
        cases hc
      rw [escapeChar_of_isUpper hc]
      simp [hslash]
    | false =>
      rw [escapeChar_of_not_isUpper hc]
      rfl

end Module

namespace Files.Path

/-- What is put in front of a relative path is the same for all of them. -/
theorem exists_text_join (p : Path) :
    ∃ front, ∀ q : Path, q.isAbsolute = false → (p.join q).text = front ++ q.text := by
  by_cases hend : (p.text.isEmpty || p.text.toList.getLast? == some '/') = true
  · refine ⟨p.text, fun q hq => ?_⟩
    rw [join, hq, if_neg Bool.false_ne_true, if_pos hend]
  · refine ⟨p.text ++ "/", fun q hq => ?_⟩
    rw [join, hq, if_neg Bool.false_ne_true, if_neg hend]

/-- Behind one directory, paths that differ in more than case stay so, unless only one of them
takes the place of the directory. -/
theorem toLower_text_join_iff {q q' : Path} (h : q.isAbsolute = q'.isAbsolute) (p : Path) :
    (p.join q).text.toLower = (p.join q').text.toLower ↔ q.text.toLower = q'.text.toLower := by
  cases hq : q.isAbsolute with
  | true => rw [join, if_pos hq, join, if_pos (h ▸ hq)]
  | false =>
    obtain ⟨front, hfront⟩ := exists_text_join p
    rw [hfront q hq, hfront q' (h ▸ hq), Text.toLower_append, Text.toLower_append,
      String.append_right_inj]

end Files.Path

namespace Module

open GoModule (cached? cachedEnv)

/-- Two module versions have the same name in the module cache, also where no difference is made
between letters of either case, only if they are one version of one module.  The same holds of
their directories, unless one of the paths is absolute and the other is not. -/
theorem cacheName_toLower_injective {path version path' version' : String}
    (h : Nameable path version) (h' : Nameable path' version') :
    ((cacheName path version).toLower = (cacheName path' version').toLower ↔
      path = path' ∧ version = version') ∧
    ∀ env dir dir', cached? env path version = some dir → cached? env path' version' = some dir' →
      (⟨path⟩ : Files.Path).isAbsolute = (⟨path'⟩ : Files.Path).isAbsolute →
      (dir.text.toLower = dir'.text.toLower ↔ path = path' ∧ version = version') := by
  have hname : (cacheName path version).toLower = (cacheName path' version').toLower ↔
      path = path' ∧ version = version' := by
    rw [toLower_cacheName_eq_iff, h.unescape_eq, h'.unescape_eq]
    constructor
    · exact h.append_inj h'
    · rintro ⟨rfl, rfl⟩
      rfl
  refine ⟨hname, fun env dir dir' hdir hdir' habsolute => ?_⟩
  obtain ⟨cache, hcache, rfl⟩ := Option.map_eq_some_iff.1 hdir
  obtain ⟨cache', hcache', rfl⟩ := Option.map_eq_some_iff.1 hdir'
  cases hcache.symm.trans hcache'
  rw [← isAbsolute_cacheName path version, ← isAbsolute_cacheName path' version'] at habsolute
  exact (Files.Path.toLower_text_join_iff habsolute cache).trans hname

/-- An absolute path takes the place of the module cache. -/
example : cached? cachedEnv "/cache/lib" "v1" = cached? cachedEnv "lib" "v1" := by decide

/-- A path with an upper-case letter and the one with the lower-case letter are kept apart. -/
theorem cacheName_toLower_injective_azure :
    Nameable "github.com/Azure/x" "v1.0.0-RC1" ∧ Nameable "github.com/azure/x" "v1.0.0-RC1" ∧
      (cacheName "github.com/Azure/x" "v1.0.0-RC1").toLower ≠
        (cacheName "github.com/azure/x" "v1.0.0-RC1").toLower ∧
      ∃ dir dir', cached? cachedEnv "github.com/Azure/x" "v1.0.0-RC1" = some dir ∧
        cached? cachedEnv "github.com/azure/x" "v1.0.0-RC1" = some dir' ∧
        dir.text = "/cache/github.com/!azure/x@v1.0.0-!r!c1" ∧
        dir.text.toLower ≠ dir'.text.toLower := by
  have h : Nameable "github.com/Azure/x" "v1.0.0-RC1" := ⟨by decide, by decide, by decide⟩
  have h' : Nameable "github.com/azure/x" "v1.0.0-RC1" := ⟨by decide, by decide, by decide⟩
  have hdir : cached? cachedEnv "github.com/Azure/x" "v1.0.0-RC1" =
      some ⟨"/cache/github.com/!azure/x@v1.0.0-!r!c1"⟩ := by decide
  have hdir' : cached? cachedEnv "github.com/azure/x" "v1.0.0-RC1" =
      some ⟨"/cache/github.com/azure/x@v1.0.0-!r!c1"⟩ := by decide
  have hne : ¬ ("github.com/Azure/x" = "github.com/azure/x" ∧ "v1.0.0-RC1" = "v1.0.0-RC1") := by
    decide
  obtain ⟨hnames, hdirs⟩ := cacheName_toLower_injective h h'
  exact ⟨h, h', fun heq => hne (hnames.1 heq), _, _, hdir, hdir', rfl,
    fun heq => hne ((hdirs cachedEnv _ _ hdir hdir' (by decide)).1 heq)⟩

end Module

end StructCopy
