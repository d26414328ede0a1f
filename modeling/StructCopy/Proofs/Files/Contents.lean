/-
  Proofs/Files/Contents: what a store answers when files have been put into it.

  Files are put into a store one after another, under paths spelled in any way.  A path
  is read as the last file whose path leads to the same location, a directory is what
  files lie below, and a directory lists the locations whose parent it is, in the order
  of their parts.  All questions are about locations, and the path of a location leads
  back to it.
-/
import Mathlib.Data.List.Induction
import Mathlib.Data.List.Lex
import Mathlib.Data.List.Permutation
import StructCopy.Proofs.Files.Order

set_option autoImplicit false

namespace StructCopy.Files

/-! ## Locations in a tree -/

/-- A root comes before all names, and names come in the order of their characters. -/
def Part.Before : Part → Part → Prop
  | .root, .name _ => True
  | .name a, .name b => a < b
  | _, .root => False

namespace Location

/-- The location `l` is strictly below `d`: it goes on where `d` ends. -/
def Below (l d : Location) : Prop :=
  ∃ part more, l.parts = d.parts ++ part :: more

/-- The order of locations, part by part. -/
def Before (l l' : Location) : Prop :=
  List.Lex Part.Before l.parts l'.parts

theorem isBelow_iff_below {l d : Location} : l.isBelow d = true ↔ l.Below d := by
  obtain ⟨parts⟩ := l
  obtain ⟨above⟩ := d
  rw [isBelow_iff]
  constructor
  · rintro ⟨⟨more, rfl⟩, hne⟩
    cases more with
    | nil => exact absurd (congrArg Location.mk (List.append_nil above)) hne
    | cons part more => exact ⟨part, more, rfl⟩
  · rintro ⟨part, more, rfl⟩
    refine ⟨List.prefix_append _ _, fun heq => ?_⟩
    have hlength := congrArg (fun l => l.parts.length) heq
    simp at hlength

theorem before_of_lt {a b : String} (h : a < b) (front : List Part) :
    Before ⟨front ++ [Part.name a]⟩ ⟨front ++ [Part.name b]⟩ :=
  List.Lex.append_left Part.Before (.rel (show Part.Before (.name a) (.name b) from h)) front

theorem not_before_self (l : Location) : ¬ l.Before l := by
  obtain ⟨parts⟩ := l
  induction parts with
  | nil => exact nofun
  | cons part parts ih =>
    intro h
    cases h with
    | rel h =>
      cases part with
      | root => exact h
      | name n => exact String.lt_irrefl n h
    | cons h => exact ih h

/-! ## Parents -/

theorem IsStep.isIdle_eq {name : String} (h : IsStep name) : Path.isIdle name.toList = false := by
  have hstep := h.1
  unfold Path.stepOf? at hstep
  split at hstep
  · cases hstep
  · next hne =>
    rw [not_or] at hne
    unfold Path.isIdle
    simpa using hne

variable {names : List String}

theorem dropWhile_isIdle (h : ∀ name ∈ names, IsStep name) :
    (names.map String.toList).reverse.dropWhile Path.isIdle =
      (names.map String.toList).reverse := by
  rcases List.eq_nil_or_concat' names with rfl | ⟨front, last, rfl⟩
  · rfl
  · have hlast := h last (List.mem_append_right _ (List.mem_singleton.2 rfl))
    rw [List.map_append, List.reverse_append, List.map_singleton, List.reverse_singleton,
      List.singleton_append, List.dropWhile_cons_of_neg (by rw [hlast.isIdle_eq]; decide)]

theorem headAndSegments_relative (h : ∀ name ∈ names, IsStep name) (hne : names ≠ []) :
    Path.headAndSegments (String.intercalate "/" names).toList =
      ([], names.map String.toList) := by
  have hsplit := splitAt_names hne h
  obtain ⟨first, rest, rfl⟩ := List.exists_cons_of_ne_nil hne
  have hfirst := (h first List.mem_cons_self).1
  generalize (String.intercalate "/" (first :: rest)).toList = s at hsplit ⊢
  have hstart : ∀ segment more, Text.splitAt '/' s = segment :: more →
      Path.stepOf? segment = some (.name first) := by
    intro segment more heq
    rw [hsplit] at heq
    rwa [← (List.cons.inj heq).1]
  unfold Path.headAndSegments
  split
  · next t =>
    rw [Text.splitAt, Text.splitWhere_cons_of_pos (p := (· == '/')) (beq_self_eq_true _)] at hstart
    cases hstart _ _ rfl
  · cases hstart _ _ rfl
  · next t =>
    rw [Text.splitAt, Text.splitWhere_cons_of_neg (p := (· == '/')) (by decide),
      Text.splitWhere_cons_of_pos (p := (· == '/')) (beq_self_eq_true _)] at hstart
    cases hstart _ _ rfl
  · rw [hsplit]

theorem headAndSegments_absolute (h : ∀ name ∈ names, IsStep name) (hne : names ≠ []) :
    Path.headAndSegments ("/" ++ String.intercalate "/" names).toList =
      (['/'], names.map String.toList) := by
  rw [← splitAt_names hne h, String.toList_append]
  rfl

/-- The last name is taken away. -/
theorem parent?_of_segments {s : String} {head : List Char} {front : List String} {last : String}
    (h : ∀ name ∈ front ++ [last], IsStep name)
    (hs : Path.headAndSegments s.toList = (head, (front ++ [last]).map String.toList)) :
    (⟨s⟩ : Path).parent? = some ⟨String.ofList head ++ String.intercalate "/" front⟩ := by
  have hfront : ∀ name ∈ front, IsStep name := fun name hname =>
    h name (List.mem_append_left _ hname)
  unfold Path.parent?
  rw [hs]
  dsimp only
  rw [dropWhile_isIdle h, List.map_append, List.reverse_append, List.map_singleton,
    List.reverse_singleton, List.singleton_append]
  dsimp only
  rw [dropWhile_isIdle hfront, List.reverse_reverse, String.ofList_append,
    ← String.ofList_toList (s := String.intercalate "/" front), String.toList_intercalate]
  rfl

/-- The parent of a location in a directory is the directory. -/
theorem parent?_path_concat {l : Location} {name : String}
    (h : IsNormal ⟨l.parts ++ [Part.name name]⟩) :
    (⟨l.parts ++ [Part.name name]⟩ : Location).path.parent? = some l.path := by
  obtain ⟨front⟩ := l
  obtain ⟨root, names, hroot, hparts, hnames⟩ := h
  dsimp only at hparts ⊢
  rcases List.eq_nil_or_concat' names with rfl | ⟨upper, last, rfl⟩
  · rcases hroot with rfl | rfl
    · exact absurd hparts (by simp)
    · have hlast := congrArg List.getLast? hparts
      simp at hlast
  · rw [List.map_append, ← List.append_assoc] at hparts
    obtain ⟨rfl, hlast⟩ := List.append_inj' hparts rfl
    cases hlast
    have hne : upper ++ [name] ≠ [] := List.append_ne_nil_of_right_ne_nil _ (List.cons_ne_nil _ _)
    rw [List.append_assoc, ← List.map_singleton, ← List.map_append]
    rcases hroot with rfl | rfl
    · rw [List.nil_append, List.nil_append, path_relative, path_relative,
        parent?_of_segments hnames (headAndSegments_relative hnames hne),
        String.ofList_nil, String.empty_append]
    · rw [List.singleton_append, List.singleton_append, path_absolute, path_absolute,
        parent?_of_segments hnames (headAndSegments_absolute hnames hne)]


theorem IsNormal.front {front : List Part} {part : Part} (h : IsNormal ⟨front ++ [part]⟩) :
    IsNormal ⟨front⟩ := by
  have hup := h.up
  rwa [step, List.dropLast_concat] at hup

/-- The locations whose parent is `d` are those that go on with a name behind `d`. -/
theorem parent?_path_eq_iff {l d : Location} (hl : l.IsNormal) (hd : d.IsNormal) :
    l.path.parent? = some d.path ↔ ∃ name, l = ⟨d.parts ++ [Part.name name]⟩ := by
  constructor
  · intro h
    obtain ⟨parts⟩ := l
    obtain ⟨root, names, hroot, rfl, -⟩ := id hl
    rcases List.eq_nil_or_concat' names with rfl | ⟨front, last, rfl⟩
    · rcases hroot with rfl | rfl <;> cases h
    · rw [List.map_append, ← List.append_assoc] at hl h ⊢
      rw [List.map_singleton] at hl h ⊢
      rw [parent?_path_concat (l := ⟨_⟩) hl] at h
      have heq := congrArg ofPath (Option.some.inj h)
      rw [ofPath_path hl.front, ofPath_path hd] at heq
      exact ⟨last, by rw [← heq]⟩
  · rintro ⟨name, rfl⟩
    exact parent?_path_concat hl

end Location

namespace Store

variable {s : Store}

/-! ## Putting files into a store -/

theorem lookup_filter_of_ne {files : List (Location × String)} {l k : Location} (h : l ≠ k) :
    (files.filter fun file => file.1 != k).lookup l = files.lookup l := by
  induction files with
  | nil => rfl
  | cons file files ih =>
    obtain ⟨other, text⟩ := file
    by_cases hk : other = k
    · subst hk
      rw [List.filter_cons_of_neg (by simp), ih, List.lookup_cons, beq_eq_false_iff_ne.2 h]
    · rw [List.filter_cons_of_pos (by simpa using hk), List.lookup_cons, List.lookup_cons, ih]

/-- A file that is put in is found at its location, and nothing is different elsewhere. -/
theorem get?_insert (s : Store) (p : Path) (text : String) (l : Location) :
    (s.insert p text).get? l = if l = Location.ofPath p then some text else s.get? l := by
  unfold get? insert
  dsimp only
  rw [List.lookup_cons]
  by_cases h : l = Location.ofPath p
  · rw [if_pos h, h, beq_self_eq_true]
  · rw [if_neg h, beq_eq_false_iff_ne.2 h]
    exact lookup_filter_of_ne h

/-- The locations of a store. -/
def locations (s : Store) : List Location :=
  s.files.map Prod.fst

theorem locations_insert (s : Store) (p : Path) (text : String) :
    (s.insert p text).locations =
      Location.ofPath p :: s.locations.filter fun l => l != Location.ofPath p := by
  unfold locations insert
  rw [List.map_cons, List.filter_map]
  rfl

theorem Distinct.insert (h : s.Distinct) (p : Path) (text : String) :
    (s.insert p text).Distinct := by
  change (s.insert p text).locations.Nodup
  rw [locations_insert, List.nodup_cons]
  exact ⟨by simp, h.filter _⟩

theorem mem_locations_insert {p : Path} {text : String} {l : Location} :
    l ∈ (s.insert p text).locations ↔ l = Location.ofPath p ∨ l ∈ s.locations := by
  rw [locations_insert, List.mem_cons, List.mem_filter, bne_iff_ne]
  by_cases h : l = Location.ofPath p <;> simp [h]

/-! ## Putting in one file after another -/

theorem ofList_concat (files : List (String × String)) (file : String × String) :
    ofList (files ++ [file]) = (ofList files).insert ⟨file.1⟩ file.2 := by
  unfold ofList
  rw [List.foldl_concat]

/-- The last file whose path leads to a location is the one that is found there. -/
theorem get?_ofList (files : List (String × String)) (l : Location) :
    (ofList files).get? l =
      (files.reverse.find? fun file => Location.ofPath ⟨file.1⟩ == l).map Prod.snd := by
  induction files using List.reverseRecOn with
  | nil => rfl
  | append_singleton files file ih =>
    rw [ofList_concat, get?_insert, List.reverse_append, List.reverse_singleton,
      List.singleton_append]
    by_cases h : l = Location.ofPath ⟨file.1⟩
    · rw [if_pos h, List.find?_cons_of_pos (by simp [h])]
      rfl
    · rw [if_neg h, List.find?_cons_of_neg (by simpa using Ne.symm h), ih]

theorem mem_locations_ofList {files : List (String × String)} {l : Location} :
    l ∈ (ofList files).locations ↔ ∃ file ∈ files, l = Location.ofPath ⟨file.1⟩ := by
  induction files using List.reverseRecOn with
  | nil => simp [ofList, empty, locations]
  | append_singleton files file ih =>
    rw [ofList_concat, mem_locations_insert, ih]
    simp [or_and_right, exists_or, or_comm]

theorem distinct_ofList (files : List (String × String)) : (ofList files).Distinct := by
  induction files using List.reverseRecOn with
  | nil => exact List.nodup_nil
  | append_singleton files file ih =>
    rw [ofList_concat]
    exact ih.insert _ _

/-! ## Directories -/

theorem hasBelow_iff {d : Location} : s.hasBelow d = true ↔ ∃ l ∈ s.locations, l.Below d := by
  unfold hasBelow locations
  simp [Location.isBelow_iff_below]

theorem namesIn_eq (s : Store) (d : Location) :
    s.namesIn d = (s.locations.filterMap d.entryName?).mergeSort (· ≤ ·) := by
  unfold namesIn locations
  rw [List.filterMap_map]
  rfl

theorem mem_namesIn_iff {d : Location} {name : String} :
    name ∈ s.namesIn d ↔ ⟨d.parts ++ [Part.name name]⟩ ∈ s.locations := by
  rw [namesIn_eq, List.mem_mergeSort, List.mem_filterMap]
  simp only [Location.entryName?_eq_some_iff, exists_eq_right]

/-- The names in a directory are in order, each of them once. -/
theorem pairwise_namesIn (h : s.Distinct) (d : Location) : (s.namesIn d).Pairwise (· < ·) := by
  have hnodup : (s.namesIn d).Nodup := by
    rw [namesIn_eq, (List.mergeSort_perm _ _).nodup_iff]
    refine List.Nodup.filterMap (fun l l' name hl hl' => ?_) h
    rw [Location.entryName?_eq_some_iff.1 hl, Location.entryName?_eq_some_iff.1 hl']
  have hsorted := List.pairwise_mergeSort decide_le_trans decide_le_total
    (s.locations.filterMap d.entryName?)
  rw [← namesIn_eq] at hsorted
  refine (hsorted.and hnodup).imp fun hab => ?_
  exact Decidable.byContradiction fun hlt =>
    hab.2 (String.le_antisymm (of_decide_eq_true hab.1) (String.not_lt.1 hlt))

/-- The paths that a directory lists are in the order of their parts. -/
theorem pairwise_entries (h : s.Distinct) (hs : s.IsNormal) (d : Location) :
    (((s.namesIn d).map (entryIn d)).map Entry.path).Pairwise fun q q' =>
      (Location.ofPath q).Before (Location.ofPath q') := by
  have hback : ∀ name ∈ s.namesIn d,
      Location.ofPath (entryIn d name).path = ⟨d.parts ++ [Part.name name]⟩ := by
    intro name hname
    obtain ⟨file, hfile, hlocation⟩ := exists_mem_of_mem_namesIn hname
    exact Location.ofPath_path (hlocation ▸ hs file hfile)
  rw [List.map_map, List.pairwise_map]
  refine (pairwise_namesIn h d).imp_of_mem fun ha hb hlt => ?_
  change (Location.ofPath (entryIn d _).path).Before (Location.ofPath (entryIn d _).path)
  rw [hback _ ha, hback _ hb]
  exact Location.before_of_lt hlt d.parts

/-- The paths that a directory lists are those of the locations whose parent it is. -/
theorem mem_entries_iff (hs : s.IsNormal) {d : Location} (hd : d.IsNormal) {q : Path} :
    q ∈ ((s.namesIn d).map (entryIn d)).map Entry.path ↔
      ∃ l ∈ s.locations, q = l.path ∧ q.parent? = some d.path := by
  rw [List.map_map, List.mem_map]
  constructor
  · rintro ⟨name, hname, rfl⟩
    rw [mem_namesIn_iff] at hname
    obtain ⟨file, hfile, hlocation⟩ := List.mem_map.1 hname
    refine ⟨_, hname, rfl, (Location.parent?_path_eq_iff ?_ hd).2 ⟨name, rfl⟩⟩
    exact hlocation ▸ hs file hfile
  · rintro ⟨l, hl, rfl, hparent⟩
    obtain ⟨file, hfile, rfl⟩ := List.mem_map.1 hl
    obtain ⟨name, hname⟩ := (Location.parent?_path_eq_iff (hs file hfile) hd).1 hparent
    rw [hname] at hl ⊢
    exact ⟨name, mem_namesIn_iff.2 hl, rfl⟩

/-- A store that files have been put into one after another.  A path is read as the last file whose
path leads to the same location.  A directory is what some file lies strictly below.  Listing fails
for everything else, and lists the stored locations whose parent the directory is, strictly in
order, by paths that can all be read.  A path in normal form is its own normal form. -/
theorem ofList_answers (files : List (String × String)) (p d : Path) :
    let s := ofList files
    let location := fun file : String × String => Location.ofPath ⟨file.1⟩
    (s.read p = match files.reverse.find? fun file => location file == Location.ofPath p with
      | some file => .ok file.2
      | none => .error (.noStoredFile (Location.ofPath p))) ∧
    (s.isDirectory d = true ↔ ∃ file ∈ files, (location file).Below (Location.ofPath d)) ∧
    ((∃ e, s.list d = .error e) ↔ s.isDirectory d = false) ∧
    (∀ entries, s.list d = .ok entries →
      ((entries.map Entry.path).Pairwise fun q q' =>
        (Location.ofPath q).Before (Location.ofPath q')) ∧
      (entries.map Entry.path).Nodup ∧
      (∀ q, q ∈ entries.map Entry.path ↔ ∃ file ∈ files,
        q = (location file).path ∧ q.parent? = some (Location.ofPath d).path) ∧
      ∀ entry ∈ entries, ∃ text, s.read entry.path = .ok text) ∧
    Location.ofPath (Location.ofPath p).path = Location.ofPath p := by
  intro s location
  have hdistinct : s.Distinct := distinct_ofList files
  have hnormal : s.IsNormal := isNormal_ofList files
  have hd : (Location.ofPath d).IsNormal := Location.isNormal_ofPath d
  have hstored : ∀ l, l ∈ s.locations ↔ ∃ file ∈ files, l = location file :=
    fun l => mem_locations_ofList
  refine ⟨?_, ?_, ?_, ?_, Location.ofPath_path (Location.isNormal_ofPath p)⟩
  · unfold read
    rw [get?_ofList]
    cases files.reverse.find? _ <;> rfl
  · change s.hasBelow (Location.ofPath d) = true ↔ _
    rw [hasBelow_iff]
    simp [hstored]
  · unfold list isDirectory
    dsimp only
    split
    · next h => simp [h]
    · next h => simpa using h
  · intro entries hentries
    have hlist : entries =
        (s.namesIn (Location.ofPath d)).map (entryIn (Location.ofPath d)) := by
      unfold list at hentries
      dsimp only at hentries
      split at hentries
      · cases hentries
        rfl
      · cases hentries
    have hmem : ∀ q, q ∈ entries.map Entry.path ↔ ∃ file ∈ files,
        q = (location file).path ∧ q.parent? = some (Location.ofPath d).path := by
      intro q
      rw [hlist, mem_entries_iff hnormal hd]
      simp [hstored]
    have hpairwise := pairwise_entries hdistinct hnormal (Location.ofPath d)
    rw [← hlist] at hpairwise
    refine ⟨hpairwise, hpairwise.imp ?_, hmem, ?_⟩
    · rintro q q' hbefore rfl
      exact Location.not_before_self _ hbefore
    · intro entry hentry
      obtain ⟨file, hfile, hpath, -⟩ := (hmem entry.path).1 (List.mem_map_of_mem hentry)
      obtain ⟨⟨l, text⟩, hkept, rfl⟩ := List.mem_map.1 ((hstored _).2 ⟨file, hfile, rfl⟩)
      refine ⟨text, ?_⟩
      unfold read
      rw [hpath, Location.ofPath_path (hnormal _ hkept), get?,
        (lookup_eq_some_iff_mem hdistinct).2 hkept]

/-- Two spellings of one path, and a file in a deeper directory. -/
def twoSpellings : List (String × String) :=
  [("/m/b.go", "B"), ("/m//a.go", "old"), ("/m/sub/c.go", "C"), ("/m/./a.go", "A")]

/-- The directory is spelled in a third way, and the later text has replaced the earlier one. -/
theorem ofList_answers_twoSpellings :
    (ofList twoSpellings).read ⟨"m/../../m/a.go"⟩ =
        .error (.noStoredFile ⟨[.name "m", .name "a.go"]⟩) ∧
      (ofList twoSpellings).read ⟨"/m/sub/../a.go"⟩ = .ok "A" ∧
      (ofList twoSpellings).list ⟨"/m/sub/.."⟩ =
        .ok [⟨"a.go", ⟨"/m/a.go"⟩⟩, ⟨"b.go", ⟨"/m/b.go"⟩⟩] ∧
      ([⟨"/m/a.go"⟩, ⟨"/m/b.go"⟩] : List Path).Nodup ∧
      ∃ text, (ofList twoSpellings).read ⟨"/m/b.go"⟩ = .ok text := by
  have hentries : (ofList twoSpellings).list ⟨"/m/sub/.."⟩ =
      .ok [⟨"a.go", ⟨"/m/a.go"⟩⟩, ⟨"b.go", ⟨"/m/b.go"⟩⟩] := by cbv
  obtain ⟨hread, -, -, hlist, -⟩ :=
    ofList_answers twoSpellings ⟨"/m/sub/../a.go"⟩ ⟨"/m/sub/.."⟩
  obtain ⟨-, hnodup, -, hall⟩ := hlist _ hentries
  obtain ⟨hmissing, -⟩ := ofList_answers twoSpellings ⟨"m/../../m/a.go"⟩ ⟨""⟩
  exact ⟨hmissing.trans (by cbv), hread.trans (by cbv), hentries, hnodup,
    hall ⟨"b.go", ⟨"/m/b.go"⟩⟩ (by simp)⟩

end Store

end StructCopy.Files
