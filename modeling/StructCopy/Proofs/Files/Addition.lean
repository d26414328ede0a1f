/-
  Proofs/Files/Addition: one more file in a directory.

  A location that a path leads to is normal: nothing but names, behind a root or not.  The path of
  a normal location leads back to it, so that a store reads the files that it lists.  A file
  stored at a new place of a directory is one more entry of that directory, and nothing else
  becomes different there.
-/
import StructCopy.Files.Store
import StructCopy.Proofs.Text.Separators

set_option autoImplicit false

namespace StructCopy.Files

/-- The second source is the first one with one more file in a directory. -/
structure Added (source source' : FileSource) (dir : Path) (entry : Entry) : Prop where
  isDirectory_eq : source'.isDirectory = source.isDirectory
  lists : ∃ before after, source.list dir = .ok (before ++ after) ∧
    source'.list dir = .ok (before ++ entry :: after) ∧
    ∀ other ∈ before ++ after, source'.read other.path = source.read other.path

namespace Location

/-! ## Normal locations -/

/-- A name that is a step when it stands between slashes. -/
def IsStep (name : String) : Prop :=
  Path.stepOf? name.toList = some (.name name) ∧ '/' ∉ name.toList

/-- Nothing but names, behind a root or not. -/
def IsNormal (l : Location) : Prop :=
  ∃ (root : List Part) (names : List String), (root = [] ∨ root = [.root]) ∧
    l.parts = root ++ names.map .name ∧ ∀ name ∈ names, IsStep name

theorem isNormal_nil : IsNormal ⟨[]⟩ :=
  ⟨[], [], .inl rfl, rfl, nofun⟩

theorem isNormal_root : IsNormal ⟨[.root]⟩ :=
  ⟨[.root], [], .inr rfl, rfl, nofun⟩

theorem IsNormal.up {l : Location} (h : l.IsNormal) : (l.step .up).IsNormal := by
  obtain ⟨root, names, hroot, hparts, hnames⟩ := h
  rcases List.eq_nil_or_concat' names with rfl | ⟨front, last, rfl⟩
  · have hup : l.step .up = ⟨[]⟩ := by
      rw [step, hparts]
      rcases hroot with rfl | rfl <;> rfl
    rw [hup]
    exact isNormal_nil
  · refine ⟨root, front, hroot, ?_, fun name hname => hnames name (List.mem_append_left _ hname)⟩
    rw [step, hparts, List.map_append, ← List.append_assoc]
    exact List.dropLast_concat

theorem IsNormal.name {l : Location} (h : l.IsNormal) {name : String} (hname : IsStep name) :
    (l.step (.name name)).IsNormal := by
  obtain ⟨root, names, hroot, hparts, hnames⟩ := h
  refine ⟨root, names ++ [name], hroot, ?_, List.forall_mem_append.2
    ⟨hnames, List.forall_mem_singleton.2 hname⟩⟩
  rw [step, hparts, List.map_append, List.append_assoc]
  rfl

/-- What stands between slashes makes no step, goes up, or is a name. -/
theorem IsNormal.segment {l : Location} (h : l.IsNormal) {segment : List Char}
    (hslash : '/' ∉ segment) {c : Path.Component} (hc : Path.stepOf? segment = some c) :
    (l.step c).IsNormal := by
  have hstep := hc
  unfold Path.stepOf? at hc
  split at hc
  · cases hc
  split at hc
  · cases hc
    exact h.up
  · cases hc
    refine h.name ⟨?_, ?_⟩
    · rw [String.toList_ofList, hstep]
    · rwa [String.toList_ofList]

theorem IsNormal.segments {l : Location} (h : l.IsNormal) {segments : List (List Char)}
    (hslash : ∀ segment ∈ segments, '/' ∉ segment) :
    ((segments.filterMap Path.stepOf?).foldl step l).IsNormal := by
  induction segments generalizing l with
  | nil => exact h
  | cons segment rest ih =>
    obtain ⟨hfirst, hrest⟩ := List.forall_mem_cons.1 hslash
    cases hc : Path.stepOf? segment with
    | none =>
      rw [List.filterMap_cons_none hc]
      exact ih h hrest
    | some c =>
      rw [List.filterMap_cons_some hc]
      exact ih (h.segment hfirst hc) hrest

theorem isNormal_ofPath (p : Path) : (ofPath p).IsNormal := by
  have hparts (s : List Char) : ∀ segment ∈ Text.splitAt '/' s, '/' ∉ segment :=
    fun _ hsegment => Text.not_mem_of_mem_splitAt hsegment
  unfold ofPath Path.components
  split
  · next s _ => exact isNormal_root.segments (hparts s)
  split
  · next hsplit =>
    refine isNormal_nil.segments fun segment hsegment => hparts p.text.toList segment ?_
    rw [hsplit]
    exact List.mem_cons_of_mem _ hsegment
  · exact isNormal_nil.segments (hparts _)

/-! ## Locations as paths -/

theorem components_absolute (t : String) :
    Path.components ⟨"/" ++ t⟩ = .root :: (Text.splitAt '/' t.toList).filterMap Path.stepOf? := by
  unfold Path.components
  rw [String.toList_append]
  rfl

theorem components_relative {t : String} (hslash : t.toList.head? ≠ some '/')
    (hdot : (Text.splitAt '/' t.toList).head? ≠ some ['.']) :
    Path.components ⟨t⟩ = (Text.splitAt '/' t.toList).filterMap Path.stepOf? := by
  unfold Path.components
  dsimp only
  split
  · next hs =>
    rw [hs] at hslash
    exact absurd rfl hslash
  split
  · next hsplit =>
    rw [hsplit] at hdot
    exact absurd rfl hdot
  · rfl

variable {names : List String}

theorem filterMap_stepOf? (h : ∀ name ∈ names, IsStep name) :
    (names.map String.toList).filterMap Path.stepOf? = names.map .name := by
  rw [List.filterMap_map, ← List.filterMap_eq_map]
  exact List.filterMap_congr fun name hname => (h name hname).1

theorem foldl_names (l : Location) (names : List String) :
    (names.map Path.Component.name).foldl step l = ⟨l.parts ++ names.map .name⟩ := by
  induction names generalizing l with
  | nil => rw [List.map_nil, List.foldl_nil, List.map_nil, List.append_nil]
  | cons name names ih =>
    rw [List.map_cons, List.foldl_cons, ih, step, List.append_assoc]
    rfl

theorem splitAt_names (hne : names ≠ []) (h : ∀ name ∈ names, IsStep name) :
    Text.splitAt '/' (String.intercalate "/" names).toList = names.map String.toList := by
  rw [String.toList_intercalate]
  refine Text.splitAt_intercalate (by simpa using hne) fun segment hsegment => ?_
  obtain ⟨name, hname, rfl⟩ := List.mem_map.1 hsegment
  exact (h name hname).2

/-- The names behind a root. -/
theorem ofPath_absolute (h : ∀ name ∈ names, IsStep name) :
    ofPath ⟨"/" ++ String.intercalate "/" names⟩ = ⟨.root :: names.map .name⟩ := by
  unfold ofPath
  rw [components_absolute, List.foldl_cons]
  by_cases hne : names = []
  · rw [hne]
    rfl
  · rw [splitAt_names hne h, filterMap_stepOf? h, foldl_names]
    rfl

/-- A name does not start with a slash. -/
theorem head?_intercalate_ne_slash (h : ∀ name ∈ names, IsStep name) :
    (String.intercalate "/" names).toList.head? ≠ some '/' := by
  cases names with
  | nil => exact nofun
  | cons first rest =>
    intro heq
    obtain ⟨s, hs⟩ := List.head?_eq_some_iff.1 heq
    have hsplit := splitAt_names (List.cons_ne_nil first rest) h
    rw [hs, Text.splitAt, Text.splitWhere_cons_of_pos (p := (· == '/')) (beq_self_eq_true _),
      List.map_cons] at hsplit
    have hfirst := (h first List.mem_cons_self).1
    rw [← (List.cons.inj hsplit).1] at hfirst
    cases hfirst

/-- The names of a relative path. -/
theorem ofPath_relative (h : ∀ name ∈ names, IsStep name) :
    ofPath ⟨String.intercalate "/" names⟩ = ⟨names.map .name⟩ := by
  have hslash := head?_intercalate_ne_slash h
  cases names with
  | nil => rfl
  | cons first rest =>
    have hsplit := splitAt_names (List.cons_ne_nil first rest) h
    have hfirst := (h first List.mem_cons_self).1
    generalize String.intercalate "/" (first :: rest) = t at hsplit hslash ⊢
    have hdot : (Text.splitAt '/' t.toList).head? ≠ some ['.'] := by
      rw [hsplit]
      intro heq
      rw [Option.some.inj heq] at hfirst
      cases hfirst
    rw [ofPath, components_relative hslash hdot, hsplit, filterMap_stepOf? h, foldl_names]
    rfl

theorem names_map (names : List String) : (⟨names.map .name⟩ : Location).names = names := by
  unfold Location.names
  rw [List.filterMap_map]
  exact List.filterMap_some

theorem names_cons_root (parts : List Part) :
    (⟨.root :: parts⟩ : Location).names = (⟨parts⟩ : Location).names :=
  rfl

theorem path_relative (names : List String) :
    (⟨names.map .name⟩ : Location).path = ⟨String.intercalate "/" names⟩ := by
  unfold path
  rw [names_map, if_neg (by cases names <;> simp), String.empty_append]

theorem path_absolute (names : List String) :
    (⟨.root :: names.map .name⟩ : Location).path = ⟨"/" ++ String.intercalate "/" names⟩ := by
  unfold path
  rw [names_cons_root, names_map, List.head?_cons, if_pos rfl]

/-- The path of a normal location leads to it. -/
theorem ofPath_path {l : Location} (h : l.IsNormal) : ofPath l.path = l := by
  obtain ⟨parts⟩ := l
  obtain ⟨root, names, hroot, rfl, hnames⟩ := h
  rcases hroot with rfl | rfl
  · rw [List.nil_append, path_relative, ofPath_relative hnames]
  · rw [List.singleton_append, path_absolute, ofPath_absolute hnames]

/-! ## Below and inside -/

theorem isBelow_iff {l d : Location} : l.isBelow d = true ↔ d.parts <+: l.parts ∧ l ≠ d := by
  rw [isBelow, Bool.and_eq_true, List.isPrefixOf_iff_prefix, bne_iff_ne]

theorem isBelow_trans {l d : Location} (hl : l.isBelow d = true) {above : Location}
    (hd : above.parts <+: d.parts) : l.isBelow above = true := by
  obtain ⟨hparts, hne⟩ := isBelow_iff.1 hl
  refine isBelow_iff.2 ⟨hd.trans hparts, ?_⟩
  rintro rfl
  obtain ⟨parts⟩ := l
  obtain ⟨parts'⟩ := d
  obtain rfl : parts = parts' := hd.eq_of_length_le hparts.length_le
  exact hne rfl

theorem entryName?_eq_some_iff {d l : Location} {name : String} :
    d.entryName? l = some name ↔ l = ⟨d.parts ++ [Part.name name]⟩ := by
  obtain ⟨parts⟩ := l
  unfold entryName?
  constructor
  · intro h
    split at h
    · next last hlast =>
      split at h
      · next hfront =>
        cases h
        rw [← hfront, List.dropLast_append_getLast? _ hlast]
      · cases h
    · cases h
  · intro h
    cases h
    simp

end Location

/-! ## The order of names -/

theorem decide_le_trans (a b c : String) (hab : decide (a ≤ b) = true)
    (hbc : decide (b ≤ c) = true) : decide (a ≤ c) = true :=
  decide_eq_true (String.le_trans (of_decide_eq_true hab) (of_decide_eq_true hbc))

theorem decide_le_total (a b : String) : (decide (a ≤ b) || decide (b ≤ a)) = true := by
  simpa using String.le_total a b

namespace Store

/-! ## One more file -/

/-- Every file is stored at a normal location. -/
def IsNormal (s : Store) : Prop :=
  ∀ file ∈ s.files, file.1.IsNormal

theorem isNormal_empty : empty.IsNormal :=
  List.forall_mem_nil _

theorem IsNormal.insert {s : Store} (h : s.IsNormal) (p : Path) (text : String) :
    (s.insert p text).IsNormal :=
  List.forall_mem_cons.2 ⟨Location.isNormal_ofPath p,
    fun file hfile => h file (List.mem_filter.1 hfile).1⟩

theorem isNormal_ofList (files : List (String × String)) : (ofList files).IsNormal := by
  unfold ofList
  refine List.foldlRecOn files _ isNormal_empty fun s hs file _ => ?_
  exact hs.insert ⟨file.1⟩ file.2

variable {s : Store} {p : Path} {text : String}

/-- A file at a new location replaces nothing. -/
theorem files_insert (h : ∀ file ∈ s.files, file.1 ≠ Location.ofPath p) :
    (s.insert p text).files = (Location.ofPath p, text) :: s.files := by
  unfold insert
  exact congrArg (List.cons _) (List.filter_eq_self.2 fun file hfile => bne_iff_ne.2 (h file hfile))

theorem ne_of_get?_eq_none {l : Location} (h : s.get? l = none) :
    ∀ file ∈ s.files, file.1 ≠ l := by
  intro file hfile heq
  have hne := List.lookup_eq_none_iff.1 h file hfile
  rw [heq, bne_self_eq_false] at hne
  cases hne

theorem get?_insert_of_ne (h : s.get? (Location.ofPath p) = none) {l : Location}
    (hl : l ≠ Location.ofPath p) : (s.insert p text).get? l = s.get? l := by
  rw [get?, files_insert (ne_of_get?_eq_none h), List.lookup_cons, beq_eq_false_iff_ne.2 hl]
  rfl

section

variable {d : Location} {name : String} (h : s.get? (Location.ofPath p) = none)
  (hp : Location.ofPath p = ⟨d.parts ++ [.name name]⟩) (text : String)

include h hp

/-- What lies above the new file lies above the directory that it is put in. -/
theorem hasBelow_insert (hd : s.hasBelow d = true) (l : Location) :
    (s.insert p text).hasBelow l = s.hasBelow l := by
  unfold hasBelow
  rw [files_insert (ne_of_get?_eq_none h), List.any_cons]
  rcases Bool.eq_false_or_eq_true ((Location.ofPath p).isBelow l) with hbelow | hbelow
  · obtain ⟨hparts, hne⟩ := Location.isBelow_iff.1 hbelow
    rw [hp] at hparts hne
    have hl : l.parts <+: d.parts := by
      rcases List.prefix_concat_iff.1 hparts with heq | hl
      · exact absurd (congrArg Location.mk heq).symm hne
      · exact hl
    obtain ⟨file, hfile, hinside⟩ := List.any_eq_true.1 hd
    have hany : (s.files.any fun file => file.1.isBelow l) = true :=
      List.any_eq_true.2 ⟨file, hfile, Location.isBelow_trans hinside hl⟩
    rw [hany, Bool.or_true]
  · rw [hbelow, Bool.false_or]

theorem exists_namesIn_insert : ∃ before after, s.namesIn d = before ++ after ∧
    (s.insert p text).namesIn d = before ++ name :: after := by
  have hname : d.entryName? (Location.ofPath p) = some name :=
    Location.entryName?_eq_some_iff.2 hp
  unfold namesIn
  rw [files_insert (ne_of_get?_eq_none h), List.filterMap_cons_some (by exact hname)]
  obtain ⟨before, after, hmore, hsame, -⟩ := List.mergeSort_cons decide_le_trans decide_le_total
    name (s.files.filterMap fun file => d.entryName? file.1)
  exact ⟨before, after, hsame, hmore⟩

end

/-- A listed name is that of a stored file. -/
theorem exists_mem_of_mem_namesIn {d : Location} {name : String} (h : name ∈ s.namesIn d) :
    ∃ file ∈ s.files, file.1 = ⟨d.parts ++ [Part.name name]⟩ := by
  rw [namesIn, List.mem_mergeSort] at h
  obtain ⟨file, hfile, hname⟩ := List.mem_filterMap.1 h
  exact ⟨file, hfile, Location.entryName?_eq_some_iff.1 hname⟩

/-- The entry for a name in a directory. -/
def entryIn (d : Location) (name : String) : Entry :=
  ⟨name, (⟨d.parts ++ [.name name]⟩ : Location).path⟩

theorem source_read (s : Store) : s.source.read = s.read :=
  rfl

theorem source_list (s : Store) : s.source.list = s.list :=
  rfl

theorem list_eq_ok {dir : Path} (h : s.isDirectory dir = true) :
    s.list dir =
      .ok ((s.namesIn (Location.ofPath dir)).map (entryIn (Location.ofPath dir))) := by
  unfold list
  exact if_pos h

/-- A file stored at a new place of a directory is one more entry of that directory. -/
theorem added_insert (hs : s.IsNormal) {dir : Path} {name : String}
    (hp : Location.ofPath p = ⟨(Location.ofPath dir).parts ++ [Part.name name]⟩)
    (h : s.get? (Location.ofPath p) = none) (hdir : s.isDirectory dir = true) :
    Added s.source (s.insert p text).source dir (entryIn (Location.ofPath dir) name) := by
  have hdirectory : (s.insert p text).isDirectory = s.isDirectory :=
    funext fun q => hasBelow_insert h hp text hdir (Location.ofPath q)
  obtain ⟨before, after, hsame, hmore⟩ := exists_namesIn_insert h hp text
  refine ⟨hdirectory, before.map (entryIn (Location.ofPath dir)),
    after.map (entryIn (Location.ofPath dir)), ?_, ?_, ?_⟩
  · rw [source_list, list_eq_ok hdir, hsame, List.map_append]
  · rw [source_list, list_eq_ok (by rw [hdirectory, hdir]), hmore, List.map_append, List.map_cons]
  · rw [← List.map_append, ← hsame]
    intro other hother
    obtain ⟨otherName, hotherName, rfl⟩ := List.mem_map.1 hother
    obtain ⟨file, hfile, hlocation⟩ := exists_mem_of_mem_namesIn hotherName
    have hback : Location.ofPath file.1.path = file.1 := Location.ofPath_path (hs file hfile)
    rw [source_read, source_read]
    unfold read entryIn
    rw [← hlocation, hback, get?_insert_of_ne h (ne_of_get?_eq_none h file hfile)]

/-- The file can be read where it is listed. -/
theorem read_entryIn_insert (s : Store) (text : String) {dir : Path} {name : String}
    (hp : Location.ofPath p = ⟨(Location.ofPath dir).parts ++ [Part.name name]⟩) :
    (s.insert p text).source.read (entryIn (Location.ofPath dir) name).path = .ok text := by
  rw [source_read]
  unfold read entryIn
  rw [← hp, Location.ofPath_path (Location.isNormal_ofPath p), get?, insert,
    List.lookup_cons_self]

end Store

end StructCopy.Files
