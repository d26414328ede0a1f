/-
  Files/Store: files kept in memory under their locations.

  Directories are not stored: a location is a directory when some file lies below
  it.  Storing at a location that is taken replaces the file there.
-/
import StructCopy.Files.Source

set_option autoImplicit false

namespace StructCopy.Files

/-- Files by location, each location once. -/
structure Store where
  files : List (Location × String)
  deriving Repr

namespace Store

/-- No files. -/
def empty : Store := ⟨[]⟩

/-- The store with one more file, or with another text for a file it has. -/
def insert (s : Store) (p : Path) (text : String) : Store :=
  let location := Location.ofPath p
  ⟨(location, text) :: s.files.filter fun file => file.1 != location⟩

/-- The store of some files, later ones replacing earlier ones. -/
def ofList (files : List (String × String)) : Store :=
  files.foldl (fun s file => s.insert ⟨file.1⟩ file.2) empty

/-- The text at a location. -/
def get? (s : Store) (l : Location) : Option String :=
  s.files.lookup l

/-- Whether some file lies below a location. -/
def hasBelow (s : Store) (l : Location) : Bool :=
  s.files.any fun file => file.1.isBelow l

/-- The names of the files directly inside a location, in order. -/
def namesIn (s : Store) (d : Location) : List String :=
  (s.files.filterMap fun file => d.entryName? file.1).mergeSort (· ≤ ·)

/-! ## As a source -/

/-- The text of the file that a path leads to. -/
def read (s : Store) (p : Path) : Except FileError String :=
  match s.get? (Location.ofPath p) with
  | some text => .ok text
  | none => .error (.noStoredFile (Location.ofPath p))

/-- Whether a path leads to a directory. -/
def isDirectory (s : Store) (p : Path) : Bool :=
  s.hasBelow (Location.ofPath p)

/-- The files directly inside the directory that a path leads to. -/
def list (s : Store) (p : Path) : Except FileError (List Entry) :=
  let d := Location.ofPath p
  if s.hasBelow d then
    .ok ((s.namesIn d).map fun n => ⟨n, (⟨d.parts ++ [.name n]⟩ : Location).path⟩)
  else .error (.noStoredDirectory d)

theorem mem_texts_of_get? {s : Store} {l : Location} {text : String} (h : s.get? l = some text) :
    text ∈ s.files.map Prod.snd := by
  have hmem : (l, text) ∈ s.files := by
    unfold get? at h
    generalize s.files = files at h
    induction files with
    | nil => simp at h
    | cons file files ih =>
      obtain ⟨l', text'⟩ := file
      by_cases hl : l = l'
      · subst hl
        simp only [List.lookup_cons_self, Option.some.injEq] at h
        simp [h]
      · rw [List.lookup_cons] at h
        simp only [beq_eq_false_iff_ne.2 hl] at h
        exact List.mem_cons_of_mem _ (ih h)
  exact List.mem_map_of_mem hmem

theorem name_mem_of_list {s : Store} {p : Path} {entries : List Entry} {entry : Entry}
    (h : s.list p = .ok entries) (hentry : entry ∈ entries) :
    entry.name ∈ s.files.flatMap fun file => file.1.names := by
  simp only [list] at h
  split at h
  · cases h
    obtain ⟨n, hn, rfl⟩ := List.mem_map.1 hentry
    rw [namesIn, List.mem_mergeSort] at hn
    obtain ⟨file, hfile, hname⟩ := List.mem_filterMap.1 hn
    refine List.mem_flatMap.2 ⟨file, hfile, ?_⟩
    simp only [Location.entryName?] at hname
    split at hname
    · next m hlast =>
      split at hname
      · cases hname
        exact List.mem_filterMap.2 ⟨.name n, List.mem_of_getLast? hlast, rfl⟩
      · simp at hname
    · simp at hname
  · simp at h

/-- The store as a place to read from. -/
def source (s : Store) : FileSource where
  read := s.read
  list := s.list
  isDirectory := s.isDirectory
  finite := by
    refine ⟨(s.files.flatMap fun file => file.1.names).flatMap fun name =>
      (s.files.map Prod.snd).map fun text => (name, text), ?_⟩
    intro dir entries entry text hlist hentry hread
    have hname := name_mem_of_list hlist hentry
    have htext : text ∈ s.files.map Prod.snd := by
      simp only [read] at hread
      split at hread
      · next found hfound =>
        cases hread
        exact mem_texts_of_get? hfound
      · simp at hread
    exact List.mem_flatMap.2 ⟨entry.name, hname, List.mem_map.2 ⟨text, htext, rfl⟩⟩

end Store

end StructCopy.Files
