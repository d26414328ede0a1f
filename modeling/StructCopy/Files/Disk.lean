/-
  Files/Disk: a tree of directories, and following paths through it.

  A path is followed one step at a time, and every step but the last must lead to a
  directory: `..` leads to the directory above, wherever that was reached from, and
  a slash at the end of a path asks for a directory.  There are no links.
-/
import StructCopy.Files.Source

set_option autoImplicit false

namespace StructCopy.Files

/-- What is at a place. -/
inductive Item where
  | file (text : String)
  | directory
  deriving DecidableEq, Repr

/-- The names on the way from the top of a disk. -/
abbrev Place : Type :=
  List String

/-- Places and what is there, and the place where relative paths begin. The top is not listed. -/
structure Disk where
  items : List (Place × Item)
  workingDirectory : Place
  deriving DecidableEq, Repr

namespace Disk

/-- What is at a place. The top is a directory. -/
def item? (d : Disk) (place : Place) : Option Item :=
  if place.isEmpty then some .directory else d.items.lookup place

/-- The disk with something at a place, instead of what is there. -/
def insert (d : Disk) (place : Place) (item : Item) : Disk :=
  { d with items := (d.items.filter fun entry => entry.1 != place) ++ [(place, item)] }

/-- The disk with nothing but the way to its working directory. -/
def empty (workingDirectory : Place) : Disk :=
  ⟨(List.range workingDirectory.length).map fun n => (workingDirectory.take (n + 1), .directory),
    workingDirectory⟩

/-! ## Following paths -/

/-- The texts between the slashes of a path. -/
def segments (p : Path) : List (List Char) :=
  Text.splitAt '/' p.text.toList

/-- The place where a path begins. -/
def start (d : Disk) (p : Path) : Place :=
  if p.isAbsolute then [] else d.workingDirectory

/-- The place that steps lead to. Even a step that stays needs a directory to stay in. -/
def follow (d : Disk) (place : Place) : List (List Char) → Except FileError Place
  | [] => .ok place
  | s :: steps =>
    match d.item? place with
    | none => .error .notFound
    | some (.file _) => .error .notADirectory
    | some .directory =>
      if Path.isIdle s then d.follow place steps
      else if s = ['.', '.'] then d.follow place.dropLast steps
      else
        let next := place ++ [String.ofList s]
        if (d.item? next).isSome then d.follow next steps else .error .notFound

/-- A path that can be asked for: it holds no null character and is not empty. -/
def checked (p : Path) : Except FileError Unit :=
  if p.text.toList.contains '\x00' then .error .nullCharacter
  else if p.text.isEmpty then .error .notFound
  else .ok ()

/-- The place that a path leads to. -/
def place (d : Disk) (p : Path) : Except FileError Place := do
  checked p
  d.follow (d.start p) (segments p)

/-- The places that the steps of a path pass, whether anything is there or not. -/
def placesOn (d : Disk) (p : Path) : List Place :=
  ((segments p).foldl (fun passed s =>
    let place := passed.getLast?.getD []
    if Path.isIdle s then passed
    else if s = ['.', '.'] then passed ++ [place.dropLast]
    else passed ++ [place ++ [String.ofList s]]) [d.start p])

/-! ## Reading -/

/-- The text of a file. -/
def read (d : Disk) (p : Path) : Except FileError String :=
  match d.place p with
  | .error e => .error e
  | .ok place =>
    match d.item? place with
    | some (.file text) => .ok text
    | some .directory => .error .isADirectory
    | none => .error .notFound

/-- A path leads to a directory. -/
def isDirectory (d : Disk) (p : Path) : Bool :=
  match d.place p with
  | .ok place => d.item? place == some .directory
  | .error _ => false

/-- The name of a file that is directly inside a place. -/
def fileName? (place : Place) (entry : Place × Item) : Option String :=
  match entry.2 with
  | .file _ => if entry.1.dropLast = place then entry.1.getLast? else none
  | .directory => none

/-- The files directly inside a directory, in the order of their names. -/
def list (d : Disk) (p : Path) : Except FileError (List Entry) :=
  match d.place p with
  | .error e => .error e
  | .ok place =>
    if d.item? place = some .directory then
      .ok (((d.items.filterMap (fileName? place)).mergeSort (· ≤ ·)).map fun name =>
        ⟨name, p.joinText name⟩)
    else .error .notADirectory

/-! ## Writing -/

/-- The place in which the last step of a path is taken, that step, and whether a slash follows
it. The path must have a step. -/
def lastStep (d : Disk) (p : Path) (noStep : FileError) :
    Except FileError (Place × List Char × Bool) := do
  checked p
  let slashes := (segments p).reverse.takeWhile List.isEmpty
  match (segments p).reverse.drop slashes.length with
  | [] => throw noStep
  | s :: before =>
    let place ← d.follow (d.start p) (before.reverse ++ [[]])
    return (place, s, !slashes.isEmpty)

/-- A step that leads to no new place. -/
def isDots (s : List Char) : Bool :=
  s = ['.'] || s = ['.', '.']

/-- Makes a directory in a directory that is there. -/
def makeDirectory (d : Disk) (p : Path) : Except FileError Disk := do
  let (place, s, _) ← d.lastStep p .alreadyExists
  let new := place ++ [String.ofList s]
  if isDots s || (d.item? new).isSome then .error .alreadyExists
  else .ok (d.insert new .directory)

/-- Makes a directory unless it is there. -/
def ensureDirectory (d : Disk) (p : Path) : Except FileError Disk :=
  match d.makeDirectory p with
  | .ok d => .ok d
  | .error e => if d.isDirectory p then .ok d else .error e

/-- A path and the paths above it, as many as asked for. -/
def ancestors : Nat → Path → List Path
  | 0, _ => []
  | n + 1, p =>
    match p.parent? with
    | some q => p :: ancestors n q
    | none => [p]

/-- Makes the first of some directories, each inside the next one, with those that it needs. -/
def ensureChain (d : Disk) : List Path → Except FileError Disk
  | [] => .ok d
  | p :: above =>
    if p.text.isEmpty then .ok d
    else
      match d.ensureDirectory p with
      | .ok d => .ok d
      | .error e =>
        if e = .notFound then do
          let d ← d.ensureChain above
          d.ensureDirectory p
        else .error e

/-- Makes a directory and those above it that are missing. Every path above is a shorter text. -/
def ensureDirectories (d : Disk) (p : Path) : Except FileError Disk :=
  d.ensureChain (ancestors (p.text.length + 1) p)

/-- Writes a file in a directory that is there, over the file that may be there. -/
def write (d : Disk) (p : Path) (text : String) : Except FileError Disk := do
  let (place, s, slash) ← d.lastStep p .isADirectory
  let new := place ++ [String.ofList s]
  if slash || isDots s || d.item? new = some .directory then .error .isADirectory
  else .ok (d.insert new (.file text))

/-- Puts files at relative paths, with the directories they need; a file for which there is no
place is left out. -/
def withFiles (d : Disk) (files : List (String × String)) : Disk :=
  files.foldl (fun d file =>
    let p : Path := ⟨file.1⟩
    match (p.parent?.map d.ensureDirectories).getD (.ok d) with
    | .ok made => (made.write p file.2).toOption.getD d
    | .error _ => d) d

/-! ## Changes -/

/-- What is new or different on a disk, in the order in which it came about. -/
def changesSince (d before : Disk) : List (Place × Item) :=
  d.items.filter fun entry => before.item? entry.1 != some entry.2

/-- The files below the working directory that are new or different, by their relative paths. -/
def writtenSince (d before : Disk) : List (String × String) :=
  (d.changesSince before).filterMap fun entry =>
    match entry.2 with
    | .file text =>
      if d.workingDirectory.isPrefixOf entry.1 then
        some (String.intercalate "/" (entry.1.drop d.workingDirectory.length), text)
      else none
    | .directory => none

/-! ## As a source -/

theorem mem_of_item? {d : Disk} {place : Place} {text : String}
    (h : d.item? place = some (.file text)) : (place, Item.file text) ∈ d.items := by
  unfold item? at h
  split at h
  · simp at h
  · generalize d.items = items at h
    induction items with
    | nil => simp at h
    | cons entry items ih =>
      obtain ⟨place', item⟩ := entry
      by_cases hp : place = place'
      · subst hp
        simp only [List.lookup_cons_self, Option.some.injEq] at h
        simp [h]
      · rw [List.lookup_cons] at h
        simp only [beq_eq_false_iff_ne.2 hp] at h
        exact List.mem_cons_of_mem _ (ih h)

theorem file_of_read {d : Disk} {p : Path} {text : String} (h : d.read p = .ok text) :
    ∃ place, (place, Item.file text) ∈ d.items := by
  simp only [read] at h
  split at h
  · simp at h
  · next place _ =>
    split at h
    · next found hfound =>
      simp only [Except.ok.injEq] at h
      subst h
      exact ⟨place, mem_of_item? hfound⟩
    · simp at h
    · simp at h

theorem name_of_list {d : Disk} {p : Path} {entries : List Entry} {entry : Entry}
    (h : d.list p = .ok entries) (hentry : entry ∈ entries) :
    entry.name ∈ d.items.flatMap Prod.fst := by
  simp only [list] at h
  split at h
  · simp at h
  · split at h
    · simp only [Except.ok.injEq] at h
      subst h
      obtain ⟨name, hname, rfl⟩ := List.mem_map.1 hentry
      rw [List.mem_mergeSort] at hname
      obtain ⟨item, hitem, heq⟩ := List.mem_filterMap.1 hname
      refine List.mem_flatMap.2 ⟨item, hitem, ?_⟩
      simp only [fileName?] at heq
      split at heq
      · split at heq
        · exact List.mem_of_getLast? heq
        · simp at heq
      · simp at heq
    · simp at h

/-- The texts of all files. -/
def texts (d : Disk) : List String :=
  d.items.filterMap fun entry =>
    match entry.2 with
    | .file text => some text
    | .directory => none

/-- The disk as a place to read from. -/
def source (d : Disk) : FileSource where
  read := d.read
  list := d.list
  isDirectory := d.isDirectory
  finite := by
    refine ⟨(d.items.flatMap Prod.fst).flatMap fun name =>
      d.texts.map fun text => (name, text), ?_⟩
    intro dir entries entry text hlist hentry hread
    obtain ⟨place, hfile⟩ := file_of_read hread
    have htext : text ∈ d.texts := List.mem_filterMap.2 ⟨_, hfile, rfl⟩
    exact List.mem_flatMap.2 ⟨entry.name, name_of_list hlist hentry,
      List.mem_map.2 ⟨text, htext, rfl⟩⟩

end Disk

end StructCopy.Files
