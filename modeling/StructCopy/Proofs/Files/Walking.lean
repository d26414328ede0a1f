/-
  Proofs/Files/Walking: where paths lead in a tree without links.

  Walking along a path, every step goes from one directory to the next, and `..` at the
  root stays there.  The location of a path has the names of the directory that the path
  leads to, but a `..` that finds nothing to take back is lost: at the root it takes the
  root away, and in a relative path it is forgotten that the path leads above the place
  where it starts.  How many steps are lost in this way decides where a location may be
  taken for the place that its path leads to.
-/
import Mathlib.Data.List.Basic
import StructCopy.Proofs.Files.Addition

set_option autoImplicit false

namespace StructCopy.Files

namespace Path

/-! ## Walking -/

/-- The directory reached by one step, as the names on the way to it from the root. -/
def walkStep (d : List String) : Component → List String
  | .root => []
  | .here => d
  | .up => d.dropLast
  | .name n => d ++ [n]

/-- The directory that a path leads to from another one. -/
def walk (start : List String) (p : Path) : List String :=
  p.components.foldl walkStep start

/-- What a step does to the number of names that can be taken back, and to the number of `..`
steps so far that have found none. -/
def rise : Nat × Nat → Component → Nat × Nat
  | (_, lost), .root => (0, lost)
  | (height, lost), .here => (height, lost)
  | (0, lost), .up => (0, lost + 1)
  | (height + 1, lost), .up => (height, lost)
  | (height, lost), .name _ => (height + 1, lost)

/-- The number of `..` steps that find no name to take back. -/
def climbs (p : Path) : Nat :=
  (p.components.foldl rise (0, 0)).2

/-! ## Steps -/

/-- The steps of a path, without the one to the root and without `.`. -/
def steps (p : Path) : List Component :=
  (Text.splitAt '/' p.text.toList).filterMap stepOf?

variable {α : Type} {f : α → Component → α}

theorem filterMap_stepOf?_cons {segment : List Char} (h : segment = [] ∨ segment = ['.'])
    (segments : List (List Char)) :
    (segment :: segments).filterMap stepOf? = segments.filterMap stepOf? :=
  List.filterMap_cons_none (if_pos h)

theorem splitAt_slash_cons (s : List Char) :
    Text.splitAt '/' ('/' :: s) = [] :: Text.splitAt '/' s :=
  Text.splitWhere_cons_of_pos (p := (· == '/')) rfl s

/-- Only the steps of a path matter where `.` changes nothing. -/
theorem foldl_components (h : ∀ a, f a .here = a) (p : Path) (a : α) :
    p.components.foldl f a = p.steps.foldl f (if p.isAbsolute then f a .root else a) := by
  unfold components steps isAbsolute
  split
  · next s hs =>
    rw [hs, splitAt_slash_cons, filterMap_stepOf?_cons (.inl rfl)]
    rfl
  · next hs =>
    have hrelative : (p.text.toList.head? == some '/') = false := by
      rw [beq_eq_false_iff_ne]
      intro heq
      obtain ⟨s, hslash⟩ := List.head?_eq_some_iff.1 heq
      exact hs s hslash
    rw [hrelative, if_neg Bool.false_ne_true]
    split
    · next rest hdot =>
      rw [hdot, filterMap_stepOf?_cons (.inr rfl), List.foldl_cons, h]
    · rfl

theorem steps_append_slash {p : Path} {s t : List Char} (h : p.text.toList = s ++ '/' :: t) :
    p.steps = (⟨String.ofList s⟩ : Path).steps ++ (⟨String.ofList t⟩ : Path).steps := by
  unfold steps
  rw [h, String.toList_ofList, String.toList_ofList, ← List.filterMap_append]
  exact congrArg (List.filterMap stepOf?)
    (Text.splitWhere_append_cons (p := (· == '/')) rfl s t)

theorem steps_empty : (⟨""⟩ : Path).steps = [] :=
  rfl

/-- The steps of a path that is put behind another one follow the steps of that one. -/
theorem steps_join {q : Path} (hq : q.isAbsolute = false) (p : Path) :
    (p.join q).steps = p.steps ++ q.steps := by
  obtain ⟨text⟩ := p
  obtain ⟨more⟩ := q
  unfold join
  rw [hq, if_neg Bool.false_ne_true]
  dsimp only
  split
  · next hend =>
    rcases Bool.or_eq_true_iff.1 hend with hempty | hslash
    · rw [String.isEmpty_iff.1 hempty, String.empty_append, steps_empty, List.nil_append]
    · obtain ⟨front, hfront⟩ := List.getLast?_eq_some_iff.1 (eq_of_beq hslash)
      rw [steps_append_slash (s := front) (t := []) hfront,
        steps_append_slash (s := front) (t := more.toList)
          (by rw [String.toList_append, hfront, List.append_assoc]; rfl),
        String.ofList_nil, steps_empty, List.append_nil, String.ofList_toList]
  · rw [steps_append_slash (s := text.toList) (t := more.toList)
        (by rw [String.toList_append, String.toList_append, List.append_assoc]; rfl),
      String.ofList_toList, String.ofList_toList]

theorem isAbsolute_join {q : Path} (hq : q.isAbsolute = false) (p : Path) :
    (p.join q).isAbsolute = p.isAbsolute := by
  obtain ⟨text⟩ := p
  obtain ⟨more⟩ := q
  unfold join
  rw [hq, if_neg Bool.false_ne_true]
  dsimp only
  by_cases hempty : text = ""
  · subst hempty
    exact hq
  · have hne : text.toList ≠ [] := by simpa using hempty
    unfold isAbsolute
    split
    all_goals simp only [String.toList_append, List.append_assoc, List.head?_append_of_ne_nil _ hne]

/-- Going along a path that is put behind another one is going along one and then the other. -/
theorem foldl_join (h : ∀ a, f a .here = a) {q : Path} (hq : q.isAbsolute = false) (p : Path)
    (a : α) :
    (p.join q).components.foldl f a = q.components.foldl f (p.components.foldl f a) := by
  rw [foldl_components h (p.join q), foldl_components h p, foldl_components h q, steps_join hq,
    isAbsolute_join hq, hq, List.foldl_append, if_neg Bool.false_ne_true]

/-- A step of a path is up or a name. -/
theorem eq_up_or_name_of_mem_steps {p : Path} {c : Component} (h : c ∈ p.steps) :
    c = .up ∨ ∃ n, c = .name n := by
  obtain ⟨segment, -, hstep⟩ := List.mem_filterMap.1 h
  unfold stepOf? at hstep
  split at hstep
  · cases hstep
  split at hstep
  · cases hstep
    exact .inl rfl
  · cases hstep
    exact .inr ⟨_, rfl⟩

/-! ## Locations and directories -/

/-- How a location keeps up with a walk: the walk has lost the last names of the directory `base`
that it started from, as many as steps have been lost, and the location has all names since; it
has a root if the path has one and no step has been lost. -/
structure Tracks (base : List String) (absolute : Bool) (walked : List String) (l : Location)
    (b : Nat × Nat) : Prop where
  walked_eq : walked = base.take (base.length - b.2) ++ l.names
  height_eq : b.1 = l.names.length
  parts_eq : l.parts = (if absolute ∧ b.2 = 0 then [.root] else []) ++ l.names.map .name

variable {base walked : List String} {absolute : Bool} {l : Location} {b : Nat × Nat}

theorem names_rooted (condition : Prop) [Decidable condition] (names : List String) :
    (⟨(if condition then [.root] else []) ++ names.map .name⟩ : Location).names = names := by
  split
  · exact (Location.names_cons_root _).trans (Location.names_map names)
  · exact Location.names_map names

theorem Tracks.name (h : Tracks base absolute walked l b) (n : String) :
    Tracks base absolute (walkStep walked (.name n)) (l.step (.name n)) (rise b (.name n)) := by
  obtain ⟨height, lost⟩ := b
  have hnames : (l.step (.name n)).names = l.names ++ [n] :=
    List.filterMap_append
  refine ⟨?_, ?_, ?_⟩
  · rw [hnames, walkStep, h.walked_eq, List.append_assoc]
    rfl
  · rw [hnames, List.length_append, ← h.height_eq]
    rfl
  · rw [hnames, Location.step, h.parts_eq, List.map_append, List.append_assoc]
    rfl

theorem Tracks.up (h : Tracks base absolute walked l b) :
    Tracks base absolute (walkStep walked .up) (l.step .up) (rise b .up) := by
  obtain ⟨height, lost⟩ := b
  obtain ⟨hwalked, hheight, hparts⟩ := h
  dsimp only at hwalked hheight hparts
  unfold walkStep Location.step
  rcases List.eq_nil_or_concat' l.names with hnil | ⟨front, last, hnames⟩
  · -- nothing can be taken back: one more name of the start is lost, or the root
    rw [hnil] at hwalked hheight hparts
    subst hheight
    have hparts' : l.parts.dropLast = [] := by
      rw [hparts]
      split <;> rfl
    rw [hparts', hwalked]
    refine ⟨?_, rfl, ?_⟩
    · change _ = base.take (base.length - (lost + 1)) ++ []
      rw [List.append_nil, List.append_nil, List.dropLast_eq_take, List.take_take,
        List.length_take]
      exact congrArg base.take (by omega)
    · change [] = (if absolute ∧ lost + 1 = 0 then [Part.root] else []) ++ []
      rw [if_neg fun h => Nat.succ_ne_zero lost h.2]
      rfl
  · rw [hnames] at hwalked hheight hparts
    rw [List.length_append] at hheight
    subst hheight
    have hparts' : l.parts.dropLast =
        (if absolute ∧ lost = 0 then [Part.root] else []) ++ front.map .name := by
      rw [hparts, List.map_append, ← List.append_assoc]
      exact List.dropLast_concat
    have hfront : (⟨l.parts.dropLast⟩ : Location).names = front := by
      rw [hparts', names_rooted]
    refine ⟨?_, ?_, ?_⟩
    · rw [hwalked, hfront, ← List.append_assoc, List.dropLast_concat]
      rfl
    · rw [hfront]
      rfl
    · rw [hfront]
      exact hparts'

/-- The balance of a walk, the directory and the location keep up with each other. -/
theorem Tracks.foldl {cs : List Component} (hcs : ∀ c ∈ cs, c = .up ∨ ∃ n, c = .name n)
    (h : Tracks base absolute walked l b) :
    Tracks base absolute (cs.foldl walkStep walked) (cs.foldl Location.step l)
      (cs.foldl rise b) := by
  induction cs generalizing walked l b with
  | nil => exact h
  | cons c cs ih =>
    obtain ⟨hc, hrest⟩ := List.forall_mem_cons.1 hcs
    rcases hc with rfl | ⟨n, rfl⟩
    · exact ih hrest h.up
    · exact ih hrest (h.name n)

theorem tracks (p : Path) (start : List String) :
    Tracks (if p.isAbsolute then [] else start) p.isAbsolute (p.walk start) (Location.ofPath p)
      (p.components.foldl rise (0, 0)) := by
  unfold walk Location.ofPath
  rw [foldl_components (fun _ => rfl), foldl_components (f := Location.step) (fun _ => rfl),
    foldl_components (f := rise) (fun a => by obtain ⟨_ | _, _⟩ := a <;> rfl)]
  refine Tracks.foldl (fun c hc => eq_up_or_name_of_mem_steps hc) ?_
  cases p.isAbsolute with
  | true => exact ⟨rfl, rfl, rfl⟩
  | false => exact ⟨by simp [Location.names], rfl, rfl⟩

/-- How many names of a start with `n` names stay in place when one goes along a path. -/
def kept (p : Path) (n : Nat) : Nat :=
  if p.isAbsolute then 0 else n - p.climbs

/-- A path leads to the names of its location, behind what it keeps of its start. -/
theorem walk_eq (p : Path) (start : List String) :
    p.walk start = start.take (p.kept start.length) ++ (Location.ofPath p).names := by
  have hwalked := (tracks p start).walked_eq
  unfold kept climbs
  cases hp : p.isAbsolute with
  | true => rw [hwalked, hp, if_pos rfl, if_pos rfl, List.take_nil, List.take_zero]
  | false =>
    rw [hp, if_neg Bool.false_ne_true] at hwalked
    rwa [if_neg Bool.false_ne_true]

theorem walk_join (w p : Path) (start : List String) :
    (w.join p).walk start = p.walk (w.walk start) := by
  cases hp : p.isAbsolute with
  | true =>
    have hjoin : w.join p = p := if_pos hp
    rw [hjoin, walk_eq, walk_eq p]
    unfold kept
    rw [hp, if_pos rfl, if_pos rfl, List.take_zero, List.take_zero]
  | false => exact foldl_join (fun _ => rfl) hp w start

theorem kept_le (p : Path) (n : Nat) : p.kept n ≤ n := by
  unfold kept
  split <;> omega

/-- An absolute path has an absolute normal form if no step is lost at the root. -/
theorem isAbsolute_path_iff {p : Path} (hp : p.isAbsolute = true) :
    (Location.ofPath p).path.isAbsolute = true ↔ p.climbs = 0 := by
  have hparts := (tracks p []).parts_eq
  have hnames : ∀ name ∈ (Location.ofPath p).names, Location.IsStep name := by
    obtain ⟨root, names, hroot, hnormal, hsteps⟩ := Location.isNormal_ofPath p
    have heq : (Location.ofPath p).names = names := by
      unfold Location.names
      rw [hnormal]
      rcases hroot with rfl | rfl <;> exact Location.names_map names
    rwa [heq]
  generalize (Location.ofPath p).names = names at hparts hnames
  have hlocation := congrArg Location.mk hparts
  rw [hp] at hlocation
  unfold climbs
  by_cases hlost : (p.components.foldl rise (0, 0)).2 = 0
  · rw [if_pos ⟨rfl, hlost⟩] at hlocation
    have hpath : (Location.ofPath p).path = ⟨"/" ++ String.intercalate "/" names⟩ :=
      (congrArg Location.path hlocation).trans (Location.path_absolute names)
    rw [hpath]
    refine iff_of_true ?_ hlost
    unfold isAbsolute
    rw [String.toList_append]
    rfl
  · rw [if_neg fun h => hlost h.2] at hlocation
    have hpath : (Location.ofPath p).path = ⟨String.intercalate "/" names⟩ :=
      (congrArg Location.path hlocation).trans (Location.path_relative names)
    rw [hpath]
    refine iff_of_false (fun h => ?_) hlost
    exact Location.head?_intercalate_ne_slash hnames (eq_of_beq h)

/-- Working directories may be as deep as one likes. -/
theorem exists_length_walk_eq (n : Nat) :
    ∃ w : Path, w.isAbsolute = true ∧ (w.walk []).length = n := by
  have hstep : Location.IsStep "d" := ⟨by decide, by decide⟩
  have hnames : ∀ name ∈ List.replicate n "d", Location.IsStep name :=
    fun name hname => List.eq_of_mem_replicate hname ▸ hstep
  refine ⟨⟨"/" ++ String.intercalate "/" (List.replicate n "d")⟩, ?_, ?_⟩
  · unfold isAbsolute
    rw [String.toList_append]
    rfl
  · rw [walk_eq, List.take_nil, List.nil_append, Location.ofPath_absolute hnames,
      Location.names_cons_root, Location.names_map, List.length_replicate]

/-- The normal form of a path and the place that the path leads to.  The normal form of an absolute
path has the names of the directory that the path leads to, and it is an absolute path if no `..` of
the path is met at the root.  A relative path that is put behind another one may as well be put
behind its normal form.  Two paths with one normal form lead to the same place from every working
directory if both are absolute, or if both are relative and lose equally many `..` steps. -/
theorem ofPath_walk (p q : Path) :
    (p.isAbsolute = true →
      (∀ start, p.walk start = (Location.ofPath p).names) ∧
      ((Location.ofPath p).path.isAbsolute = true ↔ p.climbs = 0)) ∧
    (q.isAbsolute = false →
      Location.ofPath (p.join q) = Location.ofPath ((Location.ofPath p).path.join q)) ∧
    (Location.ofPath p = Location.ofPath q →
      ((∀ w : Path, w.isAbsolute = true → (w.join p).walk [] = (w.join q).walk []) ↔
        p.isAbsolute = q.isAbsolute ∧ (p.isAbsolute = true ∨ p.climbs = q.climbs))) := by
  refine ⟨fun hp => ⟨fun start => ?_, isAbsolute_path_iff hp⟩, fun hq => ?_, fun hsame => ?_⟩
  · rw [walk_eq]
    unfold kept
    rw [if_pos hp, List.take_zero, List.nil_append]
  · have hback : Location.ofPath (Location.ofPath p).path = Location.ofPath p :=
      Location.ofPath_path (Location.isNormal_ofPath p)
    have hjoin : ∀ p : Path, Location.ofPath (p.join q) =
        q.components.foldl Location.step (Location.ofPath p) :=
      fun p => foldl_join (f := Location.step) (fun _ => rfl) hq p ⟨[]⟩
    rw [hjoin, hjoin, hback]
  · -- what is in front of the same names has to be equally long
    have hplace : ∀ w : Path, (w.join p).walk [] = (w.join q).walk [] ↔
        p.kept (w.walk []).length = q.kept (w.walk []).length := by
      intro w
      rw [walk_join, walk_join, walk_eq p, walk_eq q, hsame, List.append_left_inj]
      constructor
      · intro h
        have hlength := congrArg List.length h
        rwa [List.length_take_of_le (kept_le p _), List.length_take_of_le (kept_le q _)] at hlength
      · exact fun h => by rw [h]
    simp only [hplace]
    unfold kept
    constructor
    · intro h
      obtain ⟨w, hw, hdepth⟩ := exists_length_walk_eq (p.climbs + q.climbs + 1)
      have heq := h w hw
      rw [hdepth] at heq
      cases hp : p.isAbsolute with
      | true =>
        cases hq : q.isAbsolute with
        | true => exact ⟨rfl, .inl rfl⟩
        | false =>
          rw [hp, hq, if_pos rfl, if_neg Bool.false_ne_true] at heq
          omega
      | false =>
        cases hq : q.isAbsolute with
        | true =>
          rw [hp, hq, if_neg Bool.false_ne_true, if_pos rfl] at heq
          omega
        | false =>
          rw [hp, hq, if_neg Bool.false_ne_true, if_neg Bool.false_ne_true] at heq
          exact ⟨rfl, .inr (by omega)⟩
    · rintro ⟨habsolute, hp | hclimbs⟩ w -
      · rw [if_pos hp, if_pos (habsolute ▸ hp)]
      · rw [habsolute, hclimbs]

/-- A step that is lost at the root: the path leads to `/a`, and its normal form is `a`, which leads
to another place from every other directory than the root. -/
theorem ofPath_walk_above_root :
    (⟨"/../a"⟩ : Path).isAbsolute = true ∧ (⟨"/../a"⟩ : Path).walk ["m"] = ["a"] ∧
      ¬ (Location.ofPath ⟨"/../a"⟩).path.isAbsolute = true ∧
      Location.ofPath (Path.join ⟨"/../a"⟩ ⟨"../b"⟩) =
        Location.ofPath ((Location.ofPath ⟨"/../a"⟩).path.join ⟨"../b"⟩) ∧
      Location.ofPath ⟨"/../a"⟩ = Location.ofPath ⟨"a"⟩ ∧
      ¬ ∀ w : Path, w.isAbsolute = true →
        (w.join ⟨"/../a"⟩).walk [] = (w.join ⟨"a"⟩).walk [] := by
  have hroot : (⟨"/../a"⟩ : Path).isAbsolute = true := by decide
  have hsame : Location.ofPath ⟨"/../a"⟩ = Location.ofPath ⟨"a"⟩ := by decide
  obtain ⟨habsolute, -, hplaces⟩ := ofPath_walk ⟨"/../a"⟩ ⟨"a"⟩
  obtain ⟨hwalk, hform⟩ := habsolute hroot
  have hjoin := (ofPath_walk ⟨"/../a"⟩ ⟨"../b"⟩).2.1 (by decide)
  refine ⟨hroot, (hwalk ["m"]).trans (by decide), ?_, hjoin, hsame, ?_⟩
  · rw [hform]
    decide
  · rw [hplaces hsame]
    decide

end Path

end StructCopy.Files
