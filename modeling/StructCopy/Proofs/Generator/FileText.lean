/-
  Proofs/Generator/FileText: the text of a generated file, spelled out.

  It is the text of a file of imports and functions: first the paths without a slash that
  the code refers to, then the numbered ones with their names, in the order of their
  registration.  The name of a numbered path in the type of a mapping stands in the code
  behind a blank, so it is among them.
-/
import StructCopy.Proofs.Aliases.Paths
import StructCopy.Proofs.Aliases.Pruning
import StructCopy.Proofs.Go.FunctionFile
import StructCopy.Proofs.Mapping.FunctionText

set_option autoImplicit false

namespace StructCopy

/-! ## Joined texts -/

/-- Texts that are joined by a separator, with the separator behind the last one too. -/
theorem toList_intercalate_append (sep : String) {texts : List String} (hne : texts ≠ []) :
    (String.intercalate sep texts).toList ++ sep.toList =
      texts.flatMap fun text => text.toList ++ sep.toList := by
  induction texts with
  | nil => exact absurd rfl hne
  | cons text texts ih =>
    cases texts with
    | nil => simp
    | cons next texts =>
      rw [String.intercalate_cons_cons, String.toList_append, String.toList_append,
        List.append_assoc, ih (List.cons_ne_nil _ _), List.flatMap_cons, List.flatMap_cons,
        List.flatMap_cons]

/-- A text that is joined with others is a part of the whole. -/
theorem infix_intercalate (sep : String) {texts : List String} {text : String}
    (h : text ∈ texts) : text.toList <:+: (String.intercalate sep texts).toList := by
  induction texts with
  | nil => cases h
  | cons first texts ih =>
    cases texts with
    | nil =>
      rw [List.mem_singleton.1 h, String.intercalate_singleton]
    | cons next texts =>
      rw [String.intercalate_cons_cons, String.toList_append, String.toList_append]
      rcases List.mem_cons.1 h with rfl | h
      · rw [List.append_assoc]
        exact (List.prefix_append _ _).isInfix
      · exact (ih h).trans (List.suffix_append _ _).isInfix

/-! ## The import block -/

namespace Aliases

/-- The imports for some code, with the names they get: the packages that the code refers to, those
without a slash first. -/
def importEntries (a : Aliases) (code : String) : List (Option String × String) :=
  ((a.plain.filter (references code)).map fun path => (none, path)) ++
    ((a.bindings.filter fun b => references code b.1).map fun b => (some b.1, b.2))

theorem importLines_eq (a : Aliases) (code : String) :
    a.importLines code = (a.importEntries code).map Go.importText := by
  unfold importLines importEntries
  rw [List.map_append, List.map_map, List.map_map]
  rfl

theorem render_eq (a : Aliases) (code : String) :
    a.render code = if (a.importEntries code).isEmpty then ""
      else "import (\n" ++ String.intercalate "\n" ((a.importEntries code).map Go.importText) ++
        "\n)\n" := by
  unfold render
  dsimp only
  rw [importLines_eq, List.isEmpty_map]

/-- The import block of a file, with the blank line behind it. -/
theorem toList_render (a : Aliases) (code : String) :
    (if (a.render code).isEmpty then "" else a.render code ++ "\n").toList =
      Go.blockText (a.importEntries code) := by
  unfold Go.blockText
  rw [render_eq]
  cases hentries : a.importEntries code with
  | nil => rfl
  | cons entry entries =>
    have hlines := toList_intercalate_append "\n"
      (List.cons_ne_nil (Go.importText entry) (entries.map Go.importText))
    rw [← List.map_cons, List.flatMap_map] at hlines
    have hbreak : "\n".toList = ['\n'] := rfl
    have hclose : "\n)\n".toList = "\n".toList ++ ")\n".toList := rfl
    have hend : ")\n".toList ++ "\n".toList = ")\n\n".toList := rfl
    have hnonempty : ("import (\n" ++ String.intercalate "\n" ((entry :: entries).map Go.importText) ++
        "\n)\n").isEmpty = false := by
      simp
    rw [List.isEmpty_cons, if_neg Bool.false_ne_true, if_neg Bool.false_ne_true, hnonempty,
      if_neg Bool.false_ne_true, String.toList_append, String.toList_append, String.toList_append,
      hclose, ← hend, ← hbreak, ← hlines]
    simp only [List.append_assoc]

/-- Ordinary paths can be imported as they are. -/
theorem Tidy.importable {a : Aliases} (h : a.Tidy) (code : String) :
    ∀ entry ∈ a.importEntries code, Go.Importable entry := by
  have hpath : ∀ path, Ordinary path → ∀ c ∈ path.toList, c ≠ '"' ∧ c ≠ '\\' ∧ c ≠ '\n' := by
    intro path hpath c hc
    exact ⟨ne_of_isPathChar (hpath c hc) (by decide), ne_of_isPathChar (hpath c hc) (by decide),
      ne_of_isPathChar (hpath c hc) (by decide)⟩
  intro entry hentry
  rcases List.mem_append.1 hentry with hentry | hentry
  · obtain ⟨path, hmem, rfl⟩ := List.mem_map.1 hentry
    exact ⟨nofun, hpath path (h.plain path (List.mem_filter.1 hmem).1)⟩
  · obtain ⟨binding, hmem, rfl⟩ := List.mem_map.1 hentry
    obtain ⟨i, hi, hname⟩ := mem_bindings.1 (List.mem_filter.1 hmem).1
    refine ⟨fun name heq => ?_, hpath _ (h.numbered _ (List.mem_of_getElem? hi))⟩
    rw [← Option.some.inj heq, hname]
    exact isIdentifier_aliasAt i

end Aliases

/-! ## The functions -/

theorem codeOf_cons_cons (f g : CopyFunction) (functions : List CopyFunction) :
    codeOf (f :: g :: functions) = f.text ++ "\n\n" ++ codeOf (g :: functions) := by
  unfold codeOf
  rw [List.map_cons, List.map_cons, String.intercalate_cons_cons]

theorem isEmpty_codeOf (functions : List CopyFunction) :
    (codeOf functions).isEmpty = functions.isEmpty := by
  have hnonempty : ∀ f : CopyFunction, f.text.isEmpty = false := by
    intro f
    unfold CopyFunction.text
    simp
  cases functions with
  | nil => rfl
  | cons f functions =>
    cases functions with
    | nil =>
      unfold codeOf
      rw [List.map_cons, List.map_nil, String.intercalate_singleton]
      exact hnonempty f
    | cons g functions =>
      rw [codeOf_cons_cons]
      simp

/-- The functions of a file, with the line break behind the last one. -/
theorem toList_codeOf (functions : List CopyFunction) :
    (if (codeOf functions).isEmpty then "" else codeOf functions ++ "\n").toList =
      Go.functionsText (functions.map fun f => f.text.toList) := by
  rw [isEmpty_codeOf]
  induction functions with
  | nil => rfl
  | cons f functions ih =>
    have hbreak : "\n".toList = ['\n'] := rfl
    have hbreaks : "\n\n".toList = ['\n', '\n'] := rfl
    rw [List.isEmpty_cons, if_neg Bool.false_ne_true, List.map_cons, Go.functionsText,
      List.isEmpty_map]
    cases functions with
    | nil =>
      unfold codeOf
      rw [List.map_cons, List.map_nil, String.intercalate_singleton, String.toList_append, hbreak]
      rfl
    | cons g functions =>
      rw [List.isEmpty_cons, if_neg Bool.false_ne_true] at ih ⊢
      rw [codeOf_cons_cons, String.append_assoc, String.toList_append, String.toList_append,
        hbreaks, ih]
      simp only [List.append_assoc, List.cons_append, List.nil_append]

/-- The comment on the first line of a generated file. -/
def headerComment : List Char :=
  " Code generated by structmap; DO NOT EDIT.".toList

/-- A generated file is a file of imports and functions. -/
theorem toList_fileText (packageName : String) (aliases : Aliases) (functions : List CopyFunction) :
    (fileText packageName aliases functions).toList = Go.functionFileText headerComment packageName
      (aliases.importEntries (codeOf functions)) (functions.map fun f => f.text.toList) := by
  have hheader : generatedHeader.toList = '/' :: '/' :: headerComment := rfl
  have hpackage : "\npackage ".toList = '\n' :: "package ".toList := rfl
  have htext : fileText packageName aliases functions =
      generatedHeader ++ "\npackage " ++ packageName ++ "\n\n" ++
        (if (aliases.render (codeOf functions)).isEmpty then ""
          else aliases.render (codeOf functions) ++ "\n") ++
        (if (codeOf functions).isEmpty then "" else codeOf functions ++ "\n") := rfl
  rw [htext, Go.functionFileText, ← toList_codeOf, ← Aliases.toList_render]
  simp only [String.toList_append, hheader, hpackage, List.append_assoc, List.cons_append,
    List.nil_append]

/-! ## Names in the code -/

namespace Aliases

/-- The qualifier stands in the text with a blank before it and a point behind it. -/
def SetOff (q : String) (text : List Char) : Prop :=
  ∃ front back, text = front ++ ' ' :: (q.toList ++ '.' :: back)

theorem SetOff.mono {q : String} {text whole : List Char} (h : SetOff q text)
    (hpart : text <:+: whole) : SetOff q whole := by
  obtain ⟨front, back, rfl⟩ := h
  obtain ⟨left, right, rfl⟩ := hpart
  exact ⟨left ++ front, back ++ right, by simp⟩

theorem SetOff.standsIn {q : String} {text : List Char} (h : SetOff q text) : StandsIn q text := by
  obtain ⟨front, back, rfl⟩ := h
  refine ⟨front ++ [' '], back, by simp, fun c hc => ?_⟩
  rw [List.getLast?_concat] at hc
  cases hc
  decide

/-- What a name that is set off in the code is bound to is imported under it. -/
theorem mem_importEntries {a : Aliases} {code path : String} {position : Nat}
    (hbound : (aliasAt position, path) ∈ a.bindings) (h : SetOff (aliasAt position) code.toList) :
    (some (aliasAt position), path) ∈ a.importEntries code := by
  have hpoint : '.' ∉ (aliasAt position).toList :=
    not_mem_of_isIdentifier (isIdentifier_aliasAt position) (by decide)
  have hfound := (references_iff hpoint).2 h.standsIn
  exact List.mem_append_right _ (List.mem_map.2 ⟨_, List.mem_filter.2 ⟨hbound, hfound⟩, rfl⟩)

end Aliases

end StructCopy
