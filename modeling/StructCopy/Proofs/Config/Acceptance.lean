/-
  Proofs/Config/Acceptance: what is known of a document that has been accepted.

  The types of an accepted conversion rule have the imports of the rule.
-/
import StructCopy.Config.Check
import StructCopy.Proofs.Fields.Discovery
import StructCopy.Proofs.Mapping.Rendering

set_option autoImplicit false

namespace StructCopy

open Go (bind_eq_ok)

/-! ## Lists of entries -/

theorem ok_of_inContext {α : Type} {context : String} {x : Except TemplateError α} {a : α}
    (h : inContext context x = .ok a) : x = .ok a := by
  cases x with
  | error e => cases h
  | ok a' =>
    cases h
    rfl

/-- Every result of checking a list comes from one of its entries. -/
theorem exists_of_checkFrom {α β : Type} {context : String}
    {check : String → α → Except ConfigError β} {xs : List α} {position : Nat} {ys : List β}
    (h : checkFrom position context check xs = .ok ys) :
    ∀ y ∈ ys, ∃ place, ∃ x ∈ xs, check place x = .ok y := by
  induction xs generalizing position ys with
  | nil =>
    cases h
    intro y hy
    cases hy
  | cons x xs ih =>
    obtain ⟨z, hz, h⟩ := bind_eq_ok h
    obtain ⟨zs, hzs, h⟩ := bind_eq_ok h
    cases h
    intro y hy
    rcases List.mem_cons.1 hy with rfl | hy
    · exact ⟨_, x, List.mem_cons_self, hz⟩
    · obtain ⟨place, x', hx', hy'⟩ := ih hzs y hy
      exact ⟨place, x', List.mem_cons_of_mem _ hx', hy'⟩

/-! ## Rules -/

/-- The rule comes from an entry that has been accepted. -/
def ConversionRule.Accepted (r : ConversionRule) : Prop :=
  ∃ context entry, ConversionEntry.check context entry = .ok r

theorem ConversionRule.Accepted.imports_eq {r : ConversionRule} (h : r.Accepted) :
    r.sourceType.imports = r.imports ∧ r.destType.imports = r.imports := by
  obtain ⟨context, entry, h⟩ := h
  obtain ⟨sourceType, hsource, h⟩ := bind_eq_ok h
  obtain ⟨destType, hdest, h⟩ := bind_eq_ok h
  have hsource := TypeTemplate.imports_of_ofText? (ok_of_inContext hsource)
  have hdest := TypeTemplate.imports_of_ofText? (ok_of_inContext hdest)
  split at h
  · cases h
  · obtain ⟨forward, -, h⟩ := bind_eq_ok h
    split at h
    · cases h
      exact ⟨hsource, hdest⟩
    · obtain ⟨reverse, -, h⟩ := bind_eq_ok h
      cases h
      exact ⟨hsource, hdest⟩

theorem ConversionRule.Accepted.mem_imports {r : ConversionRule} (h : r.Accepted) {path : String}
    (hpath : path ∈ r.paths) : path ∈ r.imports := by
  obtain ⟨hsource, hdest⟩ := h.imports_eq
  unfold paths at hpath
  rw [hsource, hdest] at hpath
  simpa using hpath

theorem accepted_of_checkEach {entries : List ConversionEntry} {rules : List ConversionRule}
    {context : String} (h : checkEach context ConversionEntry.check entries = .ok rules) :
    ∀ r ∈ rules, r.Accepted := by
  intro r hr
  obtain ⟨place, entry, -, hentry⟩ := exists_of_checkFrom h r hr
  exact ⟨place, entry, hentry⟩

/-! ## Mappings -/

/-- The own rules of a mapping are accepted. -/
def MappingSpec.Accepted (m : MappingSpec) : Prop :=
  ∀ r ∈ m.conversions, r.Accepted

theorem MappingEntry.accepted_of_check {context : String} {entry : MappingEntry} {m : MappingSpec}
    (h : entry.check context = .ok m) : m.Accepted := by
  obtain ⟨⟨source, sourceKey⟩, -, h⟩ := bind_eq_ok h
  obtain ⟨⟨dest, destKey⟩, -, h⟩ := bind_eq_ok h
  obtain ⟨args, -, h⟩ := bind_eq_ok h
  obtain ⟨overrides, -, h⟩ := bind_eq_ok h
  obtain ⟨conversions, hconversions, h⟩ := bind_eq_ok h
  cases h
  exact accepted_of_checkEach hconversions

/-- Every mapping of an accepted document comes from an entry that has been accepted. -/
theorem MappingDocument.exists_entry_of_check {document : MappingDocument} {config : MappingConfig}
    (h : document.check = .ok config) :
    ∀ m ∈ config.mappings, ∃ context entry, MappingEntry.check context entry = .ok m := by
  intro m hm
  unfold MappingDocument.check at h
  dsimp only at h
  split at h
  · cases h
  · obtain ⟨mappings, hmappings, h⟩ := bind_eq_ok h
    cases h
    obtain ⟨place, entry, -, hentry⟩ := exists_of_checkFrom hmappings m hm
    exact ⟨place, entry, hentry⟩

theorem MappingDocument.accepted_of_check {document : MappingDocument} {config : MappingConfig}
    (h : document.check = .ok config) : ∀ m ∈ config.mappings, m.Accepted := by
  intro m hm
  obtain ⟨context, entry, hentry⟩ := exists_entry_of_check h m hm
  exact MappingEntry.accepted_of_check hentry

end StructCopy
