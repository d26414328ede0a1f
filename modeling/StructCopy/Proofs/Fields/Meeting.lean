/-
  Proofs/Fields/Meeting: which members the search for fields comes to.

  A search reads the members of a struct type one after another and goes into the types that
  are embedded, so it comes to a member only if everything before it has fields.  It stops
  at the first member whose type forms no template, and only such a member makes it fail
  with a fault of a template.
-/
import StructCopy.Proofs.Fields.Discovery

set_option autoImplicit false

namespace StructCopy

open StructCopy.Module (Loader Package)
open StructCopy.Go (SourceFile TypeExpr)

variable {L : Loader}

/-! ## Members that are met -/

namespace Module.Loader

/-- The search for the fields of a subject comes to a member of the struct type `owner`, written in
`file`, that declares fields of its own. `depth` is the number of declared types that it goes
through on the way, the subject's own included. -/
inductive Meets (L : Loader) (owner : TypeKey) (file : SourceFile) (member : Go.Field) :
    Nat → Subject → Prop where
  | type {depth : Nat} {key : TypeKey} {subject : Subject} (hbecomes : L.Becomes key subject)
      (h : Meets L owner file member depth subject) :
      Meets L owner file member (depth + 1) (.type key)
  | here {rest : List Go.Field} (hnames : member.isEmbedded = false) :
      Meets L owner file member 0 (.membersOf owner file (member :: rest))
  | inside {depth : Nat} {key target : TypeKey} {f : SourceFile} {first : Go.Field}
      {rest : List Go.Field} (hnames : first.isEmbedded = true)
      (htarget : L.Embeds key f first.type target)
      (h : Meets L owner file member depth (.type target)) :
      Meets L owner file member depth (.membersOf key f (first :: rest))
  | past {depth : Nat} {key : TypeKey} {f : SourceFile} {first : Go.Field} {rest : List Go.Field}
      {fields : List StructField} (hfirst : L.Yields (.membersOf key f [first]) fields)
      (h : Meets L owner file member depth (.membersOf key f rest)) :
      Meets L owner file member depth (.membersOf key f (first :: rest))

variable {owner : TypeKey} {file : SourceFile} {member : Go.Field} {e : TemplateError}

/-- The member stands in the declaration of a struct type. -/
def DeclaresMember (L : Loader) (owner : TypeKey) (file : SourceFile) (member : Go.Field) : Prop :=
  ∃ p decl members, L.Declares owner p file decl ∧ decl.type.Encloses (.struct members) ∧
    member ∈ members

/-- A member that is met stands in a declaration, or it is one of those that the search is for. -/
theorem Meets.declaresMember_or {depth : Nat} {subject : Subject}
    (h : L.Meets owner file member depth subject) : L.DeclaresMember owner file member ∨
      ∃ members, subject = .membersOf owner file members ∧ member ∈ members := by
  induction h with
  | type hbecomes _ ih =>
    rcases ih with ih | ⟨members, rfl, hmem⟩
    · exact .inl ih
    · obtain ⟨p, file', decl, type, hdecl, htype, hby⟩ := hbecomes
      cases hby
      exact .inl ⟨p, decl, members, hdecl, htype, hmem⟩
  | here => exact .inr ⟨_, rfl, List.mem_cons_self⟩
  | inside _ _ _ ih =>
    rcases ih with ih | ⟨members, heq, -⟩
    · exact .inl ih
    · cases heq
  | past _ _ ih =>
    rcases ih with ih | ⟨members, heq, hmem⟩
    · exact .inl ih
    · cases heq
      exact .inr ⟨_, rfl, List.mem_cons_of_mem _ hmem⟩

theorem Meets.declaresMember {depth : Nat} {key : TypeKey}
    (h : L.Meets owner file member depth (.type key)) : L.DeclaresMember owner file member := by
  rcases h.declaresMember_or with h | ⟨members, heq, -⟩
  · exact h
  · cases heq

theorem FormsNoTemplate.not_namesFields (h : L.FormsNoTemplate file member e)
    (fields : List StructField) : ¬ L.NamesFields file member fields := by
  rintro ⟨modules, type, hmodules, htype, -⟩
  obtain ⟨modules', hmodules', htype'⟩ := h
  cases hmodules.symm.trans hmodules'
  cases htype.symm.trans htype'

theorem FormsNoTemplate.unique {e' : TemplateError} (h : L.FormsNoTemplate file member e)
    (h' : L.FormsNoTemplate file member e') : e = e' := by
  obtain ⟨modules, hmodules, htype⟩ := h
  obtain ⟨modules', hmodules', htype'⟩ := h'
  cases hmodules.symm.trans hmodules'
  exact Except.error.inj (htype.symm.trans htype')

/-- What comes to a member whose type forms no template has no fields. -/
theorem Meets.not_yields {depth : Nat} {subject : Subject}
    (h : L.Meets owner file member depth subject) (hforms : L.FormsNoTemplate file member e)
    (fields : List StructField) : ¬ L.Yields subject fields := by
  intro hyields
  induction h generalizing fields with
  | type hbecomes _ ih => exact ih fields (hbecomes.yields hyields)
  | here hnames =>
    cases hyields with
    | namedMember _ hfields => exact hforms.not_namesFields _ hfields
    | embeddedMember hnames' => cases hnames.symm.trans hnames'
  | inside hnames htarget _ ih =>
    cases hyields with
    | namedMember hnames' => cases hnames.symm.trans hnames'
    | embeddedMember _ htarget' hfields =>
      cases htarget.unique htarget'
      exact ih _ hfields
  | past _ _ ih =>
    cases hyields with
    | namedMember _ _ hyields => exact ih _ hyields
    | embeddedMember _ _ _ hyields => exact ih _ hyields

/-- The search comes to a member whose type forms no template on one way only. -/
theorem Meets.depth_unique {depth depth' : Nat} {subject : Subject}
    (h : L.Meets owner file member depth subject) (hforms : L.FormsNoTemplate file member e)
    (h' : L.Meets owner file member depth' subject) : depth = depth' := by
  induction h generalizing depth' with
  | type hbecomes _ ih =>
    cases h' with
    | type hbecomes' h' =>
      cases hbecomes.unique hbecomes'
      rw [ih h']
  | here hnames =>
    cases h' with
    | here => rfl
    | inside hnames' => cases hnames.symm.trans hnames'
    | past hfirst => exact absurd hfirst ((Meets.here hnames).not_yields hforms _)
  | inside hnames htarget h ih =>
    cases h' with
    | here hnames' => cases hnames.symm.trans hnames'
    | inside _ htarget' h' =>
      cases htarget.unique htarget'
      exact ih h'
    | past hfirst => exact absurd hfirst ((Meets.inside hnames htarget h).not_yields hforms _)
  | past hfirst _ ih =>
    cases h' with
    | here hnames => exact absurd hfirst ((Meets.here hnames).not_yields hforms _)
    | inside hnames htarget h' =>
      exact absurd hfirst ((Meets.inside hnames htarget h').not_yields hforms _)
    | past _ h' => exact ih h'

end Module.Loader

/-! ## Faults of templates -/

open Module.Loader

/-- If the answer is a fault of a template, then the search has come to a member whose type forms
no template for this fault. -/
def Explained (L : Loader) (subject : Loader.Subject) :
    Except ResolveError (List StructField) → Prop
  | .ok _ => True
  | .error e => ∀ fault, e = .template fault → ∃ depth owner file member,
      L.Meets owner file member depth subject ∧ L.FormsNoTemplate file member fault

theorem explained_of_plain {subject : Loader.Subject} {e : ResolveError} (h : e.Plain) :
    Explained L subject (.error e) := by
  rintro fault rfl
  exact h.elim

/-- What a part meets, the whole does. -/
theorem Explained.of_part {part whole : Loader.Subject}
    {answer : Except ResolveError (List StructField)} (h : Explained L part answer)
    (hmeets : ∀ owner file member depth, L.Meets owner file member depth part →
      ∃ depth, L.Meets owner file member depth whole) : Explained L whole answer := by
  cases answer with
  | ok fields => trivial
  | error e =>
    intro fault he
    obtain ⟨depth, owner, file, member, hpart, hforms⟩ := h fault he
    obtain ⟨depth', hwhole⟩ := hmeets _ _ _ _ hpart
    exact ⟨depth', owner, file, member, hwhole, hforms⟩

/-- The answer for some members is explained by those for the first one and for the rest. -/
theorem Explained.cons {start key : TypeKey} {file : SourceFile} {member : Go.Field}
    {rest : List Go.Field} {first more : Except ResolveError (List StructField)}
    (hright : Right L start (.membersOf key file [member]) first)
    (hfirst : Explained L (.membersOf key file (member :: rest)) first)
    (hmore : Explained L (.membersOf key file rest) more) :
    Explained L (.membersOf key file (member :: rest)) (both first more) := by
  cases first with
  | error e => exact hfirst
  | ok fields =>
    cases more with
    | ok more => trivial
    | error e => exact hmore.of_part fun _ _ _ depth h => ⟨depth, .past hright h⟩

mutual

theorem explained_expandKey (start : TypeKey) (root : String) (way : List TypeKey) (key : TypeKey)
    (hkey : key.module ∈ L.modules root) (hleads : LeadsTo L start way key) :
    Explained L (.type key) (expandKey root way key hkey).answer := by
  by_cases hway : key ∈ way
  · rw [answer_expandKey_of_mem hkey hway]
    rintro fault hfault
    cases hfault
  · have hstep := goesOn_of_not_mem hkey hway
    generalize (expandKey root way key hkey).answer = answer at hstep ⊢
    cases hstep with
    | type hbecomes htarget =>
      have hpart := explained_expandKey start root (way ++ [key]) _ htarget
        (hleads.step hbecomes.refers)
      exact hpart.of_part fun _ _ _ depth h => ⟨depth + 1, .type hbecomes h⟩
    | members hbecomes hkey hfile =>
      have hpart := explained_expandMembers start root (way ++ [key]) key hkey _ _ hfile _
        fun target htarget => hleads.step (hbecomes.refers_of_embeds htarget)
      exact hpart.of_part fun _ _ _ depth h => ⟨depth + 1, .type hbecomes h⟩
    | stuck _ he => exact explained_of_plain he
termination_by (L.room root way, 0)
decreasing_by
  all_goals
    obtain ⟨p, file, decl, type, hdecl, -⟩ := hbecomes
    apply Prod.Lex.left
    exact Loader.room_lt hdecl.1 hkey hdecl.2 hway

theorem explained_expandMembers (start : TypeKey) (root : String) (way : List TypeKey)
    (key : TypeKey) (hkey : key.module ∈ L.modules root) (p : Package) (file : SourceFile)
    (hfile : ∃ path, L.load path = .ok p ∧ file ∈ p.files) (members : List Go.Field)
    (hleads : ∀ target, L.EmbedsAmong key file members target → LeadsTo L start way target) :
    Explained L (.membersOf key file members)
      (expandMembers root way key hkey p file hfile members).answer := by
  cases members with
  | nil =>
    rw [expandMembers]
    trivial
  | cons member rest =>
    obtain ⟨first, hstep, hanswer⟩ := answer_expandMembers_cons way hkey hfile member rest
    have hmore := explained_expandMembers start root way key hkey p file hfile rest
      fun target ⟨m, hm, htarget⟩ => hleads target ⟨m, List.mem_cons_of_mem _ hm, htarget⟩
    rw [hanswer]
    cases hstep with
    | @named p hnames =>
      rcases answer_namedFields (L := L) p file member with
        ⟨fields, hfields, h⟩ | ⟨-, e, h, he⟩
      · rw [h]
        have hright : Right L start (.membersOf key file [member]) (.ok fields) :=
          Loader.Yields.singleton_of_names hnames hfields
        exact .cons hright trivial hmore
      · rw [h]
        rcases he with ⟨he, -⟩ | ⟨fault, rfl, hforms⟩
        · exact explained_of_plain he
        · intro fault' hfault
          cases hfault
          exact ⟨0, key, file, member, .here hnames, hforms⟩
    | embedded htarget hnames hembeds =>
      have hto := hleads _ ⟨member, List.mem_cons_self, hnames, hembeds⟩
      have hright := right_expandKey start root way _ htarget hto
      have hpart := explained_expandKey start root way _ htarget hto
      refine Explained.cons (hright.of_part fun _ => .singleton_of_embeds hnames hembeds)
        (hpart.of_part fun _ _ _ depth h => ⟨depth, .inside hnames hembeds h⟩) hmore
    | stuck _ _ he => exact explained_of_plain he
termination_by (L.room root way, members.length + 1)
decreasing_by
  all_goals
    subst_vars
    apply Prod.Lex.right
    simp

end

/-! ## The first fault -/

variable {owner : TypeKey} {file : SourceFile} {member : Go.Field} {e : TemplateError}

theorem answer_namedFields_of_formsNoTemplate (h : L.FormsNoTemplate file member e) (p : Package) :
    (namedFields p file member : Explore L _).answer = .error (.template e) := by
  rcases answer_namedFields (L := L) p file member with
    ⟨fields, hfields, -⟩ | ⟨-, e', hanswer, ⟨-, hnone⟩ | ⟨fault, rfl, hforms⟩⟩
  · exact absurd hfields (h.not_namesFields fields)
  · obtain ⟨modules, hmodules, -⟩ := h
    cases hmodules.symm.trans hnone
  · rw [hanswer, h.unique hforms]

/-- The search gives up with the fault of the first member whose type forms no template, if the
keys on the way lead to this member, and on longer ways. -/
theorem answers_of_meets {depth : Nat} {subject : Loader.Subject}
    (h : L.Meets owner file member depth subject) (hforms : L.FormsNoTemplate file member e)
    (way : List TypeKey) (hbehind : Behind L way subject)
    (hlonger : ∀ k ∈ way, ∃ longer, depth < longer ∧ L.Meets owner file member longer (.type k)) :
    Answers L way (.error (.template e)) subject := by
  induction h generalizing way with
  | @type depth key subject hbecomes h ih =>
    -- a key on the way comes to the member through more types than this one
    have hnew : key ∉ way := by
      intro hmem
      obtain ⟨longer, hlt, h'⟩ := hlonger key hmem
      have := (Meets.type hbecomes h).depth_unique hforms h'
      omega
    have hlonger' : ∀ k ∈ way ++ [key],
        ∃ longer, depth < longer ∧ L.Meets owner file member longer (.type k) := by
      intro k hk
      rcases List.mem_append.1 hk with hk | hk
      · obtain ⟨longer, hlt, h'⟩ := hlonger k hk
        exact ⟨longer, by omega, h'⟩
      · rw [List.mem_singleton.1 hk]
        exact ⟨depth + 1, by omega, .type hbecomes h⟩
    exact answers_of_becomes hbecomes hnew hbehind fun hbehind' => ih _ hbehind' hlonger'
  | @here rest hnames =>
    intro root hkey p hfile
    obtain ⟨first, hstep, hanswer⟩ := answer_expandMembers_cons way hkey hfile member rest
    rw [hanswer]
    cases hstep with
    | @named p => rw [answer_namedFields_of_formsNoTemplate hforms p]; rfl
    | embedded _ hnames' => cases hnames.symm.trans hnames'
    | stuck hnames' => cases hnames.symm.trans hnames'
  | @inside depth key target f first rest hnames htarget h ih =>
    intro root hkey p hfile
    obtain ⟨answer, hstep, hanswer⟩ := answer_expandMembers_cons way hkey hfile first rest
    rw [hanswer]
    cases hstep with
    | named hnames' => cases hnames.symm.trans hnames'
    | embedded hin _ hembeds =>
      cases htarget.unique hembeds
      rw [ih way (fun k hk => hbehind k hk target ⟨first, List.mem_cons_self, hnames, htarget⟩)
        hlonger root hin]
      rfl
    | stuck _ hnone => exact absurd htarget (hnone target)
  | @past depth key f first rest fields hfirst h ih =>
    intro root hkey p hfile
    obtain ⟨answer, hstep, hanswer⟩ := answer_expandMembers_cons way hkey hfile first rest
    have hrest := ih way (fun k hk target ⟨m, hm, htarget⟩ =>
      hbehind k hk target ⟨m, List.mem_cons_of_mem _ hm, htarget⟩) hlonger root hkey p hfile
    rw [hanswer, hrest]
    cases hstep with
    | @named p hnames =>
      rcases answer_namedFields (L := L) p f first with ⟨fields', -, hok⟩ | ⟨hnone, -⟩
      · rw [hok]
        rfl
      · cases hfirst with
        | namedMember _ hfields => exact absurd hfields (hnone _)
        | embeddedMember hnames' => cases hnames.symm.trans hnames'
    | embedded hin hnames hembeds =>
      cases hfirst with
      | namedMember hnames' => cases hnames.symm.trans hnames'
      | embeddedMember _ htarget hfields =>
        cases htarget.unique hembeds
        have hok := answers_of_yields hfields way
          (fun k hk => hbehind k hk _ ⟨first, List.mem_cons_self, hnames, htarget⟩) root hin
        rw [hok]
        rfl
    | stuck hnames hnone =>
      cases hfirst with
      | namedMember hnames' => cases hnames.symm.trans hnames'
      | embeddedMember _ htarget => exact absurd htarget (hnone _)

/-- A search fails with a fault of a template exactly if it comes to a member whose type forms no
template for this fault. -/
theorem answerFor_template_iff_meets {key : TypeKey} {e : TemplateError} :
    L.answerFor key = .error (.template e) ↔ ∃ depth owner file member,
      L.Meets owner file member depth (.type key) ∧ L.FormsNoTemplate file member e := by
  constructor
  · intro h
    have hexplained := explained_expandKey (L := L) key key.module [] key List.mem_cons_self .start
    unfold Loader.answerFor expand at h
    rw [h] at hexplained
    exact hexplained e rfl
  · rintro ⟨depth, owner, file, member, hmeets, hforms⟩
    exact answers_of_meets hmeets hforms [] (fun k hk => absurd hk List.not_mem_nil)
      (fun k hk => absurd hk List.not_mem_nil) key.module List.mem_cons_self

end StructCopy
