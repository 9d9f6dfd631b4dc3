import CabalManifest.Manifest.Scope
import CabalManifest.Proofs.ReadingValues

/-!
# Reading scopes

Reading a scope depends on other documents only where the scope refers to them: with two readers of
documents that do the same there, it goes alike (`Context.alike_scope`). What is read is formed, if
objects have every key once and the documents are formed.
-/

namespace CabalManifest

/-! ### References -/

/-- The entries of a section whose body stands in the value of a field of some form. -/
inductive BodyOf : Form → Value → SectionKind → List (String × Value) → Prop
  | single (kind : SectionKind) (entries : List (String × Value)) :
    BodyOf (.body kind) (.object entries) kind entries
  | named (kind : SectionKind) {name : String} {entries : List (String × Value)}
    {bodies : List (String × Value)} (h : (name, .object entries) ∈ bodies) :
    BodyOf (.bodies kind) (.object bodies) kind entries

/-- A scope refers to documents by a value in it or in one of its sections. The documents are read
with the registries of the scope in which the value stands. -/
inductive Refers : Registries → List (String × Value) → Registries → Value → Prop
  | own {registries : Registries} {entries : List (String × Value)} {value : Value}
    (hvalue : Entries.get? entries "defaults" = some value)
    (hknown : (registries.own.find? "defaults").isSome) :
    Refers registries entries registries value
  | within {registries : Registries} {entries : List (String × Value)} {key : String}
    {value : Value} {field : Field} {kind : SectionKind} {body : List (String × Value)}
    {inner : Registries} {target : Value} (hentry : (key, value) ∈ entries)
    (hkey : isPrivate key = false) (hfield : registries.own.find? key = some field)
    (hbody : BodyOf field.form value kind body)
    (h : Refers (.ofSection kind) body inner target) : Refers registries entries inner target

/-- Whether a value names a document, wherever it stands. -/
def Value.Names (value : Value) (reference : Reference) : Prop :=
  ∃ source place references,
    (Reference.listOf source place value).2 = .ok references ∧ reference ∈ references

/-- A reference that a value names has a proper name. -/
theorem Value.Names.isProper {value : Value} {reference : Reference} (h : value.Names reference) :
    reference.IsProper := by
  obtain ⟨source, place, references, hreferences, hmem⟩ := h
  have hyields := Reference.yields_listOf source place value
  rw [hreferences] at hyields
  exact hyields.of_ok reference hmem

/-- A value names what is read from it. -/
theorem Value.names_iff {value : Value} {reference : Reference} {source : String} {place : Place}
    {references : List Reference} (h : (Reference.listOf source place value).2 = .ok references) :
    value.Names reference ↔ reference ∈ references := by
  constructor
  · rintro ⟨source', place', references', h', hmem⟩
    have hsame := Reference.toOption_listOf source source' place place' value
    rw [h, h'] at hsame
    cases hsame
    exact hmem
  · exact fun hmem ↦ ⟨source, place, references, h, hmem⟩

/-! ### Registries -/

/-- Whether the value of a field of a form holds sections. -/
def Form.holdsSections : Form → Bool
  | .body _ | .bodies _ => true
  | _ => false

/-- Whether no field of a registry holds sections. -/
def Registry.IsFlat (registry : Registry) : Prop :=
  ∀ field ∈ registry, field.form.holdsSections = false

instance (registry : Registry) : Decidable registry.IsFlat := List.decidableBAll _ registry

/-- Whether the fields of a registry have the forms that they have everywhere. -/
def Registry.IsUsual (registry : Registry) : Prop :=
  ∀ field ∈ registry, (Registry.find? Field.all field.key).map (·.form) = some field.form

instance (registry : Registry) : Decidable registry.IsUsual := List.decidableBAll _ registry

namespace Registries

/-- The branches of a manifest have no sections in them. -/
theorem isFlat_branches_package : package.branches.IsFlat := by
  decide

/-- The branches of a section have no sections in them. -/
theorem isFlat_branches_ofSection (kind : SectionKind) : (ofSection kind).branches.IsFlat := by
  cases kind <;> decide

/-- The fields of a manifest are the usual ones under their keys. -/
theorem isUsual_own_package : package.own.IsUsual := by
  decide

/-- The fields of a section are the usual ones under their keys. -/
theorem isUsual_own_ofSection (kind : SectionKind) : (ofSection kind).own.IsUsual := by
  cases kind <;> decide

/-- Whether registries are those of a scope that can refer to documents. -/
def IsScope (registries : Registries) : Prop :=
  registries = package ∨ ∃ kind, registries = ofSection kind

theorem IsScope.isFlat {registries : Registries} (h : registries.IsScope) :
    registries.branches.IsFlat := by
  obtain rfl | ⟨kind, rfl⟩ := h
  · exact isFlat_branches_package
  · exact isFlat_branches_ofSection kind

theorem IsScope.isUsual {registries : Registries} (h : registries.IsScope) :
    registries.own.IsUsual := by
  obtain rfl | ⟨kind, rfl⟩ := h
  · exact isUsual_own_package
  · exact isUsual_own_ofSection kind

end Registries

/-- A scope that is referred from is one that has references. -/
theorem Refers.isScope {registries inner : Registries} {entries : List (String × Value)}
    {target : Value} (h : Refers registries entries inner target) (hscope : registries.IsScope) :
    inner.IsScope := by
  induction h with
  | own => exact hscope
  | within _ _ _ _ _ ih => exact ih (.inr ⟨_, rfl⟩)

theorem Registry.mem_and_key_of_find? {registry : Registry} {key : String} {field : Field}
    (h : registry.find? key = some field) : field ∈ registry ∧ field.key = key :=
  ⟨List.mem_of_find?_eq_some h, by simpa using List.find?_some h⟩

/-- A usual field has its form under its key. -/
theorem Registry.IsUsual.exists_field {registry : Registry} (h : registry.IsUsual) {key : String}
    {field : Field} (hfield : registry.find? key = some field) :
    ∃ known ∈ Registry.find? Field.all key, known.form = field.form := by
  obtain ⟨hmem, rfl⟩ := mem_and_key_of_find? hfield
  exact Option.map_eq_some_iff.1 (h field hmem)

/-! ### References of sections -/

section

variable (P : Registries → Value → Prop)

/-- Whether something holds of all values by which the sections under a key refer to documents. -/
def ForSections (form : Form) (value : Value) : Prop :=
  ∀ kind body, BodyOf form value kind body → ∀ inner target,
    Refers (.ofSection kind) body inner target → P inner target

/-- Whether it holds of all values by which the sections in a scope do. -/
def ForFields (registries : Registries) (entries : List (String × Value)) : Prop :=
  ∀ key value, (key, value) ∈ entries → isPrivate key = false →
    ∀ field, registries.own.find? key = some field → ForSections P field.form value

variable {P}

/-- A form without sections has nothing to show of them. -/
theorem ForSections.of_not_holdsSections {form : Form} (h : form.holdsSections = false)
    (value : Value) : ForSections P form value := by
  intro kind body hbody
  cases hbody <;> cases h

/-- Fields without sections have nothing to show of them. -/
theorem ForFields.of_isFlat {registries : Registries} (h : registries.own.IsFlat)
    (entries : List (String × Value)) : ForFields P registries entries :=
  fun _ value _ _ field hfield ↦
    .of_not_holdsSections (h field (Registry.mem_and_key_of_find? hfield).1) value

theorem ForFields.tail {registries : Registries} {entry : String × Value}
    {entries : List (String × Value)} (h : ForFields P registries (entry :: entries)) :
    ForFields P registries entries :=
  fun key value hentry ↦ h key value (List.mem_cons_of_mem _ hentry)

/-- What holds of all scopes with references holds of the sections among some entries. -/
theorem ForFields.of_refers {registries : Registries} {entries : List (String × Value)}
    (h : ∀ inner target, Refers registries entries inner target → P inner target) :
    ForFields P registries entries :=
  fun _ _ hentry hkey _ hfield _ _ hbody inner target hrefers ↦
    h inner target (.within hentry hkey hfield hbody hrefers)

end

namespace Context

variable {σ : Type} (contract : Contract σ) (strict : Prop) (read read' : ReadDocument σ)
  (context : Context σ)

/-! ### Reading with two readers -/

/-- Whether the documents of a value are read alike by two readers. In the strict case they have to
be formed. -/
def ReadsAlike (registries : Registries) (value : Value) : Prop :=
  ∀ place, (context.defaults read registries place value).Alike contract
    (fun fields ↦ strict → fields.IsFormed) (context.defaults read' registries place value)

/-- Whether a document is read alike by two readers. -/
def ReadAlike (registries : Registries) (reference : Reference) : Prop :=
  Decode.Alike contract (fun fields ↦ strict → fields.IsFormed)
    (context.resolve reference >>= read context registries)
    (context.resolve reference >>= read' context registries)

variable {contract strict read read' context}

/-- Whether fields that were read are some of those that were given, each of its form. -/
def AreRead (strict : Prop) (registries : Registries) (entries : List (String × Value))
    (own : List (String × FieldValue)) : Prop :=
  (Entries.keys own).Sublist (Entries.keys entries) ∧
    (strict → registries.own.IsUsual → (∀ entry ∈ entries, entry.2.isKeyed) →
      FieldSet.EntriesFormed own)

namespace AreRead

variable {registries : Registries}

theorem nil (entries : List (String × Value)) : AreRead strict registries entries [] :=
  ⟨List.nil_sublist _, fun _ _ _ ↦ FieldSet.entriesFormed_iff.2 (List.forall_mem_nil _)⟩

theorem singleton {key : String} {value : Value} {field : Field}
    (hfield : registries.own.find? key = some field) {result : FieldValue}
    (h : strict → value.isKeyed → result.HasForm field.form) :
    AreRead strict registries [(key, value)] [(key, result)] := by
  refine ⟨List.Sublist.refl _, fun hstrict husual hkeyed ↦ FieldSet.entriesFormed_iff.2 ?_⟩
  obtain ⟨known, hknown, hform⟩ := husual.exists_field hfield
  rw [List.forall_mem_singleton] at hkeyed ⊢
  exact ⟨known, hknown, hform ▸ h hstrict hkeyed⟩

/-- What is read of two runs of entries is read of both together. -/
theorem append {first rest : List (String × Value)} {own own' : List (String × FieldValue)}
    (h : AreRead strict registries first own) (h' : AreRead strict registries rest own') :
    AreRead strict registries (first ++ rest) (own ++ own') := by
  constructor
  · simpa [Entries.keys] using h.1.append h'.1
  · intro hstrict husual hkeyed
    rw [List.forall_mem_append] at hkeyed
    have hfirst := FieldSet.entriesFormed_iff.1 (h.2 hstrict husual hkeyed.1)
    have hrest := FieldSet.entriesFormed_iff.1 (h'.2 hstrict husual hkeyed.2)
    exact FieldSet.entriesFormed_iff.2 (List.forall_mem_append.2 ⟨hfirst, hrest⟩)

/-- Fields that are read of entries with distinct keys are formed. -/
theorem isFormed {entries : List (String × Value)} {own : List (String × FieldValue)}
    (h : AreRead strict registries entries own) (hstrict : strict)
    (husual : registries.own.IsUsual) (hkeyed : Value.areKeyed entries) :
    FieldSet.IsFormed ⟨own⟩ := by
  obtain ⟨hnodup, hall⟩ := Value.areKeyed_iff.1 hkeyed
  exact ⟨hnodup.sublist h.1, h.2 hstrict husual hall⟩

end AreRead

/-- A condition is read, or it is at fault; a number or a truth value has to be written for it. -/
theorem yields_condition (place : Place) (entries : List (String × Value)) :
    Yields (Failure.IsFaultOf true) (fun _ ↦ True) (context.condition place entries) := by
  rw [condition]
  split
  · exact .error trivial
  · exact .ok trivial
  · exact .ok trivial
  · exact .error trivial

/-- Documents that are read alike are inherited alike, one after another. -/
theorem alike_inherit {registries : Registries} {references : List Reference}
    (h : ∀ reference ∈ references,
      context.ReadAlike contract strict read read' registries reference)
    {inherited : FieldSet} (hinherited : strict → inherited.IsFormed) :
    (inherit read context registries inherited references).Alike contract
      (fun fields ↦ strict → fields.IsFormed)
      (inherit read' context registries inherited references) := by
  induction references generalizing inherited with
  | nil => exact .pure hinherited
  | cons reference rest ih =>
    rw [List.forall_mem_cons] at h
    rw [inherit, inherit, ← bind_assoc, ← bind_assoc]
    refine h.1.bind fun fields hfields ↦ ih h.2 fun hstrict ↦ ?_
    exact (hinherited hstrict).merge (hfields hstrict)

/-- The documents of a value are read alike if each one is that the value names. -/
theorem ReadsAlike.of_names {registries : Registries} {value : Value}
    (h : ∀ reference, value.Names reference →
      context.ReadAlike contract strict read read' registries reference) :
    context.ReadsAlike contract strict read read' registries value := by
  intro place
  have hyields := Reference.yields_listOf context.source place value
  rw [defaults, defaults]
  rcases hlist : Reference.listOf context.source place value with ⟨warnings, result⟩
  rw [hlist] at hyields
  simp only
  refine (Decode.Alike.refl (.warnAll warnings)).bind fun _ _ ↦ ?_
  cases result with
  | error failure =>
    have hcycle := hyields.of_error.not_isCycle
    exact .refl ((Decode.Meets.throw (p := fun _ ↦ False) hcycle).bind fun _ h ↦ h.elim)
  | ok references =>
    refine (Decode.Alike.refl (p := (· = references)) (.pure rfl)).bind fun _ hsame ↦ ?_
    subst hsame
    split
    · exact .refl ((Decode.Meets.throw (p := fun _ ↦ False) id).bind fun _ h ↦ h.elim)
    · refine alike_inherit (fun reference hmem ↦ h reference ?_) fun _ ↦ FieldSet.isFormed_empty
      exact ⟨context.source, place, _, by rw [hlist], hmem⟩

mutual

/-- The value of a field is read alike, and has the form of the field. -/
theorem alike_fieldValue (strict : Prop) (hglob : context.services.CanGlob contract.Tolerates)
    {registries : Registries} (hflat : registries.branches.IsFlat)
    {field : Field} (hfield : field.form ≠ .defaults) (place : Place) (value : Value)
    (h : ForSections (context.ReadsAlike contract strict read read') field.form value) :
    (fieldValue read context registries field place value).Alike contract
      (fun result ↦ strict → value.isKeyed → result.HasForm field.form)
      (fieldValue read' context registries field place value) := by
  rw [fieldValue.eq_def, fieldValue.eq_def]
  split
  · next hform =>
    rw [hform]
    split
    · next values =>
      refine (alike_conditionals strict hglob registries.branch hflat hflat place 0 values).bind
          fun items _ ↦ ?_
      exact .pure fun _ _ ↦ rfl
    · refine (alike_conditional strict hglob registries.branch hflat hflat place value).bind
          fun item _ ↦ ?_
      exact .pure fun _ _ ↦ rfl
  · next kind hform =>
    rw [hform] at h ⊢
    refine (alike_body strict hglob kind place value fun entries hentries ↦ ?_).bind
      fun body hbody ↦ ?_
    · subst hentries
      exact h kind entries (.single kind entries)
    · exact .pure fun hstrict hkeyed ↦ ⟨⟨kind, rfl⟩, hbody hstrict hkeyed⟩
  · next kind hform =>
    rw [hform] at h ⊢
    cases value with
    | object entries =>
      refine (alike_bodies strict hglob kind place entries fun name body hbody ↦ ?_).bind
          fun named hnamed ↦ ?_
      · exact h kind body (.named kind hbody)
      · refine .pure fun hstrict hkeyed ↦ ?_
        obtain ⟨hnodup, hall⟩ := Value.areKeyed_iff.1 hkeyed
        exact ⟨⟨kind, rfl⟩, hnamed.1 ▸ hnodup, hnamed.2 hstrict hall⟩
    | scalar | array => exact .refl (.throw id)
  · next hconditionals hbody hbodies =>
    have hleaf : field.form.isLeaf := by
      cases hform : field.form <;> simp_all [Form.isLeaf]
    exact .refl ((context.meets_value hglob hleaf place value).imp fun _ hvalue _ ↦ hvalue)
termination_by (sizeOf value, 2)

/-- The entries of a scope are read alike. -/
theorem alike_fields (strict : Prop) (hglob : context.services.CanGlob contract.Tolerates)
    {registries : Registries} (hflat : registries.branches.IsFlat)
    (skip : String → Bool) (place : Place) (entries : List (String × Value))
    (h : ForFields (context.ReadsAlike contract strict read read') registries entries) :
    (fields read context registries skip place entries).Alike contract
      (AreRead strict registries entries) (fields read' context registries skip place entries) := by
  rw [fields.eq_def, fields.eq_def]
  match entries, h with
  | [], _ => exact .pure (.nil [])
  | (key, value) :: rest, h =>
    have hrest : ∀ found : Option (String × FieldValue),
        AreRead strict registries [(key, value)] found.toList →
          Decode.Alike contract (AreRead strict registries ((key, value) :: rest))
            (do return found.toList ++ (← fields read context registries skip place rest))
            (do return found.toList ++ (← fields read' context registries skip place rest)) :=
      fun found hfound ↦ (alike_fields strict hglob hflat skip place rest h.tail).bind fun own hown ↦
        .pure (hfound.append hown)
    have hnone := hrest none (.nil _)
    simp only
    split
    · exact hnone
    · next hskip =>
      have hkey : isPrivate key = false := by simp_all
      split
      · exact (Decode.Alike.refl (.warn _)).bind fun _ _ ↦ hnone
      · next field hfield =>
        split
        · exact hnone
        · next hform =>
          have hsections := h key value List.mem_cons_self hkey field hfield
          refine (alike_fieldValue strict hglob hflat hform (place.key key) value hsections).bind
            fun result hresult ↦ ?_
          exact hrest (some (key, result)) (.singleton hfield hresult)
termination_by (sizeOf entries, 0)

/-- A scope is read alike if what it refers to is. -/
theorem alike_scope (strict : Prop) (hglob : context.services.CanGlob contract.Tolerates)
    {registries : Registries} (hflat : registries.branches.IsFlat)
    (place : Place) (entries : List (String × Value))
    (h : ∀ inner target, Refers registries entries inner target →
      context.ReadsAlike contract strict read read' inner target) :
    (scope read context registries place entries).Alike contract
      (fun result ↦ strict → registries.own.IsUsual → Value.areKeyed entries → result.IsFormed)
      (scope read' context registries place entries) := by
  rw [scope.eq_def, scope.eq_def]
  refine (alike_fields strict hglob hflat _ place entries (.of_refers h)).bind fun own hown ↦ ?_
  split
  · next value field hvalue hfield =>
    have hreads := h registries value (.own hvalue (by simp [hfield])) (place.key "defaults")
    refine hreads.bind fun inherited hinherited ↦ .pure fun hstrict husual hkeyed ↦ ?_
    exact (hinherited hstrict).merge (hown.isFormed hstrict husual hkeyed)
  · exact .pure hown.isFormed
termination_by (sizeOf entries, 1)

/-- The body of a section is read alike if what it refers to is. -/
theorem alike_body (strict : Prop) (hglob : context.services.CanGlob contract.Tolerates)
    (kind : SectionKind) (place : Place) (value : Value)
    (h : ∀ entries, value = .object entries → ∀ inner target,
      Refers (.ofSection kind) entries inner target →
        context.ReadsAlike contract strict read read' inner target) :
    (body read context kind place value).Alike contract
      (fun result ↦ strict → value.isKeyed → result.IsFormed)
      (body read' context kind place value) := by
  rw [body.eq_def, body.eq_def]
  split
  · exact .pure fun _ _ ↦ FieldSet.isFormed_empty
  · next entries =>
    have hflat := Registries.isFlat_branches_ofSection kind
    refine (alike_scope strict hglob hflat place entries (h entries rfl)).imp
        fun result hresult hstrict ↦ ?_
    exact hresult hstrict (Registries.isUsual_own_ofSection kind)
  · exact .refl (.throw id)
termination_by (sizeOf value, 1)

/-- Named bodies are read alike if what they refer to is. -/
theorem alike_bodies (strict : Prop) (hglob : context.services.CanGlob contract.Tolerates)
    (kind : SectionKind) (place : Place) (entries : List (String × Value))
    (h : ∀ name body, (name, .object body) ∈ entries → ∀ inner target,
      Refers (.ofSection kind) body inner target →
        context.ReadsAlike contract strict read read' inner target) :
    (bodies read context kind place entries).Alike contract
      (fun named ↦ Entries.keys named = Entries.keys entries ∧
        (strict → (∀ entry ∈ entries, entry.2.isKeyed) → FieldSet.AllFormed named))
      (bodies read' context kind place entries) := by
  rw [bodies.eq_def, bodies.eq_def]
  match entries, h with
  | [], _ => exact .pure ⟨rfl, fun _ _ ↦ FieldSet.allFormed_iff.2 (List.forall_mem_nil _)⟩
  | (name, value) :: rest, h =>
    refine (alike_body strict hglob kind (place.key name) value fun body hbody ↦ ?_).bind
        fun body hbody ↦ ?_
    · subst hbody
      exact h name body List.mem_cons_self
    · refine (alike_bodies strict hglob kind place rest fun name body hmem ↦ ?_).bind
          fun named hnamed ↦ .pure ?_
      · exact h name body (List.mem_cons_of_mem _ hmem)
      · refine ⟨congrArg (name :: ·) hnamed.1, fun hstrict hkeyed ↦ FieldSet.allFormed_iff.2 ?_⟩
        rw [List.forall_mem_cons] at hkeyed ⊢
        exact ⟨hbody hstrict hkeyed.1, FieldSet.allFormed_iff.1 (hnamed.2 hstrict hkeyed.2)⟩
termination_by (sizeOf entries, 0)

/-- A branch refers to nothing, and is read alike. -/
theorem alike_branch (strict : Prop) (hglob : context.services.CanGlob contract.Tolerates)
    (registries : Registries) (hown : registries.own.IsFlat)
    (hflat : registries.branches.IsFlat) (place : Place) (value : Value) :
    (branch read context registries place value).Alike contract (fun _ ↦ True)
      (branch read' context registries place value) := by
  rw [branch.eq_def, branch.eq_def]
  split
  · next entries =>
    exact (alike_fields strict hglob hflat _ place entries (.of_isFlat hown entries)).bind
        fun _ _ ↦ .pure trivial
  · exact .refl (.throw id)
termination_by (sizeOf value, 0)

/-- A conditional is read alike, be it with branches or short for a field. -/
theorem alike_conditional (strict : Prop) (hglob : context.services.CanGlob contract.Tolerates)
    (registries : Registries) (hown : registries.own.IsFlat)
    (hflat : registries.branches.IsFlat) (place : Place) (value : Value) :
    (conditional read context registries place value).Alike contract (fun _ ↦ True)
      (conditional read' context registries place value) := by
  rw [conditional.eq_def, conditional.eq_def]
  match value with
  | .scalar _ | .array _ => exact .refl (.throw id)
  | .object entries =>
    refine (Decode.Alike.refl (.ofExcept (context.yields_condition place entries))).bind
      fun condition _ ↦ ?_
    split
    · exact (alike_fields strict hglob hflat _ place entries (.of_isFlat hown entries)).bind
          fun _ _ ↦ .pure trivial
    · exact .refl ((Decode.Meets.warnAll _).bind fun _ _ ↦ .throw id)
    · next thenValue hthen helse =>
      have hsize := Entries.sizeOf_lt_of_get? hthen
      refine (Decode.Alike.refl (.warnAll _)).bind fun _ _ ↦ ?_
      exact (alike_branch strict hglob registries hown hflat _ thenValue).bind
          fun _ _ ↦ .pure trivial
    · next thenValue elseValue hthen helse =>
      have hsize := Entries.sizeOf_lt_of_get? hthen
      have hsize' := Entries.sizeOf_lt_of_get? helse
      refine (Decode.Alike.refl (.warnAll _)).bind fun _ _ ↦ ?_
      refine (alike_branch strict hglob registries hown hflat _ thenValue).bind fun _ _ ↦ ?_
      exact (alike_branch strict hglob registries hown hflat _ elseValue).bind
          fun _ _ ↦ .pure trivial
termination_by (sizeOf value, 1)
decreasing_by
  all_goals simp only [Value.object.sizeOf_spec, Prod.lex_def]; omega

/-- A list of conditionals is read alike. -/
theorem alike_conditionals (strict : Prop) (hglob : context.services.CanGlob contract.Tolerates)
    (registries : Registries) (hown : registries.own.IsFlat)
    (hflat : registries.branches.IsFlat) (place : Place) (position : Nat) (values : List Value) :
    (conditionals read context registries place position values).Alike contract (fun _ ↦ True)
      (conditionals read' context registries place position values) := by
  rw [conditionals.eq_def, conditionals.eq_def]
  cases values with
  | nil => exact .pure trivial
  | cons value rest =>
    refine (alike_conditional strict hglob registries hown hflat _ value).bind fun _ _ ↦ ?_
    exact (alike_conditionals strict hglob registries hown hflat place _ rest).bind
        fun _ _ ↦ .pure trivial
termination_by (sizeOf values, 0)

end

end Context

end CabalManifest
