import CabalManifest.Description
import CabalManifest.Proofs.ListedOnce

/-!
# Fields of known shape

A scope is *shaped* if every key in it is one that some registry knows, with a value of the form that
its field has everywhere, and no null. All that reads a scope after it has been read from a manifest
looks fields up by their keys and expects these forms. The header and the sections of a package are
shaped (`FieldSet.Fits.isShaped_header`, `Section.Fits.areShaped`), and inference keeps them so
(`Section.InfersTo.areShaped`).
-/

namespace CabalManifest

/-! ### Forms -/

namespace Form

/-- Whether a form is that of values without named parts and without bodies. -/
def isPlain : Form → Bool
  | flags | defaults | body _ | bodies _ => false
  | _ => true

/-- Whether nulls are read for a form. -/
def isNullable : Form → Bool
  | text nullable | texts nullable => nullable
  | _ => false

end Form

/-- A value that fits a plain form has it. -/
theorem FieldValue.Fits.hasForm {writable : Prop} {branches : Registry} {form : Form}
    {value : FieldValue} (h : value.Fits writable branches form) (hform : form.isPlain) :
    value.HasForm form := by
  cases h with
  | leaf _ _ hform => exact hform
  | conditionals => rfl
  | flags | body | bodies => cases hform

/-- A value of a form that is not nullable is not null. -/
theorem FieldValue.HasForm.ne_null {value : FieldValue} {form : Form} (h : value.HasForm form)
    (hform : form.isNullable = false) : value ≠ .null := by
  rintro rfl
  obtain rfl | rfl := h <;> cases hform

/-- Texts in one item are texts. -/
theorem FieldValue.HasForm.texts_true {value : FieldValue} (h : value.HasForm (.texts false)) :
    value.HasForm (.texts true) := by
  cases value with
  | texts => exact .inl ⟨true, rfl⟩
  | _ => simp [HasForm] at h

/-- Whether a value has the form that a key has everywhere. -/
def FieldValue.HasFormAt (value : FieldValue) (key : String) : Prop :=
  ∃ field, Registry.find? Field.all key = some field ∧ value.HasForm field.form

/-- What fits a field of a usual registry has the form of the key. -/
theorem FieldValue.Fits.hasFormAt {writable : Prop} {branches registry : Registry}
    {field : Field} {value : FieldValue} {key : String}
    (h : value.Fits writable branches field.form) (hform : field.form.isPlain)
    (husual : registry.IsUsual) (hfield : registry.find? key = some field) : value.HasFormAt key := by
  obtain ⟨known, hknown, hsame⟩ := husual.exists_field hfield
  exact ⟨known, hknown, hsame ▸ h.hasForm hform⟩

/-! ### Shaped scopes -/

/-- Whether every field of a scope is known, with a value of its form that is no null. -/
def FieldSet.IsShaped (fields : FieldSet) : Prop :=
  ∀ entry ∈ fields.entries, entry.2 ≠ .null ∧ entry.2.HasFormAt entry.1

namespace FieldSet

variable {fields : FieldSet}

/-- What holds of all fields holds with one more, if it holds of this one. -/
theorem forall_insert {p : String → FieldValue → Prop} {key : String} {value : FieldValue}
    (h : ∀ entry ∈ fields.entries, p entry.1 entry.2) (hvalue : p key value) :
    ∀ entry ∈ (fields.insert key value).entries, p entry.1 entry.2 := by
  intro entry hentry
  obtain rfl | hentry := Entries.mem_insert hentry
  · exact hvalue
  · exact h entry hentry

namespace IsShaped

/-- A field of a shaped scope has its form. -/
theorem of_get? (h : fields.IsShaped) {key : String} {value : FieldValue}
    (hvalue : fields.get? key = some value) : value ≠ .null ∧ value.HasFormAt key :=
  h _ (Entries.mem_of_get?_eq_some hvalue)

/-- A field of its form keeps a scope shaped. -/
theorem insert (h : fields.IsShaped) {key : String} {value : FieldValue} (hnull : value ≠ .null)
    {field : Field} (hfield : Registry.find? Field.all key = some field)
    (hform : value.HasForm field.form) : (fields.insert key value).IsShaped :=
  forall_insert (p := fun key value ↦ value ≠ .null ∧ value.HasFormAt key) h
    ⟨hnull, field, hfield, hform⟩

/-- So does a field of texts. -/
theorem insert_texts (h : fields.IsShaped) {key : String} (items : List String) {field : Field}
    (hfield : Registry.find? Field.all key = some field) (hform : field.form = .texts false) :
    (fields.insert key (.texts items)).IsShaped :=
  h.insert (by simp) hfield (.inl ⟨false, hform⟩)

/-- So does leaving fields out. -/
theorem filterKeys (h : fields.IsShaped) (p : String → Bool) : (fields.filterKeys p).IsShaped :=
  fun entry hentry ↦ h entry (List.mem_filter.1 hentry).1

/-! What inference and setting the main file apart put into a scope is a list of texts, a text or a
list of conditionals, each under a key of its form. -/

/-- So does putting texts under a key. -/
theorem putTexts (h : fields.IsShaped) {key : String} (items : List String) {field : Field}
    (hfield : Registry.find? Field.all key = some field) (hform : field.form = .texts false) :
    (fields.putTexts key items).IsShaped := by
  rw [FieldSet.putTexts]
  split
  · exact h
  · exact h.insert_texts items hfield hform

/-- So do the inferred lists of modules. -/
theorem withModules (h : fields.IsShaped) (modules : ModuleLists) :
    (fields.withModules modules).IsShaped := by
  rw [withModules_eq]
  exact (((h.filterKeys _).putTexts _ rfl rfl).putTexts _ rfl rfl).putTexts _ rfl rfl

/-- So does the field of the main module. -/
theorem withMain (h : fields.IsShaped) : fields.withMain.IsShaped := by
  rw [FieldSet.withMain]
  split
  · exact h
  · have hfile (file : String) : (fields.insert "main" (.text file)).IsShaped :=
      h.insert (by simp) rfl (.inl ⟨false, rfl⟩)
    split
    · exact hfile _
    · exact (hfile _).insert_texts _ rfl rfl

end IsShaped

end FieldSet

/-! ### Sections -/

/-- Whether all scopes that a function gives are shaped. -/
def AreShaped (scopes : List Turn → Option FieldSet) : Prop :=
  ∀ path scope, scopes path = some scope → scope.IsShaped

/-- The fields of every kind of section are the usual ones. -/
theorem SectionKind.isUsual_fields (kind : SectionKind) : kind.fields.IsUsual := by
  cases kind <;> decide

/-- No section knows fields that may be null, or fields with bodies. -/
theorem SectionKind.isPlain_fields (kind : SectionKind) :
    ∀ field ∈ kind.fields, field.form.isPlain ∧ field.form.isNullable = false := by
  cases kind <;> decide

/-- The sections of a package that was read, and all scopes in them, are shaped. -/
theorem Section.Fits.areShaped {writable : Prop} {part : Section} (h : part.Fits writable) :
    AreShaped part.at? := by
  intro path scope hscope entry hentry
  obtain ⟨hknown, hfit⟩ := FieldSet.fits_iff.1 (h.at? hscope)
  obtain ⟨field, hfield⟩ := Option.isSome_iff_exists.1 (hknown entry hentry)
  have hfits := hfit entry hentry field hfield
  have hmem := (Registry.mem_and_key_of_find? hfield).1
  obtain ⟨hplain, hnullable⟩ := part.kind.isPlain_fields field hmem
  exact ⟨(hfits.hasForm hplain).ne_null hnullable,
    hfits.hasFormAt hplain part.kind.isUsual_fields hfield⟩

section

variable {view : String → List String}

/-- What neither module lists nor conditionals can change holds of all scopes of a branch after
inference if it did before. -/
theorem FieldSet.InfersTo.forall_at? {p : FieldSet → Prop}
    (hmodules : ∀ fields modules, p fields → p (fields.withModules modules))
    (hwhen : ∀ fields nested, p fields → p (fields.insert "when" (.conditionals nested)))
    {outer : List String} {fields result : FieldSet} (h : fields.InfersTo view outer result)
    (hfields : ∀ path scope, fields.at? path = some scope → p scope) :
    ∀ path scope, result.at? path = some scope → p scope := by
  induction h with
  | @mk outer fields modules nested _ hisSome hnested ih =>
    intro path scope hscope
    rw [FieldSet.at?_eq] at hfields hscope
    cases path with
    | nil =>
      -- Module lists and conditionals are all that is put into a branch.
      cases hscope
      have hwith := hmodules fields modules (hfields [] fields rfl)
      rw [FieldSet.withInferred]
      split
      · exact hwith
      · exact hwhen _ nested hwith
    | cons turn rest =>
      rw [FieldSet.conditionals_withInferred hisSome] at hscope
      obtain ⟨branch', hbranch', hscope⟩ := Option.bind_eq_some_iff.1 hscope
      obtain ⟨branch, hbranch, -⟩ :=
        Conditional.Correspond.exists_input ⟨hisSome, hnested⟩ hbranch'
      exact ih turn branch branch' hbranch hbranch' (Conditional.forall_branch hfields hbranch) rest
        scope hscope

/-- What neither module lists nor conditionals can change holds of all scopes of a section after
inference if it did before. -/
theorem Section.InfersTo.forall_at? {p : FieldSet → Prop}
    (hmodules : ∀ fields modules, p fields → p (fields.withModules modules))
    (hwhen : ∀ fields nested, p fields → p (fields.insert "when" (.conditionals nested)))
    {package : String} {part result : Section} (h : part.InfersTo view package result)
    (hpart : ∀ path scope, part.at? path = some scope → p scope) :
    ∀ path scope, result.at? path = some scope → p scope := by
  cases h with
  | @mk modules nested _ hnested =>
    intro path scope hscope
    cases path with
    | nil =>
      cases hscope
      exact hmodules part.fields modules (hpart [] part.fields rfl)
    | cons turn rest =>
      obtain ⟨branch', hbranch', hscope⟩ := Option.bind_eq_some_iff.1 hscope
      obtain ⟨branch, hbranch, hinfers⟩ := hnested.exists_input hbranch'
      exact hinfers.forall_at? hmodules hwhen (Conditional.forall_branch hpart hbranch) rest scope
        hscope

/-- Inference keeps a section and all scopes in it shaped. -/
theorem Section.InfersTo.areShaped {package : String} {part result : Section}
    (h : part.InfersTo view package result) (hshaped : AreShaped part.at?) :
    AreShaped result.at? :=
  h.forall_at? (fun _ modules hfields ↦ hfields.withModules modules)
    (fun _ _ hfields ↦ hfields.insert (by simp) rfl rfl) hshaped

end

/-! ### The header -/

/-- Whether every field of a scope is known, with a value of its form, which may be a null. -/
def FieldSet.HasForms (fields : FieldSet) : Prop :=
  ∀ entry ∈ fields.entries, entry.2.HasFormAt entry.1

/-- A field that is read in its form keeps all forms. -/
theorem FieldSet.HasForms.insertNew {fields : FieldSet} (h : fields.HasForms) {key : String}
    {value : FieldValue} (hvalue : value.HasFormAt key) : (fields.insertNew key value).HasForms := by
  rw [FieldSet.insertNew]
  split
  · exact h
  · exact forall_insert (p := fun key value ↦ value.HasFormAt key) h hvalue

/-- Without nulls, a scope of forms is shaped. -/
theorem FieldSet.HasForms.withoutNulls {fields : FieldSet} (h : fields.HasForms) :
    fields.withoutNulls.IsShaped := by
  rintro ⟨key, value⟩ hentry
  obtain ⟨hentry, hnull⟩ := List.mem_filter.1 hentry
  refine ⟨?_, h _ hentry⟩
  rintro ⟨⟩
  cases hnull

/-- The fields of the header are plain. -/
theorem Field.isPlain_of_header : ∀ field ∈ Registries.package.own,
    Field.headerOrder.contains field.key → field.form.isPlain := by
  decide

/-- The header of a package that was read is shaped. -/
theorem FieldSet.Fits.isShaped_header {writable : Prop} {top : FieldSet}
    (h : top.Fits writable .package) (github : Option String) (hasLicense : Bool) :
    (top.header github hasLicense).IsShaped := by
  obtain ⟨hknown, hfit⟩ := FieldSet.fits_iff.1 h
  unfold FieldSet.header
  extract_lets given linked credited licensed buildType
  have hgiven : given.HasForms := by
    intro entry hentry
    obtain ⟨hentry, hkey⟩ := List.mem_filter.1 hentry
    obtain ⟨field, hfield⟩ := Option.isSome_iff_exists.1 (hknown entry hentry)
    obtain ⟨hmem, hfieldKey⟩ := Registry.mem_and_key_of_find? hfield
    rw [Bool.and_eq_true_iff, Bool.and_eq_true_iff, ← hfieldKey] at hkey
    exact (hfit entry hentry field hfield).hasFormAt (Field.isPlain_of_header field hmem hkey.1.1)
      Registries.isUsual_own_package hfield
  -- Whatever is derived has the form of the key that it is put under.
  have hlinked : linked.HasForms := by
    have htext (text : String) : (FieldValue.text text).HasForm (.text true) := .inl ⟨true, rfl⟩
    cases github with
    | none => exact hgiven
    | some url => exact (hgiven.insertNew ⟨_, rfl, htext _⟩).insertNew ⟨_, rfl, htext _⟩
  have hcredited : credited.HasForms := by
    unfold credited
    split
    · next author hauthor =>
      obtain ⟨field, hfield, hform⟩ := hlinked _ (Entries.mem_of_get?_eq_some hauthor)
      cases hfield
      exact hlinked.insertNew ⟨_, rfl, FieldValue.HasForm.texts_true hform⟩
    · exact hlinked
  have hlicensed : licensed.HasForms := by
    cases hasLicense with
    | false => exact hcredited
    | true => exact hcredited.insertNew ⟨_, rfl, .inl ⟨false, rfl⟩⟩
  have hword : (FieldValue.text buildType).HasForm (.keyword Field.buildTypes) :=
    .inr (.inr ⟨_, rfl⟩)
  exact (hlicensed.insertNew ⟨_, rfl, hword⟩).withoutNulls

end CabalManifest
