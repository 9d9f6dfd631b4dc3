import CabalManifest.Proofs.WrittenPackages

/-!
# Manifests fail in known ways only

A manifest that refers to no other documents is read, or reading it fails with a fault at some place
in it, or because of an integer that is too long to be written. From there on only the address of a
repository can be at fault: everything that is merged is made to be merged, modules are inferred
without a failure, and the package can be written (`Context.package_controlled`).

All this holds up to the depth of a stack: a manifest that is nested deeper than a stack allows is not
read in practice, and reading has no such bound here.
-/

namespace CabalManifest

/-! ### Merging -/

/-- Whether a field set holds the body of a section. -/
def FieldSet.HoldsBody (fields body : FieldSet) : Prop :=
  ∃ key, fields.body? key = some body ∨ ∃ name, (name, body) ∈ fields.bodies key

/-- Whether the values that two field sets have for a key are made for the way in which it merges. -/
def FieldSet.MergesWith (lower higher : FieldSet) : Prop :=
  ∀ key value value', lower.get? key = some value → higher.get? key = some value' →
    FieldValue.Merges (Field.mergingOf key) value value'

namespace FieldValue.Fits

variable {writable : Prop} {branches : Registry} {form : Form}

theorem exists_body {fields : FieldSet} (h : (FieldValue.body fields).Fits writable branches form) :
    ∃ kind, fields.Fits writable (.ofSection kind) := by
  cases h with
  | leaf hleaf _ hform =>
    obtain ⟨⟨kind, rfl⟩, -⟩ := hform
    cases hleaf
  | @body _ kind _ h => exact ⟨kind, h⟩

theorem exists_bodies {named : List (String × FieldSet)}
    (h : (FieldValue.bodies named).Fits writable branches form) :
    ∃ kind, ∀ entry ∈ named, entry.2.Fits writable (.ofSection kind) := by
  cases h with
  | leaf hleaf _ hform =>
    obtain ⟨⟨kind, rfl⟩, -⟩ := hform
    cases hleaf
  | @bodies _ kind _ h => exact ⟨kind, h⟩

end FieldValue.Fits

/-- Apart from references, which are never there, a section knows no fields but plain ones. -/
theorem Registries.isPlain_own_ofSection (kind : SectionKind) :
    ∀ field ∈ (ofSection kind).own, field.form.isPlain ∨ field.form = .defaults := by
  cases kind <;> decide

namespace FieldSet.Fits

variable {writable : Prop} {registries : Registries} {top body : FieldSet}

theorem exists_kind_of_holdsBody (h : top.Fits writable registries) (hbody : top.HoldsBody body) :
    ∃ kind, body.Fits writable (.ofSection kind) := by
  obtain ⟨key, hbody | ⟨name, hbody⟩⟩ := hbody
  · rw [body?] at hbody
    split at hbody
    · next hvalue =>
      cases hbody
      obtain ⟨field, -, hfits⟩ := h.exists_field hvalue
      exact hfits.exists_body
    · cases hbody
  · rw [FieldSet.bodies] at hbody
    split at hbody
    · next hvalue =>
      obtain ⟨field, -, hfits⟩ := h.exists_field hvalue
      obtain ⟨kind, hbodies⟩ := hfits.exists_bodies
      exact ⟨kind, hbodies _ hbody⟩
    · cases hbody

/-- What is given at the top of a manifest merges with what is given in the body of a section. -/
theorem mergesWith (htop : top.Fits writable .package) (hbody : top.HoldsBody body) :
    top.MergesWith body := by
  obtain ⟨kind, hfits⟩ := htop.exists_kind_of_holdsBody hbody
  intro key value value' hvalue hvalue'
  obtain ⟨field, hfield, hlower⟩ := htop.exists_field hvalue
  obtain ⟨field', hfield', hhigher⟩ := hfits.exists_field hvalue'
  obtain hplain | hdefaults := Registries.isPlain_own_ofSection kind field'
    (Registry.mem_and_key_of_find? hfield').1
  · -- Both fields have the form that the key has everywhere.
    obtain ⟨known, hknown, hform⟩ := Registries.isUsual_own_package.exists_field hfield
    obtain ⟨known', hknown', hform'⟩ :=
      (Registries.isUsual_own_ofSection kind).exists_field hfield'
    cases hknown.symm.trans hknown'
    rw [Field.mergingOf_eq hknown]
    rw [← hform'] at hplain hhigher
    rw [← hform] at hlower
    exact (hlower.hasForm hplain).merges (Field.suits_of_mem known (Field.mem_all_of_find? hknown))
      (hhigher.hasForm hplain)
  · rw [hdefaults] at hhigher
    exact absurd hhigher FieldValue.Fits.not_defaults

end FieldSet.Fits

/-! ### Resolving -/

/-- Whether a package is what becomes of a manifest that fits: its header is shaped, its sections fit
their kinds, and its overrides have a text if they have to. -/
structure Package.Fits (writable : Prop) (package : Package) : Prop where
  fields : package.fields.IsShaped
  sections : ∀ part ∈ package.sections, part.Fits writable
  verbatim : writable → ∀ entry ∈ package.verbatim, entry.isWritable

theorem FieldSet.yields_github (top : FieldSet) (source : String) :
    Yields (Failure.IsFaultOf true) (fun _ ↦ True) (top.github source) := by
  rw [github]
  split
  · exact .ok trivial
  · split
    · exact .ok trivial
    · exact .error trivial

/-- A manifest that fits becomes a package, unless it has no name or a faulty repository. -/
theorem FieldSet.Fits.yields_ofFields {writable : Prop} {top : FieldSet}
    (h : top.Fits writable .package) (source : String) (hasLicense : Bool) :
    Yields (Failure.IsFaultOf true) (Package.Fits writable)
      (Package.ofFields source hasLicense top).2 := by
  rw [Package.ofFields]
  split
  · exact .error trivial
  · next name hname =>
    refine (top.yields_github source).bind fun github _ ↦ .ok ?_
    exact ⟨h.isShaped_header _ _, h.sections name, h.verbatim⟩

/-! ### Inferring modules -/

namespace Discovery

variable (lister : Lister) {view : String → List String} {writable : Prop}

/-- Inference gives a section that can be written. -/
theorem meets_section {part : Section} (h : part.Fits writable) (package : String) :
    Meets lister view
      (fun result ↦ AreShaped result.at? ∧ (writable → ∀ entry ∈ result.verbatim, entry.isWritable))
      (part.infer lister package) := by
  by_cases hkind : part.kind = .customSetup
  · -- The setup program stays as it is.
    rw [Section.infer, Section.inferWith, if_pos hkind]
    exact .pure ⟨h.areShaped, h.verbatim⟩
  · refine (Section.meets_infer hkind h.lists_of_not_exposes).imp fun result hinfers ↦ ?_
    refine ⟨hinfers.areShaped h.areShaped, ?_⟩
    cases hinfers
    exact h.verbatim

/-- Inference gives a package that can be written. -/
theorem meets_package {package : Package} (h : package.Fits writable) :
    Meets lister view (fun result ↦ result.CanBeWritten ∧ (writable → result.isWritable))
      (package.infer lister) := by
  have hsections : Meets lister view (fun sections ↦ ∀ part ∈ sections,
      AreShaped part.at? ∧ (writable → ∀ entry ∈ part.verbatim, entry.isWritable))
      (package.sections.mapM (Section.infer lister package.name)) :=
    .forall_mapM fun part hpart ↦ meets_section lister (h.sections part hpart) package.name
  refine hsections.bind fun sections hall ↦ .pure ?_
  refine ⟨Package.canBeWritten h.fields fun part hpart ↦ (hall part hpart).1, fun hw ↦ ?_⟩
  refine List.all_eq_true.2 (List.forall_mem_append.2 ⟨h.verbatim hw, fun entry hentry ↦ ?_⟩)
  obtain ⟨part, hpart, hentry⟩ := List.mem_flatMap.1 hentry
  exact (hall part hpart).2 hw entry hentry

end Discovery

/-! ### Manifests -/

/-- Whether a build can go on with a package, whatever files there are: its scopes are shaped, modules
are inferred without a failure, and the package with them can be written. Its overrides have a text if
they have to. -/
structure Package.CanBeBuilt (writable : Prop) (package : Package) : Prop where
  isShaped : package.fields.IsShaped
  areShaped : ∀ part ∈ package.sections, AreShaped part.at?
  isInferred : ∀ (files : String → Option (List String)) (memory : Discovery), ∃ result memory',
    (package.infer fun dir ↦ .ok (files dir)).run memory = .ok (result, memory') ∧
      result.CanBeWritten ∧ (writable → result.isWritable)

theorem Package.Fits.canBeBuilt {writable : Prop} {package : Package} (h : package.Fits writable) :
    package.CanBeBuilt writable where
  isShaped := h.fields
  areShaped part hpart := (h.sections part hpart).areShaped
  isInferred files memory := by
    have hyields := Discovery.meets_package (fun dir ↦ .ok (files dir)) h memory rfl
    rcases hrun : (package.infer fun dir ↦ .ok (files dir)).run memory with
      failure | ⟨result, memory'⟩ <;> rw [hrun] at hyields
    · -- Every directory can be listed.
      obtain ⟨dir, hdir⟩ := hyields.of_error
      cases hdir
    · exact ⟨result, memory', rfl, hyields.of_ok.2⟩

/-- Whether a manifest refers to no other documents. -/
def Value.IsSelfContained (value : Value) : Prop :=
  ∀ entries, value = .object entries → ∀ inner target, ¬Refers .package entries inner target

section

variable {σ : Type} {context : Context σ} {value : Value}

/-- Of every manifest that refers to no other documents, if files can be found: reading it fails only
with a fault at a place in it, or because it has an integer that is too long to be written. What is
read fits the manifest, and all that is merged is made to be merged. It becomes a package that can be
built, unless it has no name or a faulty repository; only its overrides have no text if an integer in
them is too long. How deep the manifest is nested is not bounded. -/
theorem Context.package_controlled (hglob : context.services.CanGlob fun _ ↦ False)
    (hvalue : value.IsSelfContained) (bound : Nat) (s : Progress σ) :
    Yields (Failure.IsFaultOf value.isWritable)
      (fun top ↦ top.Fits value.isWritable .package ∧
        (∀ body, top.HoldsBody body → top.MergesWith body) ∧
        ∀ source hasLicense, Yields (Failure.IsFaultOf true)
          (Package.CanBeBuilt value.isWritable) (Package.ofFields source hasLicense top).2)
      ((context.package bound value).run s).1 := by
  have hgives : (context.package bound value).Gives (Failure.IsFaultOf value.isWritable)
      (·.Fits value.isWritable .package) := by
    refine gives_package (fun pattern s failure hfailure ↦ ?_) (fun _ h ↦ h) id
      fun entries hentries inner target hrefers ↦ ?_
    · exact (hglob pattern s failure hfailure).elim
    · exact absurd hrefers (hvalue entries hentries inner target)
  -- All that comes later rests on what is read fitting the manifest.
  refine (hgives s).imp fun top htop ↦ ⟨htop, fun body hbody ↦ htop.mergesWith hbody, ?_⟩
  exact fun source hasLicense ↦ (htop.yields_ofFields source hasLicense).imp fun _ h ↦ h.canBeBuilt

end

/-! ### Manifests without references -/

namespace Value

mutual

/-- Whether a value has a key in some object. -/
def hasKey (key : String) : Value → Bool
  | .scalar _ => false
  | .array items => itemsHaveKey key items
  | .object entries => entriesHaveKey key entries

/-- Whether the items of an array have a key in some object. -/
def itemsHaveKey (key : String) : List Value → Bool
  | [] => false
  | item :: items => item.hasKey key || itemsHaveKey key items

/-- Whether the entries of an object have a key, here or in some object. -/
def entriesHaveKey (key : String) : List (String × Value) → Bool
  | [] => false
  | (name, value) :: entries => name == key || value.hasKey key || entriesHaveKey key entries

end

theorem entriesHaveKey_of_mem {key name : String} {value : Value}
    {entries : List (String × Value)} (hentry : (name, value) ∈ entries)
    (h : name = key ∨ value.hasKey key) : entriesHaveKey key entries := by
  induction entries with
  | nil => cases hentry
  | cons entry rest ih =>
    obtain ⟨name', value'⟩ := entry
    rw [entriesHaveKey, Bool.or_eq_true_iff, Bool.or_eq_true_iff, beq_iff_eq]
    obtain heq | hentry := List.mem_cons.1 hentry
    · cases heq
      exact .inl h
    · exact .inr (ih hentry)

end Value

theorem BodyOf.hasKey {form : Form} {value : Value} {kind : SectionKind}
    {body : List (String × Value)} (h : BodyOf form value kind body) {key : String}
    (hbody : Value.entriesHaveKey key body) : value.hasKey key := by
  cases h with
  | single => exact hbody
  | named _ hentry => exact Value.entriesHaveKey_of_mem hentry (.inr hbody)

theorem Refers.entriesHaveKey {registries inner : Registries} {entries : List (String × Value)}
    {target : Value} (h : Refers registries entries inner target) :
    Value.entriesHaveKey "defaults" entries := by
  induction h with
  | own hvalue =>
    exact Value.entriesHaveKey_of_mem (Entries.mem_of_get?_eq_some hvalue) (.inl rfl)
  | within hentry _ _ hbody _ ih =>
    exact Value.entriesHaveKey_of_mem hentry (.inr (hbody.hasKey ih))

/-- A manifest without the key of references refers to no other documents. -/
theorem Value.isSelfContained_of_hasKey {value : Value} (h : value.hasKey "defaults" = false) :
    value.IsSelfContained := by
  rintro entries rfl inner target hrefers
  rw [hasKey, hrefers.entriesHaveKey] at h
  cases h

/-! ### Small manifests -/

theorem canGlob_sample : sampleContext.services.CanGlob fun _ ↦ False := by
  intro pattern s failure hfailure
  cases hfailure

/-- The small package can be built, and its overrides have a text. -/
theorem Context.package_controlled_sample :
    samplePackage.CanBeBuilt sampleManifest.isWritable := by
  have hyields := Context.package_controlled canGlob_sample
    (Value.isSelfContained_of_hasKey rfl : sampleManifest.IsSelfContained) 0 ⟨[], ()⟩
  rw [run_package_sample] at hyields
  have hpackage := hyields.of_ok.2.2 "package.yaml" false
  rw [ofFields_sample] at hpackage
  exact hpackage.of_ok

/-! An integer that is too long to be written stops a manifest where it is a version, and what becomes
of the manifest where it is an override. -/

/-- An integer with a digit more than it may have. -/
def longInteger : Int := Decimal.pow10 Decimal.digitLimit

theorem isWritable_longInteger : Decimal.isWritable longInteger = false := by
  rw [Decimal.isWritable, decide_eq_false_iff_not, longInteger, Int.natAbs_natCast]
  exact Nat.lt_irrefl _

/-- A manifest with this version. -/
def longVersion : Value := .object [("name", .text "sample"), ("version", .int longInteger)]

/-- A manifest with this override. -/
def longOverride : Value :=
  .object [("name", .text "sample"), ("verbatim", .object [("x", .int longInteger)])]

theorem run_package_longVersion :
    (sampleContext.package 0 longVersion).run ⟨[], ()⟩ = (.error (.longInteger none), ⟨[], ()⟩) := by
  simp only [longVersion, Context.package, Context.scope, Context.fields, Context.fieldValue,
    Context.value, Context.version, isWritable_longInteger]
  rfl

theorem run_package_longOverride :
    (sampleContext.package 0 longOverride).run ⟨[], ()⟩ =
      (.ok ⟨[("name", .text "sample"), ("verbatim", .verbatim [.fields [("x", .int longInteger)]])]⟩,
        ⟨[], ()⟩) := by
  simp only [longOverride, Context.package, Context.scope, Context.fields, Context.fieldValue]
  rfl

/-- The package of the manifest with this override. -/
def longOverridePackage : Package where
  name := "sample"
  version := "0.0.0"
  fields := ⟨[("build-type", .text "Simple")]⟩
  sections := []
  flags := []
  sourceRepository := none
  verbatim := [.fields [("x", .int longInteger)]]

/-- The one manifest is not read, for another reason than a fault at a place in it. What becomes of
the other one has no text. -/
theorem Context.not_package_controlled :
    sampleContext.services.CanGlob (fun _ ↦ False) ∧
      (longVersion.IsSelfContained ∧ ¬Yields (Failure.IsFaultOf true) (fun _ ↦ True)
        ((sampleContext.package 0 longVersion).run ⟨[], ()⟩).1) ∧
      longOverride.IsSelfContained ∧ ∃ top,
        (sampleContext.package 0 longOverride).run ⟨[], ()⟩ = (.ok top, ⟨[], ()⟩) ∧
          Package.ofFields "package.yaml" false top = ([], .ok longOverridePackage) ∧
            ∀ lister memory, (longOverridePackage.infer lister).run memory =
              .ok (longOverridePackage, memory) ∧ longOverridePackage.isWritable = false := by
  refine ⟨canGlob_sample, ⟨Value.isSelfContained_of_hasKey rfl, fun hyields ↦ ?_⟩,
    Value.isSelfContained_of_hasKey rfl, _, run_package_longOverride, rfl, fun lister memory ↦
      ⟨rfl, ?_⟩⟩
  · rw [run_package_longVersion] at hyields
    cases hyields.of_error
  · simp [Package.isWritable, longOverridePackage, Verbatim.isWritable, Scalar.isWritable,
      isWritable_longInteger]

end CabalManifest
