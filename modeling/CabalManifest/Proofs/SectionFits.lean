import CabalManifest.Proofs.Fitting
import CabalManifest.Proofs.NestedScopes
import CabalManifest.Proofs.ReadingFits
import CabalManifest.Resolution

/-!
# The sections of a package fit their kind

A section of a package takes its fields from the top of the manifest and from its own body. If the
manifest fits, all of them are fields that the kind of the section knows, and so are those of its
conditionals (`FieldSet.Fits.sections`).
-/

namespace CabalManifest

/-- The registries of a scope with neither references nor overrides. -/
def Registries.only (registry : Registry) : Registries := ⟨registry, registry⟩

/-! ### Parts of a field set that fits -/

namespace FieldValue.Fits

variable {writable : Prop} {branches : Registry} {form : Form}

/-- The branches in a value that fits, fit. -/
theorem conditionals_branches {items : List Conditional}
    (h : (FieldValue.conditionals items).Fits writable branches form) :
    ∀ item ∈ items, ∀ branch ∈ item.branches, branch.Fits writable (.only branches) := by
  cases h with
  | leaf hleaf _ hform =>
    rw [HasForm] at hform
    rw [hform] at hleaf
    cases hleaf
  | conditionals h => exact h

/-- The body in a value that fits, fits. -/
theorem body_fields {fields : FieldSet} {kind : SectionKind}
    (h : (FieldValue.body fields).Fits writable branches (.body kind)) :
    fields.Fits writable (.ofSection kind) := by
  cases h with
  | leaf hleaf => cases hleaf
  | body h => exact h

/-- So do the named bodies. -/
theorem bodies_fields {named : List (String × FieldSet)} {kind : SectionKind}
    (h : (FieldValue.bodies named).Fits writable branches (.bodies kind)) :
    ∀ entry ∈ named, entry.2.Fits writable (.ofSection kind) := by
  cases h with
  | leaf hleaf => cases hleaf
  | bodies h => exact h

/-- Nothing is read for references. -/
theorem not_defaults {value : FieldValue} : ¬value.Fits writable branches .defaults := by
  intro h
  cases h with
  | leaf hleaf => cases hleaf

/-- Verbatim lines that fit can be written. -/
theorem verbatim_writable {entries : List Verbatim}
    (h : (FieldValue.verbatim entries).Fits writable branches form) (hw : writable) :
    ∀ entry ∈ entries, entry.isWritable := by
  cases h with
  | leaf _ _ _ hwritable => exact hwritable hw

end FieldValue.Fits

namespace FieldSet.Fits

variable {writable : Prop} {registries : Registries} {fields : FieldSet}

/-- The branches of a scope that fits, fit. -/
theorem conditionals (h : fields.Fits writable registries) :
    ∀ item ∈ fields.conditionals, ∀ branch ∈ item.branches,
      branch.Fits writable (.only registries.branches) := by
  rw [FieldSet.conditionals]
  split
  · next items hvalue =>
    obtain ⟨field, -, hfits⟩ := h.exists_field hvalue
    exact hfits.conditionals_branches
  · exact List.forall_mem_nil _

/-- The verbatim lines of a scope that fits can be written. -/
theorem verbatim (h : fields.Fits writable registries) (hw : writable) :
    ∀ entry ∈ fields.verbatim, entry.isWritable := by
  rw [FieldSet.verbatim]
  split
  · next entries hvalue =>
    obtain ⟨field, -, hfits⟩ := h.exists_field hvalue
    exact hfits.verbatim_writable hw
  · exact List.forall_mem_nil _

/-- The section under a key of a scope that fits, fits. -/
theorem body {key : String} {field : Field} (h : fields.Fits writable registries)
    (hfield : registries.own.find? key = some field) {kind : SectionKind}
    (hform : field.form = .body kind) {body : FieldSet} (hbody : fields.body? key = some body) :
    body.Fits writable (.ofSection kind) := by
  rw [body?] at hbody
  split at hbody
  · next hvalue =>
    cases hbody
    obtain ⟨known, hknown, hfits⟩ := h.exists_field hvalue
    cases hfield.symm.trans hknown
    exact (hform ▸ hfits).body_fields
  · cases hbody

/-- So do the named sections under a key. -/
theorem bodies {key : String} {field : Field} (h : fields.Fits writable registries)
    (hfield : registries.own.find? key = some field) {kind : SectionKind}
    (hform : field.form = .bodies kind) :
    ∀ entry ∈ fields.bodies key, entry.2.Fits writable (.ofSection kind) := by
  rw [FieldSet.bodies]
  split
  · next named hvalue =>
    obtain ⟨known, hknown, hfits⟩ := h.exists_field hvalue
    cases hfield.symm.trans hknown
    exact (hform ▸ hfits).bodies_fields
  · exact List.forall_mem_nil _

end FieldSet.Fits

/-! ### Wider registries -/

/-- Whether a registry knows all that another one knows, and in the same way. -/
def Registry.Extends (registry other : Registry) : Prop :=
  ∀ key field, other.find? key = some field → registry.find? key = some field

/-- A registry with further fields behind it is extended. -/
theorem Registry.extends_append (registry further : Registry) :
    Registry.Extends (registry ++ further) registry := by
  intro key field hfield
  rw [Registry.find?, List.find?_append]
  rw [Registry.find?] at hfield
  rw [hfield]
  rfl

/-- A branch is smaller than its conditional. -/
theorem Conditional.sizeOf_lt_of_mem_branches {conditional : Conditional} {branch : FieldSet}
    (h : branch ∈ conditional.branches) : sizeOf branch < sizeOf conditional := by
  obtain ⟨condition, thenFields, elseFields⟩ := conditional
  rw [branches, List.mem_cons, Option.mem_toList] at h
  obtain rfl | h := h
  · simp
    omega
  · cases h
    simp
    omega

/-- A value fits wider branches if the branches in it do. -/
theorem FieldValue.Fits.widen {writable : Prop} {branches wider : Registry} {form : Form}
    {value : FieldValue} (h : value.Fits writable branches form)
    (ih : ∀ branch : FieldSet, sizeOf branch < sizeOf value →
      branch.Fits writable (.only branches) → branch.Fits writable (.only wider)) :
    value.Fits writable wider form := by
  cases h with
  | leaf hleaf hflags hform hwritable => exact .leaf hleaf hflags hform hwritable
  | flags entries => exact .flags _ _
  | conditionals h =>
    refine .conditionals fun item hitem branch hbranch ↦ ih branch ?_ (h item hitem branch hbranch)
    have hsize := Conditional.sizeOf_lt_of_mem_branches hbranch
    have hsize' := List.sizeOf_lt_of_mem hitem
    rw [FieldValue.conditionals.sizeOf_spec]
    omega
  | body h => exact .body h
  | bodies h => exact .bodies h

/-- What fits a registry fits every one that knows more. -/
theorem FieldSet.Fits.widen {writable : Prop} {registry wider : Registry} (fields : FieldSet)
    (h : fields.Fits writable (.only registry)) (hwider : wider.Extends registry) :
    fields.Fits writable (.only wider) := by
  obtain ⟨hknown, hfit⟩ := FieldSet.fits_iff.1 h
  have hsame : ∀ entry ∈ fields.entries, ∃ field, registry.find? entry.1 = some field ∧
      wider.find? entry.1 = some field := by
    intro entry hentry
    obtain ⟨field, hfield⟩ := Option.isSome_iff_exists.1 (hknown entry hentry)
    exact ⟨field, hfield, hwider _ _ hfield⟩
  -- The wider registry reads every key in the same way; only branches have to be widened.
  refine FieldSet.fits_iff.2 ⟨fun entry hentry ↦ ?_, fun entry hentry field hfield ↦ ?_⟩
  · obtain ⟨field, -, hfield⟩ := hsame entry hentry
    exact Option.isSome_iff_exists.2 ⟨field, hfield⟩
  · obtain ⟨known, hregistry, hknown⟩ := hsame entry hentry
    cases hknown.symm.trans hfield
    have hsize := List.sizeOf_lt_of_mem hentry
    exact (hfit entry hentry _ hregistry).widen fun branch _ h ↦ h.widen branch hwider
termination_by sizeOf fields
decreasing_by
  rename_i hbranch
  obtain ⟨entries⟩ := fields
  obtain ⟨key, value⟩ := entry
  simp only [FieldSet.mk.sizeOf_spec, Prod.mk.sizeOf_spec] at hsize hbranch ⊢
  omega

/-! ### Sections -/

/-- Whether the fields of a section, and of the scopes in it, are known to its kind. -/
structure Section.Fits (writable : Prop) (part : Section) : Prop where
  fields : part.fields.Fits writable (.only part.kind.fields)
  conditionals : ∀ item ∈ part.conditionals, ∀ branch ∈ item.branches,
    branch.Fits writable (.only part.kind.fields)
  verbatim : writable → ∀ entry ∈ part.verbatim, entry.isWritable

namespace FieldSet.Fits

variable {writable : Prop} {registries : Registries} {fields top body : FieldSet}

/-- A scope with fewer fields still fits. -/
theorem filterKeys (h : fields.Fits writable registries) (p : String → Bool) :
    (fields.filterKeys p).Fits writable registries := by
  obtain ⟨hknown, hfit⟩ := fits_iff.1 h
  exact fits_iff.2 ⟨fun entry hentry ↦ hknown entry (List.mem_filter.1 hentry).1,
    fun entry hentry ↦ hfit entry (List.mem_filter.1 hentry).1⟩

/-- Fields that fit one scope fit another one if it reads them in the same way. -/
theorem transfer {registries' : Registries} (h : fields.Fits writable registries)
    (htransfer : ∀ entry ∈ fields.entries, ∀ field, registries.own.find? entry.1 = some field →
      entry.2.Fits writable registries.branches field.form →
        ∃ field', registries'.own.find? entry.1 = some field' ∧
          entry.2.Fits writable registries'.branches field'.form) :
    fields.Fits writable registries' := by
  obtain ⟨hknown, hfit⟩ := fits_iff.1 h
  have hexists : ∀ entry ∈ fields.entries, ∃ field', registries'.own.find? entry.1 = some field' ∧
      entry.2.Fits writable registries'.branches field'.form := by
    intro entry hentry
    obtain ⟨field, hfield⟩ := Option.isSome_iff_exists.1 (hknown entry hentry)
    exact htransfer entry hentry field hfield (hfit entry hentry field hfield)
  refine fits_iff.2 ⟨fun entry hentry ↦ ?_, fun entry hentry field hfield ↦ ?_⟩
  · obtain ⟨field', hfield', -⟩ := hexists entry hentry
    exact Option.isSome_iff_exists.2 ⟨field', hfield'⟩
  · obtain ⟨field', hfield', hfits⟩ := hexists entry hentry
    cases hfield.symm.trans hfield'
    exact hfits

/-- A section keeps of its body what its kind knows. -/
theorem withoutNested {kind : SectionKind} (h : body.Fits writable (.ofSection kind)) :
    body.withoutNested.Fits writable (.only kind.fields) := by
  refine (h.filterKeys _).transfer fun entry hentry field hfield hfits ↦ ⟨field, ?_, hfits⟩
  have hkey := (List.mem_filter.1 hentry).2
  rw [Registries.ofSection, Registry.find?, List.find?_append, Option.or_eq_some_iff] at hfield
  obtain hfield | ⟨-, hscope⟩ := hfield
  · exact hfield
  · -- Of the fields that only whole scopes know, references are never there, and overrides are
    -- left out.
    obtain ⟨hmem, hfieldKey⟩ := Registry.mem_and_key_of_find? hscope
    rw [Field.scope, List.mem_cons, List.mem_singleton] at hmem
    obtain rfl | rfl := hmem
    · exact absurd hfits FieldValue.Fits.not_defaults
    · simp [← hfieldKey] at hkey

/-- The common fields at the top of a manifest. -/
theorem common (h : top.Fits writable .package) :
    (top.filterKeys fun key ↦ (Registry.find? Field.common key).isSome && key != "when").Fits
      writable (.only Field.common) := by
  have husual : Field.common.IsUsual := by decide
  refine (h.filterKeys _).transfer fun entry hentry field hfield hfits ↦ ?_
  have hkey := (Bool.and_eq_true_iff.1 (List.mem_filter.1 hentry).2).1
  obtain ⟨field', hfield'⟩ := Option.isSome_iff_exists.1 hkey
  refine ⟨field', hfield', ?_⟩
  obtain ⟨hmem, hfieldKey⟩ := Registry.mem_and_key_of_find? hfield
  obtain ⟨hmem', hfieldKey'⟩ := Registry.mem_and_key_of_find? hfield'
  have hform := Registries.isUsual_own_package field hmem
  have hform' := husual field' hmem'
  rw [hfieldKey] at hform
  rw [hfieldKey', hform] at hform'
  exact Option.some.inj hform' ▸ hfits

end FieldSet.Fits

/-- Every kind that takes the global fields has the common ones. -/
theorem SectionKind.extends_common {kind : SectionKind} (h : kind.takesGlobals) :
    kind.fields.Extends Field.common := by
  cases kind with
  | customSetup => cases h
  | _ => exact Registry.extends_append _ _

section

variable {writable : Prop} {top body : FieldSet}

/-- A section of a manifest that fits fits its kind. -/
theorem FieldSet.Fits.sectionOf (htop : top.Fits writable .package) {kind : SectionKind}
    (hbody : body.Fits writable (.ofSection kind)) (name : Option String) :
    (top.sectionOf kind name body).Fits writable where
  fields := by
    show (if kind.takesGlobals then top.mergeSection body else body.withoutNested).Fits writable
      (.only kind.fields)
    split
    · next hglobals =>
      exact (htop.common.widen _ (SectionKind.extends_common hglobals)).merge hbody.withoutNested
    · exact hbody.withoutNested
  conditionals := by
    show ∀ item ∈ if kind.takesGlobals then top.conditionals ++ body.conditionals
      else body.conditionals, ∀ branch ∈ item.branches, branch.Fits writable (.only kind.fields)
    split
    · next hglobals =>
      refine List.forall_mem_append.2 ⟨fun item hitem branch hbranch ↦ ?_, hbody.conditionals⟩
      exact (htop.conditionals item hitem branch hbranch).widen _
        (SectionKind.extends_common hglobals)
    · exact hbody.conditionals
  verbatim hw := hbody.verbatim hw

/-- All sections of a manifest that fits fit their kinds. -/
theorem FieldSet.Fits.sections (htop : top.Fits writable .package) (packageName : String) :
    ∀ part ∈ top.sections packageName, part.Fits writable := by
  have hsingle (kind : SectionKind) (key : String) (field : Field)
      (hfield : Registries.package.own.find? key = some field) (hform : field.form = .body kind) :
      ∀ part ∈ (top.body? key).toList.map (top.sectionOf kind none), part.Fits writable := by
    intro part hpart
    obtain ⟨body, hbody, rfl⟩ := List.mem_map.1 hpart
    exact htop.sectionOf (htop.body hfield hform (Option.mem_toList.1 hbody)) none
  have hseveral (kind : SectionKind) (bodies : List (String × FieldSet))
      (hbodies : ∀ entry ∈ bodies, entry.2.Fits writable (.ofSection kind)) :
      ∀ part ∈ bodies.map fun entry ↦ top.sectionOf kind (some entry.1) entry.2,
        part.Fits writable := by
    intro part hpart
    obtain ⟨entry, hentry, rfl⟩ := List.mem_map.1 hpart
    exact htop.sectionOf (hbodies entry hentry) (some entry.1)
  have hexecutables : ∀ entry ∈ top.executables packageName,
      entry.2.Fits writable (.ofSection .executable) := by
    rw [FieldSet.executables]
    split
    · next body _ hbody => exact List.forall_mem_singleton.2 (htop.body rfl rfl hbody)
    · exact htop.bodies rfl rfl
  rw [FieldSet.sections]
  simp only [List.forall_mem_append]
  exact ⟨⟨⟨⟨⟨hsingle _ _ _ rfl rfl, hsingle _ _ _ rfl rfl⟩,
    hseveral _ _ (htop.bodies rfl rfl)⟩, hseveral _ _ hexecutables⟩,
    hseveral _ _ (htop.bodies rfl rfl)⟩, hseveral _ _ (htop.bodies rfl rfl)⟩

end

/-! ### Scopes in sections -/

/-- All scopes in a scope fit what it fits. -/
theorem FieldSet.Fits.at? {writable : Prop} {registry : Registry} {fields scope : FieldSet}
    (h : fields.Fits writable (.only registry)) {path : List Turn}
    (hscope : fields.at? path = some scope) : scope.Fits writable (.only registry) := by
  induction path generalizing fields with
  | nil =>
    cases hscope
    exact h
  | cons turn rest ih =>
    obtain ⟨branch, hbranch, hrest⟩ := Option.bind_eq_some_iff.1 hscope
    obtain ⟨conditional, hconditional, hmem⟩ := Conditional.mem_of_branchAt? hbranch
    exact ih (h.conditionals conditional hconditional branch hmem) hrest

/-- Every scope in a section that fits, fits. -/
theorem Section.Fits.at? {writable : Prop} {part : Section} {scope : FieldSet}
    (h : part.Fits writable) {path : List Turn} (hscope : part.at? path = some scope) :
    scope.Fits writable (.only part.kind.fields) := by
  cases path with
  | nil =>
    cases hscope
    exact h.fields
  | cons turn rest =>
    obtain ⟨branch, hbranch, hrest⟩ := Option.bind_eq_some_iff.1 hscope
    obtain ⟨conditional, hconditional, hmem⟩ := Conditional.mem_of_branchAt? hbranch
    exact (h.conditionals conditional hconditional branch hmem).at? hrest

/-! ### Packages that were read -/

/-- The sections of a package that is read from a manifest fit their kinds. -/
theorem Package.section_fits {σ : Type} {context : Context σ} {bound : Nat} {value : Value}
    {top : FieldSet} {s t : Progress σ} (hread : (context.package bound value).run s = (.ok top, t))
    {source : String} {hasLicense : Bool} {warnings : List Warning} {package : Package}
    (hpackage : ofFields source hasLicense top = (warnings, .ok package)) {part : Section}
    (hpart : part ∈ package.sections) : part.Fits False := by
  rw [ofFields] at hpackage
  split at hpackage
  · cases hpackage
  · next name hname =>
    cases hgithub : top.github source with
    | error failure =>
      rw [hgithub] at hpackage
      cases hpackage
    | ok github =>
      rw [hgithub] at hpackage
      cases hpackage
      exact (Context.fits_of_run_package hread).sections name part hpart

/-! ### A small package -/

/-- A branch with a source directory of its own. -/
def sampleBranch : FieldSet := ⟨[("source-dirs", .texts ["extra"])]⟩

/-- The body of a library with this branch. -/
def sampleBody : FieldSet :=
  ⟨[("source-dirs", .texts ["src"]),
    ("when", .conditionals [⟨"flag(extra)", sampleBranch, none⟩])]⟩

/-- The fields of a manifest with this library. -/
def sampleFields : FieldSet := ⟨[("name", .text "sample"), ("library", .body sampleBody)]⟩

/-- This manifest. -/
def sampleManifest : Value :=
  .object [("name", .text "sample"), ("library", .object [("source-dirs", .text "src"),
    ("when", .object [("condition", .text "flag(extra)"), ("source-dirs", .text "extra")])])]

/-- A context in which there are no files and no documents. -/
def sampleContext : Context Unit := ⟨⟨fun _ _ ↦ .ok [], none⟩, "package.yaml", ⟨.slash, []⟩, []⟩

/-- The library as a section. -/
def sampleSection : Section :=
  ⟨.library, none, ⟨[("source-dirs", .texts ["src"])]⟩, [⟨"flag(extra)", sampleBranch, none⟩], []⟩

/-- The package with this section. -/
def samplePackage : Package where
  name := "sample"
  version := "0.0.0"
  fields := ⟨[("build-type", .text "Simple")]⟩
  sections := [sampleSection]
  flags := []
  sourceRepository := none
  verbatim := []

/-- The sample manifest is read without a complaint. -/
theorem run_package_sample :
    (sampleContext.package 0 sampleManifest).run ⟨[], ()⟩ = (.ok sampleFields, ⟨[], ()⟩) := by
  simp only [sampleManifest, Context.package, Context.scope, Context.fields, Context.fieldValue,
    Context.body, Context.conditional]
  rfl

/-- It becomes a package, again without a complaint. -/
theorem ofFields_sample :
    Package.ofFields "package.yaml" false sampleFields = ([], .ok samplePackage) := by
  have hmerge : sampleFields.mergeSection sampleBody = ⟨[("source-dirs", .texts ["src"])]⟩ := by
    simp only [FieldSet.mergeSection, FieldSet.merge_eq]
    rfl
  have hsection : sampleFields.sectionOf .library none sampleBody = sampleSection := by
    rw [FieldSet.sectionOf, hmerge]
    rfl
  rw [samplePackage, ← hsection]
  rfl

end CabalManifest
