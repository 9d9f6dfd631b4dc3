import CabalManifest.Description

/-!
# Tests of all elements

To show something of every element that a package is laid out in, it is enough to look at the fields,
the headers of the stanzas and the overrides, each by itself (`Package.Passes.elements`). Overrides
add nothing but fields and raw lines (`Element.forall_overrideAll`), and the branches of conditionals
are followed to any depth (`Conditional.forall_elements`).

A stanza passes a test of elements if its header is one that the test *admits*, and all elements in
it pass the test.
-/

namespace CabalManifest

variable {test : Element → Prop} {admits : String → Prop}

/-! ### Overrides -/

/-- Whether an override adds only elements that pass a test. -/
def Verbatim.Passes (test : Element → Prop) : Verbatim → Prop
  | .raw text => test (.raw (textLines text))
  | .fields entries => ∀ entry ∈ entries, test (.field entry.1 (.ofText entry.2.plain))

namespace Element

variable {elements : List Element}

theorem forall_removeField (name : String) (h : ∀ element ∈ elements, test element) :
    ∀ element ∈ removeField name elements, test element := by
  induction elements with
  | nil => exact h
  | cons first rest ih =>
    rw [List.forall_mem_cons] at h
    rw [removeField]
    split
    · exact h.2
    · exact List.forall_mem_cons.2 ⟨h.1, ih h.2⟩

theorem forall_replaceField {name : String} {content : Content} (hfield : test (.field name content))
    (h : ∀ element ∈ elements, test element) :
    ∀ element ∈ replaceField name content elements, test element := by
  induction elements with
  | nil => exact h
  | cons first rest ih =>
    rw [List.forall_mem_cons] at h
    rw [replaceField]
    split
    · exact List.forall_mem_cons.2 ⟨hfield, h.2⟩
    · exact List.forall_mem_cons.2 ⟨h.1, ih h.2⟩

theorem forall_overrideField {name : String} {value : Scalar}
    (hfield : test (.field name (.ofText value.plain))) (h : ∀ element ∈ elements, test element) :
    ∀ element ∈ overrideField elements name value, test element := by
  rw [overrideField.eq_def]
  split
  · exact forall_removeField name h
  · simp only
    split
    · exact forall_replaceField hfield h
    · exact List.forall_mem_append.2 ⟨h, List.forall_mem_singleton.2 hfield⟩

/-- Overriding gives no elements but those that are there, fields with a text, and lines. -/
theorem forall_overrideAll {entries : List Verbatim} (hentries : ∀ entry ∈ entries, entry.Passes test)
    (h : ∀ element ∈ elements, test element) :
    ∀ element ∈ overrideAll elements entries, test element := by
  refine List.foldlRecOn (motive := fun elements ↦ ∀ element ∈ elements, test element) entries _ h
    fun elements h entry hentry ↦ ?_
  have hpasses := hentries entry hentry
  cases entry with
  | raw text => exact List.forall_mem_append.2 ⟨h, List.forall_mem_singleton.2 hpasses⟩
  | fields values =>
    exact List.foldlRecOn (motive := fun elements ↦ ∀ element ∈ elements, test element) values _ h
      fun elements h value hvalue ↦ forall_overrideField (hpasses value hvalue) h

end Element

/-! ### Scopes -/

/-- Whether every field of a scope is laid out in an element that passes a test. -/
def FieldSet.Passes (test : Element → Prop) (kind : SectionKind) (fields : FieldSet) : Prop :=
  ∀ key value field element, fields.get? key = some value →
    (kind.fields.find? key <|> Registry.find? Field.all key) = some field →
      field.element? value = some element → test element

theorem FieldSet.Passes.elements {kind : SectionKind} {fields : FieldSet}
    (h : fields.Passes test kind) : ∀ element ∈ fields.elements kind, test element := by
  intro element helement
  obtain ⟨key, -, hkey⟩ := List.mem_filterMap.1 helement
  split at hkey
  · next value field hvalue hfield => exact h key value field element hvalue hfield hkey
  · cases hkey

theorem FieldSet.Passes.imp {kind : SectionKind} {fields : FieldSet} (h : fields.Passes test kind)
    {test' : Element → Prop} (himp : ∀ element, test element → test' element) :
    fields.Passes test' kind :=
  fun key value field element hvalue hfield helement ↦
    himp element (h key value field element hvalue hfield helement)

section

variable {kind : SectionKind} {known : Conditional → Prop}

mutual

theorem FieldSet.forall_branchElements
    (hstanza : ∀ header elements, admits header → (∀ element ∈ elements, test element) →
      test (.stanza header elements false))
    (helse : admits "else")
    (hknown : ∀ conditional, known conditional → admits ("if " ++ conditional.condition) ∧
      ∀ branch ∈ conditional.branches,
        branch.withMain.Passes test kind ∧ ∀ inner ∈ branch.conditionals, known inner)
    {fields : FieldSet} (h : fields.withMain.Passes test kind)
    (hinner : ∀ inner ∈ fields.conditionals, known inner) :
    ∀ element ∈ fields.branchElements kind, test element := by
  rw [FieldSet.branchElements]
  exact List.forall_mem_append.2
    ⟨h.elements, Conditional.forall_elements hstanza helse hknown hinner⟩
termination_by sizeOf fields
decreasing_by exact fields.sizeOf_conditionals_lt

/-- Conditionals of which enough is known, of them and of those in their branches, are laid out in
elements that pass a test. -/
theorem Conditional.forall_elements
    (hstanza : ∀ header elements, admits header → (∀ element ∈ elements, test element) →
      test (.stanza header elements false))
    (helse : admits "else")
    (hknown : ∀ conditional, known conditional → admits ("if " ++ conditional.condition) ∧
      ∀ branch ∈ conditional.branches,
        branch.withMain.Passes test kind ∧ ∀ inner ∈ branch.conditionals, known inner)
    {conditionals : List Conditional} (h : ∀ conditional ∈ conditionals, known conditional) :
    ∀ element ∈ Conditional.elements kind conditionals, test element := by
  match conditionals, h with
  | [], _ =>
    rw [Conditional.elements]
    exact List.forall_mem_nil _
  | ⟨condition, thenFields, none⟩ :: rest, h =>
    rw [List.forall_mem_cons] at h
    obtain ⟨hif, hbranches⟩ := hknown _ h.1
    obtain ⟨hthen, hinner⟩ := hbranches thenFields List.mem_cons_self
    rw [Conditional.elements, List.forall_mem_cons]
    exact ⟨hstanza _ _ hif (thenFields.forall_branchElements hstanza helse hknown hthen hinner),
      Conditional.forall_elements hstanza helse hknown h.2⟩
  | ⟨condition, thenFields, some elseFields⟩ :: rest, h =>
    rw [List.forall_mem_cons] at h
    obtain ⟨hif, hbranches⟩ := hknown _ h.1
    obtain ⟨hthen, hinner⟩ := hbranches thenFields List.mem_cons_self
    obtain ⟨hotherwise, hinner'⟩ := hbranches elseFields (by simp [Conditional.branches])
    rw [Conditional.elements, List.forall_mem_cons, List.forall_mem_cons]
    exact ⟨hstanza _ _ hif (thenFields.forall_branchElements hstanza helse hknown hthen hinner),
      hstanza _ _ helse (elseFields.forall_branchElements hstanza helse hknown hotherwise hinner'),
      Conditional.forall_elements hstanza helse hknown h.2⟩
termination_by sizeOf conditionals

end

end

/-! ### Stanzas -/

/-- What a section is laid out in before it is overridden: two fixed fields, its own fields and its
conditionals. -/
theorem Section.forall_elements {part : Section}
    (htype : test (.field "type" (.inline "exitcode-stdio-1.0")))
    (hlanguage : test (.field "default-language" (.inline defaultLanguage)))
    (hfields : part.fields.withMain.Passes test part.kind)
    (hconditionals : ∀ element ∈ Conditional.elements part.kind part.conditionals, test element) :
    ∀ element ∈ part.kind.opening ++ part.fields.withMain.elements part.kind ++
      Conditional.elements part.kind part.conditionals ++ part.kind.closing, test element := by
  simp only [List.forall_mem_append]
  refine ⟨⟨⟨?_, hfields.elements⟩, hconditionals⟩, ?_⟩
  · cases part.kind with
    | test | benchmark => exact List.forall_mem_singleton.2 htype
    | _ => exact List.forall_mem_nil _
  · cases part.kind with
    | customSetup => exact List.forall_mem_nil _
    | _ => exact List.forall_mem_singleton.2 hlanguage

/-- Whether a section is laid out in elements that pass a test. -/
structure Section.Passes (admits : String → Prop) (test : Element → Prop) (part : Section) :
    Prop where
  header : admits part.header
  type : test (.field "type" (.inline "exitcode-stdio-1.0"))
  language : test (.field "default-language" (.inline defaultLanguage))
  fields : part.fields.withMain.Passes test part.kind
  conditionals : ∀ element ∈ Conditional.elements part.kind part.conditionals, test element
  verbatim : ∀ entry ∈ part.verbatim, entry.Passes test

/-- Whether a flag is laid out in elements that pass a test. -/
structure Flag.Passes (admits : String → Prop) (test : Element → Prop) (flag : Flag) : Prop where
  header : admits ("flag " ++ flag.name)
  description : ∀ text ∈ flag.description, test (.field "description" (.ofText text))
  manual : test (.field "manual" (.inline (boolText flag.manual)))
  default : test (.field "default" (.inline (boolText flag.default)))

/-- Whether a source repository is laid out in elements that pass a test. -/
structure SourceRepository.Passes (admits : String → Prop) (test : Element → Prop)
    (repository : SourceRepository) : Prop where
  header : admits "source-repository head"
  kind : test (.field "type" (.inline repository.kind))
  location : test (.field "location" (.inline repository.location))
  subdir : ∀ subdir ∈ repository.subdir, test (.field "subdir" (.inline subdir))

/-- Whether the header of a package is laid out in elements that pass a test. -/
structure Package.PassesHeader (test : Element → Prop) (package : Package) : Prop where
  name : test (.field "name" (.inline package.name))
  version : test (.field "version" (.inline package.version))
  format : test (.field "cabal-version" (.inline (">= " ++ package.formatVersion.text)))
  license : ∀ file ∈ package.fields.texts "license-file",
    test (.field "license-file" (.inline file))
  licenses : test (.field "license-files" (.lines (package.fields.texts "license-file")))
  fields : ∀ key value field element, package.fields.get? key = some value →
    Registry.find? Field.all key = some field → field.element? value = some element → test element

/-- Whether all that a package is laid out in passes a test. -/
structure Package.Passes (admits : String → Prop) (test : Element → Prop) (package : Package) :
    Prop where
  header : package.PassesHeader test
  sourceRepository : ∀ repository ∈ package.sourceRepository, repository.Passes admits test
  flags : ∀ flag ∈ package.flags, flag.Passes admits test
  sections : ∀ part ∈ package.sections, part.Passes admits test
  verbatim : ∀ entry ∈ package.verbatim, entry.Passes test

theorem Package.PassesHeader.of_headerElement? {package : Package} (h : package.PassesHeader test)
    {key : String} {element : Element} (helement : package.headerElement? key = some element) :
    test element := by
  rw [headerElement?.eq_def] at helement
  split at helement
  · cases helement
    exact h.name
  · cases helement
    exact h.version
  · cases helement
    exact h.format
  · have hlicense := h.license
    have hlicenses := h.licenses
    generalize package.fields.texts "license-file" = files at helement hlicense hlicenses
    rw [licenseElement?.eq_def] at helement
    split at helement
    · cases helement
    · cases helement
      exact hlicense _ List.mem_cons_self
    · cases helement
      exact hlicenses
  · split at helement
    · next value field hvalue hfield => exact h.fields _ value field element hvalue hfield helement
    · cases helement

section

variable (hstanza : ∀ header elements, admits header → (∀ element ∈ elements, test element) →
  test (.stanza header elements true))
include hstanza

theorem Section.Passes.element {part : Section} (h : part.Passes admits test) :
    test part.element :=
  hstanza _ _ h.header <| Element.forall_overrideAll h.verbatim <|
    part.forall_elements h.type h.language h.fields h.conditionals

theorem Flag.Passes.element {flag : Flag} (h : flag.Passes admits test) : test flag.element := by
  refine hstanza _ _ h.header (List.forall_mem_append.2 ⟨fun element helement ↦ ?_, ?_⟩)
  · obtain ⟨text, htext, rfl⟩ := Option.map_eq_some_iff.1 (Option.mem_toList.1 helement)
    exact h.description text htext
  · exact List.forall_mem_cons.2 ⟨h.manual, List.forall_mem_singleton.2 h.default⟩

theorem SourceRepository.Passes.element {repository : SourceRepository}
    (h : repository.Passes admits test) : test repository.element := by
  refine hstanza _ _ h.header (List.forall_mem_append.2 ⟨?_, ?_⟩)
  · exact List.forall_mem_cons.2 ⟨h.kind, List.forall_mem_singleton.2 h.location⟩
  · split
    · exact List.forall_mem_nil _
    · exact List.forall_mem_nil _
    · next subdir _ hget => exact List.forall_mem_singleton.2 (h.subdir subdir hget)

/-- All elements that a package is laid out in pass a test if its parts are laid out so. -/
theorem Package.Passes.elements {package : Package} (h : package.Passes admits test) :
    ∀ element ∈ package.elements, test element := by
  refine Element.forall_overrideAll h.verbatim ?_
  simp only [List.forall_mem_append, List.forall_mem_map]
  refine ⟨⟨⟨fun element helement ↦ ?_, fun element helement ↦ ?_⟩,
    fun flag hflag ↦ (h.flags flag hflag).element hstanza⟩,
    fun part hpart ↦ (h.sections part hpart).element hstanza⟩
  · obtain ⟨key, -, hkey⟩ := List.mem_filterMap.1 helement
    exact h.header.of_headerElement? hkey
  · obtain ⟨repository, hrepository, rfl⟩ :=
      Option.map_eq_some_iff.1 (Option.mem_toList.1 helement)
    exact (h.sourceRepository repository hrepository).element hstanza

end

end CabalManifest
