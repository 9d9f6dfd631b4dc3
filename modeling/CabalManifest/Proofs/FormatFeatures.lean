import CabalManifest.Proofs.ControlledFailures
import CabalManifest.Proofs.HeaderOrder
import CabalManifest.Proofs.StableDescription

/-!
# The features of a description and the version of the format

A description has a *feature* that the lowest version of the format lacks if some piece of it shows it:
a field of the header, the header of a stanza, or a field of a stanza at any depth. The version of the
format is worked out from the fields of the package before anything is laid out. It is the latest of
the versions that the features in the elements ask for, neither too low nor too high
(`Package.formatVersion_isLatest`).
-/

namespace CabalManifest

open Element (fieldNames)
open LayoutHints (headers isStanza)
open Discovery (exists_of_bind_run eq_of_pure_run)

/-! ### The latest version -/

namespace FormatVersion

/-- Whether a version is the latest one that passes a test. -/
def IsLatest (v : FormatVersion) (p : FormatVersion → Prop) : Prop :=
  p v ∧ ∀ w, p w → v.before w = false

/-- A version is not before another one if it is the same or later. -/
theorem before_eq_false_iff {a b : FormatVersion} :
    a.before b = false ↔ b.major < a.major ∨ b.major = a.major ∧ b.minor ≤ a.minor := by
  rw [before, ← Bool.not_eq_true, Bool.or_eq_true, Bool.and_eq_true, decide_eq_true_iff,
    decide_eq_true_iff, beq_iff_eq]
  omega

/-- The latest version depends only on which versions there are. -/
theorem IsLatest.congr {v : FormatVersion} {p q : FormatVersion → Prop} (h : v.IsLatest p)
    (hpq : ∀ w, p w ↔ q w) : v.IsLatest q :=
  ⟨(hpq v).1 h.1, fun w hw ↦ h.2 w ((hpq w).2 hw)⟩

/-- The later of two versions is one of them and comes before neither. -/
theorem later_isLatest (a b : FormatVersion) : (a.later b).IsLatest fun w ↦ w = a ∨ w = b := by
  rw [later]
  cases hbefore : a.before b with
  | true =>
    refine ⟨.inr rfl, ?_⟩
    rintro w (rfl | rfl)
    · rw [if_pos rfl, before_eq_false_iff]
      rw [before, Bool.or_eq_true, Bool.and_eq_true, decide_eq_true_iff, decide_eq_true_iff,
        beq_iff_eq] at hbefore
      omega
    · rw [if_pos rfl, before_eq_false_iff]
      omega
  | false =>
    refine ⟨.inl rfl, ?_⟩
    rintro w (rfl | rfl)
    · rw [if_neg Bool.false_ne_true, before_eq_false_iff]
      omega
    · exact hbefore

/-- Taking the later one of two in turn gives the latest of all. -/
theorem foldl_later_isLatest (first : FormatVersion) (versions : List FormatVersion) :
    (versions.foldl later first).IsLatest (· ∈ first :: versions) := by
  induction versions generalizing first with
  | nil =>
    refine ⟨List.mem_cons_self, fun w hw ↦ ?_⟩
    rw [List.mem_singleton.1 hw, List.foldl_nil, before_eq_false_iff]
    omega
  | cons second versions ih =>
    obtain ⟨hmem, hlatest⟩ := ih (first.later second)
    obtain ⟨hone, hboth⟩ := first.later_isLatest second
    rw [List.foldl_cons]
    refine ⟨?_, fun w (hw : w ∈ first :: second :: versions) ↦ ?_⟩
    · obtain heq | hmem := List.mem_cons.1 hmem
      · rw [heq]
        obtain heq | heq := hone <;> simp [heq]
      · exact List.mem_cons_of_mem _ (List.mem_cons_of_mem _ hmem)
    · have hbest := hlatest _ List.mem_cons_self
      rw [List.mem_cons, List.mem_cons, ← or_assoc] at hw
      obtain hw | hw := hw
      · -- What comes before neither of two versions is no earlier than the later one.
        have hw := hboth w hw
        rw [before_eq_false_iff] at hbest hw ⊢
        omega
      · exact hlatest w (List.mem_cons_of_mem _ hw)

end FormatVersion

/-! ### Features -/

namespace Element

mutual

/-- The names of the fields in an element, at any depth. -/
def names : Element → List String
  | .field name _ => [name]
  | .stanza _ elements _ => namesAll elements
  | .raw _ => []

/-- The names of the fields in some elements, at any depth. -/
def namesAll : List Element → List String
  | [] => []
  | element :: rest => names element ++ namesAll rest

end

/-- Whether a field of some name is in a stanza, at any depth. -/
def InStanza (name : String) (elements : List Element) : Prop :=
  ∃ header below sortable, .stanza header below sortable ∈ elements ∧ name ∈ namesAll below

end Element

/-- What a description can have that the lowest version of the format lacks. -/
inductive Feature where
  | docFiles
  | reexports
  | setup
  | signatures
  | autogenModules
  | internalLibrary

open Element (InStanza namesAll)

namespace Feature

/-- The first version of the format with a feature. -/
def since : Feature → FormatVersion
  | docFiles => ⟨1, 18⟩
  | reexports => ⟨1, 22⟩
  | setup => ⟨1, 24⟩
  | signatures | autogenModules | internalLibrary => ⟨2, 0⟩

/-- Whether the elements of a description have a feature. -/
def OccursIn (elements : List Element) : Feature → Prop
  | docFiles => "extra-doc-files" ∈ fieldNames elements
  | reexports => InStanza "reexported-modules" elements
  | setup => "custom-setup" ∈ headers elements
  | signatures => InStanza "signatures" elements
  | autogenModules => InStanza "autogen-modules" elements
  | internalLibrary => ∃ name, "library " ++ name ∈ headers elements

end Feature

/-- The scopes of a section: its own fields, and the branches in it. -/
def Section.scopes (part : Section) : List FieldSet :=
  part.fields :: Conditional.scopesIn part.conditionals

/-- Whether a section has what makes its stanza show a feature. -/
def Feature.IsUsedIn (part : Section) : Feature → Prop
  | docFiles => False
  | setup => part.kind = .customSetup
  | internalLibrary => part.kind = .internalLibrary
  | reexports => ∃ scope ∈ part.scopes, scope.uses "reexported-modules"
  | signatures => ∃ scope ∈ part.scopes, scope.uses "signatures"
  | autogenModules => ∃ scope ∈ part.scopes, scope.uses "autogen-modules"

/-- Whether a package has what makes its description show a feature. -/
def Feature.IsUsedBy (package : Package) (feature : Feature) : Prop :=
  (feature = docFiles ∧ package.fields.uses "extra-doc-files") ∨
    ∃ part ∈ package.sections, feature.IsUsedIn part

/-! ### What is asked for -/

/-- Some feature has a property if one of the six has it. -/
theorem Feature.exists_iff {p : Feature → Prop} : (∃ feature, p feature) ↔
    p docFiles ∨ p reexports ∨ p setup ∨ p signatures ∨ p autogenModules ∨ p internalLibrary := by
  constructor
  · rintro ⟨feature, h⟩
    cases feature <;> simp [h]
  · rintro (h | h | h | h | h | h) <;> exact ⟨_, h⟩

/-- A scope asks for the versions of the three features of scopes that it uses. -/
theorem FieldSet.mem_formatVersions {fields : FieldSet} {v : FormatVersion} :
    v ∈ fields.formatVersions ↔
      fields.uses "reexported-modules" ∧ v = ⟨1, 22⟩ ∨
        fields.uses "signatures" ∧ v = ⟨2, 0⟩ ∨ fields.uses "autogen-modules" ∧ v = ⟨2, 0⟩ := by
  rw [formatVersions, List.mem_append, ← or_and_right]
  simp only [Bool.or_eq_true]
  split_ifs <;> simp [*]

/-- A section asks for the versions of the features that are used in it. -/
theorem Section.mem_formatVersions {part : Section} {v : FormatVersion} :
    v ∈ part.formatVersions ↔ ∃ feature : Feature, feature.IsUsedIn part ∧ v = feature.since := by
  have hscopes : (∃ scope ∈ part.scopes, v ∈ scope.formatVersions) ↔
      Feature.reexports.IsUsedIn part ∧ v = ⟨1, 22⟩ ∨ Feature.signatures.IsUsedIn part ∧ v = ⟨2, 0⟩ ∨
        Feature.autogenModules.IsUsedIn part ∧ v = ⟨2, 0⟩ := by
    simp only [FieldSet.mem_formatVersions, Feature.IsUsedIn, and_or_left, exists_or,
      ← and_assoc, exists_and_right]
  rw [formatVersions, List.mem_append, List.mem_flatMap, Feature.exists_iff]
  refine (or_congr (?_ : _ ↔ Feature.setup.IsUsedIn part ∧ v = ⟨1, 24⟩ ∨
    Feature.internalLibrary.IsUsedIn part ∧ v = ⟨2, 0⟩) hscopes).trans ?_
  · simp only [Feature.IsUsedIn]
    cases part.kind <;> simp
  have hdocs : Feature.docFiles.IsUsedIn part ↔ False := Iff.rfl
  rw [hdocs, false_and, false_or]
  simp only [Feature.since, or_comm, or_left_comm]

/-- The version of a package is the latest one that something in it asks for. -/
theorem Package.formatVersion_isLatest_of_uses (package : Package) :
    package.formatVersion.IsLatest fun v ↦
      v = .lowest ∨ ∃ feature : Feature, feature.IsUsedBy package ∧ v = feature.since := by
  refine (FormatVersion.foldl_later_isLatest _ _).congr fun v ↦ ?_
  rw [List.mem_cons, List.mem_append, List.mem_flatMap]
  refine or_congr Iff.rfl ?_
  constructor
  · rintro (hdocs | ⟨part, hpart, hv⟩)
    · split at hdocs
      · next huses => exact ⟨.docFiles, .inl ⟨rfl, huses⟩, List.mem_singleton.1 hdocs⟩
      · cases hdocs
    · obtain ⟨feature, hused, hv⟩ := Section.mem_formatVersions.1 hv
      exact ⟨feature, .inr ⟨part, hpart, hused⟩, hv⟩
  · rintro ⟨feature, ⟨rfl, huses⟩ | ⟨part, hpart, hused⟩, hv⟩
    · rw [if_pos huses]
      exact .inl (List.mem_singleton.2 hv)
    · exact .inr ⟨part, hpart, Section.mem_formatVersions.2 ⟨feature, hused, hv⟩⟩

/-! ### Names in elements -/

namespace Element

/-- The names in two lists of elements are those in the first and those in the second. -/
theorem namesAll_append (xs ys : List Element) : namesAll (xs ++ ys) = namesAll xs ++ namesAll ys := by
  induction xs with
  | nil => rfl
  | cons x xs ih => rw [List.cons_append, namesAll, namesAll, ih, List.append_assoc]

/-- Without stanzas all fields are at the top. -/
theorem namesAll_eq_fieldNames {elements : List Element}
    (h : ∀ element ∈ elements, isStanza element = false) : namesAll elements = fieldNames elements := by
  induction elements with
  | nil => rfl
  | cons element rest ih =>
    rw [List.forall_mem_cons] at h
    rw [namesAll, ih h.2]
    cases element with
    | field => rfl
    | stanza => cases h.1
    | raw => rfl

end Element

/-! ### Fields that show features -/

/-- The fields by which a stanza shows a feature. -/
def Feature.keys : List String := ["reexported-modules", "signatures", "autogen-modules"]

/-- A scope uses a field of texts if it has texts in it. -/
theorem FieldSet.uses_iff {fields : FieldSet} {key : String} :
    fields.uses key ↔ ∃ items, fields.get? key = some (.texts items) ∧ items ≠ [] := by
  rw [uses, texts, texts?]
  split
  · next items hvalue => simp [hvalue]
  · next hother =>
    refine iff_of_false (by simp) ?_
    rintro ⟨items, hvalue, -⟩
    exact hother items hvalue

/-- A list is laid out if it has items. -/
theorem Field.exists_element?_texts (field : Field) (items : List String) :
    (∃ element, field.element? (.texts items) = some element) ↔ items ≠ [] := by
  rw [Field.element?, Field.itemsElement]
  cases items <;> simp

/-- Fields that are no lists are not laid out under the name of a list. -/
theorem FieldSet.IsShaped.exists_element? {fields : FieldSet} (h : fields.IsShaped) {key : String}
    {known : Field} (hknown : Registry.find? Field.all key = some known)
    (hform : known.form = .texts false ∨ known.form = .globs) (field : Field) :
    (∃ value element, fields.get? key = some value ∧ field.element? value = some element) ↔
      fields.uses key := by
  rw [uses_iff]
  constructor
  · rintro ⟨value, element, hvalue, helement⟩
    obtain ⟨-, field', hfield', hhas⟩ := h.of_get? hvalue
    cases hknown.symm.trans hfield'
    cases value with
    | texts items => exact ⟨items, hvalue, (field.exists_element?_texts items).1 ⟨element, helement⟩⟩
    | text | bool | dependencies =>
      obtain hform | hform := hform <;> simp [FieldValue.HasForm, hform] at hhas
    | _ => cases helement
  · rintro ⟨items, hvalue, hitems⟩
    obtain ⟨element, helement⟩ := (field.exists_element?_texts items).2 hitems
    exact ⟨_, element, hvalue, helement⟩

/-- Whether a scope in a section is shaped and has no list that shows a feature but is not written. -/
structure FieldSet.IsShown (kind : SectionKind) (fields : FieldSet) : Prop where
  isShaped : fields.IsShaped
  get?_eq_none : ∀ key ∈ Feature.keys, key ∉ kind.order → fields.get? key = none

/-- A field of a section goes by the name of a list that shows a feature if it is that list. -/
theorem SectionKind.label_eq_iff (kind : SectionKind) : ∀ key ∈ kind.order,
    ∃ field, kind.field? key = some field ∧ ∀ name ∈ Feature.keys, field.label = name ↔ key = name := by
  have hall : ∀ key ∈ kind.order, (kind.field? key).any fun field ↦
      Feature.keys.all fun name ↦ (field.label == name) == (key == name) := by
    cases kind <;> decide
  intro key hkey
  obtain ⟨field, hfield, hnames⟩ := (Option.any_eq_true _ _).1 (hall key hkey)
  refine ⟨field, hfield, fun name hname ↦ ?_⟩
  have hsame := List.all_eq_true.1 hnames name hname
  rw [beq_iff_eq, Bool.eq_iff_iff, beq_iff_eq, beq_iff_eq] at hsame
  exact hsame

/-- The lists that show a feature. -/
theorem Feature.exists_field_of_mem_keys {key : String} (h : key ∈ keys) :
    ∃ field, Registry.find? Field.all key = some field ∧ field.form = .texts false := by
  have hall : ∀ key ∈ keys, (Registry.find? Field.all key).any (·.form == .texts false) := by
    decide
  obtain ⟨field, hfield, hform⟩ := (Option.any_eq_true _ _).1 (hall key h)
  exact ⟨field, hfield, beq_iff_eq.1 hform⟩

/-- The field of the main module changes no other field but the options. -/
theorem FieldSet.get?_withMain {fields : FieldSet} {key : String} (hmain : key ≠ "main")
    (hoptions : key ≠ "ghc-options") : fields.withMain.get? key = fields.get? key := by
  rw [withMain]
  split
  · rfl
  · split
    · rw [get?_insert, if_neg hmain.symm]
    · rw [get?_insert, if_neg hoptions.symm, get?_insert, if_neg hmain.symm]

/-- A scope is written with a list that shows a feature exactly if the list has items. -/
theorem FieldSet.IsShown.mem_fieldNames {kind : SectionKind} {fields : FieldSet}
    (h : fields.IsShown kind) {key : String} (hkey : key ∈ Feature.keys) :
    key ∈ fieldNames (fields.withMain.elements kind) ↔ fields.uses key := by
  have hget : fields.withMain.get? key = fields.get? key :=
    FieldSet.get?_withMain (fun heq ↦ absurd (heq ▸ hkey) (by decide))
      (fun heq ↦ absurd (heq ▸ hkey) (by decide))
  have huses : fields.withMain.uses key ↔ fields.uses key := by rw [uses, uses, texts_congr hget]
  obtain ⟨known, hknown, hform⟩ := Feature.exists_field_of_mem_keys hkey
  have hlaid := h.isShaped.withMain.exists_element? hknown (.inl hform)
  rw [fieldNames, List.mem_filterMap, ← huses]
  constructor
  · rintro ⟨element, helement, hname⟩
    obtain ⟨key', hkey', hlookup⟩ := List.mem_filterMap.1 helement
    split at hlookup
    · next value field hvalue hfield =>
      obtain ⟨field', hfield', hlabel⟩ := kind.label_eq_iff key' hkey'
      cases hfield.symm.trans hfield'
      rw [Field.name?_of_element? hlookup, Option.some_inj, hlabel key hkey] at hname
      exact (hlaid field).1 ⟨value, element, hname ▸ hvalue, hlookup⟩
    · cases hlookup
  · intro hused
    have horder : key ∈ kind.order := by
      by_contra hnot
      obtain ⟨items, hvalue, -⟩ := uses_iff.1 hused
      cases hvalue.symm.trans (hget.trans (h.get?_eq_none key hkey hnot))
    obtain ⟨field, hfield, hlabel⟩ := kind.label_eq_iff key horder
    obtain ⟨value, element, hvalue, helement⟩ := (hlaid field).2 hused
    refine ⟨element, List.mem_filterMap.2 ⟨key, horder, ?_⟩, ?_⟩
    · rw [SectionKind.field?] at hfield
      rw [hvalue, hfield]
      exact helement
    · rw [Field.name?_of_element? helement, (hlabel key hkey).2 rfl]

/-! ### Scopes and sections that show features -/

/-- A field that a feature is told by is written where it is used. -/
theorem FieldSet.IsShown.mem_namesAll {kind : SectionKind} {fields : FieldSet}
    (h : fields.IsShown kind) {key : String} (hkey : key ∈ Feature.keys) :
    key ∈ namesAll (fields.withMain.elements kind) ↔ fields.uses key := by
  rw [Element.namesAll_eq_fieldNames fun _ ↦ FieldSet.isStanza_of_mem_elements, h.mem_fieldNames hkey]

mutual

/-- In a branch it is written if it is used there or further inside. -/
theorem FieldSet.mem_names_branchElements {kind : SectionKind} {key : String}
    (hkey : key ∈ Feature.keys) (fields : FieldSet)
    (h : ∀ scope ∈ fields.scopes, scope.IsShown kind) :
    key ∈ namesAll (fields.branchElements kind) ↔ ∃ scope ∈ fields.scopes, scope.uses key := by
  rw [FieldSet.scopes] at h ⊢
  rw [List.forall_mem_cons] at h
  rw [FieldSet.branchElements, Element.namesAll_append, List.mem_append, h.1.mem_namesAll hkey,
    Conditional.mem_names_elements hkey fields.conditionals h.2]
  simp only [List.mem_cons, exists_eq_or_imp]
termination_by sizeOf fields
decreasing_by exact fields.sizeOf_conditionals_lt

/-- A list that shows a feature is written somewhere in the stanzas of conditionals exactly if it has
items in some scope of theirs. -/
theorem Conditional.mem_names_elements {kind : SectionKind} {key : String}
    (hkey : key ∈ Feature.keys) (conditionals : List Conditional)
    (h : ∀ scope ∈ Conditional.scopesIn conditionals, scope.IsShown kind) :
    key ∈ namesAll (Conditional.elements kind conditionals) ↔
      ∃ scope ∈ Conditional.scopesIn conditionals, scope.uses key := by
  match conditionals with
  | [] =>
    rw [Conditional.elements, Conditional.scopesIn]
    exact iff_of_false List.not_mem_nil fun ⟨_, hmem, _⟩ ↦ List.not_mem_nil hmem
  | ⟨_, thenFields, none⟩ :: rest =>
    rw [Conditional.scopesIn] at h ⊢
    rw [List.forall_mem_append] at h
    rw [Conditional.elements, namesAll, Element.names, List.mem_append,
      FieldSet.mem_names_branchElements hkey thenFields h.1,
      Conditional.mem_names_elements hkey rest h.2]
    simp only [List.mem_append, or_and_right, exists_or]
  | ⟨_, thenFields, some elseFields⟩ :: rest =>
    rw [Conditional.scopesIn] at h ⊢
    rw [List.forall_mem_append, List.forall_mem_append] at h
    rw [Conditional.elements, namesAll, namesAll, Element.names, Element.names, List.mem_append,
      List.mem_append, FieldSet.mem_names_branchElements hkey thenFields h.1.1,
      FieldSet.mem_names_branchElements hkey elseFields h.1.2,
      Conditional.mem_names_elements hkey rest h.2, ← or_assoc]
    simp only [List.mem_append, or_and_right, exists_or]
termination_by sizeOf conditionals

end

/-- A package without its overrides and those of its sections. -/
def Package.withoutOverrides (package : Package) : Package :=
  { package with
    sections := package.sections.map fun part ↦ { part with verbatim := [] }
    verbatim := [] }

/-- Whether all scopes of a section are written with the lists that show features, and the section has
a name if there can be several of its kind. -/
structure Section.IsShown (part : Section) : Prop where
  scopes : ∀ scope ∈ part.scopes, scope.IsShown part.kind
  name : part.name.isNone ↔ part.kind = .customSetup ∨ part.kind = .library

/-- In a section it is written if a scope of the section uses it. -/
theorem Section.IsShown.mem_namesAll {part : Section} (h : part.IsShown) {key : String}
    (hkey : key ∈ Feature.keys) :
    key ∈ namesAll (part.kind.opening ++ part.fields.withMain.elements part.kind ++
        Conditional.elements part.kind part.conditionals ++ part.kind.closing) ↔
      ∃ scope ∈ part.scopes, scope.uses key := by
  obtain ⟨hfields, hbranches⟩ := List.forall_mem_cons.1 h.scopes
  have hframe : ∀ key ∈ Feature.keys,
      key ∉ namesAll part.kind.opening ∧ key ∉ namesAll part.kind.closing := by
    cases part.kind <;> decide
  obtain ⟨hopening, hclosing⟩ := hframe key hkey
  rw [Element.namesAll_append, Element.namesAll_append, Element.namesAll_append, List.mem_append,
    List.mem_append, List.mem_append, or_iff_left hclosing, or_iff_right hopening,
    hfields.mem_namesAll hkey, Conditional.mem_names_elements hkey _ hbranches, Section.scopes]
  simp only [List.mem_cons, exists_eq_or_imp]

/-! ### Packages that show features -/

namespace Package

variable {package : Package}

/-- Without overrides a package is its header and its stanzas. -/
theorem elements_withoutOverrides (package : Package) :
    package.withoutOverrides.elements =
      package.withoutOverrides.headerElements ++ package.withoutOverrides.stanzas :=
  package.withoutOverrides.elements_eq

/-- Neither a repository nor a flag has a list that shows a feature. -/
theorem not_mem_namesAll_of_isStanza {header : String} {below : List Element} {sortable : Bool}
    (h : (∃ repository : SourceRepository, repository.element = .stanza header below sortable) ∨
      ∃ flag : Flag, flag.element = .stanza header below sortable) :
    ∀ key ∈ Feature.keys, key ∉ namesAll below := by
  obtain ⟨⟨location, subdir, kind⟩, h⟩ | ⟨⟨name, manual, default, description⟩, h⟩ := h
  · obtain ⟨-, rfl, -⟩ := Element.stanza.inj h
    simp only [Element.namesAll_append]
    split <;> simp only [namesAll, Element.names] <;> decide
  · obtain ⟨-, rfl, -⟩ := Element.stanza.inj h
    cases description <;> simp only [Element.namesAll_append, namesAll, Element.names, Option.map_none,
      Option.map_some, Option.toList_none, Option.toList_some] <;> decide

/-- A list that shows a feature is in a stanza exactly if it has items in some scope of a section. -/
theorem inStanza_iff (h : ∀ part ∈ package.sections, part.IsShown) {key : String}
    (hkey : key ∈ Feature.keys) :
    InStanza key package.withoutOverrides.elements ↔
      ∃ part ∈ package.sections, ∃ scope ∈ part.scopes, scope.uses key := by
  rw [elements_withoutOverrides]
  constructor
  · rintro ⟨header, below, sortable, hstanza, hnames⟩
    obtain hstanza | hstanza := List.mem_append.1 hstanza
    · cases isStanza_of_mem_headerElements hstanza
    · simp only [stanzas, withoutOverrides, List.map_map, List.mem_append, List.mem_map,
        Option.mem_toList, Option.map_eq_some_iff] at hstanza
      obtain (⟨repository, -, heq⟩ | ⟨flag, -, heq⟩) | ⟨part, hpart, heq⟩ := hstanza
      · exact absurd hnames (not_mem_namesAll_of_isStanza (.inl ⟨repository, heq⟩) key hkey)
      · exact absurd hnames (not_mem_namesAll_of_isStanza (.inr ⟨flag, heq⟩) key hkey)
      · obtain ⟨-, rfl, -⟩ := Element.stanza.inj heq
        exact ⟨part, hpart, ((h part hpart).mem_namesAll hkey).1 hnames⟩
  · rintro ⟨part, hpart, hscope⟩
    refine ⟨_, _, _, List.mem_append_right _ (List.mem_append_right _ (List.mem_map.2
      ⟨{ part with verbatim := [] }, List.mem_map_of_mem hpart, rfl⟩)), ?_⟩
    exact ((h part hpart).mem_namesAll hkey).2 hscope

/-- A header with a word of its own is there exactly if there is a section with its tag. -/
theorem mem_headers_iff (tag : Tag) (hword : ' ' ∉ tag.1.toList)
    (hrepository : tag.1 ≠ "source-repository") (hflag : tag.1 ≠ "flag") :
    tag.header ∈ headers package.withoutOverrides.elements ↔
      ∃ part ∈ package.sections, part.tag = tag := by
  have hheaders : headers package.withoutOverrides.elements =
      package.withoutOverrides.tags.map Tag.header := by
    have hnone : headers package.withoutOverrides.headerElements = [] := by
      refine List.filterMap_eq_nil_iff.2 fun element helement ↦ ?_
      have hfield := isStanza_of_mem_headerElements helement
      cases element with
      | stanza => cases hfield
      | field => rfl
      | raw => rfl
    rw [elements_withoutOverrides, headers, List.filterMap_append]
    rw [headers] at hnone
    rw [hnone, List.nil_append]
    exact headers_stanzas _
  rw [hheaders, List.mem_map]
  constructor
  · rintro ⟨tag', hmem, heq⟩
    cases Tag.eq_of_header_eq (space_not_mem_of_mem_tags hmem) hword heq
    simp only [tags, withoutOverrides, List.mem_append, List.map_map, List.mem_map,
      Option.mem_toList, Option.map_eq_some_iff] at hmem
    obtain (⟨_, -, heq⟩ | ⟨_, -, heq⟩) | ⟨part, hpart, heq⟩ := hmem
    · exact absurd (congrArg Prod.fst heq).symm hrepository
    · exact absurd (congrArg Prod.fst heq).symm hflag
    · exact ⟨part, hpart, heq⟩
  · rintro ⟨part, hpart, rfl⟩
    refine ⟨part.tag, List.mem_append_right _ (List.mem_map.2
      ⟨{ part with verbatim := [] }, List.mem_map_of_mem hpart, rfl⟩), rfl⟩

/-- The files for the documentation are in the header exactly if there are some. -/
theorem mem_fieldNames_docFiles_iff (h : package.fields.IsShaped) :
    "extra-doc-files" ∈ fieldNames package.withoutOverrides.elements ↔
      package.fields.uses "extra-doc-files" := by
  have hknown : Registry.find? Field.all "extra-doc-files" = some (Field.globs "extra-doc-files") := rfl
  have hlaid := h.exists_element? hknown (.inr rfl) (Field.globs "extra-doc-files")
  have hkeys : ∀ key ∈ Field.headerOrder, "extra-doc-files" ∈ headerLabels key →
      key = "extra-doc-files" := by
    decide
  have hlookup : package.withoutOverrides.headerElement? "extra-doc-files" =
      (package.fields.get? "extra-doc-files").bind (Field.globs "extra-doc-files").element? := by
    rw [Package.headerElement?.eq_5 _ _ (by simp) (by simp) (by simp) (by simp), hknown]
    change _ = (package.withoutOverrides.fields.get? "extra-doc-files").bind _
    cases package.withoutOverrides.fields.get? "extra-doc-files" <;> rfl
  rw [← hlaid, elements_withoutOverrides, fieldNames_append,
    fieldNames_of_isStanza fun _ ↦ isStanza_of_mem_stanzas, List.append_nil, fieldNames,
    List.mem_filterMap]
  constructor
  · rintro ⟨element, helement, hname⟩
    obtain ⟨key, hkey, helement⟩ := List.mem_filterMap.1 helement
    obtain ⟨label, hlabel, hlabelName⟩ := exists_headerLabel helement
    cases hlabelName.symm.trans hname
    rw [hkeys key hkey hlabel, hlookup] at helement
    obtain ⟨value, hvalue, helement⟩ := Option.bind_eq_some_iff.1 helement
    exact ⟨value, element, hvalue, helement⟩
  · rintro ⟨value, element, hvalue, helement⟩
    refine ⟨element, List.mem_filterMap.2 ⟨"extra-doc-files", by decide, ?_⟩,
      Field.name?_of_element? helement⟩
    rw [hlookup, hvalue]
    exact helement

/-- A setup program has a stanza of its own. -/
theorem mem_headers_setup_iff (h : ∀ part ∈ package.sections, part.IsShown) :
    "custom-setup" ∈ headers package.withoutOverrides.elements ↔
      ∃ part ∈ package.sections, part.kind = .customSetup := by
  refine (mem_headers_iff ("custom-setup", none) (by decide) (by decide) (by decide)).trans ?_
  refine exists_congr fun part ↦ and_congr_right fun hpart ↦ ?_
  rw [Section.tag, Prod.mk.injEq, ← Option.isNone_iff_eq_none, (h part hpart).name]
  cases part.kind <;> simp [SectionKind.header]

/-- The libraries with names are the internal ones. -/
theorem exists_mem_headers_library_iff (h : ∀ part ∈ package.sections, part.IsShown) :
    (∃ name, "library " ++ name ∈ headers package.withoutOverrides.elements) ↔
      ∃ part ∈ package.sections, part.kind = .internalLibrary := by
  have hkind (part : Section) (hpart : part ∈ package.sections) :
      (∃ name, part.tag = ("library", some name)) ↔ part.kind = .internalLibrary := by
    have hname := (h part hpart).name
    cases hkind : part.kind <;> cases hnamed : part.name <;>
      simp [Section.tag, SectionKind.header, hkind, hnamed] at hname ⊢
  have hheader (name : String) : "library " ++ name ∈ headers package.withoutOverrides.elements ↔
      ∃ part ∈ package.sections, part.tag = ("library", some name) :=
    mem_headers_iff ("library", some name) (show ' ' ∉ "library".toList by decide)
      (show "library" ≠ "source-repository" by decide) (show "library" ≠ "flag" by decide)
  constructor
  · rintro ⟨name, hmem⟩
    obtain ⟨part, hpart, htag⟩ := (hheader name).1 hmem
    exact ⟨part, hpart, (hkind part hpart).1 ⟨name, htag⟩⟩
  · rintro ⟨part, hpart, hinternal⟩
    obtain ⟨name, htag⟩ := (hkind part hpart).2 hinternal
    exact ⟨name, (hheader name).2 ⟨part, hpart, htag⟩⟩

/-- The description of a package has exactly the features that the package uses. -/
theorem occursIn_iff (hfields : package.fields.IsShaped)
    (h : ∀ part ∈ package.sections, part.IsShown) (feature : Feature) :
    feature.OccursIn package.withoutOverrides.elements ↔ feature.IsUsedBy package := by
  have hinStanza : ∀ key ∈ Feature.keys, InStanza key package.withoutOverrides.elements ↔
      ∃ part ∈ package.sections, ∃ scope ∈ part.scopes, scope.uses key := fun _ ↦ inStanza_iff h
  simp only [Feature.keys, List.forall_mem_cons, List.not_mem_nil, false_imp_iff, implies_true,
    and_true] at hinStanza
  obtain ⟨hreexports, hsignatures, hautogen⟩ := hinStanza
  rw [Feature.IsUsedBy]
  cases feature with
  | docFiles => simp [Feature.OccursIn, Feature.IsUsedIn, mem_fieldNames_docFiles_iff hfields]
  | reexports => simp [Feature.OccursIn, Feature.IsUsedIn, hreexports]
  | setup => simp [Feature.OccursIn, Feature.IsUsedIn, mem_headers_setup_iff h]
  | signatures => simp [Feature.OccursIn, Feature.IsUsedIn, hsignatures]
  | autogenModules => simp [Feature.OccursIn, Feature.IsUsedIn, hautogen]
  | internalLibrary => simp [Feature.OccursIn, Feature.IsUsedIn, exists_mem_headers_library_iff h]

end Package

/-! ### Scopes of packages that were read -/

mutual

/-- The scopes of a branch are the branch itself and what its conditionals contain. -/
theorem FieldSet.mem_scopes_iff (fields : FieldSet) {scope : FieldSet} :
    scope ∈ fields.scopes ↔ fields = scope ∨ Conditional.Contains fields.conditionals scope := by
  rw [FieldSet.scopes, List.mem_cons, Conditional.mem_scopesIn_iff, eq_comm]
termination_by sizeOf fields
decreasing_by exact fields.sizeOf_conditionals_lt

/-- The scopes of conditionals are what the conditionals contain. -/
theorem Conditional.mem_scopesIn_iff (conditionals : List Conditional) {scope : FieldSet} :
    scope ∈ Conditional.scopesIn conditionals ↔ Conditional.Contains conditionals scope := by
  match conditionals with
  | [] =>
    rw [Conditional.scopesIn]
    exact iff_of_false List.not_mem_nil (Conditional.not_contains_nil scope)
  | ⟨_, thenFields, none⟩ :: rest =>
    rw [Conditional.scopesIn, List.mem_append, FieldSet.mem_scopes_iff thenFields,
      Conditional.mem_scopesIn_iff rest, Conditional.contains_cons]
    simp [Conditional.branches]
  | ⟨_, thenFields, some elseFields⟩ :: rest =>
    rw [Conditional.scopesIn, List.mem_append, List.mem_append, FieldSet.mem_scopes_iff thenFields,
      FieldSet.mem_scopes_iff elseFields, Conditional.mem_scopesIn_iff rest,
      Conditional.contains_cons]
    simp [Conditional.branches]
termination_by sizeOf conditionals

end

/-- The scopes of a section are those that some path leads to. -/
theorem Section.mem_scopes_iff {part : Section} {scope : FieldSet} :
    scope ∈ part.scopes ↔ ∃ path, part.at? path = some scope := by
  rw [scopes, List.mem_cons, Conditional.mem_scopesIn_iff]
  constructor
  · rintro (rfl | ⟨turn, branch, path, hbranch, hscope⟩)
    · exact ⟨[], rfl⟩
    · exact ⟨turn :: path, (Conditional.scopeAt?_cons part.fields hbranch path).trans hscope⟩
  · rintro ⟨path, hscope⟩
    cases path with
    | nil => exact .inl (Option.some.inj hscope).symm
    | cons turn path =>
      obtain ⟨branch, hbranch, hscope⟩ := Option.bind_eq_some_iff.1 hscope
      exact .inr ⟨turn, branch, path, hbranch, hscope⟩

namespace FieldSet.IsShown

variable {kind : SectionKind} {fields : FieldSet}

/-- Inferring modules adds no list that is not written. -/
theorem withModules (h : fields.IsShown kind) (hkind : kind ≠ .customSetup) (modules : ModuleLists) :
    (fields.withModules modules).IsShown kind where
  isShaped := h.isShaped.withModules modules
  get?_eq_none key hkey horder := by
    have hautogen : key ≠ "autogen-modules" := by
      rintro rfl
      revert horder
      cases kind with
      | customSetup => exact absurd rfl hkind
      | _ => decide
    have hlists : ∀ key ∈ Feature.keys, key ∉ Field.moduleLists := by decide
    rw [get?_withModules_of_notMem (hlists key hkey) hautogen]
    exact h.get?_eq_none key hkey horder

/-- Conditionals do not change how the fields beside them are shown. -/
theorem insert_when (h : fields.IsShown kind) (nested : List Conditional) :
    (fields.insert "when" (.conditionals nested)).IsShown kind where
  isShaped := h.isShaped.insert (by simp) rfl rfl
  get?_eq_none key hkey horder := by
    have hwhen : "when" ≠ key := fun heq ↦ absurd (heq ▸ hkey) (by decide)
    rw [get?_insert, if_neg hwhen]
    exact h.get?_eq_none key hkey horder

end FieldSet.IsShown

namespace Section

variable {part : Section}

/-- A section that was read knows no list that is not written. -/
theorem Fits.isShown {writable : Prop} (h : part.Fits writable)
    (hname : part.name.isNone ↔ part.kind = .customSetup ∨ part.kind = .library) :
    part.IsShown where
  scopes scope hscope := by
    obtain ⟨path, hpath⟩ := mem_scopes_iff.1 hscope
    refine ⟨h.areShaped path scope hpath, fun key hkey horder ↦ ?_⟩
    have hunknown : ∀ key ∈ Feature.keys, key ∉ part.kind.order →
        part.kind.fields.find? key = none := by
      cases part.kind <;> decide
    exact (h.at? hpath).get?_eq_none (hunknown key hkey horder)
  name := hname

/-- Inferring modules adds no list that is not written. -/
theorem InfersTo.isShown {view : String → List String} {package : String} {result : Section}
    (hinfers : part.InfersTo view package result) (hkind : part.kind ≠ .customSetup)
    (h : part.IsShown) : result.IsShown := by
  have hscopes := hinfers.forall_at? (p := fun scope ↦ scope.IsShown part.kind)
    (fun _ modules hfields ↦ hfields.withModules hkind modules)
    (fun _ nested hfields ↦ hfields.insert_when nested)
    fun path scope hpath ↦ h.scopes scope (mem_scopes_iff.2 ⟨path, hpath⟩)
  cases hinfers with
  | mk =>
    refine ⟨fun scope hscope ↦ ?_, h.name⟩
    obtain ⟨path, hpath⟩ := mem_scopes_iff.1 hscope
    exact hscopes path scope hpath

/-- Inference leaves a section as it has to be shown. -/
theorem meets_isShown {lister : Lister} {view : String → List String} {writable : Prop}
    (hfits : part.Fits writable) (h : part.IsShown) (package : String) :
    Discovery.Meets lister view IsShown (part.infer lister package) := by
  by_cases hkind : part.kind = .customSetup
  · -- The setup program stays as it is.
    rw [infer, inferWith, if_pos hkind]
    exact .pure h
  · exact (meets_infer hkind hfits.lists_of_not_exposes).imp fun result hinfers ↦
      hinfers.isShown hkind h

end Section

/-- Sections have names, apart from a setup program and the library of a package. -/
theorem FieldSet.isNone_name_of_mem_sections {top : FieldSet} {packageName : String} {part : Section}
    (h : part ∈ top.sections packageName) :
    part.name.isNone ↔ part.kind = .customSetup ∨ part.kind = .library := by
  simp only [sections, List.mem_append, List.mem_map] at h
  obtain ((((⟨_, -, rfl⟩ | ⟨_, -, rfl⟩) | ⟨_, -, rfl⟩) | ⟨_, -, rfl⟩) | ⟨_, -, rfl⟩) | ⟨_, -, rfl⟩ := h <;>
    simp [sectionOf]

namespace Package

variable {σ : Type} {context : Context σ} {bound : Nat} {value : Value} {top : FieldSet}
  {s t : Progress σ} {source : String} {hasLicense : Bool} {warnings : List Warning}
  {found package : Package} {lister : Lister} {memory memory' : Discovery}

/-- A package that is read and inferred is as it has to be shown. -/
theorem isShown_of_run (hread : (context.package bound value).run s = (.ok top, t))
    (hpackage : ofFields source hasLicense top = (warnings, .ok found))
    (hinfer : (found.infer lister).run memory = .ok (package, memory')) :
    package.fields.IsShaped ∧ ∀ part ∈ package.sections, part.IsShown := by
  have hyields := (Context.fits_of_run_package hread).yields_ofFields source hasLicense
  rw [hpackage] at hyields
  have hfits := hyields.of_ok
  obtain ⟨sections, _, hsections, hresult⟩ := exists_of_bind_run hinfer
  rw [eq_of_pure_run hresult]
  refine ⟨hfits.fields, ?_⟩
  have hmeets : Discovery.Meets lister (Discovery.shown lister memory)
      (fun sections ↦ ∀ part ∈ sections, part.IsShown)
      (found.sections.mapM (Section.infer lister found.name)) := by
    refine .forall_mapM fun part hpart ↦ ?_
    have hpartFits := hfits.sections part hpart
    rw [(exists_of_ofFields hpackage).1] at hpart
    exact Section.meets_isShown hpartFits
      (hpartFits.isShown (FieldSet.isNone_name_of_mem_sections hpart)) found.name
  have hrun := hmeets memory rfl
  rw [show (found.sections.mapM (Section.infer lister found.name)).run memory = _ from hsections]
    at hrun
  exact hrun.of_ok.2

/-- The version of the format is the latest of the lowest one and those that the features of the
description ask for, its overrides left out: of every manifest that was read, with the modules that
were found. -/
theorem formatVersion_isLatest (hread : (context.package bound value).run s = (.ok top, t))
    (hpackage : ofFields source hasLicense top = (warnings, .ok found))
    (hinfer : (found.infer lister).run memory = .ok (package, memory')) :
    package.formatVersion.IsLatest fun v ↦
      v = .lowest ∨
        ∃ feature : Feature, feature.OccursIn package.withoutOverrides.elements ∧ v = feature.since := by
  obtain ⟨hfields, hsections⟩ := isShown_of_run hread hpackage hinfer
  refine package.formatVersion_isLatest_of_uses.congr fun v ↦ ?_
  simp only [occursIn_iff hfields hsections]

/-! A library passes a module on, and has another one that is generated. -/

/-- The body of the library. -/
def passingBody : FieldSet :=
  ⟨[("exposed-modules", .texts []), ("other-modules", .texts []),
    ("generated-other-modules", .texts ["Build"]), ("reexported-modules", .texts ["Data.Map"])]⟩

/-- A manifest with this library. -/
def passingManifest : Value :=
  .object [("name", .text "foo"), ("library", .object [("exposed-modules", .array []),
    ("other-modules", .array []), ("generated-other-modules", .array [.text "Build"]),
    ("reexported-modules", .array [.text "Data.Map"])])]

/-- The fields of the library with its modules. -/
def passingFields : FieldSet :=
  ⟨[("reexported-modules", .texts ["Data.Map"]), ("other-modules", .texts ["Build"]),
    ("autogen-modules", .texts ["Build"])]⟩

/-- The manifest with signatures is read without a complaint. -/
theorem run_package_passing :
    (sampleContext.package 0 passingManifest).run ⟨[], ()⟩ =
      (.ok ⟨[("name", .text "foo"), ("library", .body passingBody)]⟩, ⟨[], ()⟩) := by
  simp only [passingManifest, Context.package, Context.scope, Context.fields, Context.fieldValue,
    Context.body]
  rfl

/-- The package of this manifest, whose library has some fields. -/
def passingPackage (fields : FieldSet) : Package where
  name := "foo"
  version := "0.0.0"
  fields := ⟨[("build-type", .text "Simple")]⟩
  sections := [⟨.library, none, fields, [], []⟩]
  flags := []
  sourceRepository := none
  verbatim := []

/-- It becomes a package, again without a complaint. -/
theorem ofFields_passing :
    ofFields "package.yaml" false ⟨[("name", .text "foo"), ("library", .body passingBody)]⟩ =
      ([], .ok (passingPackage passingBody)) := by
  set top : FieldSet := ⟨[("name", .text "foo"), ("library", .body passingBody)]⟩ with htop
  have hmerge : top.mergeSection passingBody = passingBody := by
    simp only [FieldSet.mergeSection, FieldSet.merge_eq]
    rfl
  have hsection : top.sectionOf .library none passingBody = ⟨.library, none, passingBody, [], []⟩ := by
    rw [FieldSet.sectionOf, hmerge]
    rfl
  rw [passingPackage, ← hsection]
  rfl

/-- Inference adds the empty lists of modules and nothing else. -/
theorem infer_passing :
    ((passingPackage passingBody).infer fun _ ↦ .ok none).run Discovery.start =
      .ok (passingPackage passingFields, Discovery.start) := by
  simp only [infer, inferWith, passingPackage, List.mapM_cons, List.mapM_nil, Section.inferWith,
    Conditional.inferAll]
  rfl

/-- The generated module asks for a later version than the one that is passed on. -/
theorem formatVersion_isLatest_passing :
    (⟨2, 0⟩ : FormatVersion).IsLatest fun v ↦ v = .lowest ∨ ∃ feature : Feature,
      feature.OccursIn (passingPackage passingFields).withoutOverrides.elements ∧
        v = feature.since := by
  have hversion : (passingPackage passingFields).formatVersion = ⟨2, 0⟩ := by
    simp only [formatVersion, passingPackage, List.flatMap_cons, List.flatMap_nil,
      Section.formatVersions, Conditional.scopesIn]
    rfl
  rw [← hversion]
  exact formatVersion_isLatest run_package_passing ofFields_passing infer_passing

end Package

end CabalManifest
