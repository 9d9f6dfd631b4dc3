import CabalManifest.Proofs.Arrangement
import CabalManifest.Proofs.LegibleFields
import CabalManifest.Proofs.ShapedFields

/-!
# Packages that can be written

What is laid out without a case of its own is left out silently, so that a package can be written as a
whole only if that never happens: every field that is looked up has a registry that knows it and a
value that its field lays out, and every list with commas has a first item (`Package.CanBeWritten`).
A package with a shaped header and shaped sections can be written, whatever its overrides and the
hints are (`Package.canBeWritten`).
-/

namespace CabalManifest

/-! ### Values that are laid out -/

/-- Whether a field lays a value out. Items are texts, but for the dependencies of their field. -/
def Field.LaysOut (field : Field) : FieldValue → Prop
  | .dependencies _ => field.form = .dependencies
  | .texts _ | .text _ | .bool _ => field.form ≠ .dependencies
  | _ => False

/-- Whether values of a form are laid out as a field. -/
def Form.isWritten : Form → Bool
  | .conditionals | .verbatim | .defaults | .body _ | .bodies _ | .flags => false
  | _ => true

theorem FieldValue.HasForm.laysOut {field : Field} {value : FieldValue}
    (h : value.HasForm field.form) (hnull : value ≠ .null) (hwritten : field.form.isWritten) :
    field.LaysOut value := by
  cases value with
  | null => exact absurd rfl hnull
  | text =>
    obtain ⟨nullable, hform⟩ | hform | ⟨words, hform⟩ := h <;> simp [Field.LaysOut, hform]
  | bool => simp [Field.LaysOut, show field.form = .bool from h]
  | texts => obtain ⟨nullable, hform⟩ | hform := h <;> simp [Field.LaysOut, hform]
  | dependencies => exact h
  | conditionals | verbatim =>
    rw [HasForm] at h
    rw [h] at hwritten
    cases hwritten
  | flags =>
    rw [h.1] at hwritten
    cases hwritten
  | body | bodies =>
    obtain ⟨⟨kind, hform⟩, -⟩ := h
    rw [hform] at hwritten
    cases hwritten

/-! ### Scopes -/

/-- Whether a scope in a section of some kind can be written: its main file is a text, its
conditionals are a list, and every field that is looked up in it is laid out. -/
structure FieldSet.CanBeWritten (kind : SectionKind) (fields : FieldSet) : Prop where
  isShaped : fields.IsShaped
  laysOut : ∀ key ∈ kind.order, ∀ value, fields.withMain.get? key = some value →
    ∃ field, kind.field? key = some field ∧ field.LaysOut value

/-- The fields of a section are written, in the form that they have everywhere. -/
theorem SectionKind.form_of_mem_order (kind : SectionKind) : ∀ key ∈ kind.order,
    (kind.field? key).map (·.form) = (Registry.find? Field.all key).map (·.form) ∧
      (Registry.find? Field.all key).any (·.form.isWritten) := by
  cases kind <;> decide

theorem FieldSet.IsShaped.canBeWritten {fields : FieldSet} (h : fields.IsShaped)
    (kind : SectionKind) : fields.CanBeWritten kind where
  isShaped := h
  laysOut key hkey value hvalue := by
    obtain ⟨hnull, known, hknown, hform⟩ := h.withMain.of_get? hvalue
    -- The section may know the field by a name of its own, but not in a form of its own.
    obtain ⟨hsame, hwritten⟩ := kind.form_of_mem_order key hkey
    rw [hknown] at hsame hwritten
    obtain ⟨field, hfield, hfieldForm⟩ := Option.map_eq_some_iff.1 hsame
    have hvalueForm : value.HasForm field.form := by rwa [hfieldForm]
    refine ⟨field, hfield, hvalueForm.laysOut hnull ?_⟩
    rwa [hfieldForm]

/-! ### Items -/

/-- Whether all lists with commas in an element have a first item. -/
inductive Element.HasItems : Element → Prop
  | field (name : String) {content : Content} (h : content ≠ .commas []) :
    HasItems (.field name content)
  | stanza (header : String) {elements : List Element} (sortable : Bool)
    (h : ∀ element ∈ elements, element.HasItems) : HasItems (.stanza header elements sortable)
  | raw (lines : List String) : HasItems (.raw lines)

namespace Element

theorem hasItems_ofText (name text : String) : HasItems (.field name (.ofText text)) := by
  refine .field name ?_
  rw [Content.ofText]
  split <;> simp

theorem hasItems_inline (name text : String) : HasItems (.field name (.inline text)) :=
  .field name (by simp)

/-- Arranging elements leaves their items as they are. -/
theorem HasItems.arrange {element : Element} (h : element.HasItems) (hints : LayoutHints) :
    (hints.arrange element).HasItems := by
  induction h with
  | field name h => exact .field name h
  | raw lines => exact .raw lines
  | @stanza header elements sortable h ih =>
    have harranged : ∀ child ∈ hints.arrangeAll elements, child.HasItems := by
      rw [LayoutHints.arrangeAll_eq_map]
      exact List.forall_mem_map.2 ih
    rw [LayoutHints.arrange]
    refine .stanza header sortable ?_
    split
    · exact fun child hchild ↦ harranged child ((perm_sortBy _ _).mem_iff.1 hchild)
    · exact harranged

end Element

/-! A field without items is not written, so that no list with commas is empty. -/

theorem Field.hasItems_of_element? {field : Field} {value : FieldValue} {element : Element}
    (h : field.element? value = some element) : element.HasItems := by
  have hitems (items : List String) (h : field.itemsElement items = some element) :
      element.HasItems := by
    rw [Field.itemsElement] at h
    split at h
    · cases h
    · next hempty =>
      cases h
      refine .field _ ?_
      cases field.style with
      | commas =>
        rintro ⟨⟩
        exact hempty rfl
      | _ => simp
  cases value with
  | dependencies | texts => exact hitems _ h
  | bool =>
    cases h
    exact Element.hasItems_inline _ _
  | text =>
    cases h
    exact Element.hasItems_ofText _ _
  | _ => cases h

theorem FieldSet.passes_hasItems (fields : FieldSet) (kind : SectionKind) :
    fields.Passes Element.HasItems kind :=
  fun _ _ _ _ _ _ hlaid ↦ Field.hasItems_of_element? hlaid

theorem Verbatim.passes_hasItems (entry : Verbatim) : entry.Passes Element.HasItems := by
  cases entry with
  | raw text => exact .raw (textLines text)
  | fields values => exact fun value _ ↦ Element.hasItems_ofText value.1 _

theorem Section.passes_hasItems (part : Section) : part.Passes (fun _ ↦ True) Element.HasItems where
  header := trivial
  type := Element.hasItems_inline _ _
  language := Element.hasItems_inline _ _
  fields := part.fields.withMain.passes_hasItems part.kind
  conditionals := Conditional.forall_elements (fun _ _ (_ : True) ↦ .stanza _ false) trivial
    (fun _ (_ : True) ↦ ⟨trivial, fun branch _ ↦ ⟨branch.withMain.passes_hasItems part.kind,
      fun _ _ ↦ trivial⟩⟩) fun _ _ ↦ trivial
  verbatim entry _ := entry.passes_hasItems

namespace Package

theorem passes_hasItems (package : Package) : package.Passes (fun _ ↦ True) Element.HasItems where
  header := ⟨Element.hasItems_inline _ _, Element.hasItems_inline _ _, Element.hasItems_inline _ _,
    fun _ _ ↦ Element.hasItems_inline _ _, .field _ (by simp),
    fun _ _ _ _ _ _ hlaid ↦ Field.hasItems_of_element? hlaid⟩
  sourceRepository _ _ := ⟨trivial, Element.hasItems_inline _ _, Element.hasItems_inline _ _,
    fun _ _ ↦ Element.hasItems_inline _ _⟩
  flags _ _ := ⟨trivial, fun _ _ ↦ Element.hasItems_ofText _ _, Element.hasItems_inline _ _,
    Element.hasItems_inline _ _⟩
  sections part _ := part.passes_hasItems
  verbatim entry _ := entry.passes_hasItems

/-- No list with commas of a package is empty, whatever the hints are. -/
theorem hasItems_arranged (package : Package) (hints : LayoutHints) :
    ∀ element ∈ package.arranged hints, element.HasItems := by
  have helements : ∀ element ∈ package.elements, element.HasItems :=
    package.passes_hasItems.elements fun _ _ _ ↦ .stanza _ true
  intro element helement
  obtain ⟨given, hgiven, rfl⟩ :=
    List.mem_map.1 ((hints.arrangeTop_perm package.elements).mem_iff.1 helement)
  exact (helements given hgiven).arrange hints

end Package

/-! ### Packages -/

/-- Whether a package can be written: every field of the header and of the scopes in its sections is
laid out, license files are a list, and every list with commas has a first item. -/
structure Package.CanBeWritten (package : Package) : Prop where
  header : ∀ key ∈ Field.headerOrder, ∀ value, package.fields.get? key = some value →
    ∃ field, Registry.find? Field.all key = some field ∧ field.LaysOut value
  licenses : ∀ value, package.fields.get? "license-file" = some value → ∃ files, value = .texts files
  sections : ∀ part ∈ package.sections, ∀ path scope, part.at? path = some scope →
    scope.CanBeWritten part.kind
  items : ∀ hints, ∀ element ∈ package.arranged hints, element.HasItems

theorem Field.isWritten_of_header : ∀ key ∈ Field.headerOrder,
    (Registry.find? Field.all key).all (·.form.isWritten) := by
  decide

/-- A shaped package can be written. -/
theorem Package.canBeWritten {package : Package} (hfields : package.fields.IsShaped)
    (hsections : ∀ part ∈ package.sections, AreShaped part.at?) : package.CanBeWritten where
  header key hkey value hvalue := by
    obtain ⟨hnull, field, hfield, hform⟩ := hfields.of_get? hvalue
    have hwritten := Field.isWritten_of_header key hkey
    rw [hfield] at hwritten
    exact ⟨field, hfield, hform.laysOut hnull hwritten⟩
  licenses value hvalue := by
    obtain ⟨-, field, hfield, hform⟩ := hfields.of_get? hvalue
    cases hfield
    cases value with
    | texts files => exact ⟨files, rfl⟩
    | _ => simp [FieldValue.HasForm, Field.texts] at hform
  sections part hpart path scope hscope := (hsections part hpart path scope hscope).canBeWritten _
  items := package.hasItems_arranged

end CabalManifest
