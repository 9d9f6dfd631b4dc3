import CabalManifest.Proofs.FieldOrder
import CabalManifest.Proofs.TestedElements
import CabalManifest.Rendering

/-!
# How hints arrange a package

Hints sort the elements at the top of a package and those of its sections. The arranged elements are
what is written, one after another (`Package.lines_eq`). Arranging changes nothing but the order of
elements: the fields keep their names and contents, and a stanza stays a stanza with its header.
-/

namespace CabalManifest

open Element

/-- Elements at the top, arranged as hints say. -/
def LayoutHints.arrangeTop (hints : LayoutHints) (elements : List Element) : List Element :=
  sortBy hints.fieldOrder (hints.arrangeAll elements)

/-- The elements of a package, arranged as hints say. -/
def Package.arranged (package : Package) (hints : LayoutHints) : List Element :=
  hints.arrangeTop package.elements

theorem Package.lines_eq (package : Package) (hints : LayoutHints) :
    package.lines hints = hints.topLines none (package.arranged hints) :=
  rfl

namespace LayoutHints

variable (hints : LayoutHints)

@[simp]
theorem arrangeAll_eq_map (elements : List Element) :
    hints.arrangeAll elements = elements.map hints.arrange := by
  induction elements with
  | nil => rfl
  | cons element rest ih => rw [arrangeAll, ih, List.map_cons]

@[simp]
theorem name?_arrange (element : Element) : (hints.arrange element).name? = element.name? := by
  cases element <;> rfl

@[simp]
theorem isStanza_arrange (element : Element) :
    isStanza (hints.arrange element) = isStanza element := by
  cases element <;> rfl

theorem arrange_of_not_stanza {element : Element} (h : isStanza element = false) :
    hints.arrange element = element := by
  cases element with
  | stanza => cases h
  | field => rfl
  | raw => rfl

section Unordered

variable {hints}

mutual

/-- Hints that know no order of a section leave each element as it is. -/
theorem arrange_of_unordered (h : hints.sectionOrders = []) :
    ∀ element : Element, hints.arrange element = element
  | .field .. => arrange_of_not_stanza hints rfl
  | .raw .. => arrange_of_not_stanza hints rfl
  | .stanza header elements sortable => by
    rw [arrange, arrangeAll_of_unordered h elements, h]
    cases sortable with
    | true => exact congrArg (stanza header · true) (sortBy_nil elements)
    | false => rfl

theorem arrangeAll_of_unordered (h : hints.sectionOrders = []) :
    ∀ elements : List Element, hints.arrangeAll elements = elements
  | [] => rfl
  | element :: elements => by
    rw [arrangeAll, arrange_of_unordered h element, arrangeAll_of_unordered h elements]

end

/-- Hints that know no order at all leave a package as it is. -/
theorem arrangeTop_of_unordered (hfields : hints.fieldOrder = []) (hsections : hints.sectionOrders = [])
    (elements : List Element) : hints.arrangeTop elements = elements := by
  rw [arrangeTop, arrangeAll_of_unordered hsections, hfields, sortBy_nil]

end Unordered

theorem arrangeTop_perm (elements : List Element) :
    (hints.arrangeTop elements).Perm (elements.map hints.arrange) := by
  rw [arrangeTop, arrangeAll_eq_map]
  exact perm_sortBy _ _

theorem fieldNames_map_arrange (elements : List Element) :
    fieldNames (elements.map hints.arrange) = fieldNames elements := by
  simp [fieldNames, List.filterMap_map]

end LayoutHints

theorem Element.name?_of_isStanza {element : Element} (h : LayoutHints.isStanza element) :
    element.name? = none := by
  cases element with
  | stanza => rfl
  | field => cases h
  | raw => cases h

theorem Element.isStanza_of_name? {element : Element} (h : element.name?.isSome) :
    LayoutHints.isStanza element = false := by
  cases element with
  | field => rfl
  | stanza => cases h
  | raw => rfl

/-! ### The elements of a package -/

namespace Package

/-- The header of a package, in its standard order. -/
def headerElements (package : Package) : List Element :=
  Field.headerOrder.filterMap package.headerElement?

/-- The stanzas of a package, in their standard order. -/
def stanzas (package : Package) : List Element :=
  (package.sourceRepository.map SourceRepository.element).toList ++
    package.flags.map Flag.element ++ package.sections.map Section.element

theorem elements_eq (package : Package) :
    package.elements =
      overrideAll (package.headerElements ++ package.stanzas) package.verbatim := by
  simp [elements, headerElements, stanzas]

/-- All stanzas are stanzas. -/
theorem isStanza_of_mem_stanzas {package : Package} {element : Element}
    (h : element ∈ package.stanzas) : LayoutHints.isStanza element := by
  simp only [stanzas, List.mem_append, List.mem_map, Option.mem_toList, Option.map_eq_some_iff]
    at h
  obtain (⟨repository, -, rfl⟩ | ⟨flag, -, rfl⟩) | ⟨part, -, rfl⟩ := h <;> rfl

end Package

/-- A field is laid out as a field under its label. -/
theorem Field.name?_of_element? {field : Field} {value : FieldValue} {element : Element}
    (h : field.element? value = some element) : element.name? = some field.label := by
  have items : ∀ texts, field.itemsElement texts = some element →
      element.name? = some field.label := by
    intro texts htexts
    rw [Field.itemsElement] at htexts
    split at htexts
    · cases htexts
    · cases htexts
      rfl
  cases value with
  | dependencies => exact items _ h
  | texts => exact items _ h
  | bool => cases h; rfl
  | text => cases h; rfl
  | _ => cases h

/-- The fields of a scope are no stanzas. -/
theorem FieldSet.isStanza_of_mem_elements {fields : FieldSet} {kind : SectionKind}
    {element : Element} (h : element ∈ fields.elements kind) :
    LayoutHints.isStanza element = false := by
  have hpasses : fields.Passes (LayoutHints.isStanza · = false) kind :=
    fun _ _ _ _ _ _ hlaid ↦ Element.isStanza_of_name? (by rw [Field.name?_of_element? hlaid]; rfl)
  exact hpasses.elements element h

/-- The elements of the header have names. -/
theorem Package.name?_of_headerElement? {package : Package} {key : String} {element : Element}
    (h : package.headerElement? key = some element) : element.name?.isSome := by
  have hpasses : package.PassesHeader (·.name?.isSome) :=
    ⟨rfl, rfl, rfl, fun _ _ ↦ rfl, rfl,
      fun _ _ _ _ _ _ hlaid ↦ by rw [Field.name?_of_element? hlaid]; rfl⟩
  exact hpasses.of_headerElement? h

end CabalManifest
