import CabalManifest.Proofs.LegibleFields

/-!
# Packages that are written legibly

A package whose names and values are tidy is laid out in elements whose order can be told from what
is written of them (`Package.IsTidy.isOrderly_elements`), so that its description can be written again
without a change.
-/

namespace CabalManifest

open LayoutHints
open Element (fieldNames)
open Text (Tidy)

/-! ### Overrides -/

/-- An override of fields by texts that pass a test. -/
def Verbatim.IsTidy (isText : String → Prop) : Verbatim → Prop
  | .raw _ => False
  | .fields entries => ∀ entry ∈ entries, isFieldName entry.1.toList ∧ isText entry.2.plain

namespace Element

/-- Elements that come from others by removing fields, or by giving them legible values. -/
structure Changes (before after : List Element) : Prop where
  isLegibleField_of_mem : ∀ element ∈ after, element ∈ before ∨ element.IsLegibleField
  headers_eq : headers after = headers before
  fieldNames_sublist : (fieldNames after).Sublist (fieldNames before)

theorem Changes.refl (elements : List Element) : Changes elements elements :=
  ⟨fun _ ↦ .inl, rfl, .refl _⟩

theorem Changes.cons {xs ys : List Element} (h : Changes xs ys) (element : Element) :
    Changes (element :: xs) (element :: ys) := by
  obtain ⟨hmem, hheaders, hnames⟩ := h
  refine ⟨fun other hother ↦ ?_, ?_, ?_⟩
  · rcases List.mem_cons.1 hother with rfl | hother
    · exact .inl List.mem_cons_self
    · exact (hmem other hother).imp_left (List.mem_cons_of_mem _)
  · rw [headers, headers] at hheaders ⊢
    rw [List.filterMap_cons, List.filterMap_cons, hheaders]
  · rw [fieldNames, fieldNames] at hnames ⊢
    cases hname : element.name? with
    | none => rwa [List.filterMap_cons_none hname, List.filterMap_cons_none hname]
    | some name =>
      rw [List.filterMap_cons_some hname, List.filterMap_cons_some hname]
      exact hnames.cons_cons name

theorem header?_of_name? {element : Element} {name : String} (h : element.name? = some name) :
    header? element = none := by
  cases element with
  | field => rfl
  | stanza => cases h
  | raw => cases h

theorem changes_removeField (name : String) (elements : List Element) :
    Changes elements (removeField name elements) := by
  induction elements with
  | nil => exact .refl _
  | cons first rest ih =>
    rw [removeField]
    split
    · next hfirst =>
      refine ⟨fun element helement ↦ .inl (List.mem_cons_of_mem _ helement), ?_, ?_⟩
      · rw [headers, headers, List.filterMap_cons_none (header?_of_name? hfirst)]
      · exact (List.sublist_cons_self first rest).filterMap _
    · exact ih.cons first

theorem changes_replaceField {name : String} (hname : isFieldName name.toList)
    {content : Content} (hcontent : content.Legible) (elements : List Element) :
    Changes elements (replaceField name content elements) := by
  induction elements with
  | nil => exact .refl _
  | cons first rest ih =>
    rw [replaceField]
    split
    · next hfirst =>
      refine ⟨fun element helement ↦ ?_, ?_, ?_⟩
      · rcases List.mem_cons.1 helement with rfl | helement
        · exact .inr ⟨name, content, rfl, hname, hcontent⟩
        · exact .inl (List.mem_cons_of_mem _ helement)
      · rw [headers, headers, List.filterMap_cons_none (header?_of_name? hfirst)]
        rfl
      · rw [fieldNames, fieldNames, List.filterMap_cons_some hfirst]
        exact .refl _
    · exact ih.cons first

/-- Elements that come from others by overriding fields. -/
structure Overrides (before after : List Element) : Prop where
  isLegibleField_of_mem : ∀ element ∈ after, element ∈ before ∨ element.IsLegibleField
  headers_eq : headers after = headers before
  fieldNames_nodup : (fieldNames before).Nodup → (fieldNames after).Nodup

theorem Changes.overrides {xs ys : List Element} (h : Changes xs ys) : Overrides xs ys :=
  ⟨h.isLegibleField_of_mem, h.headers_eq, fun hnodup ↦ hnodup.sublist h.fieldNames_sublist⟩

theorem Overrides.refl (elements : List Element) : Overrides elements elements :=
  (Changes.refl elements).overrides

theorem Overrides.trans {xs ys zs : List Element} (hxy : Overrides xs ys) (hyz : Overrides ys zs) :
    Overrides xs zs := by
  refine ⟨fun element helement ↦ ?_, hyz.headers_eq.trans hxy.headers_eq,
    hyz.fieldNames_nodup ∘ hxy.fieldNames_nodup⟩
  rcases hyz.isLegibleField_of_mem element helement with h | h
  · exact hxy.isLegibleField_of_mem element h
  · exact .inr h

/-- A field that is not there yet is added at the end. -/
theorem overrides_append {name : String} (hname : isFieldName name.toList) {content : Content}
    (hcontent : content.Legible) {elements : List Element}
    (hnew : elements.any (fun element ↦ element.name? = some name) = false) :
    Overrides elements (elements ++ [.field name content]) := by
  refine ⟨fun element helement ↦ ?_, ?_, fun hnodup ↦ ?_⟩
  · rcases List.mem_append.1 helement with helement | helement
    · exact .inl helement
    · rw [List.mem_singleton.1 helement]
      exact .inr ⟨name, content, rfl, hname, hcontent⟩
  · rw [headers, headers, List.filterMap_append]
    exact List.append_nil _
  · have hnot : name ∉ fieldNames elements := by
      rw [fieldNames, List.mem_filterMap]
      rintro ⟨element, helement, heq⟩
      have hfalse := List.any_eq_false.1 hnew element helement
      simp [heq] at hfalse
    rw [fieldNames, List.filterMap_append]
    exact hnodup.append (List.nodup_singleton name) (List.disjoint_singleton.2 hnot)

theorem overrides_overrideField {name : String} {value : Scalar} (hname : isFieldName name.toList)
    (hvalue : IsLegibleText value.plain) (elements : List Element) :
    Overrides elements (overrideField elements name value) := by
  rw [overrideField.eq_def]
  split
  · exact (changes_removeField name elements).overrides
  · simp only
    split
    · exact (changes_replaceField hname hvalue elements).overrides
    · next hnew => exact overrides_append hname hvalue (Bool.eq_false_iff.2 hnew)

/-- Steps that override fields one after another override fields. -/
theorem overrides_foldl {α : Type} {step : List Element → α → List Element} {items : List α}
    (h : ∀ item ∈ items, ∀ elements, Overrides elements (step elements item))
    (elements : List Element) : Overrides elements (items.foldl step elements) := by
  induction items generalizing elements with
  | nil => exact .refl elements
  | cons item items ih =>
    rw [List.foldl_cons]
    exact (h item List.mem_cons_self elements).trans
      (ih (fun other hother ↦ h other (List.mem_cons_of_mem _ hother)) _)

/-- Tidy overrides change nothing but fields. -/
theorem overrides_overrideAll {entries : List Verbatim}
    (h : ∀ entry ∈ entries, entry.IsTidy IsLegibleText) (elements : List Element) :
    Overrides elements (overrideAll elements entries) := by
  refine overrides_foldl (fun entry hentry elements ↦ ?_) elements
  cases entry with
  | raw text => exact (h _ hentry).elim
  | fields values =>
    exact overrides_foldl
      (fun value hvalue elements ↦ overrides_overrideField (h _ hentry value hvalue).1
        (h _ hentry value hvalue).2 elements) elements

end Element

/-! ### Names of fields -/

/-- Fields that are looked up key by key have the names that their keys admit. -/
theorem fieldNames_filterMap_sublist {element? : String → Option Element}
    {labels : String → List String}
    (h : ∀ key element, element? key = some element → ∃ label ∈ labels key,
      element.name? = some label) (order : List String) :
    (fieldNames (order.filterMap element?)).Sublist (order.flatMap labels) := by
  induction order with
  | nil => exact .refl _
  | cons key rest ih =>
    rw [fieldNames] at ih ⊢
    rw [List.flatMap_cons]
    cases helement : element? key with
    | none =>
      rw [List.filterMap_cons_none helement]
      exact ih.trans (List.sublist_append_right _ _)
    | some element =>
      obtain ⟨label, hlabel, hname⟩ := h key element helement
      rw [List.filterMap_cons_some helement, List.filterMap_cons_some hname]
      exact (List.singleton_sublist.2 hlabel).append ih

/-- The names that the key of a field of a section admits. -/
def SectionKind.labels (kind : SectionKind) (key : String) : List String :=
  ((kind.field? key).map (·.label)).toList

theorem nodup_labels (kind : SectionKind) :
    (fieldNames kind.opening ++ kind.order.flatMap kind.labels ++ fieldNames kind.closing).Nodup := by
  cases kind <;> decide

theorem fieldNames_elements_sublist (fields : FieldSet) (kind : SectionKind) :
    (fieldNames (fields.elements kind)).Sublist (kind.order.flatMap kind.labels) := by
  refine fieldNames_filterMap_sublist (fun key element helement ↦ ?_) kind.order
  split at helement
  · next value field hget hfield =>
    refine ⟨field.label, ?_, Field.name?_of_element? helement⟩
    rw [SectionKind.labels, SectionKind.field?, hfield]
    exact List.mem_singleton_self _
  · cases helement

theorem fieldNames_of_isStanza {elements : List Element} (h : ∀ element ∈ elements, isStanza element) :
    fieldNames elements = [] :=
  List.filterMap_eq_nil_iff.2 fun element helement ↦ Element.name?_of_isStanza (h element helement)

/-- The names that the key of a header field admits. -/
def headerLabels (key : String) : List String :=
  if key = "license-file" then ["license-file", "license-files"]
  else if key = "name" ∨ key = "version" ∨ key = "cabal-version" then [key]
  else ((Registry.find? Field.all key).map (·.label)).toList

theorem nodup_headerLabels : (Field.headerOrder.flatMap headerLabels).Nodup := by
  decide

theorem Package.exists_headerLabel {package : Package} {key : String} {element : Element}
    (helement : package.headerElement? key = some element) :
    ∃ label ∈ headerLabels key, element.name? = some label := by
  rw [Package.headerElement?.eq_def] at helement
  split at helement
  · cases helement
    exact ⟨"name", by decide, rfl⟩
  · cases helement
    exact ⟨"version", by decide, rfl⟩
  · cases helement
    exact ⟨"cabal-version", by decide, rfl⟩
  · rw [licenseElement?.eq_def] at helement
    split at helement
    · cases helement
    · cases helement
      exact ⟨"license-file", by decide, rfl⟩
    · cases helement
      exact ⟨"license-files", by decide, rfl⟩
  · next hname hversion hformat hlicense =>
    split at helement
    · next value field hget hfield =>
      refine ⟨field.label, ?_, Field.name?_of_element? helement⟩
      rw [headerLabels, if_neg hlicense, if_neg (by tauto), hfield]
      exact List.mem_singleton_self _
    · cases helement

theorem fieldNames_headerElements_nodup (package : Package) :
    (fieldNames package.headerElements).Nodup :=
  nodup_headerLabels.sublist
    (fieldNames_filterMap_sublist (fun _ _ ↦ Package.exists_headerLabel) Field.headerOrder)

/-! ### Packages -/

/-- A section with a tidy name, tidy values and tidy overrides. -/
structure Section.IsTidy (isText : String → Prop) (part : Section) : Prop where
  name : ∀ name ∈ part.name, Tidy name.toList
  fields : part.fields.IsTidy
  conditionals : ∀ conditional ∈ part.conditionals, conditional.IsTidy
  verbatim : ∀ entry ∈ part.verbatim, entry.IsTidy isText

/-- A package with tidy names, tidy values and tidy overrides, whose longer texts pass a test. -/
structure Package.IsTidy (isText : String → Prop) (package : Package) : Prop where
  name : Text.IsLine package.name.toList
  version : Text.IsLine package.version.toList
  fields : ∀ entry ∈ package.fields.entries, entry.2.IsTidy isText
  sections : ∀ part ∈ package.sections, part.IsTidy isText
  flags : ∀ flag ∈ package.flags,
    Tidy flag.name.toList ∧ ∀ text ∈ flag.description, isText text
  sourceRepository : ∀ repository ∈ package.sourceRepository,
    Text.IsLine repository.location.toList ∧ ∀ subdir ∈ repository.subdir, Text.IsLine subdir.toList
  verbatim : ∀ entry ∈ package.verbatim, entry.IsTidy isText

/-- A stanza whose fields may be sorted, while everything in it keeps its own order. -/
def Element.IsSection (element : Element) : Prop :=
  ∃ header children, element = .stanza header children true ∧ IsHeader header.toList ∧
    (∀ child ∈ children, child.IsNested) ∧ (fieldNames children).Nodup

theorem Section.isHeader_header {part : Section} (h : part.IsTidy IsLegibleText) :
    IsHeader part.header.toList := by
  rw [Section.header]
  split
  · cases part.kind <;> decide
  · next name hname =>
    have hword : isFieldName part.kind.header.toList := by cases part.kind <;> decide
    rw [String.toList_append, String.toList_append, List.append_assoc]
    exact isHeader_append hword (h.name name hname)

theorem fieldNames_append (xs ys : List Element) :
    fieldNames (xs ++ ys) = fieldNames xs ++ fieldNames ys :=
  List.filterMap_append

theorem isStanza_of_mem_conditionalElements {kind : SectionKind}
    {conditionals : List Conditional} {element : Element}
    (h : element ∈ Conditional.elements kind conditionals) : isStanza element := by
  induction conditionals with
  | nil => simp [Conditional.elements] at h
  | cons conditional rest ih =>
    obtain ⟨condition, thenFields, elseFields⟩ := conditional
    cases elseFields with
    | none =>
      rw [Conditional.elements, List.mem_cons] at h
      rcases h with rfl | h
      · rfl
      · exact ih h
    | some elseFields =>
      rw [Conditional.elements, List.mem_cons, List.mem_cons] at h
      rcases h with rfl | rfl | h
      · rfl
      · rfl
      · exact ih h

/-- The stanza of a tidy section. -/
theorem Section.IsTidy.isSection {part : Section} (h : part.IsTidy IsLegibleText) :
    part.element.IsSection := by
  set elements := part.kind.opening ++ part.fields.withMain.elements part.kind ++
    Conditional.elements part.kind part.conditionals ++ part.kind.closing with helements
  have hnested : ∀ element ∈ elements, element.IsNested := by
    have hfixed : ∀ {name text : String}, isFieldName name.toList → Text.IsLine text.toList →
        (Element.field name (.inline text)).IsNested :=
      fun hname htext ↦ (isLegibleField_of_isLine hname htext).isNested
    exact part.forall_elements (hfixed (by decide) (by decide)) (hfixed (by decide) (by decide))
      ((h.fields.passes part.kind).imp fun _ ↦ Element.IsLegibleField.isNested)
      (Conditional.isNested_of_mem_elements h.conditionals)
  have hnodup : (fieldNames elements).Nodup := by
    have hconditionals : fieldNames (Conditional.elements part.kind part.conditionals) = [] :=
      fieldNames_of_isStanza fun element helement ↦ isStanza_of_mem_conditionalElements helement
    rw [helements, fieldNames_append, fieldNames_append, fieldNames_append, hconditionals,
      List.append_nil]
    exact (nodup_labels part.kind).sublist
      (((List.Sublist.refl _).append (fieldNames_elements_sublist _ _)).append (.refl _))
  have hoverrides := Element.overrides_overrideAll h.verbatim elements
  refine ⟨part.header, _, rfl, Section.isHeader_header h, fun child hchild ↦ ?_,
    hoverrides.fieldNames_nodup hnodup⟩
  rcases hoverrides.isLegibleField_of_mem child hchild with hchild | hchild
  · exact hnested child hchild
  · exact hchild.isNested

/-- The stanza of a flag. -/
theorem Flag.isSection {flag : Flag} (hname : Tidy flag.name.toList)
    (hdescription : ∀ text ∈ flag.description, IsLegibleText text) : flag.element.IsSection := by
  have hbool : ∀ b, Text.IsLine (boolText b).toList := by decide
  refine ⟨"flag " ++ flag.name, _, rfl, ?_, fun child hchild ↦ ?_, ?_⟩
  · rw [String.toList_append]
    exact isHeader_append (show isFieldName "flag".toList by decide) hname
  · rcases List.mem_append.1 hchild with hchild | hchild
    · obtain ⟨text, htext, rfl⟩ := Option.map_eq_some_iff.1 (Option.mem_toList.1 hchild)
      have hlegible : (Element.field "description" (.ofText text)).IsLegibleField :=
        ⟨_, _, rfl, by decide, hdescription text htext⟩
      exact hlegible.isNested
    · rcases List.mem_cons.1 hchild with rfl | hchild
      · exact (isLegibleField_of_isLine (by decide) (hbool flag.manual)).isNested
      · rw [List.mem_singleton.1 hchild]
        exact (isLegibleField_of_isLine (by decide) (hbool flag.default)).isNested
  · rw [fieldNames_append]
    cases flag.description with
    | none => show ["manual", "default"].Nodup; decide
    | some text => show ["description", "manual", "default"].Nodup; decide

/-- The stanza of a source repository. -/
theorem SourceRepository.isSection {repository : SourceRepository}
    (hkind : Text.IsLine repository.kind.toList) (hlocation : Text.IsLine repository.location.toList)
    (hsubdir : ∀ subdir ∈ repository.subdir, Text.IsLine subdir.toList) :
    repository.element.IsSection := by
  refine ⟨"source-repository head", _, rfl, by decide, fun child hchild ↦ ?_, ?_⟩
  · rcases List.mem_append.1 hchild with hchild | hchild
    · rcases List.mem_cons.1 hchild with rfl | hchild
      · exact (isLegibleField_of_isLine (by decide) hkind).isNested
      · rw [List.mem_singleton.1 hchild]
        exact (isLegibleField_of_isLine (by decide) hlocation).isNested
    · split at hchild
      · cases hchild
      · cases hchild
      · next subdir _ hsome =>
        rw [List.mem_singleton.1 hchild]
        exact (isLegibleField_of_isLine (by decide) (hsubdir subdir hsome)).isNested
  · rw [fieldNames_append]
    split
    · show ["type", "location"].Nodup; decide
    · show ["type", "location"].Nodup; decide
    · show ["type", "location", "subdir"].Nodup; decide

theorem isLine_formatVersion (version : FormatVersion) :
    Text.IsLine (">= " ++ version.text).toList := by
  have hdigits : ∀ n : Nat, ∀ c ∈ n.repr.toList, isNameChar c = true := by
    intro n c hc
    rw [Nat.toList_repr] at hc
    have hdigit : c.isDigit := Nat.isDigit_of_mem_toDigits (by decide) (by decide) hc
    simp [isNameChar, Char.isAlphanum, hdigit]
  rw [String.toList_append]
  refine Text.IsLine.append (by decide) (by decide) (plain_of_isNameChar fun c hc ↦ ?_)
  rw [FormatVersion.text, String.toList_append, String.toList_append, List.mem_append,
    List.mem_append] at hc
  rcases hc with (hc | hc) | hc
  · exact hdigits version.major c hc
  · rw [List.mem_singleton.1 hc]
    decide
  · exact hdigits version.minor c hc

/-- Every element of a tidy package that is no stanza is a legible field. -/
theorem Package.IsTidy.isLegibleField_of_mem_headerElements {package : Package}
    (h : package.IsTidy IsLegibleText) {element : Element}
    (hmem : element ∈ package.headerElements) :
    element.IsLegibleField := by
  have hvalue : ∀ {key value}, package.fields.get? key = some value →
      value.IsTidy IsLegibleText := fun hget ↦ h.fields _ (Entries.mem_of_get?_eq_some hget)
  have hfiles : ∀ file ∈ package.fields.texts "license-file", IsItem file.toList :=
    FieldSet.forall_mem_texts fun _ hget ↦ hvalue hget
  have hpasses : package.PassesHeader Element.IsLegibleField := {
    name := isLegibleField_of_isLine (by decide) h.name
    version := isLegibleField_of_isLine (by decide) h.version
    format := isLegibleField_of_isLine (by decide) (isLine_formatVersion package.formatVersion)
    license := fun file hfile ↦ isLegibleField_of_isLine (by decide) (hfiles file hfile).1.isLine
    licenses := ⟨_, _, rfl, by decide, hfiles⟩
    fields := fun key value field element hget hfield ↦
      isLegibleField_of_element? (isFieldName_label_of_mem_registries field
        (List.mem_append_left _ (List.mem_of_find?_eq_some hfield))) (hvalue hget) }
  obtain ⟨key, -, helement⟩ := List.mem_filterMap.1 hmem
  exact hpasses.of_headerElement? helement

/-- All stanzas of a tidy package are sections. -/
theorem Package.IsTidy.isSection_of_mem_stanzas {package : Package} (h : package.IsTidy IsLegibleText)
    (hkind : ∀ repository ∈ package.sourceRepository, Text.IsLine repository.kind.toList)
    {element : Element} (hmem : element ∈ package.stanzas) : element.IsSection := by
  rw [stanzas, List.mem_append, List.mem_append] at hmem
  rcases hmem with (hmem | hmem) | hmem
  · obtain ⟨repository, hrepository, rfl⟩ := Option.map_eq_some_iff.1 (Option.mem_toList.1 hmem)
    obtain ⟨hlocation, hsubdir⟩ := h.sourceRepository repository hrepository
    exact SourceRepository.isSection (hkind repository hrepository) hlocation hsubdir
  · obtain ⟨flag, hflag, rfl⟩ := List.mem_map.1 hmem
    obtain ⟨hname, hdescription⟩ := h.flags flag hflag
    exact Flag.isSection hname hdescription
  · obtain ⟨part, hpart, rfl⟩ := List.mem_map.1 hmem
    exact (h.sections part hpart).isSection

/-- The elements of a tidy package can be told from what is written of them, if the headers of its
stanzas are distinct. -/
theorem Package.IsTidy.isOrderly_elements {package : Package} (h : package.IsTidy IsLegibleText)
    (hkind : ∀ repository ∈ package.sourceRepository, Text.IsLine repository.kind.toList)
    (hheaders : (headers package.stanzas).Nodup) : Element.IsOrderly package.elements := by
  have hoverrides := Element.overrides_overrideAll h.verbatim
    (package.headerElements ++ package.stanzas)
  rw [← elements_eq] at hoverrides
  have hsection : ∀ {element}, element ∈ package.elements →
      element.IsLegibleField ∨ element.IsSection := by
    intro element helement
    rcases hoverrides.isLegibleField_of_mem element helement with helement | helement
    · rcases List.mem_append.1 helement with helement | helement
      · exact .inl (h.isLegibleField_of_mem_headerElements helement)
      · exact .inr (h.isSection_of_mem_stanzas hkind helement)
    · exact .inl helement
  have hstanza : ∀ {header children sortable}, .stanza header children sortable ∈ package.elements →
      sortable = true ∧ IsHeader header.toList ∧ (∀ child ∈ children, child.IsNested) ∧
        (fieldNames children).Nodup := by
    intro header children sortable hmem
    rcases hsection hmem with ⟨_, _, heq, -⟩ | ⟨_, _, heq, hsection⟩
    · cases heq
    · cases heq
      exact ⟨rfl, hsection⟩
  refine ⟨fun piece hpiece ↦ ?_, hoverrides.fieldNames_nodup ?_, ?_, fun hmem ↦ (hstanza hmem).2.2.2,
    fun hmem ↦ (hstanza hmem).1, fun hmem child hchild ↦ ((hstanza hmem).2.2.1 child hchild).1⟩
  · obtain ⟨element, helement, hpiece⟩ := Element.mem_piecesAll.1 hpiece
    rcases hsection helement with hfield | ⟨header, children, rfl, hheader, hchildren, -⟩
    · exact hfield.isNested.2 0 piece hpiece
    · rcases List.mem_cons.1 hpiece with rfl | hpiece
      · exact hheader
      · obtain ⟨child, hchild, hpiece⟩ := Element.mem_piecesAll.1 hpiece
        exact (hchildren child hchild).2 1 piece hpiece
  · rw [fieldNames_append, fieldNames_of_isStanza fun _ ↦ isStanza_of_mem_stanzas, List.append_nil]
    exact fieldNames_headerElements_nodup package
  · have hnone : headers package.headerElements = [] :=
      List.filterMap_eq_nil_iff.2 fun element helement ↦ by
        obtain ⟨name, content, rfl, -⟩ := h.isLegibleField_of_mem_headerElements helement
        rfl
    rw [hoverrides.headers_eq, headers, List.filterMap_append]
    show (headers package.headerElements ++ headers package.stanzas).Nodup
    rwa [hnone]

end CabalManifest
