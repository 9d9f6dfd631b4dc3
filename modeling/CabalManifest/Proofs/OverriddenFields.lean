import CabalManifest.Proofs.ConditionalStanzas

/-!
# What overrides leave

Overrides are applied one after another, and each of them may replace, remove or add a field that an
earlier one has replaced, removed or added. What comes of it is said here without the steps: of each
element what is left in its place (`Element.settled`), and behind all of them what is added.

Of what overrides say about a field, its *wishes*, the last one counts, but a field that is removed
once loses its place: if it is set again, it stands at the end. One step keeps this
(`IsSettled.overrideField`), and so do all of them together (`IsSettled.overrideAll`).
-/

namespace CabalManifest

open LayoutHints (isStanza)

/-! ### Wishes -/

/-- The content that an override asks for; a null asks for no field at all. -/
def Scalar.content? : Scalar → Option Content
  | .null => none
  | value => some (.ofText value.plain)

namespace Verbatim

/-- The fields that an override mentions, in order. -/
def mentions : Verbatim → List (String × Scalar)
  | .raw _ => []
  | .fields entries => entries

/-- The raw lines that an override adds. -/
def rawElements : Verbatim → List Element
  | .raw text => [.raw (textLines text)]
  | .fields _ => []

/-- What is said about a field, in order. -/
def wishes (mentions : List (String × Scalar)) (name : String) : List (Option Content) :=
  (mentions.filter (·.1 = name)).map (·.2.content?)

variable (mentions : List (String × Scalar)) (name : String) (value : Scalar)

/-- One more mention of a name is one more wish for it. -/
theorem wishes_concat_self :
    wishes (mentions ++ [(name, value)]) name = wishes mentions name ++ [value.content?] := by
  simp [wishes]

/-- One more mention of another name is no wish for it. -/
theorem wishes_concat_of_ne {other : String} (h : name ≠ other) :
    wishes (mentions ++ [(name, value)]) other = wishes mentions other := by
  simp [wishes, h]

end Verbatim

namespace Element

open Verbatim

/-- What is left of an element in its place. Only fields are ever changed: one that is mentioned has
the content of the last mention, unless it was to be removed at any time. -/
def settled (wishes : String → List (Option Content)) : Element → Option Element
  | .field name content =>
    if none ∈ wishes name then none
    else some (.field name ((wishes name).getLast?.join.getD content))
  | element => some element

/-- An element without a wish is settled as it is. -/
theorem settled_of_unmentioned {wishes : String → List (Option Content)} {element : Element}
    (h : ∀ name ∈ element.name?, wishes name = []) : settled wishes element = some element := by
  cases element with
  | field name content => simp [settled, h name rfl]
  | stanza => rfl
  | raw => rfl

/-! ### One override -/

/-- What one wish leaves of an element in its place. -/
def grant (name : String) (wish : Option Content) (element : Element) : Option Element :=
  if element.name? = some name then wish.map (.field name) else some element

/-- What one wish adds behind some elements. -/
def addition (elements : List Element) (name : String) (wish : Option Content) : List Element :=
  if name ∈ fieldNames elements then [] else (wish.map (.field name)).toList

/-- A wish changes only the field that it is about. -/
theorem grant_of_ne {name : String} {wish : Option Content} {element : Element}
    (h : element.name? ≠ some name) : grant name wish element = some element :=
  if_neg h

/-- The names of elements are that of the first, if it is a field, and those of the rest. -/
theorem fieldNames_cons (element : Element) (elements : List Element) :
    fieldNames (element :: elements) = element.name?.toList ++ fieldNames elements := by
  rw [fieldNames, List.filterMap_cons]
  cases element.name? <;> rfl

variable {elements : List Element} {name : String}

/-- A wish for a field that is not there leaves all elements in their places. -/
theorem filterMap_grant_of_notMem (h : name ∉ fieldNames elements) (wish : Option Content) :
    elements.filterMap (grant name wish) = elements := by
  refine (List.filterMap_congr fun element helement ↦ ?_).trans List.filterMap_some
  exact grant_of_ne fun hname ↦ h (List.mem_filterMap.2 ⟨element, helement, hname⟩)

/-- Names are distinct if the first one is not among the rest, and those are distinct. -/
theorem nodup_cons_iff {element : Element} :
    (fieldNames (element :: elements)).Nodup ↔
      (∀ name ∈ element.name?, name ∉ fieldNames elements) ∧ (fieldNames elements).Nodup := by
  rw [fieldNames_cons]
  cases element.name? <;> simp

/-- Among distinct names, to remove a field is to grant the wish for none. -/
theorem removeField_eq (h : (fieldNames elements).Nodup) (name : String) :
    removeField name elements = elements.filterMap (grant name none) := by
  induction elements with
  | nil => rfl
  | cons element rest ih =>
    obtain ⟨hfresh, hrest⟩ := nodup_cons_iff.1 h
    rw [removeField, List.filterMap_cons, grant]
    split
    -- Only the first field of the name is removed, but there is no second one.
    · next hname => exact (filterMap_grant_of_notMem (hfresh name hname) none).symm
    · rw [ih hrest]

/-- Among distinct names, to replace a field is to grant the wish for the content. -/
theorem replaceField_eq (h : (fieldNames elements).Nodup) (name : String) (content : Content) :
    replaceField name content elements = elements.filterMap (grant name (some content)) := by
  induction elements with
  | nil => rfl
  | cons element rest ih =>
    obtain ⟨hfresh, hrest⟩ := nodup_cons_iff.1 h
    rw [replaceField, List.filterMap_cons, grant]
    split
    · next hname =>
      exact congrArg _ (filterMap_grant_of_notMem (hfresh name hname) (some content)).symm
    · rw [ih hrest]

/-- A field of a name is found if the name is among those of the fields. -/
theorem any_name?_iff :
    (elements.any fun element ↦ element.name? = some name) = true ↔ name ∈ fieldNames elements := by
  simp [fieldNames]

/-- An override grants its wish in place, or at the end. -/
theorem overrideField_eq (h : (fieldNames elements).Nodup) (name : String) (value : Scalar) :
    overrideField elements name value =
      elements.filterMap (grant name value.content?) ++ addition elements name value.content? := by
  have hgiven : ∀ content : Content,
      (if elements.any fun element ↦ element.name? = some name then
        replaceField name content elements else elements ++ [.field name content]) =
        elements.filterMap (grant name (some content)) ++ addition elements name (some content) := by
    intro content
    by_cases hname : name ∈ fieldNames elements
    · rw [if_pos (any_name?_iff.2 hname), replaceField_eq h, addition, if_pos hname, List.append_nil]
    · rw [if_neg fun hany ↦ hname (any_name?_iff.1 hany), filterMap_grant_of_notMem hname, addition,
        if_neg hname]
      rfl
  cases value with
  | null =>
    rw [overrideField, removeField_eq h, Scalar.content?, addition]
    simp
  | bool | int | float | text => exact hgiven _

/-- Granting a wish keeps the order of the fields that stay. -/
theorem fieldNames_filterMap_grant_sublist (wish : Option Content) (elements : List Element) :
    (fieldNames (elements.filterMap (grant name wish))).Sublist (fieldNames elements) := by
  induction elements with
  | nil => exact .refl _
  | cons element rest ih =>
    rw [List.filterMap_cons, fieldNames_cons, grant]
    by_cases hname : element.name? = some name
    · rw [if_pos hname, hname]
      cases wish with
      | none => exact ih.trans (List.sublist_append_right _ _)
      | some content => exact ih.cons_cons name
    · rw [if_neg hname]
      exact (fieldNames_cons element _).symm ▸ ih.append_left _

/-- After a wish is granted, its field has the content that was wished, if any. -/
theorem mem_filterMap_grant {other : String} {wish : Option Content} {content : Content} :
    .field other content ∈ elements.filterMap (grant name wish) ↔
      if name = other then name ∈ fieldNames elements ∧ wish = some content
      else .field other content ∈ elements := by
  rw [List.mem_filterMap]
  constructor
  · rintro ⟨element, helement, hgrant⟩
    rw [grant] at hgrant
    split at hgrant
    · next hname =>
      obtain ⟨content, rfl, heq⟩ := Option.map_eq_some_iff.1 hgrant
      cases heq
      rw [if_pos rfl]
      exact ⟨List.mem_filterMap.2 ⟨element, helement, hname⟩, rfl⟩
    · next hname =>
      cases hgrant
      rw [if_neg fun heq ↦ hname (congrArg some heq.symm)]
      exact helement
  · intro h
    split at h
    · next heq =>
      subst heq
      obtain ⟨hname, rfl⟩ := h
      obtain ⟨element, helement, hname⟩ := List.mem_filterMap.1 hname
      exact ⟨element, helement, if_pos hname⟩
    · next hne => exact ⟨_, h, grant_of_ne fun heq ↦ hne (Option.some.inj heq).symm⟩

/-- After an override, a field is there if it is what the override asks for, or has another name and
was there before. -/
theorem mem_overrideField (h : (fieldNames elements).Nodup) {value : Scalar} {other : String}
    {content : Content} :
    .field other content ∈ overrideField elements name value ↔
      if name = other then value.content? = some content else .field other content ∈ elements := by
  rw [overrideField_eq h, List.mem_append, mem_filterMap_grant, addition]
  by_cases heq : name = other
  · subst heq
    by_cases hname : name ∈ fieldNames elements <;> simp [hname, eq_comm]
  · by_cases hname : name ∈ fieldNames elements <;> simp [hname, heq]

/-- What is added is nothing, or one field with a new name. -/
theorem addition_cases (elements : List Element) (name : String) (wish : Option Content) :
    addition elements name wish = [] ∨
      name ∉ fieldNames elements ∧ ∃ content, addition elements name wish = [.field name content] := by
  rw [addition]
  split
  · exact .inl rfl
  · next hname =>
    cases wish with
    | none => exact .inl rfl
    | some content => exact .inr ⟨hname, content, rfl⟩

/-- An override keeps the names distinct. -/
theorem nodup_overrideField (h : (fieldNames elements).Nodup) (name : String) (value : Scalar) :
    (fieldNames (overrideField elements name value)).Nodup := by
  rw [overrideField_eq h, fieldNames_append]
  generalize value.content? = wish
  have hplaces : (fieldNames (elements.filterMap (grant name wish))).Sublist
      (fieldNames elements) := fieldNames_filterMap_grant_sublist wish elements
  rcases addition_cases elements name wish with hadded | ⟨hname, content, hadded⟩ <;> rw [hadded]
  · exact (List.append_nil _).symm ▸ h.sublist hplaces
  · refine (h.sublist hplaces).append (List.nodup_singleton name) fun other hother hnew ↦ ?_
    exact hname (List.mem_singleton.1 hnew ▸ hplaces.subset hother)

/-- Granting a wish leaves stanzas and raw lines alone. -/
theorem filter_filterMap_grant (name : String) (wish : Option Content) (elements : List Element) :
    (elements.filterMap (grant name wish)).filter (·.name?.isNone) =
      elements.filter (·.name?.isNone) := by
  induction elements with
  | nil => rfl
  | cons element rest ih =>
    rw [List.filterMap_cons, grant]
    by_cases hname : element.name? = some name
    · rw [if_pos hname, List.filter_cons_of_neg (by rw [hname]; exact Bool.false_ne_true), ← ih]
      cases wish <;> rfl
    · simp only [if_neg hname, List.filter_cons, ih]

/-- What a wish adds at the end has the name of the wish. -/
theorem eq_of_mem_addition {other : String} {wish : Option Content}
    (h : other ∈ fieldNames (addition elements name wish)) : other = name := by
  rcases addition_cases elements name wish with hadded | ⟨-, content, hadded⟩ <;> rw [hadded] at h
  · cases h
  · exact List.mem_singleton.1 h

/-- What a wish adds at the end is a field. -/
theorem filter_addition (elements : List Element) (name : String) (wish : Option Content) :
    (addition elements name wish).filter (·.name?.isNone) = [] := by
  rcases addition_cases elements name wish with hadded | ⟨-, content, hadded⟩ <;> rw [hadded] <;> rfl

/-! ### Several overrides -/

/-- What becomes of elements when some overrides have been applied: names stay distinct, the last wish
for a field counts, and what was there is settled in its place, with raw lines in their order and
fields that were asked for behind it. -/
structure IsSettled (elements : List Element) (mentions : List (String × Scalar))
    (raws result : List Element) : Prop where
  nodup : (fieldNames result).Nodup
  mem_iff : ∀ name wish, (wishes mentions name).getLast? = some wish →
    ∀ content, .field name content ∈ result ↔ wish = some content
  exists_eq : ∃ added, result = elements.filterMap (settled (wishes mentions)) ++ added ∧
    added.filter (·.name?.isNone) = raws ∧ ∀ name ∈ fieldNames added, name ∈ mentions.map (·.1)

/-- Without overrides, all stays as it is. -/
theorem isSettled_nil (h : (fieldNames elements).Nodup) : IsSettled elements [] [] elements where
  nodup := h
  mem_iff _ _ hwish := by cases hwish
  exists_eq := by
    have hkept : elements.filterMap (settled (wishes [])) = elements :=
      (List.filterMap_congr fun _ _ ↦ settled_of_unmentioned fun _ _ ↦ rfl).trans
        List.filterMap_some
    exact ⟨[], by rw [hkept, List.append_nil], rfl, List.forall_mem_nil _⟩

/-- One more wish is granted where the ones before it have been. -/
theorem settled_concat (mentions : List (String × Scalar)) (name : String) (value : Scalar)
    (element : Element) :
    settled (wishes (mentions ++ [(name, value)])) element =
      (settled (wishes mentions) element).bind (grant name value.content?) := by
  cases element with
  | field other content =>
    by_cases heq : name = other
    · subst heq
      simp only [settled, wishes_concat_self, List.mem_append, List.mem_singleton,
        List.getLast?_concat]
      by_cases hremoved : none ∈ wishes mentions name
      -- A field that was removed has lost its place, whatever is asked for now.
      · simp [hremoved]
      · cases value.content? with
        | none => simp [hremoved, grant, name?]
        | some content => simp [hremoved, grant, name?]
    · rw [settled, settled, wishes_concat_of_ne _ _ _ heq]
      split
      · rfl
      · exact (if_neg fun hname ↦ heq (Option.some.inj hname).symm).symm
  | stanza => rfl
  | raw => rfl

namespace IsSettled

variable {mentions : List (String × Scalar)} {raws result : List Element}

/-- One more override settles one more mention. -/
theorem overrideField (h : IsSettled elements mentions raws result) (name : String)
    (value : Scalar) :
    IsSettled elements (mentions ++ [(name, value)]) raws (overrideField result name value) where
  nodup := nodup_overrideField h.nodup name value
  mem_iff other wish hwish content := by
    rw [mem_overrideField h.nodup]
    split
    · next heq =>
      subst heq
      rw [wishes_concat_self, List.getLast?_concat, Option.some.injEq] at hwish
      rw [hwish]
    · next hne => exact h.mem_iff other wish (wishes_concat_of_ne _ _ _ hne ▸ hwish) content
  exists_eq := by
    obtain ⟨added, heq, hraws, hnames⟩ := h.exists_eq
    refine ⟨added.filterMap (grant name value.content?) ++ addition result name value.content?,
      ?_, ?_, fun other hother ↦ ?_⟩
    · rw [overrideField_eq h.nodup, heq, List.filterMap_append, List.filterMap_filterMap,
        List.append_assoc]
      simp only [settled_concat]
    · rw [List.filter_append, filter_filterMap_grant, hraws, filter_addition, List.append_nil]
    · rw [List.map_append, List.mem_append]
      rw [fieldNames_append, List.mem_append] at hother
      rcases hother with hother | hother
      · exact .inl (hnames other ((fieldNames_filterMap_grant_sublist _ added).subset hother))
      · exact .inr (List.mem_singleton.2 (eq_of_mem_addition hother))

/-- Raw lines stand behind all that is there. -/
theorem raw (h : IsSettled elements mentions raws result) (lines : List String) :
    IsSettled elements mentions (raws ++ [.raw lines]) (result ++ [.raw lines]) where
  nodup := by
    rw [fieldNames_append]
    exact (List.append_nil _).symm ▸ h.nodup
  mem_iff name wish hwish content := by
    rw [← h.mem_iff name wish hwish content]
    simp
  exists_eq := by
    obtain ⟨added, heq, hraws, hnames⟩ := h.exists_eq
    refine ⟨added ++ [.raw lines], by rw [heq, List.append_assoc], ?_, ?_⟩
    · rw [List.filter_append, hraws]
      rfl
    · rw [fieldNames_append]
      exact (List.append_nil _).symm ▸ hnames

/-- All overrides of a scope, one after another. -/
theorem overrideAll (h : IsSettled elements mentions raws result) (entries : List Verbatim) :
    IsSettled elements (mentions ++ entries.flatMap Verbatim.mentions)
      (raws ++ entries.flatMap rawElements) (overrideAll result entries) := by
  -- Over the overrides, and in each of them over the fields that it mentions.
  induction entries generalizing mentions raws result with
  | nil => simpa [Element.overrideAll] using h
  | cons entry entries ih =>
    rw [List.flatMap_cons, List.flatMap_cons, ← List.append_assoc, ← List.append_assoc]
    refine ih ?_
    cases entry with
    | raw text => exact (List.append_nil mentions).symm ▸ h.raw (textLines text)
    | fields values =>
      rw [rawElements, List.append_nil, Verbatim.mentions, override]
      induction values generalizing mentions result with
      | nil => exact (List.append_nil mentions).symm ▸ h
      | cons mention values ih =>
        rw [List.append_cons]
        exact ih (h.overrideField mention.1 mention.2)

end IsSettled

end Element

/-- Overrides at the top of a package change none of its stanzas. -/
theorem Package.filter_isStanza_elements (package : Package) :
    package.elements.filter isStanza = package.stanzas := by
  have hheader : package.headerElements.filter isStanza = [] := by
    refine List.filter_eq_nil_iff.2 fun element helement ↦ ?_
    obtain ⟨key, -, hkey⟩ := List.mem_filterMap.1 helement
    rw [Element.isStanza_of_name? (Package.name?_of_headerElement? hkey)]
    exact Bool.false_ne_true
  have hframes := (Element.Frames.of_append (fun _ ↦ package.isStanza_of_mem_stanzas) hheader
    List.filter_nil).overrideAll package.verbatim
  rw [List.append_nil, ← elements_eq] at hframes
  exact hframes.only

namespace Element

open Verbatim

/-- The last word counts. For elements with distinct names, whatever overrides are applied to them:
the names are still distinct. A field that is mentioned is there if and only if the last mention is no
null, and has the content of this mention. What was there stands in front and in its order: elements
that are no fields, and fields that no override mentions, as they were; a field that is mentioned
without a null in its place, with the content of the last mention. Behind it there are all raw lines,
in their order, and fields that are mentioned, and nothing else. So overrides at the top of a package
change none of its stanzas. -/
theorem overrideAll_settles {elements : List Element} (h : (fieldNames elements).Nodup)
    (entries : List Verbatim) :
    let mentioned := entries.flatMap mentions
    let result := overrideAll elements entries
    (fieldNames result).Nodup ∧
      (∀ name wish, (wishes mentioned name).getLast? = some wish →
        ∀ content, .field name content ∈ result ↔ wish = some content) ∧
      (∃ added, result = elements.filterMap (settled (wishes mentioned)) ++ added ∧
        added.filter (·.name?.isNone) = entries.flatMap rawElements ∧
          ∀ name ∈ fieldNames added, name ∈ mentioned.map (·.1)) ∧
      ∀ package : Package, package.elements.filter isStanza = package.stanzas := by
  obtain ⟨hnodup, hmem, heq⟩ := (isSettled_nil h).overrideAll entries
  exact ⟨hnodup, hmem, heq, Package.filter_isStanza_elements⟩

/-- Three fields, with a stanza between them. -/
def threeFields : List Element :=
  [.field "name" (.inline "foo"), .field "category" (.inline "Web"),
    .stanza "library" [.field "category" (.inline "Web")] true, .field "stability" (.inline "stable")]

/-- Overrides that remove a field and set it again, change another one twice, and remove a third. -/
def repeatedOverrides : List Verbatim :=
  [.fields [("category", .null), ("name", .text "bar")], .raw "-- end\n",
    .fields [("category", .bool true), ("stability", .null), ("name", .text "a\nb")]]

/-- The field that is removed and set again goes to the end. -/
theorem overrideAll_settles_repeated :
    (fieldNames threeFields).Nodup ∧
      ∃ added, overrideAll threeFields repeatedOverrides =
        [.field "name" (.block ["a", "b"]),
          .stanza "library" [.field "category" (.inline "Web")] true] ++ added ∧
        added.filter (·.name?.isNone) = [.raw ["-- end"]] ∧
        (∀ content, .field "category" content ∈ overrideAll threeFields repeatedOverrides ↔
          content = .inline "true") ∧
        ∀ content, .field "stability" content ∉ overrideAll threeFields repeatedOverrides := by
  have hnodup : (fieldNames threeFields).Nodup := by decide
  obtain ⟨-, hmem, ⟨added, heq, hraws, -⟩, -⟩ := overrideAll_settles hnodup repeatedOverrides
  have hcategory : (wishes (repeatedOverrides.flatMap mentions) "category").getLast? =
      some (some (.inline "true")) := by decide
  have hstability : (wishes (repeatedOverrides.flatMap mentions) "stability").getLast? =
      some none := by decide
  refine ⟨hnodup, added, heq, hraws, fun content ↦ ?_, fun content hcontent ↦ ?_⟩
  · rw [hmem _ _ hcategory, Option.some.injEq, eq_comm]
  · cases (hmem _ _ hstability content).1 hcontent

end Element

end CabalManifest
