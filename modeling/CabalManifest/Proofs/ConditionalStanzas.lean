import CabalManifest.Proofs.InferredScopes
import CabalManifest.Proofs.LegiblePackage
import CabalManifest.Proofs.MergedFields

/-!
# Conditionals keep their structure

An `else` belongs to the `if` in front of it by nothing but its place. Neither overrides nor sorting
takes the stanzas of conditionals apart: a field that is overridden is none of them, and sorting moves
all that stands between two fields that it knows as a whole (`Frames.overrideAll`, `Frames.sortBy`).

So the stanzas of a section, however its modules are inferred and whatever the hints are, are those of
the conditionals at the top of the manifest and then of its own, one behind the other, and in the same
way in every branch (`Section.frames_of_infer`).
-/

namespace CabalManifest

open LayoutHints (isStanza)

/-! ### Stanzas in their places -/

/-- Whether the stanzas among some elements are these, with nothing between them. -/
structure Element.Frames (stanzas elements : List Element) : Prop where
  isInfix : stanzas <:+: elements
  only : elements.filter isStanza = stanzas

mutual

/-- Whether the stanzas among some elements are those of some conditionals, with nothing between
them. -/
inductive Conditional.StandIn : List Conditional → List Element → Prop
  | mk {conditionals : List Conditional} {stanzas elements : List Element}
    (hstanzas : Conditional.StandAs conditionals stanzas) (hframes : Element.Frames stanzas elements) :
    Conditional.StandIn conditionals elements

/-- Whether elements are the stanzas of some conditionals: for each the one of its condition, at once
followed by what holds otherwise, and in each stanza those of the conditionals in its branch. -/
inductive Conditional.StandAs : List Conditional → List Element → Prop
  | nil : Conditional.StandAs [] []
  | cons_if {condition : String} {thenFields : FieldSet} {rest : List Conditional}
    {inside stanzas : List Element} (sortable : Bool)
    (hthen : Conditional.StandIn thenFields.conditionals inside)
    (hrest : Conditional.StandAs rest stanzas) :
    Conditional.StandAs (⟨condition, thenFields, none⟩ :: rest)
      (.stanza ("if " ++ condition) inside sortable :: stanzas)
  | cons_else {condition : String} {thenFields elseFields : FieldSet} {rest : List Conditional}
    {inThen inElse stanzas : List Element} (sortable sortable' : Bool)
    (hthen : Conditional.StandIn thenFields.conditionals inThen)
    (helse : Conditional.StandIn elseFields.conditionals inElse)
    (hrest : Conditional.StandAs rest stanzas) :
    Conditional.StandAs (⟨condition, thenFields, some elseFields⟩ :: rest)
      (.stanza ("if " ++ condition) inThen sortable :: .stanza "else" inElse sortable' :: stanzas)

end

/-! ### Stanzas that stay together -/

namespace Element

/-- Whether a change of some elements puts others into the place of one that is no stanza, and goes no
further then. -/
structure Edits (edit : List Element → List Element) : Prop where
  nil : edit [] = []
  cons : ∀ element rest, edit (element :: rest) = element :: edit rest ∨
    isStanza element = false ∧
      ∃ new : List Element, new.filter isStanza = [] ∧ edit (element :: rest) = new ++ rest

theorem edits_removeField (name : String) : Edits (removeField name) where
  nil := rfl
  cons element rest := by
    rw [removeField]
    split
    · next hname => exact .inr ⟨isStanza_of_name? (by simp [hname]), [], rfl, rfl⟩
    · exact .inl rfl

theorem edits_replaceField (name : String) (content : Content) : Edits (replaceField name content) where
  nil := rfl
  cons element rest := by
    rw [replaceField]
    split
    · next hname => exact .inr ⟨isStanza_of_name? (by simp [hname]), [.field name content], rfl, rfl⟩
    · exact .inl rfl

namespace Edits

variable {edit : List Element → List Element}

theorem filter_eq (h : Edits edit) (elements : List Element) :
    (edit elements).filter isStanza = elements.filter isStanza := by
  induction elements with
  | nil => rw [h.nil]
  | cons element rest ih =>
    obtain heq | ⟨helement, new, hnew, heq⟩ := h.cons element rest
    · rw [heq, List.filter_cons, List.filter_cons, ih]
    · rw [heq, List.filter_append, hnew, List.nil_append, List.filter_cons, helement,
        if_neg Bool.false_ne_true]

theorem append_of_isStanza (h : Edits edit) {stanzas : List Element}
    (hstanzas : ∀ stanza ∈ stanzas, isStanza stanza) (rest : List Element) :
    edit (stanzas ++ rest) = stanzas ++ edit rest := by
  induction stanzas with
  | nil => rfl
  | cons stanza stanzas ih =>
    rw [List.forall_mem_cons] at hstanzas
    obtain heq | ⟨hstanza, -⟩ := h.cons stanza (stanzas ++ rest)
    · rw [List.cons_append, heq, ih hstanzas.2, List.cons_append]
    · cases hstanza.symm.trans hstanzas.1

/-- Stanzas that stand together stay together. -/
theorem isInfix (h : Edits edit) {stanzas elements : List Element}
    (hstanzas : ∀ stanza ∈ stanzas, isStanza stanza) (hpart : stanzas <:+: elements) :
    stanzas <:+: edit elements := by
  obtain ⟨before, after, rfl⟩ := hpart
  induction before with
  | nil =>
    rw [List.nil_append, h.append_of_isStanza hstanzas]
    exact List.infix_append [] stanzas (edit after)
  | cons element before ih =>
    rw [List.cons_append, List.cons_append]
    obtain heq | ⟨-, new, -, heq⟩ := h.cons element (before ++ stanzas ++ after)
    · rw [heq]
      exact ih.trans (List.suffix_cons _ _).isInfix
    · rw [heq]
      exact (List.infix_append before stanzas after).trans (List.suffix_append _ _).isInfix

end Edits

namespace Frames

variable {stanzas elements : List Element}

theorem forall_isStanza (h : Frames stanzas elements) : ∀ stanza ∈ stanzas, isStanza stanza := by
  rw [← h.only]
  exact fun _ hmem ↦ (List.mem_filter.1 hmem).2

/-- Stanzas stand together if what stands before and after them is none. -/
theorem of_append {before after : List Element} (hstanzas : ∀ stanza ∈ stanzas, isStanza stanza)
    (hbefore : before.filter isStanza = []) (hafter : after.filter isStanza = []) :
    Frames stanzas (before ++ stanzas ++ after) where
  isInfix := List.infix_append before stanzas after
  only := by
    rw [List.filter_append, List.filter_append, hbefore, hafter, List.nil_append, List.append_nil,
      List.filter_eq_self.2 hstanzas]

theorem edit (h : Frames stanzas elements) {edit : List Element → List Element} (hedit : Edits edit) :
    Frames stanzas (edit elements) :=
  ⟨hedit.isInfix h.forall_isStanza h.isInfix, (hedit.filter_eq elements).trans h.only⟩

/-- An element that is no stanza can be added at the end. -/
theorem concat (h : Frames stanzas elements) {element : Element} (helement : isStanza element = false) :
    Frames stanzas (elements ++ [element]) where
  isInfix := h.isInfix.trans (List.prefix_append elements [element]).isInfix
  only := by
    rw [List.filter_append, h.only, List.filter_singleton, helement]
    exact List.append_nil stanzas

theorem overrideField (h : Frames stanzas elements) (name : String) (value : Scalar) :
    Frames stanzas (overrideField elements name value) := by
  rw [Element.overrideField.eq_def]
  split
  · exact h.edit (edits_removeField name)
  · simp only
    split
    · exact h.edit (edits_replaceField name _)
    · exact h.concat rfl

/-- Overriding keeps stanzas together. -/
theorem overrideAll (h : Frames stanzas elements) (entries : List Verbatim) :
    Frames stanzas (overrideAll elements entries) := by
  refine List.foldlRecOn (motive := Frames stanzas) entries _ h fun elements h entry _ ↦ ?_
  cases entry with
  | raw text => exact h.concat rfl
  | fields values =>
    exact List.foldlRecOn (motive := Frames stanzas) values _ h fun elements h value _ ↦
      h.overrideField value.1 value.2

end Frames

/-! ### Sorting -/

variable {stanzas elements : List Element}

theorem blocks_stanzas_append (cuts : String → Bool) (h : ∀ stanza ∈ stanzas, isStanza stanza)
    (rest : List Element) :
    blocks cuts (stanzas ++ rest) = (stanzas ++ (blocks cuts rest).1, (blocks cuts rest).2) := by
  induction stanzas with
  | nil => rfl
  | cons stanza stanzas ih =>
    rw [List.forall_mem_cons] at h
    have hname : ∀ name, stanza.name? = some name → cuts name = false := fun name hname ↦ by
      cases (name?_of_isStanza h.1).symm.trans hname
    rw [List.cons_append, blocks_cons_other _ hname, ih h.2, List.cons_append]

/-- Stanzas that stand together are in one block, or in front of all blocks. -/
theorem isInfix_blocks (cuts : String → Bool) (h : ∀ stanza ∈ stanzas, isStanza stanza)
    (hpart : stanzas <:+: elements) :
    stanzas <:+: (blocks cuts elements).1 ∨
      ∃ block ∈ (blocks cuts elements).2, stanzas <:+: block.2 := by
  obtain ⟨before, after, rfl⟩ := hpart
  induction before with
  | nil =>
    rw [List.nil_append, blocks_stanzas_append cuts h]
    exact .inl (List.prefix_append _ _).isInfix
  | cons element before ih =>
    rw [List.cons_append, List.cons_append]
    obtain ⟨name, hname, hcuts⟩ | hother := starts_or_not cuts element
    · -- What stands in front of the blocks so far becomes the rest of the first one.
      rw [blocks_cons_field _ hname hcuts]
      obtain hfront | ⟨block, hblock, hinside⟩ := ih
      · exact .inr ⟨_, List.mem_cons_self, hfront.trans (List.suffix_cons _ _).isInfix⟩
      · exact .inr ⟨block, List.mem_cons_of_mem _ hblock, hinside⟩
    · rw [blocks_cons_other _ hother]
      exact ih.imp_left fun hfront ↦ hfront.trans (List.suffix_cons _ _).isInfix

/-- Sorting keeps stanzas together. -/
theorem Frames.sortBy (h : Frames stanzas elements) (order : List String) :
    Frames stanzas (sortBy order elements) := by
  have hpart : stanzas <:+: Element.sortBy order elements := by
    rw [sortBy_eq_blocks]
    obtain hfront | ⟨block, hblock, hinside⟩ :=
      isInfix_blocks order.contains h.forall_isStanza h.isInfix
    · exact hfront.trans (List.prefix_append _ _).isInfix
    · have hsorted : block ∈ (blocks order.contains elements).2.mergeSort
          (Ranking.fits (position order)) := List.mem_mergeSort.2 hblock
      have hblocks : block.2 <:+: ofBlocks ((blocks order.contains elements).2.mergeSort
          (Ranking.fits (position order))) := by
        rw [ofBlocks, List.flatMap_def]
        exact List.infix_of_mem_flatten (List.mem_map_of_mem hsorted)
      exact hinside.trans (hblocks.trans (List.suffix_append _ _).isInfix)
  refine ⟨hpart, ?_⟩
  -- All stanzas are among these, and no stanza is lost.
  have hperm := (perm_sortBy order elements).filter isStanza
  rw [h.only] at hperm
  have hsublist : stanzas.Sublist ((Element.sortBy order elements).filter isStanza) := by
    have hfilter := hpart.sublist.filter isStanza
    rwa [List.filter_eq_self.2 h.forall_isStanza] at hfilter
  exact (hsublist.eq_of_length hperm.length_eq.symm).symm

end Element

/-! ### Conditionals as they are laid out -/

theorem Element.filter_isStanza_eq_nil {elements : List Element}
    (h : ∀ element ∈ elements, isStanza element = false) : elements.filter isStanza = [] :=
  List.filter_eq_nil_iff.2 fun element helement ↦ by simp [h element helement]

mutual

theorem FieldSet.standIn_branchElements (kind : SectionKind) (fields : FieldSet) :
    Conditional.StandIn fields.conditionals (fields.branchElements kind) := by
  refine .mk (Conditional.standAs_elements kind fields.conditionals) ?_
  have hstanzas : ∀ stanza ∈ Conditional.elements kind fields.conditionals, isStanza stanza :=
    fun _ ↦ isStanza_of_mem_conditionalElements
  have hfields : (fields.withMain.elements kind).filter isStanza = [] :=
    Element.filter_isStanza_eq_nil fun _ ↦ FieldSet.isStanza_of_mem_elements
  have hframes := Element.Frames.of_append hstanzas hfields List.filter_nil
  rwa [List.append_nil, ← FieldSet.branchElements] at hframes
termination_by sizeOf fields
decreasing_by exact fields.sizeOf_conditionals_lt

/-- Conditionals are laid out one after the other, and so are those in their branches. -/
theorem Conditional.standAs_elements (kind : SectionKind) (conditionals : List Conditional) :
    Conditional.StandAs conditionals (Conditional.elements kind conditionals) := by
  match conditionals with
  | [] =>
    rw [Conditional.elements]
    exact .nil
  | ⟨condition, thenFields, none⟩ :: rest =>
    rw [Conditional.elements]
    exact .cons_if false (thenFields.standIn_branchElements kind)
      (Conditional.standAs_elements kind rest)
  | ⟨condition, thenFields, some elseFields⟩ :: rest =>
    rw [Conditional.elements]
    exact .cons_else false false (thenFields.standIn_branchElements kind)
      (elseFields.standIn_branchElements kind) (Conditional.standAs_elements kind rest)
termination_by sizeOf conditionals

end

/-! ### Arranging -/

section

variable (hints : LayoutHints)

/-- No hint reaches into a branch. -/
theorem Conditional.map_arrange_elements (kind : SectionKind) (conditionals : List Conditional) :
    (Conditional.elements kind conditionals).map hints.arrange =
      Conditional.elements kind conditionals := by
  have hstanza : ∀ header elements, True →
      (∀ element ∈ elements, hints.arrange element = element) →
        hints.arrange (.stanza header elements false) = .stanza header elements false := by
    intro header elements _ h
    rw [LayoutHints.arrange, LayoutHints.arrangeAll_eq_map, List.map_congr_left h, List.map_id']
    rfl
  have hfields (branch : FieldSet) :
      branch.withMain.Passes (fun element ↦ hints.arrange element = element) kind :=
    fun _ _ _ _ _ _ hlaid ↦ hints.arrange_of_not_stanza <|
      Element.isStanza_of_name? (by rw [Field.name?_of_element? hlaid]; rfl)
  have hkeeps : ∀ element ∈ Conditional.elements kind conditionals,
      hints.arrange element = element :=
    Conditional.forall_elements hstanza trivial
      (fun _ (_ : True) ↦ ⟨trivial, fun branch _ ↦ ⟨hfields branch, fun _ _ ↦ trivial⟩⟩)
      fun _ _ ↦ trivial
  rw [List.map_congr_left hkeeps, List.map_id']

theorem Element.Frames.map_arrange {stanzas elements : List Element} (h : Frames stanzas elements) :
    Frames (stanzas.map hints.arrange) (elements.map hints.arrange) where
  isInfix := h.isInfix.map hints.arrange
  only := by
    have hsame : isStanza ∘ hints.arrange = isStanza := funext hints.isStanza_arrange
    rw [List.filter_map, hsame, h.only]

end

/-! ### Sections -/

/-- The stanzas in a section that is written are those of its conditionals, whatever its overrides and
the hints are. -/
theorem Section.exists_arrange_element (hints : LayoutHints) (part : Section) :
    ∃ elements, hints.arrange part.element = .stanza part.header elements true ∧
      Element.Frames (Conditional.elements part.kind part.conditionals) elements := by
  have hframe : part.kind.opening.filter isStanza = [] ∧ part.kind.closing.filter isStanza = [] := by
    cases part.kind <;> exact ⟨rfl, rfl⟩
  have hfields : (part.kind.opening ++ part.fields.withMain.elements part.kind).filter isStanza = [] := by
    rw [List.filter_append, hframe.1, List.nil_append]
    exact Element.filter_isStanza_eq_nil fun _ ↦ FieldSet.isStanza_of_mem_elements
  have hstanzas : ∀ stanza ∈ Conditional.elements part.kind part.conditionals, isStanza stanza :=
    fun _ ↦ isStanza_of_mem_conditionalElements
  have hframes := (Element.Frames.of_append hstanzas hfields hframe.2).overrideAll part.verbatim
  have harranged := hframes.map_arrange hints
  rw [Conditional.map_arrange_elements hints] at harranged
  refine ⟨_, ?_, harranged.sortBy ((hints.sectionOrders.get? part.header).getD [])⟩
  rw [element, LayoutHints.arrange, LayoutHints.arrangeAll_eq_map]
  rfl

/-! ### Inference -/

section

open Discovery

variable {lister : Lister} {view : String → List String}

mutual

theorem FieldSet.meets_standIn (outer : List String) (fields : FieldSet) :
    Meets lister view (fun result ↦ ∀ elements, Conditional.StandIn result.conditionals elements →
        Conditional.StandIn fields.conditionals elements) (fields.inferBranch lister outer) := by
  rw [FieldSet.inferBranch_eq]
  refine (fields.meets_inferOther outer).bind fun other _ ↦ ?_
  rw [FieldSet.inferNested]
  split
  · refine .pure fun elements ↦ ?_
    rw [FieldSet.withOther, FieldSet.conditionals_withModules]
    exact id
  · refine (Conditional.meets_standAs _ fields.conditionals).bind fun nested hnested ↦ .pure ?_
    intro elements helements
    rw [FieldSet.conditionals_insert] at helements
    cases helements with
    | mk hstanzas hframes => exact .mk (hnested _ hstanzas) hframes
termination_by sizeOf fields
decreasing_by all_goals exact fields.sizeOf_conditionals_lt

/-- Inferring modules changes no condition, and no conditional comes or goes. -/
theorem Conditional.meets_standAs (outer : List String) (conditionals : List Conditional) :
    Meets lister view (fun result ↦ ∀ stanzas, Conditional.StandAs result stanzas →
        Conditional.StandAs conditionals stanzas) (Conditional.inferAll lister outer conditionals) := by
  match conditionals with
  | [] =>
    rw [Conditional.inferAll]
    exact .pure fun _ ↦ id
  | ⟨condition, thenFields, none⟩ :: rest =>
    rw [Conditional.inferAll]
    refine (FieldSet.meets_standIn outer thenFields).bind fun thenResult hthen ↦ ?_
    refine (Conditional.meets_standAs outer rest).bind fun restResult hrest ↦ .pure ?_
    intro stanzas hstanzas
    cases hstanzas with
    | cons_if sortable hinside hbehind =>
      exact .cons_if sortable (hthen _ hinside) (hrest _ hbehind)
  | ⟨condition, thenFields, some elseFields⟩ :: rest =>
    rw [Conditional.inferAll]
    refine (FieldSet.meets_standIn outer thenFields).bind fun thenResult hthen ↦ ?_
    refine (FieldSet.meets_standIn outer elseFields).bind fun elseResult helse ↦ ?_
    refine (Conditional.meets_standAs outer rest).bind fun restResult hrest ↦ .pure ?_
    intro stanzas hstanzas
    cases hstanzas with
    | cons_else sortable sortable' hinThen hinElse hbehind =>
      exact .cons_else sortable sortable' (hthen _ hinThen) (helse _ hinElse) (hrest _ hbehind)
termination_by sizeOf conditionals

end

theorem Conditional.standAs_of_inferAll {outer : List String} {conditionals nested : List Conditional}
    {memory memory' : Discovery}
    (h : (Conditional.inferAll lister outer conditionals).run memory = .ok (nested, memory'))
    {stanzas : List Element} (hstanzas : Conditional.StandAs nested stanzas) :
    Conditional.StandAs conditionals stanzas := by
  have hmeets : Meets lister (shown lister memory) _ _ := Conditional.meets_standAs outer conditionals
  have hyields := hmeets memory rfl
  rw [h] at hyields
  exact hyields.of_ok.2 stanzas hstanzas

end

open Discovery (exists_of_bind_run eq_of_pure_run)

/-- Of a section with its modules, whatever overrides it has and whatever the hints are: the stanzas in
it are those of its conditionals, with nothing between them. These are the conditionals at the top of
the manifest, if the section takes them, and then its own ones. -/
theorem Section.frames_of_infer {top body : FieldSet} {kind : SectionKind} {name : Option String}
    {lister : Lister} {packageName : String} {memory memory' : Discovery} {result : Section}
    (hinfer : ((top.sectionOf kind name body).infer lister packageName).run memory =
      .ok (result, memory')) (hints : LayoutHints) :
    ∃ elements, hints.arrange result.element = .stanza result.header elements true ∧
      Element.Frames (Conditional.elements result.kind result.conditionals) elements ∧
      Conditional.StandAs ((if kind.takesGlobals then top.conditionals else []) ++ body.conditionals)
        (Conditional.elements result.kind result.conditionals) := by
  obtain ⟨elements, harrange, hframes⟩ := result.exists_arrange_element hints
  refine ⟨elements, harrange, hframes, ?_⟩
  have hstand := Conditional.standAs_elements result.kind result.conditionals
  have hconditionals : (top.sectionOf kind name body).conditionals =
      (if kind.takesGlobals then top.conditionals else []) ++ body.conditionals := by
    show (if kind.takesGlobals then _ else _) = _
    split <;> rfl
  rw [← hconditionals]
  rw [infer, inferWith] at hinfer
  split at hinfer
  · -- The setup program stays as it is.
    rwa [eq_of_pure_run hinfer] at hstand ⊢
  · obtain ⟨modules, middle, -, hinfer⟩ := exists_of_bind_run hinfer
    obtain ⟨nested, last, hnested, hinfer⟩ := exists_of_bind_run hinfer
    rw [eq_of_pure_run hinfer] at hstand ⊢
    exact Conditional.standAs_of_inferAll hnested hstand

/-! A library gets an option for one system at the top, and overrides its own options. -/

/-- The conditional at the top. -/
def systemConditional : Conditional :=
  ⟨"os(linux)", ⟨[("ghc-options", .texts ["-O2"])]⟩, some ⟨[("buildable", .bool false)]⟩⟩

/-- The conditional of the library. -/
def flagConditional : Conditional := ⟨"flag(fast)", ⟨[("cpp-options", .texts ["-DFAST"])]⟩, none⟩

/-- The body of the library. -/
def overriddenBody : FieldSet :=
  ⟨[("exposed-modules", .texts []), ("other-modules", .texts []), ("ghc-options", .texts ["-Wall"]),
    ("when", .conditionals [flagConditional]),
    ("verbatim", .verbatim [.raw "else", .fields [("ghc-options", .null)]])]⟩

/-- The library as a section. -/
def overriddenSection : Section :=
  ⟨.library, none, ⟨[("ghc-options", .texts ["-Wall"])]⟩, [systemConditional, flagConditional],
    [.raw "else", .fields [("ghc-options", .null)]]⟩

theorem infer_overridden :
    (((⟨[("when", .conditionals [systemConditional])]⟩ : FieldSet).sectionOf .library none
      overriddenBody).infer (fun _ ↦ .ok none) "foo").run Discovery.start =
      .ok (overriddenSection, Discovery.start) := by
  set top : FieldSet := ⟨[("when", .conditionals [systemConditional])]⟩ with htop
  have hmerge : top.mergeSection overriddenBody = ⟨[("exposed-modules", .texts []),
      ("other-modules", .texts []), ("ghc-options", .texts ["-Wall"])]⟩ := by
    simp only [FieldSet.mergeSection, FieldSet.merge_eq]
    rfl
  have hsection : top.sectionOf .library none overriddenBody =
      ⟨.library, none, ⟨[("exposed-modules", .texts []), ("other-modules", .texts []),
        ("ghc-options", .texts ["-Wall"])]⟩, [systemConditional, flagConditional],
        [.raw "else", .fields [("ghc-options", .null)]]⟩ := by
    rw [FieldSet.sectionOf, hmerge]
    rfl
  rw [hsection]
  simp only [Section.infer, Section.inferWith, infer, systemConditional, flagConditional,
    Conditional.inferAll, FieldSet.inferBranch]
  rfl

/-- The stanzas of both conditionals are in their places. -/
theorem Section.frames_of_infer_overridden :
    ∃ elements, LayoutHints.standard.arrange overriddenSection.element =
        .stanza "library" elements true ∧
      Element.Frames (Conditional.elements .library [systemConditional, flagConditional]) elements ∧
      Conditional.StandAs [systemConditional, flagConditional]
        (Conditional.elements .library [systemConditional, flagConditional]) :=
  Section.frames_of_infer infer_overridden .standard

end CabalManifest
