import CabalManifest.Build
import CabalManifest.Proofs.RecoveredHints

/-!
# Writing a description again

A description that is written again, with the hints that it gives itself, stays as it is. This is
said here of elements (`renderTop_recovered`); they have to be legible, and no name may occur twice
where an order is kept.
-/

namespace CabalManifest

namespace LayoutHints

/-- Everything below a header is indented. -/
theorem indentOf_ne_zero_of_mem_splitSections {lines : List (List Char)} {line : List Char}
    (h : line ∈ (splitSections lines).1 ∨ ∃ block ∈ (splitSections lines).2, line ∈ block.2) :
    indentOf line ≠ 0 := by
  induction lines with
  | nil => simp [splitSections] at h
  | cons first lines ih =>
    rw [splitSections] at h
    obtain ⟨body, rest⟩ := splitSections lines
    simp only at h ih
    split at h
    · next hindent =>
      rcases h with h | h
      · rcases List.mem_cons.1 h with rfl | h
        · simpa using hindent
        · exact ih (.inl h)
      · exact ih (.inr h)
    · split at h
      · exact ih (.inr (h.resolve_left (by simp)))
      · obtain ⟨block, hblock, hline⟩ := h.resolve_left (by simp)
        rcases List.mem_cons.1 hblock with rfl | hblock
        · exact ih (.inl hline)
        · exact ih (.inr ⟨block, hblock, hline⟩)

/-- Hints indent by something, wherever they are taken from. -/
theorem indentation_ofText_pos (text : String) : 0 < (ofText text).indentation := by
  show 0 < sectionIndent (sections (relevantLines text.toList))
  rw [sectionIndent]
  cases hfound : (sections (relevantLines text.toList)).findSome? fun block ↦ block.2.head? with
  | none =>
    rw [Option.map_none, Option.getD_none]
    decide
  | some line =>
    obtain ⟨block, hblock, hhead⟩ := List.exists_of_findSome?_eq_some hfound
    have hindent : indentOf line ≠ 0 :=
      indentOf_ne_zero_of_mem_splitSections (.inr ⟨block, hblock, List.mem_of_head? hhead⟩)
    rw [Option.map_some, Option.getD_some]
    exact Nat.pos_of_ne_zero hindent

end LayoutHints

namespace Element

open LayoutHints (headers)

/-- An element whose parts keep their order under all hints. -/
def IsSteady (element : Element) : Prop := ∀ hints : LayoutHints, hints.arrange element = element

/-- Elements whose order can be told from what is written of them. -/
structure IsOrderly (elements : List Element) : Prop where
  legible : Legible 0 elements
  fieldNames_nodup : (fieldNames elements).Nodup
  headers_nodup : (headers elements).Nodup
  children_nodup : ∀ {header children sortable}, .stanza header children sortable ∈ elements →
    (fieldNames children).Nodup
  sortable_eq : ∀ {header children sortable}, .stanza header children sortable ∈ elements →
    sortable = true
  isSteady : ∀ {header children sortable}, .stanza header children sortable ∈ elements →
    ∀ child ∈ children, child.IsSteady

end Element

namespace LayoutHints

open Element (sortBy fieldNames IsOrderly Legible)

variable (hints : LayoutHints)

theorem arrange_stanza {elements : List Element} (h : IsOrderly elements) {header : String}
    {children : List Element} {sortable : Bool}
    (hmem : .stanza header children sortable ∈ elements) :
    hints.arrange (.stanza header children sortable) =
      .stanza header (sortBy ((hints.sectionOrders.get? header).getD []) children) sortable := by
  have hchildren : children.map hints.arrange = children :=
    (List.map_congr_left fun child hchild ↦ h.isSteady hmem child hchild hints).trans
      (List.map_id _)
  rw [arrange, h.sortable_eq hmem, if_pos rfl, arrangeAll_eq_map, hchildren]

/-- Hints with the orders that arranged elements have arrange them the same way. -/
theorem arrangeTop_recovered {elements : List Element} (h : IsOrderly elements)
    {recovered : LayoutHints}
    (hfields : recovered.fieldOrder = fieldNames (hints.arrangeTop elements))
    (hsections : ∀ {header children sortable},
      .stanza header children sortable ∈ hints.arrangeTop elements →
        recovered.sectionOrders.get? header = some (fieldNames children)) :
    recovered.arrangeTop elements = hints.arrangeTop elements := by
  have harrange : elements.map recovered.arrange = elements.map hints.arrange := by
    refine List.map_congr_left fun element helement ↦ ?_
    cases element with
    | field name content => rfl
    | raw lines => rfl
    | stanza header children sortable =>
      have hmem : hints.arrange (.stanza header children sortable) ∈ hints.arrangeTop elements :=
        (hints.arrangeTop_perm _).mem_iff.2 (List.mem_map_of_mem helement)
      rw [hints.arrange_stanza h helement] at hmem ⊢
      rw [recovered.arrange_stanza h helement, hsections hmem, Option.getD_some,
        Element.sortBy_fieldNames_sortBy _ (h.children_nodup helement)]
  rw [arrangeTop, arrangeTop, arrangeAll_eq_map, arrangeAll_eq_map, harrange, hfields, arrangeTop,
    arrangeAll_eq_map, Element.sortBy_fieldNames_sortBy]
  rw [fieldNames_map_arrange]
  exact h.fieldNames_nodup

theorem legible_arrangeTop {elements : List Element} (h : IsOrderly elements) :
    Legible 0 (hints.arrangeTop elements) := fun piece hpiece ↦
  h.legible piece ((hints.piecesAll_arrangeTop_perm 0 elements).mem_iff.1 hpiece)

/-- Arranging elements keeps the headers of stanzas. -/
theorem headers_arrangeTop_perm (elements : List Element) :
    (headers (hints.arrangeTop elements)).Perm (headers elements) := by
  have hmap : headers (elements.map hints.arrange) = headers elements := by
    rw [headers, List.filterMap_map]
    refine List.filterMap_congr fun element _ ↦ ?_
    cases element <;> rfl
  rw [← hmap]
  exact (hints.arrangeTop_perm elements).filterMap _

/-! ### Reading what was written -/

/-- The text of some elements at the top, arranged as hints say. -/
def renderTop (elements : List Element) : String :=
  "\n".intercalate (hints.topLines none (hints.arrangeTop elements)) ++ "\n"

/-- The lines of legible pieces are lines. -/
theorem unbroken_of_mem_pieceLines {piece : Nat × Piece} (h : piece.2.Legible) {line : String}
    (hline : line ∈ hints.pieceLines piece) : Text.Unbroken line.toList := by
  obtain ⟨depth, piece⟩ := piece
  cases piece with
  | header text =>
    rw [List.mem_singleton.1 hline, String.toList_append, toList_spaces, Text.unbroken_append]
    exact ⟨Text.unbroken_replicate_space _, h.1.2.2.unbroken⟩
  | field name content =>
    rcases List.mem_cons.1 hline with rfl | hline
    · rw [String.toList_append, toList_spaces, toList_startOf, Text.unbroken_append,
        Text.unbroken_append, Text.unbroken_cons, Text.unbroken_append]
      exact ⟨Text.unbroken_replicate_space _, (plain_of_isFieldName h.1).unbroken, rfl,
        Text.unbroken_replicate_space _, unbroken_inlineText h.2⟩
    · exact (hints.isFurther_of_mem_furtherLines h.2 hline).unbroken
  | raw lines => cases h

theorem unbroken_of_mem_topLines {elements : List Element}
    (h : ∀ piece ∈ Element.piecesAll 0 elements, ∀ line ∈ hints.pieceLines piece,
      Text.Unbroken line.toList) {before : Option Bool} {line : String}
    (hline : line ∈ hints.topLines before elements) : Text.Unbroken line.toList := by
  induction elements generalizing before with
  | nil => cases hline
  | cons element rest ih =>
    rw [topLines_cons, List.mem_append, List.mem_append, linesOf_eq_pieces] at hline
    rcases hline with (happart | hline) | hline
    · have hempty : line = "" := by
        split at happart
        · exact List.mem_singleton.1 happart
        · cases happart
      rw [hempty]
      exact Text.unbroken_nil
    · obtain ⟨piece, hpiece, hline⟩ := List.mem_flatMap.1 hline
      exact h piece (List.mem_append_left _ hpiece) line hline
    · exact ih (fun piece hpiece ↦ h piece (List.mem_append_right _ hpiece)) hline

theorem unbroken_of_mem_topLines_of_legible {elements : List Element} (h : Legible 0 elements)
    {before : Option Bool} {line : String} (hline : line ∈ hints.topLines before elements) :
    Text.Unbroken line.toList :=
  hints.unbroken_of_mem_topLines
    (fun piece hpiece _ hline ↦ hints.unbroken_of_mem_pieceLines (h piece hpiece) hline) hline

theorem relevantLines_of_isIgnored {line : List Char} (hunbroken : Text.Unbroken line)
    (hignored : isIgnored line) (text : List Char) :
    relevantLines (line ++ '\n' :: text) = relevantLines text := by
  rw [relevantLines_eq, Text.lines_append_newline hunbroken,
    List.filterMap_cons_none (visible?_eq_none_iff.2 hignored), relevantLines_eq]

/-- The header of a generated description is no more than comments. -/
theorem relevantLines_generatedHeader (text : List Char) :
    relevantLines (generatedHeader.toList ++ text) = relevantLines text := by
  have hheader : generatedHeader.toList ++ text =
      "-- This file has been generated from package.yaml by cabalize.".toList ++
        '\n' :: ("--".toList ++
          '\n' :: ("-- Changes here are overwritten; edit the manifest instead.".toList ++
            '\n' :: ([] ++ '\n' :: text))) := by
    simp [generatedHeader, String.join]
  rw [hheader, relevantLines_of_isIgnored (by decide) (by decide),
    relevantLines_of_isIgnored (by decide) (by decide),
    relevantLines_of_isIgnored (by decide) (by decide),
    relevantLines_of_isIgnored (by decide) (by decide)]

/-- A generated description is laid out as the text behind its header. -/
theorem ofText_generatedHeader (text : String) : ofText (generatedHeader ++ text) = ofText text := by
  rw [ofText, ofText, String.toList_append, relevantLines_generatedHeader]

theorem intercalate_append_newline {lines : List (List Char)} (h : lines ≠ []) :
    ['\n'].intercalate lines ++ ['\n'] = lines.flatMap (· ++ ['\n']) := by
  induction lines with
  | nil => exact absurd rfl h
  | cons line lines ih =>
    cases lines with
    | nil => simp [List.intercalate]
    | cons other lines => simpa [List.intercalate_cons_cons] using ih (by simp)

/-- In a written text every line is ended by a line feed. -/
theorem toList_intercalate_append {lines : List String} (h : lines ≠ []) :
    ("\n".intercalate lines ++ "\n").toList =
      (lines.map String.toList).flatMap (· ++ ['\n']) := by
  rw [String.toList_append, String.toList_intercalate]
  exact intercalate_append_newline (by simpa using h)

/-- Of written lines, the visible ones are taken. -/
theorem relevantLines_intercalate {lines : List String}
    (h : ∀ line ∈ lines, Text.Unbroken line.toList) :
    relevantLines ("\n".intercalate lines ++ "\n").toList = visibleLines lines := by
  by_cases hne : lines = []
  · subst hne
    rfl
  · have hunbroken : ∀ line ∈ lines.map String.toList, Text.Unbroken line := by
      intro line hline
      obtain ⟨written, hwritten, rfl⟩ := List.mem_map.1 hline
      exact h written hwritten
    rw [toList_intercalate_append hne, relevantLines_eq, Text.lines_flatMap_newline hunbroken,
      List.filterMap_map]
    rfl

/-- Of a written text, all lines of its elements are seen, and nothing else. -/
theorem relevantLines_topLines {elements : List Element}
    (h : ∀ piece ∈ Element.piecesAll 0 elements, ∀ line ∈ hints.pieceLines piece,
      Text.Unbroken line.toList) :
    relevantLines ("\n".intercalate (hints.topLines none elements) ++ "\n").toList =
      hints.seenAll 0 elements := by
  rw [relevantLines_intercalate fun line hline ↦ hints.unbroken_of_mem_topLines h hline,
    visibleLines_topLines]
  rfl

theorem relevantLines_renderTop {elements : List Element} (h : IsOrderly elements) :
    relevantLines (hints.renderTop elements).toList =
      hints.seenAll 0 (hints.arrangeTop elements) :=
  hints.relevantLines_topLines fun piece hpiece _ hline ↦
    hints.unbroken_of_mem_pieceLines (hints.legible_arrangeTop h piece hpiece) hline

/-! ### Writing it again -/

/-- A piece is indented only if some stanza has elements. -/
theorem exists_stanza_of_depth_ne_zero {elements : List Element} {piece : Nat × Piece}
    (hpiece : piece ∈ Element.piecesAll 0 elements) (hdepth : piece.1 ≠ 0) :
    ∃ header child children sortable,
      Element.stanza header (child :: children) sortable ∈ elements := by
  obtain ⟨element, helement, hpiece⟩ := Element.mem_piecesAll.1 hpiece
  cases element with
  | field name content =>
    rw [List.mem_singleton.1 hpiece] at hdepth
    exact absurd rfl hdepth
  | raw lines =>
    rw [List.mem_singleton.1 hpiece] at hdepth
    exact absurd rfl hdepth
  | stanza header children sortable =>
    rcases List.mem_cons.1 hpiece with rfl | hpiece
    · exact absurd rfl hdepth
    · cases children with
      | nil => cases hpiece
      | cons child children => exact ⟨header, child, children, sortable, helement⟩

/-- The style of commas does not matter where there are none. -/
theorem furtherLines_congr {hints hints' : LayoutHints} {content : Content}
    (h : content.HasCommas → hints.commaStyle = hints'.commaStyle) (indent : String) :
    hints.furtherLines indent content = hints'.furtherLines indent content := by
  cases content with
  | inline text => rfl
  | block lines => rfl
  | lines items => rfl
  | commas items =>
    rw [furtherLines, furtherLines]
    cases items with
    | nil => rfl
    | cons first rest =>
      cases rest with
      | nil => cases hints.commaStyle <;> cases hints'.commaStyle <;> rfl
      | cons second rest => rw [h ⟨_, rfl, by simp⟩]

/-- Hints that were taken from a written description write every piece of it as it was. -/
theorem pieceLines_recovered {elements : List Element}
    (h : Legible 0 elements) {recovered : LayoutHints}
    (halignment : recovered.alignment = alignmentOf (hints.seenAll 0 elements))
    (hindentation : recovered.indentation = sectionIndent (elements.filterMap hints.block?))
    (hcommas : recovered.commaStyle = commaStyleOf (hints.seenAll 0 elements))
    {piece : Nat × Piece} (hpiece : piece ∈ Element.piecesAll 0 elements) :
    recovered.pieceLines piece = hints.pieceLines piece := by
  have hindent : recovered.indentation * piece.1 = hints.indentation * piece.1 := by
    by_cases hdepth : piece.1 = 0
    · rw [hdepth, Nat.mul_zero, Nat.mul_zero]
    · obtain ⟨header, child, children, sortable, hmem⟩ :=
        exists_stanza_of_depth_ne_zero hpiece hdepth
      rw [hindentation, hints.sectionIndent_seenAll h hmem]
  obtain ⟨depth, piece⟩ := piece
  cases piece with
  | header text => rw [pieceLines, pieceLines, hindent]
  | field name content =>
    have hfield := mem_fieldsOf.2 ⟨depth, hpiece⟩
    have hstart : recovered.startOf name content = hints.startOf name content := by
      rw [startOf, startOf]
      split
      · rfl
      · next hvalue =>
        rw [hints.gapOf_recovered (hints.readMeasures_fieldLines h) halignment hfield hvalue]
    have hfurther : ∀ indent, recovered.furtherLines indent content =
        hints.furtherLines indent content :=
      furtherLines_congr fun hcontent ↦ hcommas.trans (hints.commaStyleOf_seenAll h hfield hcontent)
    rw [pieceLines, pieceLines, hindent]
    show _ :: _ = _ :: _
    rw [hstart, hfurther]
  | raw lines => exact (h _ hpiece).elim

/-- A description is not changed by the hints that it gives itself. -/
theorem renderTop_recovered (hpos : 0 < hints.indentation) {elements : List Element}
    (h : IsOrderly elements) :
    (ofText (hints.renderTop elements)).renderTop elements =
      hints.renderTop elements := by
  have hlegible := hints.legible_arrangeTop h
  have hheaders : (headers (hints.arrangeTop elements)).Nodup :=
    (hints.headers_arrangeTop_perm elements).nodup_iff.2 h.headers_nodup
  have hlines := hints.relevantLines_renderTop h
  have hsections := hints.splitSections_seenAll hpos hlegible
  set recovered := ofText (hints.renderTop elements) with hrecovered
  have harrange : recovered.arrangeTop elements = hints.arrangeTop elements := by
    refine hints.arrangeTop_recovered h ?_ fun hmem ↦ ?_
    · rw [hrecovered, ofText, hlines]
      exact hints.fieldOrder_seenAll hpos hlegible
    · rw [hrecovered, ofText, hlines, sections, hsections]
      exact hints.get?_orders_of_mem hpos hlegible hheaders hmem
  have hpieces : ∀ piece ∈ Element.piecesAll 0 (hints.arrangeTop elements),
      recovered.pieceLines piece = hints.pieceLines piece := fun piece hpiece ↦ by
    refine hints.pieceLines_recovered hlegible ?_ ?_ ?_ hpiece
    · rw [hrecovered, ofText, hlines]
    · rw [hrecovered, ofText, hlines, sections, hsections]
    · rw [hrecovered, ofText, hlines]
  rw [renderTop, renderTop, harrange, topLines_congr hpieces]

end LayoutHints

end CabalManifest
