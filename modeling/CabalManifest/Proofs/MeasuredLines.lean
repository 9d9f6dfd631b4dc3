import CabalManifest.Proofs.ContainedLines
import CabalManifest.Proofs.CoveredLines

/-!
# The column of values in a written description

The column of values is taken from the lines that start fields, each with its *measure*: the length
of the name and of the gap behind it. What is measured in a written description is told here piece by
piece (`readMeasures_seenAll`): nothing in the header of a stanza, in each field the measure that it was
written with, and in raw lines whatever they say. A name that is none leaves its field unmeasured.

Fields are written with measures that *fit* the column of values (`fits_measureOf`), so that it is found
again as soon as one of them is padded up to it, unless some raw line does not fit
(`alignmentOf_seenAll_eq_some_iff`).
-/

namespace CabalManifest

open LayoutHints
open Text (Unbroken IsFlush)

/-! ### Readable pieces -/

/-- A content whose texts are in one line each. -/
def Content.IsUnbroken (content : Content) : Prop := ∀ text ∈ content.texts, Unbroken text.toList

theorem Content.IsUnbroken.inlineText {content : Content} (h : content.IsUnbroken) :
    Unbroken content.inlineText.toList := by
  cases content with
  | inline text => exact h text List.mem_cons_self
  | _ => exact Text.unbroken_nil

/-- A piece whose lines can be told from each other when they are read. -/
inductive Piece.IsReadable : Piece → Prop
  | header {text : String} (hunbroken : Unbroken text.toList)
    (hletter : text.toList.head?.any Char.isAlpha) (hfield : isFieldLine text.toList = false) :
    IsReadable (.header text)
  | field {name : String} {content : Content} (hname : isFieldName name.toList)
    (hcontent : content.IsUnbroken) (hvalue : IsFlush content.inlineText.toList) :
    IsReadable (.field name content)
  /-- A field whose name is none, and starts with none. -/
  | unnamed {name text : String} (hname : isFieldName name.toList = false)
    (hunbroken : Unbroken name.toList) (hflush : IsFlush name.toList)
    (hfield : isFieldLine name.toList = false) (htext : Unbroken text.toList) :
    IsReadable (.field name (.inline text))
  /-- Lines that start fields. -/
  | raw {lines : List String}
    (h : ∀ line ∈ lines, Unbroken line.toList ∧ isFieldLine line.toList = true) :
    IsReadable (.raw lines)

namespace LayoutHints

/-! ### Lines that start no field -/

/-- A line starts a field with or without blanks at its end. -/
theorem isFieldLine_trimRight (line : List Char) :
    isFieldLine (Text.trimRight line) = isFieldLine line := by
  refine Bool.eq_iff_iff.2 ⟨fun h ↦ ?_, fun h ↦ ?_⟩
  · obtain ⟨name, rest, hname, hline⟩ := isFieldLine_iff.1 h
    obtain ⟨blanks, hblanks⟩ : Text.trimRight line <+: line := List.rdropWhile_prefix _ _
    refine isFieldLine_iff.2 ⟨name, rest ++ blanks, hname, ?_⟩
    rw [← hblanks, hline, List.append_assoc, List.cons_append]
  · obtain ⟨name, rest, hname, rfl⟩ := isFieldLine_iff.1 h
    have hcolon : Text.isBlank ':' = false := by decide
    refine isFieldLine_iff.2 ⟨name, Text.trimRight rest, hname, ?_⟩
    rw [Text.trimRight_append _ ⟨':', List.mem_cons_self, hcolon⟩, Text.trimRight_cons hcolon]

/-- What is no name and starts with none does not become one by a colon behind it. -/
theorem isFieldLine_append_colon {name : List Char} (hname : isFieldName name = false)
    (hfield : isFieldLine name = false) (rest : List Char) :
    isFieldLine (name ++ ':' :: rest) = false := by
  refine Bool.eq_false_iff.2 fun h ↦ ?_
  obtain ⟨name', rest', hname', heq⟩ := isFieldLine_iff.1 h
  rcases List.append_eq_append_iff.1 heq with ⟨xs, hxs, hrest⟩ | ⟨xs, hxs, hrest⟩
  · cases xs with
    | nil =>
      rw [List.append_nil] at hxs
      rw [← hxs, hname'] at hname
      cases hname
    | cons x xs =>
      -- the colon would be part of a name
      have hcolon : isNameChar ':' = true := by
        obtain ⟨rfl, -⟩ := List.cons.inj hrest
        exact isNameChar_of_mem hname' (by simp [hxs])
      exact absurd hcolon (by decide)
  · cases xs with
    | nil =>
      rw [List.append_nil] at hxs
      rw [hxs, hname'] at hname
      cases hname
    | cons x xs =>
      obtain ⟨rfl, -⟩ := List.cons.inj hrest
      rw [isFieldLine_iff.2 ⟨name', xs, hname', hxs⟩] at hfield
      cases hfield

theorem isFlush_of_isFieldLine {line : List Char} (h : isFieldLine line = true) : IsFlush line := by
  obtain ⟨name, rest, hname, rfl⟩ := isFieldLine_iff.1 h
  cases name with
  | nil => cases hname
  | cons c cs =>
    exact Text.isFlush_cons.2 (isBlank_of_isNameChar (isNameChar_of_mem hname List.mem_cons_self))

/-- A text behind some spaces is seen at their number, and starts a field as it does on its own. -/
theorem isFieldLine_of_visible? {n : Nat} {text visible : List Char} (hflush : IsFlush text)
    (h : visible? (List.replicate n ' ' ++ text) = some visible) :
    indentOf visible = n ∧ isFieldLine (Text.trim visible) = isFieldLine text := by
  obtain ⟨column, hcolumn⟩ := trim_of_visible? h
  refine ⟨(indentOf_of_visible? h).2 hflush, ?_⟩
  rw [hcolumn, isFieldLine_expandTabs, Text.trim_replicate_space_append,
    Text.trim_of_isFlush hflush, isFieldLine_trimRight]

/-! ### Scanning pieces -/

/-- Lines at one level are taken as far as they start fields. -/
theorem exists_scans_level {indent : Nat} {lines : List (List Char)}
    (h : ∀ line ∈ lines, indentOf line = indent) {above : Option Nat}
    (habove : ∀ n ∈ above, indent ≤ n) :
    ∃ next, (∀ n ∈ next, indent ≤ n) ∧
      Scans above lines (lines.filter fun line ↦ isFieldLine (Text.trim line)) next := by
  induction lines generalizing above with
  | nil => exact ⟨above, habove, .nil above⟩
  | cons line lines ih =>
    rw [List.forall_mem_cons] at h
    have hline : Scans above [line] _ _ := .singleton fun n hn ↦ h.1 ▸ habove n hn
    have hbetween : ∀ n ∈ if isFieldLine (Text.trim line) then some (indentOf line) else none,
        indent ≤ n := by
      intro n hn
      split at hn
      · rw [← Option.mem_some.1 hn, h.1]
      · cases hn
    obtain ⟨next, hnext, hlines⟩ := ih h.2 hbetween
    refine ⟨next, hnext, ?_⟩
    have happend := hline.append hlines
    rw [List.filter_cons]
    split at happend
    · rwa [if_pos ‹_›]
    · rwa [if_neg ‹_›]

theorem readMeasures_filter (lines : List (List Char)) :
    readMeasures (lines.filter fun line ↦ isFieldLine (Text.trim line)) = readMeasures lines := by
  rw [readMeasures, readMeasures, List.filterMap_filter]
  congr 1
  refine List.filterMap_congr fun line _ ↦ ?_
  rw [isFieldLine]
  cases fieldLine? (Text.trim line) <;> rfl

theorem readMeasures_eq_nil {lines : List (List Char)}
    (h : ∀ line ∈ lines, isFieldLine (Text.trim line) = false) : readMeasures lines = [] := by
  rw [← readMeasures_filter, List.filter_eq_nil_iff.2 fun line hline ↦ by simp [h line hline]]
  rfl

variable (hints : LayoutHints)

/-- The measures that are read in a piece: those with which its field was written, or what its lines
say. -/
def measuresOf : Nat × Piece → List Measure
  | (_, .header _) => []
  | (_, .field name content) =>
    if isFieldName name.toList then [hints.measureOf name content] else []
  | (depth, .raw lines) => readMeasures (hints.seen (depth, .raw lines))

/-- The first line of a field depends on no more of its value than what stands in it. -/
theorem startOf_inline (name : String) (content : Content) :
    hints.startOf name (.inline content.inlineText) = hints.startOf name content := by
  rw [startOf, startOf]
  rfl

/-- The lines of a field behind the first one are seen deeper than the field. -/
theorem lt_indentOf_of_mem_furtherLines {indent : Nat} {content : Content} {visible : List Char}
    (h : visible ∈ visibleLines (hints.furtherLines (spaces indent) content)) :
    indent < indentOf visible := by
  obtain ⟨line, hline, hvisible⟩ := List.mem_filterMap.1 h
  obtain ⟨gap, text, hgap, rfl, -⟩ := hints.exists_of_mem_furtherLines hline
  rw [← String.append_assoc, toList_indented] at hvisible
  have hle := (indentOf_of_visible? hvisible).1
  omega

theorem unbroken_startOf {name : String} (hname : Unbroken name.toList) {content : Content}
    (hcontent : content.IsUnbroken) : Unbroken (hints.startOf name content).toList := by
  rw [toList_startOf, Text.unbroken_append, Text.unbroken_cons, Text.unbroken_append]
  exact ⟨hname, by decide, Text.unbroken_replicate_space _, hcontent.inlineText⟩

/-- The lines of a readable piece are lines. -/
theorem unbroken_of_isReadable {piece : Nat × Piece} (h : piece.2.IsReadable) {line : String}
    (hline : line ∈ hints.pieceLines piece) : Unbroken line.toList := by
  have hindented : ∀ {n : Nat} {text : String}, Unbroken text.toList →
      Unbroken (spaces n ++ text).toList := by
    intro n text htext
    rw [String.toList_append, toList_spaces, Text.unbroken_append]
    exact ⟨Text.unbroken_replicate_space n, htext⟩
  obtain ⟨depth, piece⟩ := piece
  cases h with
  | header hunbroken =>
    rw [List.mem_singleton.1 hline]
    exact hindented hunbroken
  | @field name content hname hcontent =>
    rcases List.mem_cons.1 hline with rfl | hline
    · exact hindented (hints.unbroken_startOf (plain_of_isFieldName hname).unbroken hcontent)
    · obtain ⟨gap, text, -, rfl, htext⟩ := hints.exists_of_mem_furtherLines hline
      refine hindented (hindented fun c hc ↦ ?_)
      rcases htext c hc with hmark | ⟨item, hitem, hc⟩
      · exact (show Unbroken ", .".toList by decide) c hmark
      · exact hcontent item hitem c hc
  | @unnamed name text hname hunbroken hflush hfield htext =>
    rw [List.mem_singleton.1 hline]
    exact hindented (hints.unbroken_startOf hunbroken (List.forall_mem_singleton.2 htext))
  | raw h =>
    obtain ⟨given, hgiven, rfl⟩ := List.mem_map.1 hline
    split
    · exact Text.unbroken_nil
    · exact hindented (h given hgiven).1

/-- The first line of a field is the only one of its lines that is taken. -/
theorem exists_scans_named {depth : Nat} {name : String} {content : Content}
    (hname : isFieldName name.toList) (hcontent : content.IsUnbroken)
    (hvalue : IsFlush content.inlineText.toList) {above : Option Nat}
    (habove : hints.Settled depth above) :
    ∃ starts, Scans above (hints.seen (depth, .field name content)) starts
        (some (hints.indentation * depth)) ∧
      readMeasures starts = [hints.measureOf name content] := by
  have hlegible : (Content.inline content.inlineText).Legible := ⟨hvalue, hcontent.inlineText⟩
  obtain ⟨line, hline, hstarts⟩ :=
    hints.exists_startsField hname hlegible (hints.indentation * depth)
  rw [startOf_inline] at hline
  obtain ⟨value, hread, -⟩ := hstarts.fieldLine?_eq
  have hfield : isFieldLine (Text.trim line) = true := by
    rw [isFieldLine, hread]
    rfl
  have hseen : hints.seen (depth, .field name content) =
      [line] ++ visibleLines (hints.furtherLines (spaces (hints.indentation * depth)) content) :=
    visibleLines_cons_of_some hline _
  have hfirst : Scans above [line] _ _ :=
    .singleton fun n hn ↦ hstarts.indentOf_eq ▸ habove n hn
  rw [if_pos hfield, if_pos hfield, hstarts.indentOf_eq] at hfirst
  refine ⟨[line] ++ [], ?_, ?_⟩
  · rw [hseen]
    exact hfirst.append (.of_deeper fun other hother ↦ hints.lt_indentOf_of_mem_furtherLines hother)
  · rw [List.append_nil, readMeasures_of_startsField hstarts]
    rfl

/-- Of a piece without a name, lines at its own level are seen, and as far as they start fields they
are taken. -/
theorem exists_scans_unnamed {depth : Nat} {piece : Piece}
    (h : ∀ line ∈ hints.seen (depth, piece), indentOf line = hints.indentation * depth)
    {above : Option Nat} (habove : hints.Settled depth above) :
    ∃ starts next, hints.Settled depth next ∧ Scans above (hints.seen (depth, piece)) starts next ∧
      readMeasures starts = readMeasures (hints.seen (depth, piece)) := by
  obtain ⟨next, hnext, hscans⟩ := exists_scans_level h habove
  exact ⟨_, next, hnext, hscans, readMeasures_filter _⟩

/-- The lines of a piece that is no stanza are measured as the piece was written. -/
theorem exists_scans_piece {depth : Nat} {piece : Piece} (h : piece.IsReadable)
    (hheader : ∀ text, piece ≠ .header text) {above : Option Nat}
    (habove : hints.Settled depth above) :
    ∃ starts next, hints.Settled depth next ∧ Scans above (hints.seen (depth, piece)) starts next ∧
      readMeasures starts = hints.measuresOf (depth, piece) := by
  cases h with
  | header => exact absurd rfl (hheader _)
  | @field name content hname hcontent hvalue =>
    obtain ⟨starts, hscans, hmeasures⟩ := hints.exists_scans_named hname hcontent hvalue habove
    refine ⟨starts, _, fun n hn ↦ (Option.mem_some.1 hn).le, hscans, ?_⟩
    rw [hmeasures, measuresOf, hname]
    rfl
  | @unnamed name text hname hunbroken hflush hfield htext =>
    have hline : IsFlush (hints.startOf name (.inline text)).toList ∧
        isFieldLine (hints.startOf name (.inline text)).toList = false := by
      rw [toList_startOf]
      exact ⟨hflush.append fun _ ↦ by simp; decide, isFieldLine_append_colon hname hfield _⟩
    have hseen : ∀ line ∈ hints.seen (depth, .field name (.inline text)),
        indentOf line = hints.indentation * depth ∧ isFieldLine (Text.trim line) = false := by
      intro line hmem
      obtain ⟨written, hwritten, hvisible⟩ := List.mem_filterMap.1 hmem
      rw [List.mem_singleton.1 hwritten, String.toList_append, toList_spaces] at hvisible
      obtain ⟨hindent, hstarts⟩ := isFieldLine_of_visible? hline.1 hvisible
      exact ⟨hindent, hstarts.trans hline.2⟩
    obtain ⟨starts, next, hnext, hscans, hmeasures⟩ :=
      hints.exists_scans_unnamed (fun line hmem ↦ (hseen line hmem).1) habove
    refine ⟨starts, next, hnext, hscans, ?_⟩
    rw [hmeasures, readMeasures_eq_nil fun line hmem ↦ (hseen line hmem).2, measuresOf,
      hname]
    rfl
  | @raw lines h =>
    refine hints.exists_scans_unnamed (fun line hmem ↦ ?_) habove
    obtain ⟨written, hwritten, hvisible⟩ := List.mem_filterMap.1 hmem
    obtain ⟨given, hgiven, rfl⟩ := List.mem_map.1 hwritten
    have hflush := isFlush_of_isFieldLine (h given hgiven).2
    have hne : given ≠ "" := by
      rintro rfl
      exact absurd (h "" hgiven).2 (by decide)
    rw [if_neg hne, String.toList_append, toList_spaces] at hvisible
    exact (isFieldLine_of_visible? hflush hvisible).1

/-- The header of a stanza ends the field above it. -/
theorem scans_header {depth : Nat} {text : String} (h : (Piece.header text).IsReadable)
    {above : Option Nat} (habove : hints.Settled depth above) :
    Scans above (hints.seen (depth, .header text)) [] none := by
  cases h with
  | header hunbroken hletter hfield =>
    obtain ⟨line, hline, -⟩ := exists_isSeen hletter (hints.indentation * depth)
    have hflush : IsFlush text.toList := by
      cases hcs : text.toList with
      | nil => exact Text.isFlush_nil
      | cons c cs =>
        rw [hcs] at hletter
        exact Text.isFlush_cons.2 (isBlank_of_isNameChar (isNameChar_of_isAlpha (by simpa using hletter)))
    obtain ⟨hindent, hstarts⟩ := isFieldLine_of_visible? hflush hline
    rw [← toList_spaces, ← String.toList_append] at hline
    have hseen : hints.seen (depth, .header text) = [line] := visibleLines_cons_of_some hline []
    have hscans : Scans above [line] _ _ := .singleton fun n hn ↦ hindent ▸ habove n hn
    rw [hstarts, hfield] at hscans
    rw [hseen]
    exact hscans

mutual

/-- Behind the lines of an element, reading goes on as if they had not been there: what was taken of
them has the measures of its pieces. -/
theorem exists_scans_pieces (depth : Nat) :
    ∀ (element : Element), (∀ piece ∈ Element.pieces depth element, piece.2.IsReadable) →
      ∀ above, hints.Settled depth above →
        ∃ starts next, hints.Settled depth next ∧
          Scans above ((Element.pieces depth element).flatMap hints.seen) starts next ∧
          readMeasures starts = (Element.pieces depth element).flatMap hints.measuresOf
  | .field name content, h, above, habove => by
    rw [Element.pieces, List.flatMap_singleton, List.flatMap_singleton]
    exact hints.exists_scans_piece (h _ List.mem_cons_self) (by simp) habove
  | .raw lines, h, above, habove => by
    rw [Element.pieces, List.flatMap_singleton, List.flatMap_singleton]
    exact hints.exists_scans_piece (h _ List.mem_cons_self) (by simp) habove
  | .stanza header elements sortable, h, above, habove => by
    obtain ⟨starts, next, hnext, hscans, hmeasures⟩ := exists_scans_piecesAll (depth + 1) elements
      (fun piece hpiece ↦ h piece (List.mem_cons_of_mem _ hpiece)) none (by simp [Settled])
    refine ⟨[] ++ starts, next, fun n hn ↦ ?_, ?_, ?_⟩
    · exact (Nat.mul_le_mul_left _ (Nat.le_succ depth)).trans (hnext n hn)
    · rw [flatMap_seen_stanza]
      exact (hints.scans_header (h _ List.mem_cons_self) habove).append hscans
    · rw [List.nil_append, hmeasures, Element.pieces, List.flatMap_cons]
      rfl

/-- Of some elements, the lines that are taken have the measures of their pieces. -/
theorem exists_scans_piecesAll (depth : Nat) :
    ∀ (elements : List Element),
      (∀ piece ∈ Element.piecesAll depth elements, piece.2.IsReadable) →
        ∀ above, hints.Settled depth above →
          ∃ starts next, hints.Settled depth next ∧
            Scans above (hints.seenAll depth elements) starts next ∧
            readMeasures starts = (Element.piecesAll depth elements).flatMap hints.measuresOf
  | [], _, above, habove => ⟨[], above, habove, .nil above, rfl⟩
  | element :: elements, h, above, habove => by
    obtain ⟨starts, between, hbetween, hscans, hmeasures⟩ := exists_scans_pieces depth element
      (fun piece hpiece ↦ h piece (List.mem_append_left _ hpiece)) above habove
    obtain ⟨starts', next, hnext, hscans', hmeasures'⟩ := exists_scans_piecesAll depth elements
      (fun piece hpiece ↦ h piece (List.mem_append_right _ hpiece)) between hbetween
    refine ⟨starts ++ starts', next, hnext, ?_, ?_⟩
    · rw [seenAll_cons]
      exact hscans.append hscans'
    · rw [readMeasures_append, hmeasures, hmeasures', Element.piecesAll, List.flatMap_append]

end

/-- What is measured in a written description are the measures of its pieces. -/
theorem readMeasures_seenAll {elements : List Element}
    (h : ∀ piece ∈ Element.piecesAll 0 elements, piece.2.IsReadable) :
    readMeasures (fieldLines (hints.seenAll 0 elements)) =
      (Element.piecesAll 0 elements).flatMap hints.measuresOf := by
  obtain ⟨starts, next, -, hscans, hmeasures⟩ :=
    hints.exists_scans_piecesAll 0 elements h none (by simp [Settled])
  have hall := hscans []
  rw [List.append_nil, fieldLinesFrom, List.append_nil] at hall
  rw [fieldLines, hall, hmeasures]

/-! ### Measures that fit -/

/-- Whether a measure agrees with a column of values: a value that is padded starts there, and any
other not in front of it. -/
def Measure.Fits (column : Nat) (measure : Measure) : Prop :=
  measure.hasValue = true →
    if 1 < measure.gap then measure.column = column else column ≤ measure.column

instance (column : Nat) (measure : Measure) : Decidable (measure.Fits column) :=
  inferInstanceAs (Decidable (_ → _))

theorem mem_columns {padded : Bool} {measures : List Measure} {column : Nat} :
    column ∈ columns padded measures ↔
      ∃ measure ∈ measures, measure.hasValue = true ∧ decide (1 < measure.gap) = padded ∧
        measure.column = column := by
  simp [columns, and_assoc]

/-- The column of values is one that all measures agree with and some value is padded to. -/
theorem alignmentOf_eq_some_iff_fits {lines : List (List Char)} {column : Nat} :
    alignmentOf lines = some column ↔
      (∃ measure ∈ readMeasures (fieldLines lines), measure.hasValue = true ∧ 1 < measure.gap) ∧
        ∀ measure ∈ readMeasures (fieldLines lines), measure.Fits column := by
  rw [alignmentOf_eq_some_iff, valueColumns_eq]
  set measures := readMeasures (fieldLines lines)
  constructor
  · rintro ⟨hne, hpadded, hothers⟩
    obtain ⟨first, hfirst⟩ := List.exists_mem_of_ne_nil _ hne
    obtain ⟨measure, hmeasure, hvalue, hgap, -⟩ := mem_columns.1 hfirst
    refine ⟨⟨measure, hmeasure, hvalue, of_decide_eq_true hgap⟩, fun measure hmeasure hvalue ↦ ?_⟩
    split
    · next hgap =>
      exact hpadded _ (mem_columns.2 ⟨measure, hmeasure, hvalue, decide_eq_true hgap, rfl⟩)
    · next hgap =>
      exact hothers _ (mem_columns.2 ⟨measure, hmeasure, hvalue, decide_eq_false hgap, rfl⟩)
  · rintro ⟨⟨measure, hmeasure, hvalue, hgap⟩, hfits⟩
    refine ⟨List.ne_nil_of_mem (mem_columns.2 ⟨measure, hmeasure, hvalue, decide_eq_true hgap, rfl⟩),
      fun padded hmem ↦ ?_, fun other hmem ↦ ?_⟩
    · obtain ⟨measure, hmeasure, hvalue, hgap, rfl⟩ := mem_columns.1 hmem
      have hfit := hfits measure hmeasure hvalue
      rwa [if_pos (of_decide_eq_true hgap)] at hfit
    · obtain ⟨measure, hmeasure, hvalue, hgap, rfl⟩ := mem_columns.1 hmem
      have hfit := hfits measure hmeasure hvalue
      rwa [if_neg (of_decide_eq_false hgap)] at hfit

/-- Fields are written with measures that fit the column of values. -/
theorem fits_measureOf {column : Nat} (h : hints.alignment = some column) (name : String)
    (content : Content) : (hints.measureOf name content).Fits column := by
  intro hvalue
  have hvalue : content.inlineText ≠ "" := by simpa [measureOf] using hvalue
  have hmeasure := hints.column_measureOf h name hvalue
  have hgap : (hints.measureOf name content).gap = hints.gapOf name := by
    rw [measureOf, gapAt, if_neg hvalue]
  rwa [hgap]

/-- The column of values is found again exactly if all raw lines fit it, where some field is padded up
to it. -/
theorem alignmentOf_seenAll_eq_some_iff {elements : List Element} {column : Nat}
    (h : ∀ piece ∈ Element.piecesAll 0 elements, piece.2.IsReadable)
    (halignment : hints.alignment = some column) {name : String} {content : Content}
    (hmem : (name, content) ∈ fieldsOf (Element.piecesAll 0 elements))
    (hname : isFieldName name.toList) (hvalue : content.inlineText ≠ "")
    (hgap : 1 < hints.gapOf name) :
    alignmentOf (hints.seenAll 0 elements) = some column ↔
      ∀ depth lines, (depth, .raw lines) ∈ Element.piecesAll 0 elements →
        ∀ measure ∈ readMeasures (hints.seen (depth, .raw lines)), measure.Fits column := by
  rw [alignmentOf_eq_some_iff_fits, hints.readMeasures_seenAll h]
  constructor
  · rintro ⟨-, hfits⟩ depth lines hpiece measure hmeasure
    exact hfits measure (List.mem_flatMap.2 ⟨_, hpiece, hmeasure⟩)
  · intro hraw
    refine ⟨?_, fun measure hmeasure ↦ ?_⟩
    · obtain ⟨depth, hpiece⟩ := mem_fieldsOf.1 hmem
      refine ⟨hints.measureOf name content, List.mem_flatMap.2 ⟨_, hpiece, ?_⟩, ?_, ?_⟩
      · rw [measuresOf, if_pos hname]
        exact List.mem_singleton_self _
      · simpa [measureOf] using hvalue
      · rwa [measureOf, gapAt, if_neg hvalue]
    · obtain ⟨⟨depth, piece⟩, hpiece, hmeasure⟩ := List.mem_flatMap.1 hmeasure
      cases piece with
      | header text => cases hmeasure
      | field name content =>
        rw [measuresOf] at hmeasure
        split at hmeasure
        · rw [List.mem_singleton.1 hmeasure]
          exact hints.fits_measureOf halignment name content
        · cases hmeasure
      | raw lines => exact hraw depth lines hpiece measure hmeasure

end LayoutHints

end CabalManifest
