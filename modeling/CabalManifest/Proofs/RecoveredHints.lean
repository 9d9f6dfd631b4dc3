import CabalManifest.Proofs.LegiblePieces
import CabalManifest.Proofs.OrderedEntries

/-!
# The hints of a written description

Hints are taken from a description that was written with hints. Of legible elements, the new hints
are the old ones as far as these can be seen:

* the order of the fields at the top and in every stanza is the order in which they were written
  (`namesAt_seenAll`, `splitSections_seenAll`);
* the indentation is recovered if something was indented (`sectionIndent_seenAll`);
* the column of values is recovered if a value is aligned to it, and otherwise no name needs it
  (`gapOf_recovered`);
* the place of commas is recovered if there are commas (`commaStyleOf_seenAll`).
-/

namespace CabalManifest

/-- Elements are legible if all their pieces are. -/
def Element.Legible (depth : Nat) (elements : List Element) : Prop :=
  ∀ piece ∈ Element.piecesAll depth elements, piece.2.Legible

namespace LayoutHints

open Element (pieces piecesAll fieldNames Legible)

variable (hints : LayoutHints)

/-! ### What is seen -/

/-- The visible lines of a piece. -/
def seen (piece : Nat × Piece) : List (List Char) := visibleLines (hints.pieceLines piece)

/-- The visible lines of some elements at a depth. -/
def seenAll (depth : Nat) (elements : List Element) : List (List Char) :=
  (piecesAll depth elements).flatMap hints.seen

/-- A header is seen as one line, which starts no field. -/
theorem exists_seen_header (depth : Nat) {text : String} (h : (Piece.header text).Legible) :
    ∃ line, hints.seen (depth, .header text) = [line] ∧
      indentOf line = hints.indentation * depth ∧ Text.trim line = text.toList ∧
        (hints.indentation * depth = 0 → Text.trim line = line) := by
  obtain ⟨line, hline, hindent, htrim, hunindented⟩ :=
    exists_isSeen_header h (hints.indentation * depth)
  refine ⟨line, ?_, hindent, htrim, hunindented⟩
  exact visibleLines_cons_of_some hline []

/-- A field is seen as a line that starts it, and deeper lines. -/
theorem exists_seen_field (depth : Nat) {name : String} {content : Content}
    (h : (Piece.field name content).Legible) :
    ∃ line further, hints.seen (depth, .field name content) = line :: further ∧
      StartsField (hints.indentation * depth) name (hints.gapAt name content)
        (content.inlineText != "") line ∧
      ∀ other ∈ further, hints.indentation * depth < indentOf other := by
  obtain ⟨line, hline, hstarts⟩ := hints.exists_startsField h.1 h.2 (hints.indentation * depth)
  refine ⟨line, visibleLines (hints.furtherLines (spaces (hints.indentation * depth)) content),
    ?_, hstarts, fun other hother ↦ ?_⟩
  · exact visibleLines_cons_of_some hline _
  · obtain ⟨written, hwritten, hvisible⟩ := List.mem_filterMap.1 hother
    obtain ⟨n, body, hdeeper, hlist⟩ := (hints.isFurther_of_mem_furtherLines h.2 hwritten).deeper
    rw [hlist] at hvisible
    exact hdeeper.trans_le (indentOf_of_visible? hvisible).1

/-- Nothing of a piece is seen outside of its depth. -/
theorem le_indentOf_of_mem_seen {piece : Nat × Piece} (h : piece.2.Legible) {line : List Char}
    (hline : line ∈ hints.seen piece) : hints.indentation * piece.1 ≤ indentOf line := by
  obtain ⟨depth, piece⟩ := piece
  cases piece with
  | header text =>
    obtain ⟨start, hseen, hindent, -⟩ := hints.exists_seen_header depth h
    rw [hseen, List.mem_singleton] at hline
    rw [hline, hindent]
  | field name content =>
    obtain ⟨start, further, hseen, hstarts, hfurther⟩ := hints.exists_seen_field depth h
    rw [hseen, List.mem_cons] at hline
    rcases hline with rfl | hline
    · exact hstarts.indentOf_eq.ge
    · exact (hfurther line hline).le
  | raw lines => cases h

theorem seenAll_cons (depth : Nat) (element : Element) (rest : List Element) :
    hints.seenAll depth (element :: rest) =
      (pieces depth element).flatMap hints.seen ++ hints.seenAll depth rest := by
  rw [seenAll, piecesAll, List.flatMap_append]
  rfl

theorem flatMap_seen_stanza (depth : Nat) (header : String) (elements : List Element)
    (sortable : Bool) :
    (pieces depth (.stanza header elements sortable)).flatMap hints.seen =
      hints.seen (depth, .header header) ++ hints.seenAll (depth + 1) elements := by
  rw [pieces, List.flatMap_cons]
  rfl

theorem le_indentOf_of_mem_seenAll {depth : Nat} {elements : List Element} (h : Legible depth elements)
    {line : List Char} (hline : line ∈ hints.seenAll depth elements) :
    hints.indentation * depth ≤ indentOf line := by
  obtain ⟨piece, hpiece, hline⟩ := List.mem_flatMap.1 hline
  have hdepth := Element.depth_le_of_mem_piecesAll hpiece
  exact (Nat.mul_le_mul_left _ hdepth).trans
    (hints.le_indentOf_of_mem_seen (h piece hpiece) hline)

/-- What is seen inside of a stanza is deeper than the stanza. -/
theorem lt_indentOf_of_mem_seenAll (hpos : 0 < hints.indentation) {depth : Nat}
    {elements : List Element} (h : Legible (depth + 1) elements) {line : List Char}
    (hline : line ∈ hints.seenAll (depth + 1) elements) :
    hints.indentation * depth < indentOf line := by
  have hle := hints.le_indentOf_of_mem_seenAll h hline
  rw [Nat.mul_succ] at hle
  omega

/-! ### The order of fields -/

/-- The names of the fields that start at an indentation. -/
def namesAt (indent : Nat) (lines : List (List Char)) : List String :=
  (lines.filter fun line ↦ indentOf line == indent).filterMap fun line ↦
    (fieldLine? (Text.trim line)).map fun field ↦ String.ofList field.name

theorem namesAt_append (indent : Nat) (xs ys : List (List Char)) :
    namesAt indent (xs ++ ys) = namesAt indent xs ++ namesAt indent ys := by
  simp [namesAt]

theorem namesAt_of_deeper {indent : Nat} {lines : List (List Char)}
    (h : ∀ line ∈ lines, indent < indentOf line) : namesAt indent lines = [] := by
  have hnone : lines.filter (fun line ↦ indentOf line == indent) = [] :=
    List.filter_eq_nil_iff.2 fun line hline ↦ by
      have hdeeper := h line hline
      simp
      omega
  rw [namesAt, hnone, List.filterMap_nil]

/-- The fields of some elements are seen at the indentation of the elements. -/
theorem namesAt_seenAll (hpos : 0 < hints.indentation) {depth : Nat} {elements : List Element}
    (h : Legible depth elements) :
    namesAt (hints.indentation * depth) (hints.seenAll depth elements) = fieldNames elements := by
  induction elements with
  | nil => rfl
  | cons element rest ih =>
    have hrest := ih fun piece hpiece ↦ h piece (List.mem_append_right _ hpiece)
    have helement : ∀ piece ∈ pieces depth element, piece.2.Legible := fun piece hpiece ↦
      h piece (List.mem_append_left _ hpiece)
    have hown : namesAt (hints.indentation * depth) ((pieces depth element).flatMap hints.seen) =
        element.name?.toList := by
      cases element with
      | field name content =>
        obtain ⟨line, further, hseen, ⟨hindent, -, value, hread, -⟩, hfurther⟩ :=
          hints.exists_seen_field depth (helement _ List.mem_cons_self)
        rw [pieces, List.flatMap_singleton, hseen, ← List.singleton_append, namesAt_append,
          namesAt_of_deeper hfurther]
        simp [namesAt, hindent, hread, Element.name?]
      | stanza header elements sortable =>
        obtain ⟨line, hseen, hindent, htrim, -⟩ :=
          hints.exists_seen_header depth (helement _ List.mem_cons_self)
        have hheader : IsHeader header.toList := helement (depth, .header header) List.mem_cons_self
        have hdeeper : ∀ line ∈ hints.seenAll (depth + 1) elements,
            hints.indentation * depth < indentOf line := fun line hline ↦
          hints.lt_indentOf_of_mem_seenAll hpos
            (fun piece hpiece ↦ helement piece (List.mem_cons_of_mem _ hpiece)) hline
        have hnone : fieldLine? header.toList = none := by
          simpa [isFieldLine] using hheader.2.2
        rw [flatMap_seen_stanza, hseen, namesAt_append, namesAt_of_deeper hdeeper]
        simp [namesAt, htrim, hnone, Element.name?]
      | raw lines => exact (helement _ List.mem_cons_self).elim
    rw [seenAll_cons, namesAt_append, hown, hrest, fieldNames, fieldNames, List.filterMap_cons]
    cases element.name? <;> rfl

/-- What is seen without indentation has no blanks around it. -/
theorem trim_of_mem_seen {piece : Nat × Piece} (h : piece.2.Legible) {line : List Char}
    (hline : line ∈ hints.seen piece) (hindent : indentOf line = 0) : Text.trim line = line := by
  obtain ⟨depth, piece⟩ := piece
  cases piece with
  | header text =>
    obtain ⟨start, hseen, hstart, -, hunindented⟩ := hints.exists_seen_header depth h
    rw [hseen, List.mem_singleton] at hline
    rw [hline] at hindent ⊢
    exact hunindented (hstart ▸ hindent)
  | field name content =>
    obtain ⟨start, further, hseen, hstarts, hfurther⟩ := hints.exists_seen_field depth h
    rw [hseen, List.mem_cons] at hline
    rcases hline with rfl | hline
    · exact hstarts.unindented (hstarts.indentOf_eq ▸ hindent)
    · have hdeeper := hfurther line hline
      omega
  | raw lines => cases h

/-- The order of the fields at the top is the one in which they stand. -/
theorem fieldOrder_seenAll (hpos : 0 < hints.indentation) {elements : List Element}
    (h : Legible 0 elements) :
    (((hints.seenAll 0 elements).filter fun line ↦ indentOf line == 0).filterMap fun line ↦
      (fieldLine? line).map fun field ↦ String.ofList field.name) = fieldNames elements := by
  rw [← hints.namesAt_seenAll hpos h, namesAt]
  refine List.filterMap_congr fun line hline ↦ ?_
  rw [List.mem_filter, beq_iff_eq] at hline
  obtain ⟨piece, hpiece, hseen⟩ := List.mem_flatMap.1 hline.1
  rw [hints.trim_of_mem_seen (h piece hpiece) hseen hline.2]

/-! ### Sections -/

/-- Indented lines in front of other lines belong to the header above them. -/
theorem splitSections_append {body : List (List Char)} (h : ∀ line ∈ body, indentOf line ≠ 0)
    (rest : List (List Char)) :
    splitSections (body ++ rest) =
      (body ++ (splitSections rest).1, (splitSections rest).2) := by
  induction body with
  | nil => rfl
  | cons line body ih =>
    rw [List.cons_append, splitSections, ih fun other hother ↦ h other (List.mem_cons_of_mem _ hother)]
    simp [h line List.mem_cons_self]

/-- The section that a stanza is seen as. -/
def block? : Element → Option Block
  | .stanza header elements _ => some (header.toList, hints.seenAll 1 elements)
  | _ => none

/-- The sections of a description are its stanzas, each with what is seen of its elements. -/
theorem splitSections_seenAll (hpos : 0 < hints.indentation) {elements : List Element}
    (h : Legible 0 elements) :
    splitSections (hints.seenAll 0 elements) = ([], elements.filterMap hints.block?) := by
  induction elements with
  | nil => rfl
  | cons element rest ih =>
    have hrest := ih fun piece hpiece ↦ h piece (List.mem_append_right _ hpiece)
    have helement : ∀ piece ∈ pieces 0 element, piece.2.Legible := fun piece hpiece ↦
      h piece (List.mem_append_left _ hpiece)
    rw [seenAll_cons]
    cases element with
    | field name content =>
      obtain ⟨line, further, hseen, ⟨hindent, hunindented, value, hread, -⟩, hfurther⟩ :=
        hints.exists_seen_field 0 (helement _ List.mem_cons_self)
      have hfield : isFieldLine line = true := by
        rw [isFieldLine, ← hunindented rfl, hread]
        rfl
      have hdeeper : ∀ other ∈ further, indentOf other ≠ 0 := fun other hother ↦
        (Nat.zero_lt_of_lt (hfurther other hother)).ne'
      rw [pieces, List.flatMap_singleton, hseen, List.cons_append, splitSections,
        splitSections_append hdeeper, hrest]
      simp [hindent, hfield, block?, List.filterMap_cons]
    | stanza header elements sortable =>
      obtain ⟨line, hseen, hindent, htrim, hunindented⟩ :=
        hints.exists_seen_header 0 (helement _ List.mem_cons_self)
      have hheader : IsHeader header.toList := helement (0, .header header) List.mem_cons_self
      have hfield : isFieldLine line = false := by
        rw [← hunindented rfl, htrim]
        exact hheader.2.2
      have hdeeper : ∀ line ∈ hints.seenAll 1 elements, indentOf line ≠ 0 := fun line hline ↦
        (Nat.zero_lt_of_lt (hints.lt_indentOf_of_mem_seenAll hpos
          (fun piece hpiece ↦ helement piece (List.mem_cons_of_mem _ hpiece)) hline)).ne'
      rw [flatMap_seen_stanza, hseen, List.singleton_append, List.cons_append, splitSections,
        splitSections_append hdeeper, hrest]
      simp [hindent, hfield, htrim, block?]
    | raw lines => exact (helement _ List.mem_cons_self).elim

/-- Something is seen of each element, first of all at its own indentation. -/
theorem exists_seenAll_eq_cons {depth : Nat} {element : Element} {rest : List Element}
    (h : Legible depth (element :: rest)) :
    ∃ line further, hints.seenAll depth (element :: rest) = line :: further ∧
      indentOf line = hints.indentation * depth := by
  rw [seenAll_cons]
  have helement : ∀ piece ∈ pieces depth element, piece.2.Legible := fun piece hpiece ↦
    h piece (List.mem_append_left _ hpiece)
  cases element with
  | field name content =>
    obtain ⟨line, further, hseen, hstarts, -⟩ :=
      hints.exists_seen_field depth (helement _ List.mem_cons_self)
    rw [pieces, List.flatMap_singleton, hseen]
    exact ⟨line, _, rfl, hstarts.indentOf_eq⟩
  | stanza header elements sortable =>
    obtain ⟨line, hseen, hindent, -⟩ :=
      hints.exists_seen_header depth (helement _ List.mem_cons_self)
    rw [flatMap_seen_stanza, hseen]
    exact ⟨line, _, rfl, hindent⟩
  | raw lines => exact (helement _ List.mem_cons_self).elim

/-- The fields that stand directly in a section are those of its stanza. -/
theorem directFields_seenAll (hpos : 0 < hints.indentation) {elements : List Element}
    (h : Legible 1 elements) : directFields (hints.seenAll 1 elements) = fieldNames elements := by
  cases elements with
  | nil => rfl
  | cons element rest =>
    obtain ⟨line, further, hseen, hindent⟩ := hints.exists_seenAll_eq_cons h
    have hnames := hints.namesAt_seenAll hpos h
    rw [hseen] at hnames ⊢
    rw [← hnames, ← hindent]
    rfl

/-- Sections with distinct headers keep their orders apart. -/
theorem orders_eq_map {sections : List Block} (h : (sections.map (·.1)).Nodup) :
    orders sections = sections.map fun block ↦ (String.ofList block.1, directFields block.2) := by
  have key : ∀ (sections : List Block) (known : Entries (List String)),
      (sections.map (·.1)).Nodup →
        (∀ block ∈ sections, String.ofList block.1 ∉ known.keys) →
          sections.foldl
              (fun orders block ↦
                if Entries.has orders (String.ofList block.1) then orders
                else orders ++ [(String.ofList block.1, directFields block.2)])
              known =
            known ++ sections.map fun block ↦ (String.ofList block.1, directFields block.2) := by
    intro sections
    induction sections with
    | nil => simp
    | cons block rest ih =>
      obtain ⟨header, body⟩ := block
      intro known hnodup hknown
      rw [List.map_cons, List.nodup_cons] at hnodup
      have hnew : Entries.has known (String.ofList header) = false :=
        Bool.eq_false_iff.2 fun hhas ↦
          hknown _ List.mem_cons_self (Entries.has_eq_true_iff.1 hhas)
      simp only [List.foldl_cons, hnew, Bool.false_eq_true, if_false]
      rw [ih _ hnodup.2 fun other hother ↦ ?_]
      · simp
      · rw [Entries.keys, List.map_append, List.mem_append, not_or]
        refine ⟨hknown other (List.mem_cons_of_mem _ hother), ?_⟩
        rw [List.map_singleton, List.mem_singleton, String.ofList_inj]
        intro heq
        exact hnodup.1 (List.mem_map.2 ⟨other, hother, heq⟩)
  exact key sections [] h (by simp [Entries.keys])

/-- The header of a stanza. -/
def header? : Element → Option String
  | .stanza header _ _ => some header
  | _ => none

/-- The headers of the stanzas among some elements. -/
def headers (elements : List Element) : List String := elements.filterMap header?

/-- Of stanzas with distinct headers, the order of each is the one in which its fields stand. -/
theorem get?_orders_of_mem (hpos : 0 < hints.indentation) {elements : List Element}
    (h : Legible 0 elements) (hnodup : (headers elements).Nodup) {header : String}
    {children : List Element} {sortable : Bool}
    (hmem : Element.stanza header children sortable ∈ elements) :
    Entries.get? (orders (elements.filterMap hints.block?)) header = some (fieldNames children) := by
  have hheaders : (elements.filterMap hints.block?).map (·.1) =
      (headers elements).map String.toList := by
    simp only [headers, List.map_filterMap]
    congr 1
    funext element
    cases element <;> rfl
  have hchildren : Legible 1 children := fun piece hpiece ↦
    h piece (Element.mem_piecesAll.2 ⟨_, hmem, List.mem_cons_of_mem _ hpiece⟩)
  rw [orders_eq_map]
  · refine Entries.get?_eq_some_of_mem ?_ ?_
    · have hkeys : Entries.keys ((elements.filterMap hints.block?).map fun block ↦
          (String.ofList block.1, directFields block.2)) = headers elements := by
        have hback := congrArg (List.map String.ofList) hheaders
        simpa [Entries.keys, Function.comp_def] using hback
      rw [hkeys]
      exact hnodup
    · refine List.mem_map.2 ⟨(header.toList, hints.seenAll 1 children), ?_, ?_⟩
      · exact List.mem_filterMap.2 ⟨_, hmem, rfl⟩
      · rw [hints.directFields_seenAll hpos hchildren, String.ofList_toList]
  · rw [hheaders]
    exact hnodup.map fun _ _ ↦ String.toList_inj.1

/-- The indentation is that of the first element inside of a stanza. -/
theorem sectionIndent_seenAll {elements : List Element} (h : Legible 0 elements)
    {header : String} {child : Element} {children : List Element} {sortable : Bool}
    (hmem : Element.stanza header (child :: children) sortable ∈ elements) :
    sectionIndent (elements.filterMap hints.block?) = hints.indentation := by
  have hlegible : ∀ {header children sortable}, Element.stanza header children sortable ∈ elements →
      Legible 1 children := fun hmem piece hpiece ↦
    h piece (Element.mem_piecesAll.2 ⟨_, hmem, List.mem_cons_of_mem _ hpiece⟩)
  cases hfound : (elements.filterMap hints.block?).findSome? fun block ↦ block.2.head? with
  | none =>
    rw [List.findSome?_eq_none_iff] at hfound
    have hnone := hfound _ (List.mem_filterMap.2 ⟨_, hmem, rfl⟩)
    obtain ⟨line, further, hseen, -⟩ := hints.exists_seenAll_eq_cons (hlegible hmem)
    rw [hseen] at hnone
    cases hnone
  | some line =>
    obtain ⟨block, hblock, hhead⟩ := List.exists_of_findSome?_eq_some hfound
    obtain ⟨element, helement, heq⟩ := List.mem_filterMap.1 hblock
    have hindent : indentOf line = hints.indentation := by
      cases element with
      | stanza header children sortable =>
        cases heq
        cases children with
        | nil => cases hhead
        | cons child children =>
          obtain ⟨first, further, hseen, hindent⟩ :=
            hints.exists_seenAll_eq_cons (hlegible helement)
          rw [hseen, List.head?_cons, Option.some_inj] at hhead
          rw [← hhead, hindent, Nat.mul_one]
      | field => cases heq
      | raw => cases heq
    rw [sectionIndent, hfound, Option.map_some, Option.getD_some, hindent]

/-! ### The column of values -/

/-- What the column of values is taken from: the lengths of a name and of the gap behind it, and
whether a value follows. -/
structure Measure where
  name : Nat
  gap : Nat
  hasValue : Bool
  deriving DecidableEq

/-- The measure of a line that starts a field. -/
def FieldLine.measure (field : FieldLine) : Measure :=
  ⟨field.name.length, field.gap.length, !field.value.isEmpty⟩

/-- The measure that a field is written with. -/
def measureOf (name : String) (content : Content) : Measure :=
  ⟨name.length, hints.gapAt name content, content.inlineText != ""⟩

/-- The measures that the fields among some pieces are written with. -/
def measures (pieces : List (Nat × Piece)) : List Measure :=
  (fieldsOf pieces).map fun field ↦ hints.measureOf field.1 field.2

/-- The measures of lines that start fields. -/
def readMeasures (lines : List (List Char)) : List Measure :=
  (lines.filterMap fun line ↦ fieldLine? (Text.trim line)).map FieldLine.measure

theorem readMeasures_append (xs ys : List (List Char)) :
    readMeasures (xs ++ ys) = readMeasures xs ++ readMeasures ys := by
  simp [readMeasures]

theorem readMeasures_of_startsField {indent gap : Nat} {name : String} {hasValue : Bool}
    {line : List Char} (h : StartsField indent name gap hasValue line) :
    readMeasures [line] = [⟨name.length, gap, hasValue⟩] := by
  obtain ⟨value, hread, hvalue⟩ := h.fieldLine?_eq
  simp [readMeasures, hread, FieldLine.measure, hvalue, String.length_toList]

/-- Whether the line above, if it belongs to a field, leaves elements at a depth alone. -/
def Settled (depth : Nat) (above : Option Nat) : Prop :=
  ∀ n ∈ above, hints.indentation * depth ≤ n

theorem fieldLinesFrom_of_deeper {indent : Nat} {lines : List (List Char)}
    (h : ∀ line ∈ lines, indent < indentOf line) (rest : List (List Char)) :
    fieldLinesFrom (some indent) (lines ++ rest) = fieldLinesFrom (some indent) rest := by
  induction lines with
  | nil => rfl
  | cons line lines ih =>
    rw [List.cons_append, fieldLinesFrom]
    simp [h line List.mem_cons_self, ih fun other hother ↦ h other (List.mem_cons_of_mem _ hother)]

/-- A line that the line above leaves alone starts a field or not, by its trimmed text. -/
theorem fieldLinesFrom_cons {above : Option Nat} {line : List Char}
    (h : ∀ n ∈ above, indentOf line ≤ n) (rest : List (List Char)) :
    fieldLinesFrom above (line :: rest) =
      if isFieldLine (Text.trim line) then line :: fieldLinesFrom (some (indentOf line)) rest
      else fieldLinesFrom none rest := by
  have halone : (above.map fun n ↦ decide (n < indentOf line)).getD false = false := by
    cases above with
    | none => rfl
    | some n => simpa using h n rfl
  rw [fieldLinesFrom, halone]
  rfl

mutual

/-- Behind the lines of an element, reading goes on as if they had not been there: of each field in
it, the line that starts it was taken, and nothing else. -/
theorem exists_fieldLinesFrom_pieces (depth : Nat) :
    ∀ (element : Element), (∀ piece ∈ pieces depth element, piece.2.Legible) →
      ∀ above, hints.Settled depth above →
        ∃ starts next, hints.Settled depth next ∧
          (∀ rest, fieldLinesFrom above ((pieces depth element).flatMap hints.seen ++ rest) =
            starts ++ fieldLinesFrom next rest) ∧
          readMeasures starts = hints.measures (pieces depth element)
  | .field name content, h, above, habove => by
    obtain ⟨line, further, hseen, hstarts, hfurther⟩ :=
      hints.exists_seen_field depth (h _ List.mem_cons_self)
    obtain ⟨value, hread, -⟩ := hstarts.fieldLine?_eq
    have hfield : isFieldLine (Text.trim line) = true := by
      rw [isFieldLine, hread]
      rfl
    refine ⟨[line], some (hints.indentation * depth), fun n hn ↦ ?_, fun rest ↦ ?_, ?_⟩
    · exact (Option.mem_some.1 hn).le
    · rw [pieces, List.flatMap_singleton, hseen, List.cons_append, fieldLinesFrom_cons, hfield,
        hstarts.indentOf_eq]
      · simp [fieldLinesFrom_of_deeper hfurther]
      · intro n hn
        rw [hstarts.indentOf_eq]
        exact habove n hn
    · rw [readMeasures_of_startsField hstarts]
      rfl
  | .stanza header elements sortable, h, above, habove => by
    obtain ⟨line, hseen, hindent, htrim, -⟩ :=
      hints.exists_seen_header depth (h _ List.mem_cons_self)
    have hheader : IsHeader header.toList := h (depth, .header header) List.mem_cons_self
    have hfield : isFieldLine (Text.trim line) = false := by
      rw [htrim]
      exact hheader.2.2
    obtain ⟨starts, next, hnext, hread, hmeasures⟩ := exists_fieldLinesFrom_piecesAll (depth + 1)
      elements (fun piece hpiece ↦ h piece (List.mem_cons_of_mem _ hpiece)) none (by simp [Settled])
    refine ⟨starts, next, fun n hn ↦ ?_, fun rest ↦ ?_, ?_⟩
    · exact (Nat.mul_le_mul_left _ (Nat.le_succ depth)).trans (hnext n hn)
    · rw [flatMap_seen_stanza, hseen, List.append_assoc, List.singleton_append,
        fieldLinesFrom_cons, hfield]
      · exact hread rest
      · intro n hn
        rw [hindent]
        exact habove n hn
    · rw [hmeasures, pieces]
      rfl
  | .raw lines, h, _, _ => (h _ List.mem_cons_self).elim

/-- Of the fields of some elements, the lines that start them are taken. -/
theorem exists_fieldLinesFrom_piecesAll (depth : Nat) :
    ∀ (elements : List Element), Legible depth elements →
      ∀ above, hints.Settled depth above →
        ∃ starts next, hints.Settled depth next ∧
          (∀ rest, fieldLinesFrom above (hints.seenAll depth elements ++ rest) =
            starts ++ fieldLinesFrom next rest) ∧
          readMeasures starts = hints.measures (piecesAll depth elements)
  | [], _, above, habove => ⟨[], above, habove, fun _ ↦ rfl, rfl⟩
  | element :: elements, h, above, habove => by
    obtain ⟨starts, next, hnext, hread, hmeasures⟩ := exists_fieldLinesFrom_pieces depth element
      (fun piece hpiece ↦ h piece (List.mem_append_left _ hpiece)) above habove
    obtain ⟨starts', next', hnext', hread', hmeasures'⟩ := exists_fieldLinesFrom_piecesAll depth
      elements (fun piece hpiece ↦ h piece (List.mem_append_right _ hpiece)) next hnext
    refine ⟨starts ++ starts', next', hnext', fun rest ↦ ?_, ?_⟩
    · rw [seenAll_cons, List.append_assoc, hread, hread', List.append_assoc]
    · rw [readMeasures_append, hmeasures, hmeasures', piecesAll, measures, measures, measures,
        fieldsOf, fieldsOf, fieldsOf, List.filterMap_append, List.map_append]

end

/-- The fields of a description are measured as they were written. -/
theorem readMeasures_fieldLines {elements : List Element} (h : Legible 0 elements) :
    readMeasures (fieldLines (hints.seenAll 0 elements)) =
      hints.measures (piecesAll 0 elements) := by
  obtain ⟨starts, next, -, hread, hmeasures⟩ :=
    hints.exists_fieldLinesFrom_piecesAll 0 elements h none (by simp [Settled])
  have hall := hread []
  rw [List.append_nil, fieldLinesFrom, List.append_nil] at hall
  rw [fieldLines, hall, hmeasures]

/-- The column at which the value of a field starts. -/
def Measure.column (measure : Measure) : Nat := measure.name + 1 + measure.gap

/-- The columns of the values that are padded, or of those that are not. -/
def columns (padded : Bool) (measures : List Measure) : List Nat :=
  (measures.filter fun measure ↦
    measure.hasValue && decide (1 < measure.gap) == padded).map Measure.column

/-- Columns depend on measures alone. -/
theorem valueColumns_eq (lines : List (List Char)) :
    valueColumns lines = (columns true (readMeasures (fieldLines lines)),
      columns false (readMeasures (fieldLines lines))) := by
  simp only [valueColumns, columns, readMeasures, List.partition_eq_filter_filter,
    List.filter_map, List.filter_filter, List.map_map]
  refine Prod.ext (congrArg₂ _ rfl (List.filter_congr fun field _ ↦ ?_))
    (congrArg₂ _ rfl (List.filter_congr fun field _ ↦ ?_))
  · rw [Bool.and_comm]
    exact congrArg (!field.value.isEmpty && ·) (beq_true _).symm
  · rw [Bool.and_comm]
    exact congrArg (!field.value.isEmpty && ·) (beq_false _).symm

theorem mem_columns_measures {pieces : List (Nat × Piece)} {padded : Bool} {column : Nat} :
    column ∈ columns padded (hints.measures pieces) ↔
      ∃ name content, (name, content) ∈ fieldsOf pieces ∧ content.inlineText ≠ "" ∧
        decide (1 < hints.gapOf name) = padded ∧
          (hints.measureOf name content).column = column := by
  have hgap : ∀ name content, content.inlineText ≠ "" →
      (hints.measureOf name content).gap = hints.gapOf name := fun name content hvalue ↦ by
    rw [measureOf, gapAt, if_neg hvalue]
  simp only [columns, measures, List.mem_map, List.mem_filter, Bool.and_eq_true, beq_iff_eq]
  constructor
  · rintro ⟨_, ⟨⟨⟨name, content⟩, hmem, rfl⟩, hvalue, hpadded⟩, rfl⟩
    have hvalue : content.inlineText ≠ "" := by simpa [measureOf] using hvalue
    rw [hgap name content hvalue] at hpadded
    exact ⟨name, content, hmem, hvalue, hpadded, rfl⟩
  · rintro ⟨name, content, hmem, hvalue, hpadded, rfl⟩
    refine ⟨_, ⟨⟨(name, content), hmem, rfl⟩, by simpa [measureOf] using hvalue, ?_⟩, rfl⟩
    rw [hgap name content hvalue, hpadded]

/-- The column of values is the one that padded values start at, if others start behind it. -/
theorem alignmentOf_eq_some_iff {lines : List (List Char)} {column : Nat} :
    alignmentOf lines = some column ↔
      (valueColumns lines).1 ≠ [] ∧ (∀ padded ∈ (valueColumns lines).1, padded = column) ∧
        ∀ other ∈ (valueColumns lines).2, column ≤ other := by
  rw [alignmentOf]
  obtain ⟨padded, others⟩ := valueColumns lines
  cases padded with
  | nil => simp
  | cons first padded =>
    simp only [Bool.and_eq_true, List.all_eq_true, beq_iff_eq, decide_eq_true_eq]
    rw [Option.ite_none_right_eq_some, Option.some_inj]
    constructor
    · rintro ⟨⟨hpadded, hothers⟩, rfl⟩
      exact ⟨by simp, by simpa using hpadded, hothers⟩
    · rintro ⟨-, hpadded, hothers⟩
      obtain ⟨rfl, hpadded⟩ := List.forall_mem_cons.1 hpadded
      exact ⟨⟨hpadded, hothers⟩, rfl⟩

theorem one_le_gapOf (name : String) : 1 ≤ hints.gapOf name := by
  rw [gapOf]
  split
  · split <;> omega
  · exact le_refl 1

/-- The gap behind a name depends on the column of values alone. -/
theorem gapOf_eq_of_alignment {hints hints' : LayoutHints} (h : hints.alignment = hints'.alignment)
    (name : String) : hints.gapOf name = hints'.gapOf name := by
  rw [gapOf, gapOf, h]

/-- A value that is padded starts at the column of values, and any other behind it. -/
theorem column_measureOf {column : Nat} (h : hints.alignment = some column) (name : String)
    {content : Content} (hvalue : content.inlineText ≠ "") :
    if 1 < hints.gapOf name then (hints.measureOf name content).column = column
    else column ≤ (hints.measureOf name content).column := by
  rw [Measure.column, measureOf, gapAt, if_neg hvalue, gapOf, h]
  simp only
  split <;> split <;> omega

/-- The column of values that is found in a description leaves the gaps in it as they are. -/
theorem gapOf_recovered {pieces : List (Nat × Piece)} {lines : List (List Char)}
    (h : readMeasures (fieldLines lines) = hints.measures pieces)
    {recovered : LayoutHints} (hrecovered : recovered.alignment = alignmentOf lines)
    {name : String} {content : Content} (hmem : (name, content) ∈ fieldsOf pieces)
    (hvalue : content.inlineText ≠ "") : recovered.gapOf name = hints.gapOf name := by
  have hcolumns := valueColumns_eq lines
  rw [h] at hcolumns
  by_cases hpadded : columns true (hints.measures pieces) = []
  · -- nothing is padded, so that every gap is a single space
    have hnone : recovered.alignment = none := by
      rw [hrecovered, alignmentOf, hcolumns, hpadded]
    have hgap : ¬1 < hints.gapOf name := fun hgap ↦ by
      have hcolumn := hints.mem_columns_measures.2
        ⟨name, content, hmem, hvalue, decide_eq_true hgap, rfl⟩
      rw [hpadded] at hcolumn
      cases hcolumn
    have hone := hints.one_le_gapOf name
    rw [gapOf, hnone]
    show 1 = hints.gapOf name
    omega
  · obtain ⟨column, hcolumn⟩ : ∃ column, hints.alignment = some column := by
      obtain ⟨first, hfirst⟩ := List.exists_mem_of_ne_nil _ hpadded
      obtain ⟨other, -, -, -, hgap, -⟩ := hints.mem_columns_measures.1 hfirst
      cases halignment : hints.alignment with
      | none => simp [gapOf, halignment] at hgap
      | some column => exact ⟨column, rfl⟩
    have halignment : alignmentOf lines = some column := by
      rw [alignmentOf_eq_some_iff, hcolumns]
      refine ⟨hpadded, fun padded hmem ↦ ?_, fun other hmem ↦ ?_⟩
      · obtain ⟨name, content, -, hvalue, hgap, rfl⟩ := hints.mem_columns_measures.1 hmem
        have hmeasure := hints.column_measureOf hcolumn name hvalue
        rwa [if_pos (of_decide_eq_true hgap)] at hmeasure
      · obtain ⟨name, content, -, hvalue, hgap, rfl⟩ := hints.mem_columns_measures.1 hmem
        have hmeasure := hints.column_measureOf hcolumn name hvalue
        rwa [if_neg (of_decide_eq_false hgap)] at hmeasure
    exact gapOf_eq_of_alignment (by rw [hrecovered, halignment, hcolumn]) name

/-! ### Commas -/

/-- A line that looks like an item behind a comma is visible. -/
theorem exists_visible?_of_leadsComma {line : List Char} (h : leadsComma (Text.trim line) = true) :
    ∃ visible, visible? line = some visible := by
  refine Option.ne_none_iff_exists'.1 fun hnone ↦ ?_
  have hignored := visible?_eq_none_iff.1 hnone
  obtain ⟨c, cs, htrim⟩ : ∃ c cs, Text.trim line = ',' :: c :: cs := by
    rw [leadsComma.eq_def] at h
    split at h
    · next c cs htrim => exact ⟨c, cs, htrim⟩
    · cases h
  rw [isIgnored_eq_false (by simp [htrim]) (by rw [htrim]; rfl)] at hignored
  cases hignored

theorem leadsComma_trim_of_isAlpha {cs : List Char} (h : cs.head?.any Char.isAlpha) (n : Nat) :
    leadsComma (Text.trim (List.replicate n ' ' ++ cs)) = false := by
  rw [Text.trim_replicate_space_append]
  cases cs with
  | nil => cases h
  | cons c cs =>
    have hblank := isBlank_of_isNameChar (isNameChar_of_isAlpha (by simpa using h))
    refine leadsComma_trim_of_isFlush (Text.isFlush_cons.2 hblank) ?_
    rintro ⟨⟩
    cases h

/-- No line of a piece looks like an item behind a comma, unless commas stand there. -/
theorem commaStyle_of_leadsComma {piece : Nat × Piece} (h : piece.2.Legible) {line : String}
    (hline : line ∈ hints.pieceLines piece) (hleads : leadsComma (Text.trim line.toList) = true) :
    hints.commaStyle = .leading := by
  obtain ⟨depth, piece⟩ := piece
  cases piece with
  | header text =>
    rw [List.mem_singleton.1 hline, String.toList_append, toList_spaces,
      leadsComma_trim_of_isAlpha h.2.1] at hleads
    cases hleads
  | field name content =>
    rcases List.mem_cons.1 hline with rfl | hline
    · rw [String.toList_append, toList_spaces, toList_startOf, leadsComma_trim_of_isAlpha
        (head?_any_isAlpha_of_isFieldName h.1 _)] at hleads
      cases hleads
    · exact ((hints.isFurther_of_mem_furtherLines h.2 hline).hasCommas hleads).1
  | raw lines => cases h

/-- The place of commas is recovered if there are any. -/
theorem commaStyleOf_seenAll {elements : List Element} (h : Legible 0 elements)
    {name : String} {content : Content} (hmem : (name, content) ∈ fieldsOf (piecesAll 0 elements))
    (hcommas : content.HasCommas) :
    commaStyleOf (hints.seenAll 0 elements) = hints.commaStyle := by
  obtain ⟨depth, hpiece⟩ := mem_fieldsOf.1 hmem
  have hlegible := (h _ hpiece).2
  cases hstyle : hints.commaStyle with
  | leading =>
    obtain ⟨line, hline, hleads⟩ := hints.exists_leadsComma_of_hasCommas hlegible hcommas hstyle
      (hints.indentation * depth)
    obtain ⟨visible, hvisible⟩ := exists_visible?_of_leadsComma hleads
    have hseen : visible ∈ hints.seenAll 0 elements := List.mem_flatMap.2
      ⟨_, hpiece, List.mem_filterMap.2 ⟨line, List.mem_cons_of_mem _ hline, hvisible⟩⟩
    rw [commaStyleOf, if_pos]
    refine List.any_eq_true.2 ⟨visible, hseen, ?_⟩
    rw [isPrefixOf_trim_of_visible? hvisible, hleads]
  | trailing =>
    have hnone : (hints.seenAll 0 elements).any
        (fun line ↦ ", ".toList.isPrefixOf (Text.trim line)) = false := by
      refine List.any_eq_false.2 fun visible hseen hleads ↦ ?_
      obtain ⟨piece, hpiece, hseen⟩ := List.mem_flatMap.1 hseen
      obtain ⟨line, hline, hvisible⟩ := List.mem_filterMap.1 hseen
      rw [isPrefixOf_trim_of_visible? hvisible] at hleads
      have hleading := hints.commaStyle_of_leadsComma (h piece hpiece) hline hleads
      rw [hstyle] at hleading
      cases hleading
    obtain ⟨visible, hvisible, hlast⟩ := hints.exists_getLast?_of_hasCommas hlegible hcommas hstyle
      (hints.indentation * depth)
    have hseen : visible ∈ hints.seenAll 0 elements := by
      obtain ⟨line, hline, hvisible⟩ := List.mem_filterMap.1 hvisible
      exact List.mem_flatMap.2
        ⟨_, hpiece, List.mem_filterMap.2 ⟨line, List.mem_cons_of_mem _ hline, hvisible⟩⟩
    rw [commaStyleOf, hnone, if_neg (by simp), if_pos]
    exact List.any_eq_true.2 ⟨visible, hseen, by simpa using hlast⟩

end LayoutHints

end CabalManifest
