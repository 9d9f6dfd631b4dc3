import CabalManifest.Proofs.LegiblePackage
import CabalManifest.Proofs.SectionFits
import CabalManifest.Proofs.SpelledPaths
import CabalManifest.Proofs.WrittenPackages

/-!
# Lines that stay in their stanzas

Splitting a written description at its line feeds gives its *outline*: every line with the piece that
it stems from (`Package.map_outline`). A line is *contained* in its piece if it is indented as deep as
the piece at least, or empty. Longer texts are laid out as blocks, whose lines are contained. All other
texts are put into one line as they are, so that a line feed in one of them would let the rest of it
stand on the left of its stanza. Where these texts have no line feeds, all lines are contained
(`Package.outline_isContained`); without that, a single item is enough to end a section
(`Package.exists_outline_not_isContained`).
-/

namespace CabalManifest

/-! ### Outlines -/

/-- What a line of a written description stems from. -/
inductive Origin where
  /-- The text itself: an empty line that sets stanzas apart, or what is behind the last line. -/
  | gap
  /-- A piece at a depth, whose lines are counted from zero. -/
  | piece (depth : Nat) (piece : Piece) (position : Nat)

/-- Lines with what they stem from. -/
abbrev Outline := List (Origin × List Char)

/-- The lines that some texts take, one below the other. -/
def splitLines (texts : List String) : List (List Char) :=
  texts.flatMap fun text ↦ List.splitOn '\n' text.toList

namespace LayoutHints

variable (hints : LayoutHints)

/-- The lines of a piece. -/
def pieceOutline (piece : Nat × Piece) : Outline :=
  (splitLines (hints.pieceLines piece)).mapIdx fun position line ↦
    (.piece piece.1 piece.2 position, line)

/-- The lines of the elements at the top; `before` tells whether the element before is a stanza, if
there is one. -/
def topOutline : Option Bool → List Element → Outline
  | _, [] => []
  | before, element :: rest =>
    (if (before.map (· || isStanza element)).getD false then [(.gap, [])] else []) ++
      (element.pieces 0).flatMap hints.pieceOutline ++ topOutline (some (isStanza element)) rest

end LayoutHints

/-- The lines of a package description. A line feed is behind the last line, even if there is none. -/
def Package.outline (package : Package) (hints : LayoutHints) : Outline :=
  let lines := hints.topOutline none (package.arranged hints)
  (if lines.isEmpty then [(.gap, [])] else lines) ++ [(.gap, [])]

theorem splitLines_append (xs ys : List String) :
    splitLines (xs ++ ys) = splitLines xs ++ splitLines ys :=
  List.flatMap_append

theorem splitLines_flatMap {α : Type} (lines : α → List String) (xs : List α) :
    splitLines (xs.flatMap lines) = xs.flatMap fun x ↦ splitLines (lines x) :=
  List.flatMap_assoc

/-- Every text has a line, if only an empty one. -/
theorem splitLines_eq_nil_iff {texts : List String} : splitLines texts = [] ↔ texts = [] := by
  cases texts with
  | nil => simp [splitLines]
  | cons text texts => simp [splitLines, List.splitOn_ne_nil]

/-- Texts with a line feed behind each take their lines, and an empty one. -/
theorem splitOn_intercalate_newline {text : String} {texts : List String} :
    List.splitOn '\n' ("\n".intercalate (text :: texts)).toList = splitLines (text :: texts) := by
  induction texts generalizing text with
  | nil => simp [splitLines]
  | cons next rest ih =>
    have hcons : ("\n".intercalate (text :: next :: rest)).toList =
        text.toList ++ '\n' :: ("\n".intercalate (next :: rest)).toList := by
      simp [String.toList_intercalate]
    rw [hcons, List.splitOn_append_cons_self, ih]
    rfl

namespace LayoutHints

variable (hints : LayoutHints)

/-- The outline of a piece tells the lines that the piece is written in. -/
theorem map_pieceOutline (piece : Nat × Piece) :
    (hints.pieceOutline piece).map (·.2) = splitLines (hints.pieceLines piece) := by
  simp [pieceOutline, List.mapIdx_eq_zipIdx_map, Function.comp_def]

/-- The outline of a package tells the lines that the package is written in. -/
theorem map_topOutline (before : Option Bool) (elements : List Element) :
    (hints.topOutline before elements).map (·.2) = splitLines (hints.topLines before elements) := by
  have hgap : ∀ apart : Bool, (if apart then [(Origin.gap, ([] : List Char))] else []).map (·.2) =
      splitLines (if apart then [""] else []) := by
    intro apart
    cases apart <;> rfl
  induction elements generalizing before with
  | nil => rfl
  | cons element rest ih =>
    rw [topLines_cons, topOutline, splitLines_append, splitLines_append, List.map_append,
      List.map_append, ih, hgap, linesOf_eq_pieces, splitLines_flatMap, List.map_flatMap]
    congr 2
    exact List.flatMap_congr fun piece _ ↦ hints.map_pieceOutline piece

end LayoutHints

/-- The outline has the lines of the text, in their order. -/
theorem Package.map_outline (package : Package) (hints : LayoutHints) :
    (package.outline hints).map (·.2) = List.splitOn '\n' (package.render hints).toList := by
  have hlines := hints.map_topOutline none (package.arranged hints)
  rw [← package.lines_eq] at hlines
  have hend : List.splitOn '\n' (package.render hints).toList =
      List.splitOn '\n' ("\n".intercalate (package.lines hints)).toList ++ [[]] := by
    rw [render, String.toList_append]
    exact List.splitOn_append_cons_self _ _
  rw [outline, hend, List.map_append]
  congr 1
  cases htext : package.lines hints with
  | nil =>
    rw [htext, splitLines_eq_nil_iff.2 rfl, List.map_eq_nil_iff] at hlines
    rw [hlines]
    rfl
  | cons text texts =>
    have hne : hints.topOutline none (package.arranged hints) ≠ [] := by
      intro hnil
      rw [hnil, htext, List.map_nil] at hlines
      exact absurd (splitLines_eq_nil_iff.1 hlines.symm) (List.cons_ne_nil _ _)
    rw [if_neg (by simpa using hne), hlines, htext, splitOn_intercalate_newline]

/-! ### Texts in one line -/

/-- A text without a line feed. -/
def Text.InOneLine (text : String) : Prop := '\n' ∉ text.toList

open Text (InOneLine)

instance (text : String) : Decidable (InOneLine text) :=
  inferInstanceAs (Decidable ('\n' ∉ text.toList))

namespace Text

@[simp]
theorem inOneLine_append {s t : String} : InOneLine (s ++ t) ↔ InOneLine s ∧ InOneLine t := by
  simp [InOneLine]

@[simp]
theorem inOneLine_spaces (n : Nat) : InOneLine (LayoutHints.spaces n) := by
  simp [InOneLine, LayoutHints.spaces, List.mem_replicate]

/-- Texts in one line with separators in one line between them are in one line. -/
theorem inOneLine_intercalate {separator : String} (hseparator : InOneLine separator)
    {texts : List String} (h : ∀ text ∈ texts, InOneLine text) :
    InOneLine (separator.intercalate texts) := by
  intro hmem
  rw [String.toList_intercalate] at hmem
  rcases mem_intercalate hmem with hmem | ⟨piece, hpiece, hmem⟩
  · exact hseparator hmem
  · obtain ⟨text, htext, rfl⟩ := List.mem_map.1 hpiece
    exact h text htext hmem

end Text

/-- A content whose texts are in one line each. -/
def Content.IsOneLined : Content → Prop
  | .inline text => InOneLine text
  | .block texts | .lines texts | .commas texts => ∀ text ∈ texts, InOneLine text

/-- The texts of a content. -/
def Content.texts : Content → List String
  | .inline text => [text]
  | .block texts | .lines texts | .commas texts => texts

theorem Content.IsOneLined.inOneLine {content : Content} (h : content.IsOneLined) :
    ∀ text ∈ content.texts, InOneLine text := by
  cases content with
  | inline text => exact List.forall_mem_singleton.2 h
  | _ => exact h

/-- A piece whose texts are in one line each. -/
def Piece.IsOneLined : Piece → Prop
  | .header text => InOneLine text
  | .field name content => InOneLine name ∧ content.IsOneLined
  | .raw lines => ∀ line ∈ lines, InOneLine line

/-! ### Containment -/

/-- Whether a line stays in what it stems from, given how deep a level is indented. At the top, only a
line that starts a piece may stand on the left, and lines that stand as they are. -/
def Origin.Contains (indentation : Nat) : Origin → List Char → Prop
  | .gap, line => line = []
  | .piece depth part position, line =>
    (1 ≤ depth → line = [] ∨ indentation * depth ≤ LayoutHints.indentOf line) ∧
      (depth = 0 → 1 ≤ position → (∃ lines, part = .raw lines) ∨ 1 ≤ LayoutHints.indentOf line)

/-- A line on the left that stays in what it stems from starts a piece at the top, or stands as it
is. -/
theorem Origin.Contains.of_left {indentation : Nat} {origin : Origin} {line : List Char}
    (h : origin.Contains indentation line) (hindentation : 1 ≤ indentation) (hne : line ≠ [])
    (hleft : LayoutHints.indentOf line = 0) :
    ∃ part position, origin = .piece 0 part position ∧
      (position = 0 ∨ ∃ lines, part = .raw lines) := by
  cases origin with
  | gap => exact absurd h hne
  | piece depth part position =>
    rw [Contains, hleft] at h
    obtain ⟨hdeep, htop⟩ := h
    obtain rfl : depth = 0 := by
      by_contra hdepth
      have hpositive : 0 < indentation * depth :=
        Nat.mul_pos hindentation (Nat.pos_of_ne_zero hdepth)
      exact (hdeep (Nat.pos_of_ne_zero hdepth)).elim hne (Nat.not_le_of_gt hpositive)
    refine ⟨part, position, rfl, ?_⟩
    rcases Nat.eq_zero_or_pos position with hfirst | hlater
    · exact .inl hfirst
    · exact .inr ((htop rfl hlater).resolve_right (Nat.not_succ_le_zero 0))

namespace LayoutHints

/-- A text behind spaces is indented by as many of them, at least. -/
theorem le_indentOf_append (n : Nat) (text : String) : n ≤ indentOf (spaces n ++ text).toList := by
  rw [String.toList_append, spaces, String.toList_ofList, indentOf_replicate_append]
  exact Nat.le_add_right _ _

variable (hints : LayoutHints)

/-- Every line of a list with commas is an indented text, and the commas are in the text. -/
theorem exists_of_mem_commaLines {style : CommaStyle} {indent line : String} {items : List String}
    (h : line ∈ commaLines style indent items) :
    ∃ gap text, 1 ≤ gap ∧ line = indent ++ (spaces gap ++ text) ∧
      ∀ c ∈ text.toList, c ∈ ", .".toList ∨ ∃ item ∈ items, c ∈ item.toList := by
  have hseparator : ∀ separator ∈ [",", ", "], ∀ c ∈ separator.toList, c ∈ ", .".toList := by simp
  cases items with
  | nil => cases h
  | cons first rest =>
    cases style with
    | leading =>
      rcases List.mem_cons.1 h with rfl | h
      · exact ⟨itemIndent, first, by decide, String.append_assoc ..,
          fun c hc ↦ .inr ⟨first, List.mem_cons_self, hc⟩⟩
      · obtain ⟨item, hitem, rfl⟩ := List.mem_map.1 h
        refine ⟨itemIndent - 2, ", " ++ item, by decide, by simp [String.append_assoc], fun c hc ↦ ?_⟩
        rw [String.toList_append, List.mem_append] at hc
        exact hc.imp (hseparator ", " (by simp) c)
          fun hc ↦ ⟨item, List.mem_cons_of_mem _ hitem, hc⟩
    | trailing =>
      rcases List.mem_append.1 h with h | h
      · obtain ⟨item, hitem, rfl⟩ := List.mem_map.1 h
        refine ⟨itemIndent, item ++ ",", by decide, by simp [String.append_assoc], fun c hc ↦ ?_⟩
        rw [String.toList_append, List.mem_append] at hc
        exact hc.symm.imp (hseparator "," (by simp) c)
          fun hc ↦ ⟨item, (List.dropLast_sublist _).subset hitem, hc⟩
      · rw [List.mem_singleton.1 h, List.getLastD_cons]
        exact ⟨itemIndent, rest.getLastD first, by decide, String.append_assoc ..,
          fun c hc ↦ .inr ⟨_, List.getLastD_mem_cons .., hc⟩⟩

/-- A line of a field behind the first one has its text behind a gap of its own: some text of the
field, with a comma around it if need be, or a dot for an empty one. -/
theorem exists_of_mem_furtherLines {indent line : String} {content : Content}
    (h : line ∈ hints.furtherLines indent content) :
    ∃ gap text, 1 ≤ gap ∧ line = indent ++ (spaces gap ++ text) ∧
      ∀ c ∈ text.toList, c ∈ ", .".toList ∨ ∃ item ∈ content.texts, c ∈ item.toList := by
  cases content with
  | inline => cases h
  | block lines =>
    obtain ⟨text, htext, rfl⟩ := List.mem_map.1 h
    refine ⟨itemIndent, _, by decide, String.append_assoc .., fun c hc ↦ ?_⟩
    split at hc
    · rw [List.mem_singleton.1 hc]
      exact .inl (by decide)
    · exact .inr ⟨text, htext, hc⟩
  | lines items =>
    obtain ⟨item, hitem, rfl⟩ := List.mem_map.1 h
    exact ⟨itemIndent, item, by decide, String.append_assoc .., fun c hc ↦ .inr ⟨item, hitem, hc⟩⟩
  | commas items => exact exists_of_mem_commaLines h

/-- The line that starts a field is one line if the name and the content are. -/
theorem inOneLine_startOf {name : String} {content : Content} (hname : InOneLine name)
    (hcontent : content.IsOneLined) : InOneLine (hints.startOf name content) := by
  have hcolon : InOneLine (name ++ ":") := Text.inOneLine_append.2 ⟨hname, by decide⟩
  have htext : InOneLine content.inlineText := by
    cases content with
    | inline text => exact hcontent
    | _ => exact List.not_mem_nil
  rw [startOf]
  split
  · exact hcolon
  · simp [hcolon, htext]

/-- The lines of a piece whose texts are in one line each are in one line each. -/
theorem inOneLine_of_mem_pieceLines {piece : Nat × Piece} (h : piece.2.IsOneLined) {line : String}
    (hline : line ∈ hints.pieceLines piece) : InOneLine line := by
  obtain ⟨depth, piece⟩ := piece
  cases piece with
  | header text =>
    rw [List.mem_singleton.1 hline]
    exact Text.inOneLine_append.2 ⟨Text.inOneLine_spaces _, h⟩
  | field name content =>
    rcases List.mem_cons.1 hline with rfl | hline
    · exact Text.inOneLine_append.2 ⟨Text.inOneLine_spaces _, hints.inOneLine_startOf h.1 h.2⟩
    · obtain ⟨gap, text, -, rfl, htext⟩ := hints.exists_of_mem_furtherLines hline
      have hinOneLine : InOneLine text := fun hmem ↦ by
        rcases htext _ hmem with hmark | ⟨item, hitem, hmem⟩
        · exact absurd hmark (by decide)
        · exact h.2.inOneLine item hitem hmem
      simpa using hinOneLine
  | raw lines =>
    obtain ⟨given, hgiven, rfl⟩ := List.mem_map.1 hline
    split
    · decide
    · exact Text.inOneLine_append.2 ⟨Text.inOneLine_spaces _, h given hgiven⟩

/-- Texts in one line each are their own lines. -/
theorem splitLines_eq_map {texts : List String} (h : ∀ text ∈ texts, InOneLine text) :
    splitLines texts = texts.map String.toList := by
  rw [splitLines, ← List.flatMap_pure_eq_map]
  exact List.flatMap_congr fun text htext ↦ List.splitOn_eq_singleton (h text htext)

/-- A line of a piece is indented as deep as the piece, or empty. -/
theorem le_indentOf_of_mem_pieceLines {piece : Nat × Piece} {line : String}
    (h : line ∈ hints.pieceLines piece) :
    line.toList = [] ∨ hints.indentation * piece.1 ≤ indentOf line.toList := by
  obtain ⟨depth, piece⟩ := piece
  cases piece with
  | header text =>
    rw [List.mem_singleton.1 h]
    exact .inr (le_indentOf_append _ _)
  | field name content =>
    rcases List.mem_cons.1 h with rfl | h
    · exact .inr (le_indentOf_append _ _)
    · obtain ⟨gap, text, -, rfl, -⟩ := hints.exists_of_mem_furtherLines h
      exact .inr (le_indentOf_append _ _)
  | raw lines =>
    obtain ⟨given, -, rfl⟩ := List.mem_map.1 h
    split
    · exact .inl rfl
    · exact .inr (le_indentOf_append _ _)

/-- At the top, a piece starts on the left, and only lines that stand as they are go on there. -/
theorem one_le_indentOf_of_pieceLines {piece : Piece} {position : Nat} {line : String}
    (h : (hints.pieceLines (0, piece))[position]? = some line) (hposition : 1 ≤ position) :
    (∃ lines, piece = .raw lines) ∨ 1 ≤ indentOf line.toList := by
  obtain ⟨position, rfl⟩ := Nat.exists_eq_add_of_le' hposition
  cases piece with
  | header text => cases h
  | field name content =>
    have hmem := List.mem_of_getElem? (List.getElem?_cons_succ ▸ h)
    obtain ⟨gap, text, hgap, rfl, -⟩ := hints.exists_of_mem_furtherLines hmem
    exact .inr (hgap.trans (le_indentOf_append gap text))
  | raw lines => exact .inl ⟨lines, rfl⟩

/-- All lines of a piece whose texts are in one line each are contained in it. -/
theorem contains_of_mem_pieceOutline {piece : Nat × Piece} (h : piece.2.IsOneLined)
    {line : Origin × List Char} (hline : line ∈ hints.pieceOutline piece) :
    line.1.Contains hints.indentation line.2 := by
  rw [pieceOutline, splitLines_eq_map fun _ ↦ hints.inOneLine_of_mem_pieceLines h,
    List.mem_mapIdx] at hline
  obtain ⟨position, hposition, rfl⟩ := hline
  rw [List.length_map] at hposition
  simp only [List.getElem_map]
  refine ⟨fun _ ↦ hints.le_indentOf_of_mem_pieceLines (List.getElem_mem hposition), fun htop hlater ↦ ?_⟩
  obtain ⟨depth, piece⟩ := piece
  obtain rfl : depth = 0 := htop
  exact hints.one_le_indentOf_of_pieceLines (List.getElem?_eq_getElem hposition) hlater

/-- If all pieces are in one line each, every line of a package is contained in its field or stanza.
-/
theorem contains_of_mem_topOutline {elements : List Element}
    (h : ∀ piece ∈ Element.piecesAll 0 elements, piece.2.IsOneLined) {before : Option Bool}
    {line : Origin × List Char} (hline : line ∈ hints.topOutline before elements) :
    line.1.Contains hints.indentation line.2 := by
  induction elements generalizing before with
  | nil => cases hline
  | cons element rest ih =>
    rw [Element.piecesAll, List.forall_mem_append] at h
    rw [topOutline, List.mem_append, List.mem_append] at hline
    rcases hline with (hline | hline) | hline
    · split at hline
      · rw [List.mem_singleton.1 hline, Origin.Contains]
      · cases hline
    · obtain ⟨piece, hpiece, hline⟩ := List.mem_flatMap.1 hline
      exact hints.contains_of_mem_pieceOutline (h.1 piece hpiece) hline
    · exact ih h.2 hline

end LayoutHints

/-! ### Values in one line -/

/-- A value whose items are in one line each; a text may have several lines. -/
def FieldValue.IsOneLined : FieldValue → Prop
  | .texts items => ∀ item ∈ items, InOneLine item
  | .dependencies items => ∀ item ∈ items, InOneLine item.text
  | _ => True

/-- A scope whose values have their items in one line each, the options of the compiler with the main
module among them. -/
def FieldSet.IsOneLined (fields : FieldSet) : Prop :=
  ∀ key value, fields.withMain.get? key = some value → value.IsOneLined

/-- A conditional whose conditions and items are in one line each, at any depth. -/
inductive Conditional.IsOneLined : Conditional → Prop
  | intro {conditional : Conditional} :
    InOneLine conditional.condition →
      (∀ branch ∈ conditional.branches, branch.IsOneLined) →
        (∀ branch ∈ conditional.branches, ∀ inner ∈ branch.conditionals, inner.IsOneLined) →
          conditional.IsOneLined

/-- An override whose names are in one line each; values and raw lines may have several. -/
def Verbatim.IsOneLined : Verbatim → Prop
  | .raw _ => True
  | .fields entries => ∀ entry ∈ entries, InOneLine entry.1

/-- A section whose name, conditions and items are in one line each. -/
structure Section.IsOneLined (part : Section) : Prop where
  name : ∀ name ∈ part.name, InOneLine name
  fields : part.fields.IsOneLined
  conditionals : ∀ conditional ∈ part.conditionals, conditional.IsOneLined
  verbatim : ∀ entry ∈ part.verbatim, entry.IsOneLined

/-- A package whose names, conditions and items are in one line each. Descriptions and other texts,
the values of overrides and raw lines may have several lines. -/
structure Package.IsOneLined (package : Package) : Prop where
  name : InOneLine package.name
  version : InOneLine package.version
  fields : ∀ key value, package.fields.get? key = some value → value.IsOneLined
  sections : ∀ part ∈ package.sections, part.IsOneLined
  flags : ∀ flag ∈ package.flags, InOneLine flag.name
  sourceRepository : ∀ repository ∈ package.sourceRepository, InOneLine repository.location ∧
    InOneLine repository.kind ∧ ∀ subdir ∈ repository.subdir, InOneLine subdir
  verbatim : ∀ entry ∈ package.verbatim, entry.IsOneLined

/-! ### Elements in one line -/

/-- An element all of whose pieces have their texts in one line each. -/
def Element.IsOneLined (element : Element) : Prop :=
  ∀ depth, ∀ piece ∈ element.pieces depth, piece.2.IsOneLined

namespace Element

/-- A field is in one line each if its name and its content are. -/
theorem isOneLined_field {name : String} {content : Content} (hname : InOneLine name)
    (hcontent : content.IsOneLined) : (field name content).IsOneLined := by
  intro depth piece hpiece
  rw [List.mem_singleton.1 hpiece]
  exact ⟨hname, hcontent⟩

theorem isOneLined_inline {name text : String} (hname : InOneLine name) (htext : InOneLine text) :
    (field name (.inline text)).IsOneLined :=
  isOneLined_field hname htext

/-- A stanza is in one line each if its header and its elements are. -/
theorem isOneLined_stanza (sortable : Bool) (header : String) (elements : List Element)
    (hheader : InOneLine header) (h : ∀ element ∈ elements, element.IsOneLined) :
    (stanza header elements sortable).IsOneLined := by
  intro depth piece hpiece
  rcases List.mem_cons.1 hpiece with rfl | hpiece
  · exact hheader
  · obtain ⟨element, helement, hpiece⟩ := mem_piecesAll.1 hpiece
    exact h element helement (depth + 1) piece hpiece

end Element

/-- The lines of a text have no line feed in them. -/
theorem inOneLine_of_mem_textLines {text line : String} (h : line ∈ textLines text) :
    InOneLine line := by
  obtain ⟨piece, hpiece, rfl⟩ := List.mem_map.1 h
  rw [InOneLine, String.toList_ofList]
  exact fun hnewline ↦ (Text.mem_and_ne_of_mem_splitOn hpiece hnewline).2 rfl

/-- A text is laid out line by line. -/
theorem Content.isOneLined_ofText (text : String) : (Content.ofText text).IsOneLined := by
  rw [Content.ofText]
  split
  · next line hlines => exact inOneLine_of_mem_textLines (hlines ▸ List.mem_singleton_self line)
  · exact fun line ↦ inOneLine_of_mem_textLines

/-- An override with names in one line each adds elements in one line each. -/
theorem Verbatim.IsOneLined.passes {entry : Verbatim} (h : entry.IsOneLined) :
    entry.Passes Element.IsOneLined := by
  cases entry with
  | raw text =>
    intro depth piece hpiece
    rw [List.mem_singleton.1 hpiece]
    exact fun line ↦ inOneLine_of_mem_textLines
  | fields values =>
    exact fun value hvalue ↦ Element.isOneLined_field (h value hvalue) (Content.isOneLined_ofText _)

/-- The name of a field has no line feed in it. -/
theorem inOneLine_of_isFieldName {name : String} (h : LayoutHints.isFieldName name.toList) :
    InOneLine name :=
  Text.not_mem_of_plain (LayoutHints.plain_of_isFieldName h)

/-- A field is laid out in one line each if its value is. -/
theorem Field.isOneLined_of_element? {field : Field} (hlabel : InOneLine field.label)
    {value : FieldValue} (h : value.IsOneLined) {element : Element}
    (helement : field.element? value = some element) : element.IsOneLined := by
  have hitems (items : List String) (h : ∀ item ∈ items, InOneLine item)
      (helement : field.itemsElement items = some element) : element.IsOneLined := by
    rw [Field.itemsElement] at helement
    split at helement
    · cases helement
    · cases helement
      refine Element.isOneLined_field hlabel ?_
      cases field.style with
      | words | joined => exact Text.inOneLine_intercalate (by decide) h
      | commas | lines | scalar => exact h
  cases value with
  | texts items => exact hitems items h helement
  | dependencies items => exact hitems _ (List.forall_mem_map.2 h) helement
  | bool b =>
    cases helement
    cases b <;> exact Element.isOneLined_inline hlabel (by decide)
  | text text =>
    cases helement
    exact Element.isOneLined_field hlabel (Content.isOneLined_ofText text)
  | _ => cases helement

/-- A scope is laid out in one line each if its values are. -/
theorem FieldSet.IsOneLined.passes {fields : FieldSet} (h : fields.IsOneLined)
    (kind : SectionKind) : fields.withMain.Passes Element.IsOneLined kind :=
  fun key value _ _ hvalue hfield ↦ Field.isOneLined_of_element?
    (inOneLine_of_isFieldName (isFieldName_label_of_field? hfield)) (h key value hvalue)

/-- What stands under conditionals in one line is in one line. -/
theorem Conditional.isOneLined_of_mem_elements {conditionals : List Conditional}
    (h : ∀ conditional ∈ conditionals, conditional.IsOneLined) (kind : SectionKind) :
    ∀ element ∈ Conditional.elements kind conditionals, element.IsOneLined := by
  refine Conditional.forall_elements (Element.isOneLined_stanza false) (by decide)
    (fun conditional hconditional ↦ ?_) h
  obtain ⟨hcondition, hbranches, hinner⟩ := hconditional
  exact ⟨Text.inOneLine_append.2 ⟨by decide, hcondition⟩,
    fun branch hbranch ↦ ⟨(hbranches branch hbranch).passes kind, hinner branch hbranch⟩⟩

/-- The header of a section is one line if the name of the section is. -/
theorem Section.inOneLine_header {part : Section} (h : ∀ name ∈ part.name, InOneLine name) :
    InOneLine part.header := by
  have hkind : InOneLine part.kind.header := by cases part.kind <;> decide
  rw [Section.header]
  split
  · exact hkind
  · next name hname =>
    have hspace : InOneLine (part.kind.header ++ " ") := Text.inOneLine_append.2 ⟨hkind, by decide⟩
    exact Text.inOneLine_append.2 ⟨hspace, h name hname⟩

/-- A section is laid out in one line each if all in it is. -/
theorem Section.IsOneLined.passes {part : Section} (h : part.IsOneLined) :
    part.Passes InOneLine Element.IsOneLined where
  header := Section.inOneLine_header h.name
  type := Element.isOneLined_inline (by decide) (by decide)
  language := Element.isOneLined_inline (by decide) (by decide)
  fields := h.fields.passes part.kind
  conditionals := Conditional.isOneLined_of_mem_elements h.conditionals part.kind
  verbatim entry hentry := (h.verbatim entry hentry).passes

theorem Flag.passes_isOneLined {flag : Flag} (h : InOneLine flag.name) :
    flag.Passes InOneLine Element.IsOneLined where
  header := Text.inOneLine_append.2 ⟨by decide, h⟩
  description text _ := Element.isOneLined_field (by decide) (Content.isOneLined_ofText text)
  manual := by cases flag.manual <;> exact Element.isOneLined_inline (by decide) (by decide)
  default := by cases flag.default <;> exact Element.isOneLined_inline (by decide) (by decide)

namespace Package

/-- The header of a package is laid out in one line each if all in it is. -/
theorem IsOneLined.passesHeader {package : Package} (h : package.IsOneLined) :
    package.PassesHeader Element.IsOneLined := by
  have hversion := Text.not_mem_of_plain (isLine_formatVersion package.formatVersion).2
  have hfiles : ∀ file ∈ package.fields.texts "license-file", InOneLine file :=
    FieldSet.forall_mem_texts fun items hget ↦ h.fields _ _ hget
  refine ⟨Element.isOneLined_inline (by decide) h.name,
    Element.isOneLined_inline (by decide) h.version,
    Element.isOneLined_inline (by decide) hversion,
    fun file hfile ↦ Element.isOneLined_inline (by decide) (hfiles file hfile),
    Element.isOneLined_field (by decide) hfiles, fun key value field element hget hfield ↦ ?_⟩
  have hlabel := isFieldName_label_of_mem_registries field
    (List.mem_append_left _ (List.mem_of_find?_eq_some hfield))
  exact Field.isOneLined_of_element? (inOneLine_of_isFieldName hlabel) (h.fields _ _ hget)

/-- The elements of a package whose names, conditions and items are in one line each are in one line
each. -/
theorem IsOneLined.elements {package : Package} (h : package.IsOneLined) :
    ∀ element ∈ package.elements, element.IsOneLined := by
  have hpasses : package.Passes InOneLine Element.IsOneLined := {
    header := h.passesHeader
    sourceRepository := fun repository hrepository ↦ by
      obtain ⟨hlocation, hkind, hsubdir⟩ := h.sourceRepository repository hrepository
      exact ⟨by decide, Element.isOneLined_inline (by decide) hkind,
        Element.isOneLined_inline (by decide) hlocation,
        fun subdir hget ↦ Element.isOneLined_inline (by decide) (hsubdir subdir hget)⟩
    flags := fun flag hflag ↦ Flag.passes_isOneLined (h.flags flag hflag)
    sections := fun part hpart ↦ (h.sections part hpart).passes
    verbatim := fun entry hentry ↦ (h.verbatim entry hentry).passes }
  exact hpasses.elements (Element.isOneLined_stanza true)

/-- All lines stay in their stanzas and fields where names, conditions and items have no line feeds: a
line that stems from inside a stanza is empty or indented as deep as its piece, and so are the lines of
a field at the top behind the first one. Only first lines of pieces at the top and raw lines there
stand on the left, so that nothing else ends a section or starts another one. -/
theorem outline_isContained (package : Package) (hints : LayoutHints)
    (hindentation : 1 ≤ hints.indentation) (h : package.IsOneLined) :
    (package.outline hints).map (·.2) = List.splitOn '\n' (package.render hints).toList ∧
      (∀ line ∈ package.outline hints, line.1.Contains hints.indentation line.2) ∧
      ∀ line ∈ package.outline hints, line.2 ≠ [] → LayoutHints.indentOf line.2 = 0 →
        ∃ piece position, line.1 = .piece 0 piece position ∧
          (position = 0 ∨ ∃ lines, piece = .raw lines) := by
  have hcontains : ∀ line ∈ package.outline hints, line.1.Contains hints.indentation line.2 := by
    intro line hline
    have hpieces : ∀ piece ∈ Element.piecesAll 0 (package.arranged hints), piece.2.IsOneLined := by
      intro piece hpiece
      have hpiece := (hints.piecesAll_arrangeTop_perm 0 package.elements).mem_iff.1 hpiece
      obtain ⟨element, helement, hpiece⟩ := Element.mem_piecesAll.1 hpiece
      exact h.elements element helement 0 piece hpiece
    rw [outline, List.mem_append] at hline
    rcases hline with hline | hline
    · split at hline
      · rw [List.mem_singleton.1 hline, Origin.Contains]
      · exact hints.contains_of_mem_topOutline hpieces hline
    · rw [List.mem_singleton.1 hline, Origin.Contains]
  exact ⟨package.map_outline hints, hcontains, fun line hline hne hleft ↦
    (hcontains line hline).of_left hindentation hne hleft⟩

/-- A package with texts of several lines, and conditions and raw lines inside of its library. -/
def severalLines : Package where
  name := "foo"
  version := "0.0.0"
  fields := ⟨[("description", .text "first\n\nsecond"), ("tested-with", .texts ["GHC ==9.4", "GHC ==9.6"])]⟩
  sections :=
    [⟨.library, none, ⟨[("ghc-options", .texts ["-Wall", "-O2"])]⟩,
      [⟨"os(linux)", ⟨[("source-dirs", .texts ["linux"])]⟩, none⟩],
      [.raw "if os(osx)\n\n  frameworks: Cocoa", .fields [("x-note", .text "one\nname: bar")]]⟩]
  flags := [⟨"extra", true, false, some "first\nname: bar"⟩]
  sourceRepository := some ⟨"https://github.com/foo/foo", none, "git"⟩
  verbatim := [.raw "-- raw\n-- lines"]

theorem isOneLined_severalLines : severalLines.IsOneLined := by
  have hlibrary : FieldSet.IsOneLined ⟨[("ghc-options", .texts ["-Wall", "-O2"])]⟩ := by
    intro key value hget
    obtain ⟨rfl, rfl⟩ := Prod.mk.inj (List.mem_singleton.1 (Entries.mem_of_get?_eq_some hget))
    exact show ∀ item ∈ ["-Wall", "-O2"], InOneLine item by decide
  have hbranch : FieldSet.IsOneLined ⟨[("source-dirs", .texts ["linux"])]⟩ := by
    intro key value hget
    obtain ⟨rfl, rfl⟩ := Prod.mk.inj (List.mem_singleton.1 (Entries.mem_of_get?_eq_some hget))
    exact show ∀ item ∈ ["linux"], InOneLine item by decide
  refine ⟨by decide, by decide, fun key value hget ↦ ?_, List.forall_mem_singleton.2 ⟨?_, hlibrary,
    List.forall_mem_singleton.2 (.intro (by decide) (List.forall_mem_singleton.2 hbranch)
      (List.forall_mem_singleton.2 (List.forall_mem_nil _))), ?_⟩,
    List.forall_mem_singleton.2 (by decide), ?_, List.forall_mem_singleton.2 trivial⟩
  · rcases List.mem_cons.1 (Entries.mem_of_get?_eq_some hget) with hentry | hentry
    · obtain ⟨rfl, rfl⟩ := Prod.mk.inj hentry
      trivial
    · obtain ⟨rfl, rfl⟩ := Prod.mk.inj (List.mem_singleton.1 hentry)
      exact show ∀ item ∈ ["GHC ==9.4", "GHC ==9.6"], InOneLine item by decide
  · rintro _ ⟨⟩
  · exact List.forall_mem_cons.2 ⟨trivial, List.forall_mem_singleton.2
      (List.forall_mem_singleton.2 (show InOneLine "x-note" by decide))⟩
  · rintro _ ⟨⟩
    exact ⟨by decide, by decide, by rintro _ ⟨⟩⟩

/-- Texts of several lines, conditions and raw lines stay in their stanzas. -/
theorem outline_isContained_severalLines :
    severalLines.IsOneLined ∧
      (severalLines.outline .standard).map (·.2) =
        List.splitOn '\n' (severalLines.render .standard).toList ∧
      (∀ line ∈ severalLines.outline .standard,
        line.1.Contains LayoutHints.standard.indentation line.2) ∧
      ∀ line ∈ severalLines.outline .standard, line.2 ≠ [] → LayoutHints.indentOf line.2 = 0 →
        ∃ piece position, line.1 = .piece 0 piece position ∧
          (position = 0 ∨ ∃ lines, piece = .raw lines) :=
  ⟨isOneLined_severalLines,
    severalLines.outline_isContained .standard (by decide) isOneLined_severalLines⟩

/-! ### An item of two lines -/

/-- All lines of a piece are in the outline of the package that it belongs to. -/
theorem mem_outline_of_mem_pieces {package : Package} {hints : LayoutHints} {piece : Nat × Piece}
    (h : piece ∈ Element.piecesAll 0 package.elements) {line : Origin × List Char}
    (hline : line ∈ hints.pieceOutline piece) : line ∈ package.outline hints := by
  have htop : ∀ before elements, piece ∈ Element.piecesAll 0 elements →
      line ∈ hints.topOutline before elements := by
    intro before elements hpiece
    induction elements generalizing before with
    | nil => cases hpiece
    | cons element rest ih =>
      rw [LayoutHints.topOutline]
      rcases List.mem_append.1 hpiece with hpiece | hpiece
      · exact List.mem_append_left _ (List.mem_append_right _
          (List.mem_flatMap.2 ⟨piece, hpiece, hline⟩))
      · exact List.mem_append_right _ (ih _ hpiece)
  have hmem := htop none (package.arranged hints)
    ((hints.piecesAll_arrangeTop_perm 0 package.elements).mem_iff.2 h)
  rw [outline]
  refine List.mem_append_left _ ?_
  rwa [if_neg (by simpa using List.ne_nil_of_mem hmem)]

/-- A manifest with an option of two lines. -/
def brokenOption : Value :=
  .object [("name", .text "foo"), ("library", .object [("exposed-modules", .array []),
    ("other-modules", .array []), ("ghc-options", .array [.text "-Wall\nname: bar"])])]

/-- The fields of its library. -/
def brokenBody : FieldSet :=
  ⟨[("exposed-modules", .texts []), ("other-modules", .texts []),
    ("ghc-options", .texts ["-Wall\nname: bar"])]⟩

/-- The manifest with a broken option is read without a complaint. -/
theorem run_package_brokenOption :
    (sampleContext.package 0 brokenOption).run ⟨[], ()⟩ =
      (.ok ⟨[("name", .text "foo"), ("library", .body brokenBody)]⟩, ⟨[], ()⟩) := by
  simp only [brokenOption, Context.package, Context.scope, Context.fields, Context.fieldValue,
    Context.body]
  rfl

/-- The package of this manifest, whose library has some fields. -/
def brokenPackage (fields : FieldSet) : Package where
  name := "foo"
  version := "0.0.0"
  fields := ⟨[("build-type", .text "Simple")]⟩
  sections := [⟨.library, none, fields, [], []⟩]
  flags := []
  sourceRepository := none
  verbatim := []

/-- It becomes a package, again without a complaint. -/
theorem ofFields_brokenOption :
    ofFields "package.yaml" false ⟨[("name", .text "foo"), ("library", .body brokenBody)]⟩ =
      ([], .ok (brokenPackage brokenBody)) := by
  set top : FieldSet := ⟨[("name", .text "foo"), ("library", .body brokenBody)]⟩ with htop
  have hmerge : top.mergeSection brokenBody = brokenBody := by
    simp only [FieldSet.mergeSection, FieldSet.merge_eq]
    rfl
  have hsection : top.sectionOf .library none brokenBody = ⟨.library, none, brokenBody, [], []⟩ := by
    rw [FieldSet.sectionOf, hmerge]
    rfl
  rw [brokenPackage, ← hsection]
  rfl

/-- The options of the library, once its modules are known. -/
def brokenOptions : FieldSet := ⟨[("ghc-options", .texts ["-Wall\nname: bar"])]⟩

/-- Inference leaves the broken option as it is. -/
theorem infer_brokenPackage (lister : Lister) (memory : Discovery) :
    ((brokenPackage brokenBody).infer lister).run memory =
      .ok (brokenPackage brokenOptions, memory) := by
  simp only [infer, inferWith, brokenPackage, List.mapM_cons, List.mapM_nil, Section.inferWith,
    Conditional.inferAll]
  rfl

/-- An option of two lines is put into one line as it is, so that its second line stands on the left
of the section and gives the package another name. -/
theorem exists_outline_not_isContained :
    (sampleContext.package 0 brokenOption).run ⟨[], ()⟩ =
        (.ok ⟨[("name", .text "foo"), ("library", .body brokenBody)]⟩, ⟨[], ()⟩) ∧
      ofFields "package.yaml" false ⟨[("name", .text "foo"), ("library", .body brokenBody)]⟩ =
        ([], .ok (brokenPackage brokenBody)) ∧
      (∀ lister memory, ((brokenPackage brokenBody).infer lister).run memory =
        .ok (brokenPackage brokenOptions, memory)) ∧
      ∃ origin, (origin, "name: bar".toList) ∈ (brokenPackage brokenOptions).outline .standard ∧
        origin = .piece 1 (.field "ghc-options" (.inline "-Wall\nname: bar")) 1 ∧
        ¬origin.Contains LayoutHints.standard.indentation "name: bar".toList := by
  refine ⟨run_package_brokenOption, ofFields_brokenOption, infer_brokenPackage, _, ?_, rfl, ?_⟩
  · have hpiece : (1, .field "ghc-options" (.inline "-Wall\nname: bar")) ∈
        Element.piecesAll 0 (brokenPackage brokenOptions).elements := by
      refine Element.mem_piecesAll.2 ⟨Section.element ⟨.library, none, brokenOptions, [], []⟩, ?_, ?_⟩
      · exact List.mem_append_right _ (List.mem_singleton_self _)
      · rw [Section.element, Conditional.elements]
        exact List.mem_cons_of_mem _ List.mem_cons_self
    exact mem_outline_of_mem_pieces hpiece (List.mem_of_getElem? (i := 1) rfl)
  · rintro ⟨hdeep, -⟩
    have hindented := hdeep (le_refl 1)
    revert hindented
    decide

end Package

end CabalManifest
