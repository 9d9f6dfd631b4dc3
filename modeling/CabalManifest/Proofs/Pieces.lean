import CabalManifest.Proofs.Arrangement
import CabalManifest.Proofs.VisibleLines

/-!
# Descriptions piece by piece

A description that is written is a list of *pieces*: the header of a stanza, a field with all its
lines, or lines that stand as they are, each at the depth of the stanzas around it. The tree of
elements is gone in this view, and so are the recursions over it (`linesOf_eq_pieces`).
-/

namespace CabalManifest

/-- A part of a written description, without the elements below it. -/
inductive Piece where
  | header (text : String)
  | field (name : String) (content : Content)
  | raw (lines : List String)

/-- A field with its name and its value. -/
def Piece.field? : Piece → Option (String × Content)
  | .field name content => some (name, content)
  | _ => none

/-- The fields among some pieces. -/
def fieldsOf (pieces : List (Nat × Piece)) : List (String × Content) :=
  pieces.filterMap fun piece ↦ piece.2.field?

theorem mem_fieldsOf {pieces : List (Nat × Piece)} {name : String} {content : Content} :
    (name, content) ∈ fieldsOf pieces ↔ ∃ depth, (depth, .field name content) ∈ pieces := by
  rw [fieldsOf, List.mem_filterMap]
  constructor
  · rintro ⟨⟨depth, piece⟩, hpiece, hfield⟩
    cases piece with
    | field => cases hfield; exact ⟨depth, hpiece⟩
    | header => cases hfield
    | raw => cases hfield
  · rintro ⟨depth, hpiece⟩
    exact ⟨_, hpiece, rfl⟩

/-! ### Elements as pieces -/

namespace Element

mutual

/-- The pieces of an element at a depth, each with its depth. -/
def pieces (depth : Nat) : Element → List (Nat × Piece)
  | .field name content => [(depth, .field name content)]
  | .raw lines => [(depth, .raw lines)]
  | .stanza header elements _ => (depth, .header header) :: piecesAll (depth + 1) elements

/-- The pieces of some elements. -/
def piecesAll (depth : Nat) : List Element → List (Nat × Piece)
  | [] => []
  | element :: rest => pieces depth element ++ piecesAll depth rest

end

theorem piecesAll_eq_flatMap (depth : Nat) (elements : List Element) :
    piecesAll depth elements = elements.flatMap (pieces depth) := by
  induction elements with
  | nil => rfl
  | cons element rest ih => rw [piecesAll, ih, List.flatMap_cons]

theorem mem_piecesAll {depth : Nat} {elements : List Element} {piece : Nat × Piece} :
    piece ∈ piecesAll depth elements ↔ ∃ element ∈ elements, piece ∈ pieces depth element := by
  rw [piecesAll_eq_flatMap, List.mem_flatMap]

mutual

theorem depth_le_of_mem_pieces {depth : Nat} {piece : Nat × Piece} :
    ∀ {element : Element}, piece ∈ pieces depth element → depth ≤ piece.1
  | .field _ _, h => by
    rw [pieces, List.mem_singleton] at h
    simp [h]
  | .raw _, h => by
    rw [pieces, List.mem_singleton] at h
    simp [h]
  | .stanza _ elements _, h => by
    rw [pieces, List.mem_cons] at h
    rcases h with rfl | h
    · exact le_refl _
    · have hdeep := depth_le_of_mem_piecesAll h
      omega

/-- No piece of an element is less deep than the element. -/
theorem depth_le_of_mem_piecesAll {depth : Nat} {piece : Nat × Piece} :
    ∀ {elements : List Element}, piece ∈ piecesAll depth elements → depth ≤ piece.1
  | [], h => by cases h
  | element :: rest, h => by
    rw [piecesAll, List.mem_append] at h
    rcases h with h | h
    · exact depth_le_of_mem_pieces h
    · exact depth_le_of_mem_piecesAll h

end

end Element

/-! ### Arranging pieces -/

namespace LayoutHints

variable (hints : LayoutHints)

mutual

theorem pieces_arrange_perm (depth : Nat) : ∀ element : Element,
    ((hints.arrange element).pieces depth).Perm (element.pieces depth)
  | .field _ _ => .refl _
  | .raw _ => .refl _
  | .stanza header elements sortable => by
    have hinside := piecesAll_arrangeAll_perm (depth + 1) elements
    rw [arrange, Element.pieces, Element.pieces]
    refine .cons _ (.trans ?_ hinside)
    split
    · rw [Element.piecesAll_eq_flatMap, Element.piecesAll_eq_flatMap]
      exact (Element.perm_sortBy _ _).flatMap_right _
    · exact .refl _

theorem piecesAll_arrangeAll_perm (depth : Nat) : ∀ elements : List Element,
    (Element.piecesAll depth (hints.arrangeAll elements)).Perm (Element.piecesAll depth elements)
  | [] => .refl _
  | element :: rest => by
    rw [arrangeAll, Element.piecesAll, Element.piecesAll]
    exact (pieces_arrange_perm depth element).append (piecesAll_arrangeAll_perm depth rest)

end

/-- Arranging elements changes no more than the order of their pieces. -/
theorem piecesAll_arrangeTop_perm (depth : Nat) (elements : List Element) :
    (Element.piecesAll depth (hints.arrangeTop elements)).Perm
      (Element.piecesAll depth elements) := by
  refine .trans ?_ (hints.piecesAll_arrangeAll_perm depth elements)
  rw [Element.piecesAll_eq_flatMap, Element.piecesAll_eq_flatMap]
  exact (Element.perm_sortBy _ _).flatMap_right _

end LayoutHints

/-! ### The lines of a piece -/

/-- The value of a field as far as it stands behind the name. -/
def Content.inlineText : Content → String
  | .inline text => text
  | _ => ""

namespace LayoutHints

variable (hints : LayoutHints)

/-- The number of spaces between the colon behind a name and the value. -/
def gapOf (name : String) : Nat :=
  match hints.alignment with
  | some column => if name.length + 2 ≤ column then column - (name.length + 1) else 1
  | none => 1

/-- The first line of a field, without its indentation. -/
def startOf (name : String) (content : Content) : String :=
  if content.inlineText = "" then name ++ ":"
  else name ++ ":" ++ spaces (hints.gapOf name) ++ content.inlineText

/-- The lines of a field behind the first one. -/
def furtherLines (indent : String) : Content → List String
  | .inline _ => []
  | .block lines => lines.map fun line ↦ indent ++ spaces itemIndent ++ if line = "" then "." else line
  | .lines items => items.map fun item ↦ indent ++ spaces itemIndent ++ item
  | .commas items => commaLines hints.commaStyle indent items

/-- The lines of a piece. -/
def pieceLines (piece : Nat × Piece) : List String :=
  let indent := spaces (hints.indentation * piece.1)
  match piece.2 with
  | .header text => [indent ++ text]
  | .field name content => (indent ++ hints.startOf name content) :: hints.furtherLines indent content
  | .raw lines => rawLines indent lines

theorem label_eq (name : String) : hints.label name = name ++ ":" ++ spaces (hints.gapOf name) := by
  rw [label, gapOf]
  cases hints.alignment with
  | none => rfl
  | some column =>
    have hlength : (name ++ ":").length = name.length + 1 := by
      rw [String.length_append]
      rfl
    simp only [hlength]
    split <;> rfl

theorem fieldLinesOf_eq (indent name : String) (content : Content) :
    hints.fieldLinesOf indent name content =
      (indent ++ hints.startOf name content) :: hints.furtherLines indent content := by
  cases content with
  | inline text =>
    by_cases h : text = ""
    · subst h
      simp [fieldLinesOf, startOf, Content.inlineText, furtherLines, String.append_assoc]
    · rw [fieldLinesOf]
      · simp [startOf, Content.inlineText, h, furtherLines, label_eq, String.append_assoc]
      · exact h
  | block lines => simp [fieldLinesOf, startOf, Content.inlineText, furtherLines, String.append_assoc]
  | lines items => simp [fieldLinesOf, startOf, Content.inlineText, furtherLines, String.append_assoc]
  | commas items => simp [fieldLinesOf, startOf, Content.inlineText, furtherLines, String.append_assoc]

mutual

/-- An element is written piece by piece. -/
theorem linesOf_eq_pieces (depth : Nat) : ∀ element : Element,
    hints.linesOf depth element = (element.pieces depth).flatMap hints.pieceLines
  | .field name content => by
    simp [linesOf, Element.pieces, pieceLines, fieldLinesOf_eq]
  | .raw lines => by
    simp [linesOf, Element.pieces, pieceLines]
  | .stanza header elements _ => by
    simp [linesOf, Element.pieces, pieceLines, linesOfAll_eq_pieces (depth + 1) elements]

theorem linesOfAll_eq_pieces (depth : Nat) : ∀ elements : List Element,
    hints.linesOfAll depth elements = (Element.piecesAll depth elements).flatMap hints.pieceLines
  | [] => rfl
  | element :: rest => by
    rw [linesOfAll, linesOf_eq_pieces depth element, linesOfAll_eq_pieces depth rest,
      Element.piecesAll, List.flatMap_append]

end

theorem topLines_cons (before : Option Bool) (element : Element) (rest : List Element) :
    hints.topLines before (element :: rest) =
      (if (before.map (· || isStanza element)).getD false then [""] else []) ++
        hints.linesOf 0 element ++ hints.topLines (some (isStanza element)) rest := by
  cases before <;> rfl

/-- Hints that write every piece alike write some elements at the top alike. -/
theorem topLines_congr {hints hints' : LayoutHints} {elements : List Element}
    (h : ∀ piece ∈ Element.piecesAll 0 elements, hints.pieceLines piece = hints'.pieceLines piece)
    (before : Option Bool) : hints.topLines before elements = hints'.topLines before elements := by
  induction elements generalizing before with
  | nil => rfl
  | cons element rest ih =>
    rw [topLines_cons, topLines_cons, linesOf_eq_pieces, linesOf_eq_pieces,
      ih fun piece hpiece ↦ h piece (List.mem_append_right _ hpiece)]
    congr 2
    exact List.flatMap_congr fun piece hpiece ↦ h piece (List.mem_append_left _ hpiece)

/-- The empty lines that set stanzas apart are not visible. -/
theorem visibleLines_topLines (before : Option Bool) (elements : List Element) :
    visibleLines (hints.topLines before elements) =
      (Element.piecesAll 0 elements).flatMap fun piece ↦ visibleLines (hints.pieceLines piece) := by
  have hempty : visibleLines [""] = [] := rfl
  induction elements generalizing before with
  | nil => rfl
  | cons element rest ih =>
    have happart : ∀ apart : Bool, visibleLines (if apart then [""] else []) = [] := by
      intro apart
      cases apart with
      | false => rfl
      | true => exact hempty
    rw [topLines_cons, visibleLines_append, visibleLines_append, happart, List.nil_append, ih,
      linesOf_eq_pieces, visibleLines_flatMap, Element.piecesAll, List.flatMap_append]

end LayoutHints

end CabalManifest
