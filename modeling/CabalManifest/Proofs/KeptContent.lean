import CabalManifest.Proofs.Regeneration

/-!
# What layout keeps

Hints lay a description out with spaces and commas, and in some order. Without spaces, commas and
empty lines every piece of a description is written in one way (`LayoutHints.map_dense_pieceLines`),
and arranging only permutes the pieces. So a package has the same content under all hints
(`Package.render_perm`).
-/

namespace CabalManifest

namespace Text

/-! ### Dense lines -/

/-- Whether a character can be due to the layout. -/
def isFiller (c : Char) : Bool := c == ' ' || c == ','

/-- A text without its spaces and commas. -/
def dense (cs : List Char) : List Char := cs.filter fun c ↦ !isFiller c

/-- The lines without their spaces and commas, as far as anything is left of them. -/
def solid (lines : List (List Char)) : List (List Char) :=
  (lines.map dense).filter fun line ↦ !line.isEmpty

@[simp]
theorem dense_append (xs ys : List Char) : dense (xs ++ ys) = dense xs ++ dense ys :=
  List.filter_append ..

@[simp]
theorem dense_replicate_space (n : Nat) : dense (List.replicate n ' ') = [] := by
  simp [dense, isFiller]

@[simp]
theorem dense_dense (cs : List Char) : dense (dense cs) = dense cs := by
  simp [dense]

theorem dense_cons (c : Char) (cs : List Char) :
    dense (c :: cs) = if isFiller c then dense cs else c :: dense cs := by
  rw [dense, List.filter_cons]
  cases isFiller c <;> rfl

@[simp]
theorem solid_append (xs ys : List (List Char)) : solid (xs ++ ys) = solid xs ++ solid ys := by
  simp [solid]

theorem solid_cons (line : List Char) (lines : List (List Char)) :
    solid (line :: lines) = solid [line] ++ solid lines :=
  solid_append [line] lines

/-! ### Dense texts -/

section

variable {ends : Char → Bool}

theorem exists_splitOnP_eq_cons (ends : Char → Bool) (cs : List Char) :
    ∃ piece pieces, cs.splitOnP ends = piece :: pieces :=
  List.exists_cons_of_ne_nil (List.splitOnP_ne_nil ends cs)

theorem splitOnP_cons_of_ends {c : Char} (h : ends c) (cs : List Char) :
    (c :: cs).splitOnP ends = [] :: cs.splitOnP ends := by
  rw [List.splitOnP_cons_eq_if_modifyHead, if_pos h]

theorem splitOnP_cons_of_not_ends {c : Char} (h : ends c = false) {cs piece : List Char}
    {pieces : List (List Char)} (hcut : cs.splitOnP ends = piece :: pieces) :
    (c :: cs).splitOnP ends = (c :: piece) :: pieces := by
  rw [List.splitOnP_cons_eq_if_modifyHead, h, hcut]
  rfl

/-- Dense lines are the lines of the dense text. -/
theorem map_dense_splitOnP (h : ∀ c, isFiller c → ends c = false) (cs : List Char) :
    (cs.splitOnP ends).map dense = (dense cs).splitOnP ends := by
  induction cs with
  | nil => rfl
  | cons c cs ih =>
    obtain ⟨piece, pieces, hcut⟩ := exists_splitOnP_eq_cons ends cs
    rw [dense_cons]
    cases hfiller : isFiller c with
    | true =>
      rw [hcut] at ih
      rw [splitOnP_cons_of_not_ends (h c hfiller) hcut, List.map_cons, dense_cons, hfiller]
      exact ih
    | false =>
      rw [if_neg Bool.false_ne_true]
      cases hends : ends c with
      | true =>
        rw [splitOnP_cons_of_ends hends, splitOnP_cons_of_ends hends, List.map_cons, ih]
        rfl
      | false =>
        rw [hcut, List.map_cons] at ih
        rw [splitOnP_cons_of_not_ends hends hcut, splitOnP_cons_of_not_ends hends ih.symm,
          List.map_cons, dense_cons, hfiller]
        rfl

end

/-- Whether lines are the pieces of a text up to empty ones. The first line is the first piece, so
that a character can be put in front of both. -/
inductive AreLines : List (List Char) → List (List Char) → Prop
  | none {pieces : List (List Char)} (h : solid pieces = []) : AreLines [] ([] :: pieces)
  | some {line : List Char} {lines pieces : List (List Char)} (h : solid lines = solid pieces) :
    AreLines (line :: lines) (line :: pieces)

theorem AreLines.solid_eq {lines pieces : List (List Char)} (h : AreLines lines pieces) :
    solid lines = solid pieces := by
  cases h with
  | none h => exact h.symm
  | some h => rw [solid_cons, h, ← solid_cons]

/-- A carriage return before a line feed makes an empty piece, and so does a boundary at the end of
the text. -/
theorem areLines_lines (cs : List Char) : AreLines (lines cs) (cs.splitOnP isLineBoundary) := by
  fun_induction lines cs with
  | case1 => exact .none rfl
  | case2 cs ih =>
    rw [splitOnP_cons_of_ends rfl, splitOnP_cons_of_ends rfl]
    exact .some ih.solid_eq
  | case3 c cs hreturn hends ih =>
    rw [splitOnP_cons_of_ends hends]
    exact .some ih.solid_eq
  | case4 c cs hreturn hends hlines ih =>
    obtain ⟨piece, pieces, hcut⟩ := exists_splitOnP_eq_cons isLineBoundary cs
    rw [splitOnP_cons_of_not_ends (by simpa using hends) hcut]
    rw [hlines, hcut] at ih
    cases ih with
    | none h => exact .some h.symm
  | case5 c cs hreturn hends line rest hlines ih =>
    obtain ⟨piece, pieces, hcut⟩ := exists_splitOnP_eq_cons isLineBoundary cs
    rw [splitOnP_cons_of_not_ends (by simpa using hends) hcut]
    rw [hlines, hcut] at ih
    cases ih with
    | some h => exact .some h

/-- If lines are ended by line feeds, each one is split by itself. -/
theorem solid_flatMap_newline {ends : Char → Bool} (hends : ends '\n')
    (lines : List (List Char)) :
    solid ((lines.flatMap (· ++ ['\n'])).splitOnP ends) =
      lines.flatMap fun line ↦ solid (line.splitOnP ends) := by
  induction lines with
  | nil => rfl
  | cons line lines ih =>
    rw [List.flatMap_cons, List.append_assoc, List.singleton_append,
      List.splitOnP_append_cons _ _ hends, solid_append, ih, List.flatMap_cons]

end Text

/-! ### Dense pieces -/

open Text (dense solid)

/-- What stands below the name of a field. -/
def Content.rows : Content → List String
  | .inline _ => []
  | .block rows => rows.map fun row ↦ if row = "" then "." else row
  | .lines items => items
  | .commas items => items

/-- The dense lines of a piece, which all hints write alike. -/
def Piece.dense : Piece → List (List Char)
  | .header text => [Text.dense text.toList]
  | .field name content =>
    Text.dense (name ++ ":" ++ content.inlineText).toList ::
      content.rows.map fun row ↦ Text.dense row.toList
  | .raw lines => lines.map fun line ↦ Text.dense line.toList

namespace LayoutHints

variable (hints : LayoutHints)

@[simp]
theorem dense_spaces_append (n : Nat) (text : String) :
    dense (spaces n ++ text).toList = dense text.toList := by
  rw [String.toList_append, Text.dense_append, toList_spaces, Text.dense_replicate_space,
    List.nil_append]

theorem dense_startOf (name : String) (content : Content) :
    dense (hints.startOf name content).toList =
      dense (name ++ ":" ++ content.inlineText).toList := by
  rw [startOf]
  split
  · next h => rw [h, String.append_empty]
  · rw [String.append_assoc, String.toList_append, Text.dense_append, dense_spaces_append,
      ← Text.dense_append, ← String.toList_append]

/-- Commas stand in front of all items but the first, or behind all but the last. -/
theorem map_dense_commaLines (style : CommaStyle) (n : Nat) (items : List String) :
    (commaLines style (spaces n) items).map (fun line ↦ dense line.toList) =
      items.map fun item ↦ dense item.toList := by
  have hbefore : ∀ item : String, dense (", " ++ item).toList = dense item.toList := fun item ↦ by
    rw [String.toList_append, Text.dense_append]
    rfl
  have hafter : ∀ item : String, dense (item ++ ",").toList = dense item.toList := fun item ↦ by
    rw [String.toList_append, Text.dense_append]
    exact List.append_nil _
  cases items with
  | nil => rfl
  | cons first rest =>
    cases style with
    | leading =>
      simp only [commaLines, List.map_cons, List.map_map, Function.comp_def, String.append_assoc,
        dense_spaces_append, hbefore]
    | trailing =>
      have hsplit := List.dropLast_concat_getLast (List.cons_ne_nil first rest)
      have hlast : (first :: rest).getLastD "" = (first :: rest).getLast (List.cons_ne_nil _ _) := by
        simp [List.getLastD_eq_getLast?, List.getLast?_eq_some_getLast]
      conv => rhs; rw [← hsplit, List.map_append]
      simp only [commaLines, hlast, List.map_append, List.map_map, Function.comp_def, List.map_cons,
        List.map_nil, String.append_assoc, dense_spaces_append, hafter]

theorem map_dense_furtherLines (n : Nat) (content : Content) :
    (hints.furtherLines (spaces n) content).map (fun line ↦ dense line.toList) =
      content.rows.map fun row ↦ dense row.toList := by
  cases content with
  | inline text => rfl
  | block rows => simp [furtherLines, Content.rows, String.append_assoc]
  | lines items => simp [furtherLines, Content.rows, String.append_assoc]
  | commas items => exact map_dense_commaLines _ _ items

theorem map_dense_rawLines (n : Nat) (lines : List String) :
    (rawLines (spaces n) lines).map (fun line ↦ dense line.toList) =
      lines.map fun line ↦ dense line.toList := by
  rw [rawLines, List.map_map]
  refine List.map_congr_left fun line _ ↦ ?_
  rw [Function.comp_apply]
  split
  · next h => rw [h]
  · rw [dense_spaces_append]

/-- Every piece has the same dense lines under all hints. -/
theorem map_dense_pieceLines (piece : Nat × Piece) :
    (hints.pieceLines piece).map (fun line ↦ dense line.toList) = piece.2.dense := by
  obtain ⟨depth, piece⟩ := piece
  cases piece with
  | header text => simp only [pieceLines, Piece.dense, List.map_cons, List.map_nil, dense_spaces_append]
  | field name content =>
    simp only [pieceLines, Piece.dense, List.map_cons, dense_spaces_append, dense_startOf,
      map_dense_furtherLines]
  | raw lines => exact map_dense_rawLines _ lines

/-! ### Dense descriptions -/

section

variable {ends : Char → Bool} (hfiller : ∀ c, Text.isFiller c → ends c = false)
include hfiller

/-- The solid lines of a line, which depend on the dense line only. -/
theorem solid_splitOnP_dense (line : List Char) :
    solid ((dense line).splitOnP ends) = solid (line.splitOnP ends) := by
  rw [← Text.map_dense_splitOnP hfiller, solid, solid, List.map_map]
  congr 2
  exact funext Text.dense_dense

/-- The solid lines of a written text are those of its lines. -/
theorem solid_intercalate (hends : ends '\n') (lines : List String) :
    solid (("\n".intercalate lines ++ "\n").toList.splitOnP ends) =
      (lines.map fun line ↦ dense line.toList).flatMap fun line ↦ solid (line.splitOnP ends) := by
  by_cases hne : lines = []
  · rw [hne, show ("\n".intercalate [] ++ "\n").toList = ['\n'] from rfl,
      Text.splitOnP_cons_of_ends hends]
    rfl
  · rw [toList_intercalate_append hne, Text.solid_flatMap_newline hends, List.flatMap_map,
      List.flatMap_map]
    simp only [solid_splitOnP_dense hfiller]

omit hfiller in
/-- The empty lines that set stanzas apart are not solid. -/
theorem flatMap_solid_topLines (before : Option Bool) (elements : List Element) :
    ((hints.topLines before elements).map fun line ↦ dense line.toList).flatMap
        (fun line ↦ solid (line.splitOnP ends)) =
      (Element.piecesAll 0 elements).flatMap fun piece ↦
        piece.2.dense.flatMap fun line ↦ solid (line.splitOnP ends) := by
  induction elements generalizing before with
  | nil => rfl
  | cons element rest ih =>
    have happart : ∀ apart : Bool, (((if apart then [""] else []).map fun line ↦
        dense line.toList).flatMap fun line ↦ solid (line.splitOnP ends)) = [] := by
      intro apart
      cases apart <;> rfl
    rw [topLines_cons, List.map_append, List.map_append, List.flatMap_append, List.flatMap_append,
      happart, List.nil_append, ih, linesOf_eq_pieces, Element.piecesAll, List.flatMap_append]
    simp only [List.map_flatMap, map_dense_pieceLines, List.flatMap_assoc]

/-- What is written of elements is solid in the same way under all hints. -/
theorem solid_renderTop_perm (hends : ends '\n') (elements : List Element) :
    (solid ((hints.renderTop elements).toList.splitOnP ends)).Perm
      ((Element.piecesAll 0 elements).flatMap fun piece ↦
        piece.2.dense.flatMap fun line ↦ solid (line.splitOnP ends)) := by
  rw [renderTop, solid_intercalate hfiller hends, hints.flatMap_solid_topLines]
  exact (hints.piecesAll_arrangeTop_perm 0 elements).flatMap_right _

end

end LayoutHints

/-! ### Packages -/

/-- Under any two hints a package is written with the same content: without spaces, commas and empty
lines, its two descriptions have the same lines as often. This holds of the lines between line feeds
and of the lines between all line boundaries. -/
theorem Package.render_perm (package : Package) (hints hints' : LayoutHints) :
    (solid (Text.lines (package.render hints).toList)).Perm
        (solid (Text.lines (package.render hints').toList)) ∧
      (solid (List.splitOn '\n' (package.render hints).toList)).Perm
        (solid (List.splitOn '\n' (package.render hints').toList)) := by
  have hperm : ∀ {ends : Char → Bool}, (∀ c, Text.isFiller c → ends c = false) → ends '\n' →
      (solid ((package.render hints).toList.splitOnP ends)).Perm
        (solid ((package.render hints').toList.splitOnP ends)) := fun hfiller hends ↦
    (hints.solid_renderTop_perm hfiller hends package.elements).trans
      (hints'.solid_renderTop_perm hfiller hends package.elements).symm
  have hfiller : ∀ {c : Char}, Text.isFiller c → c = ' ' ∨ c = ',' := by
    intro c h
    simpa [Text.isFiller] using h
  rw [(Text.areLines_lines _).solid_eq, (Text.areLines_lines _).solid_eq, List.splitOn_eq_splitOnP,
    List.splitOn_eq_splitOnP]
  constructor
  · refine hperm (fun c h ↦ ?_) (by decide)
    obtain rfl | rfl := hfiller h <;> rfl
  · refine hperm (fun c h ↦ ?_) (by decide)
    obtain rfl | rfl := hfiller h <;> rfl

end CabalManifest
