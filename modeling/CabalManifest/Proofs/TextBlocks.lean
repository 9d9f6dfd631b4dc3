import CabalManifest.Proofs.ContainedLines
import CabalManifest.Proofs.OverriddenFields

/-!
# Texts of several lines

A text of several lines stands below the name of its field, line by line. An empty line would end the
field, so that a dot stands for it. All other lines stand behind their indentation as they are, and so
no line that shows anything is lost (`Package.text_isOneField`). But a line of blanks alone is no empty
line: it is written as it is, and is not to be seen (`Package.exists_white_row`).
-/

namespace CabalManifest

open LayoutHints (spaces itemIndent)

/-- Whether a text is made of blanks only. -/
def Text.isWhite (text : String) : Bool := text.toList.all isBlank

open Text (isWhite InOneLine)

/-! ### The lines of a text -/

/-- Whether these are the lines of a text without the line feeds at its end. -/
structure AreLinesOf (lines : List String) (text : String) : Prop where
  inOneLine : ∀ line ∈ lines, InOneLine line
  exists_eq : ∃ n, text = "\n".intercalate lines ++ String.ofList (List.replicate n '\n')
  /-- There is an empty line at the end only if there is nothing else. -/
  last : lines.getLast? = some "" → lines = [""]

/-- The lines of a text are its lines without the blanks around them. -/
theorem areLinesOf_textLines (text : String) : AreLinesOf (textLines text) text := by
  have hjoin : ("\n".intercalate (textLines text)).toList =
      Text.dropRight (· == '\n') text.toList := by
    rw [String.toList_intercalate, textLines, List.map_map]
    simp [Function.comp_def]
  refine ⟨fun _ ↦ inOneLine_of_mem_textLines, ?_, fun hlast ↦ ?_⟩
  · obtain ⟨n, hn⟩ := Text.exists_eq_dropRight_append '\n' text.toList
    refine ⟨n, String.toList_injective ?_⟩
    rw [String.toList_append, hjoin, String.toList_ofList]
    exact hn
  · obtain ⟨front, hfront⟩ := List.getLast?_eq_some_iff.1 hlast
    rw [hfront] at hjoin ⊢
    by_cases hnil : front = []
    · rw [hnil, List.nil_append]
    · -- The text would end with the line feed in front of the empty line.
      rw [String.intercalate_append_of_ne_nil hnil (List.cons_ne_nil _ _),
        String.intercalate_singleton, String.append_empty, String.toList_append] at hjoin
      have hend : (Text.dropRight (· == '\n') text.toList).getLast? = some '\n' := by
        rw [← hjoin]
        exact List.getLast?_concat ..
      cases Text.eq_false_of_getLast?_dropRight hend

/-- Every text has a line. -/
theorem textLines_ne_nil (text : String) : textLines text ≠ [] := by
  rw [textLines, Ne, List.map_eq_nil_iff]
  exact List.splitOn_ne_nil _ _

/-! ### The rows of a text -/

/-- Whether a row stands for a line of a text, behind an indentation. A line that shows something
stands there as it is, and a dot stands for an empty one. The row is white only if the line is, and is
not empty. -/
structure IsRowOf (indent line row : String) : Prop where
  inOneLine : InOneLine row
  eq_of_not_white : isWhite line = false → row = indent ++ line
  eq_of_empty : line = "" → row = indent ++ "."
  white_iff : isWhite row ↔ line ≠ "" ∧ isWhite line

/-- Two texts in turn are white if both are. -/
theorem Text.isWhite_append (s t : String) : isWhite (s ++ t) = (isWhite s && isWhite t) := by
  rw [isWhite, String.toList_append, List.all_append]
  rfl

/-- Spaces are white. -/
theorem Text.isWhite_spaces (n : Nat) : isWhite (spaces n) = true := by
  rw [isWhite, LayoutHints.toList_spaces, List.all_replicate]
  simp [isBlank]

/-- The row of a line is the line, or a period for an empty one, behind its indentation. -/
theorem isRowOf_text {indent line : String} (hindent : isWhite indent)
    (hindentLine : InOneLine indent) (hline : InOneLine line) :
    IsRowOf indent line (indent ++ if line = "" then "." else line) where
  inOneLine := by
    refine Text.inOneLine_append.2 ⟨hindentLine, ?_⟩
    split
    · decide
    · exact hline
  eq_of_not_white h := by
    have hne : line ≠ "" := by
      rintro rfl
      cases h
    rw [if_neg hne]
  eq_of_empty h := by rw [if_pos h]
  white_iff := by
    rw [Text.isWhite_append, hindent, Bool.true_and]
    split
    · next h => exact iff_of_false (by decide) fun hline ↦ hline.1 h
    · next h => exact ⟨fun hwhite ↦ ⟨h, hwhite⟩, And.right⟩

/-! ### Texts that a package gives -/

namespace Verbatim

/-- What overrides say about a field in the end. -/
def lastMention? (mentions : List (String × Scalar)) (name : String) : Option Scalar :=
  (mentions.filter (·.1 = name)).getLast?.map (·.2)

variable (mentions : List (String × Scalar)) (name : String) (value : Scalar)

/-- The last mention of a name is the one that comes last. -/
theorem lastMention?_concat_self :
    lastMention? (mentions ++ [(name, value)]) name = some value := by
  simp [lastMention?]

/-- A mention of another name does not matter. -/
theorem lastMention?_concat_of_ne {other : String} (h : name ≠ other) :
    lastMention? (mentions ++ [(name, value)]) other = lastMention? mentions other := by
  simp [lastMention?, h]

end Verbatim

open Verbatim (mentions lastMention?)

namespace Element

/-- What raw lines keep, and what every override of a field keeps with one mention more, holds of all
overrides together. -/
theorem overrideAll_induction {p : List (String × Scalar) → List Element → Prop}
    {elements : List Element} (hnil : p [] elements)
    (hraw : ∀ mentioned elements lines, p mentioned elements →
      p mentioned (elements ++ [.raw lines]))
    (hfield : ∀ mentioned elements name value, p mentioned elements →
      p (mentioned ++ [(name, value)]) (overrideField elements name value))
    (entries : List Verbatim) : p (entries.flatMap mentions) (overrideAll elements entries) := by
  suffices hall : ∀ mentioned elements, p mentioned elements →
      p (mentioned ++ entries.flatMap mentions) (overrideAll elements entries) from
    hall [] elements hnil
  clear hnil
  induction entries with
  | nil => exact fun mentioned elements h ↦ by simpa [overrideAll] using h
  | cons entry entries ih =>
    intro mentioned elements h
    rw [List.flatMap_cons, ← List.append_assoc]
    refine ih _ _ ?_
    cases entry with
    | raw text => exact (List.append_nil mentioned).symm ▸ hraw _ _ _ h
    | fields values =>
      rw [Verbatim.mentions, override]
      induction values generalizing mentioned elements with
      | nil => exact (List.append_nil mentioned).symm ▸ h
      | cons mention values ih =>
        rw [List.append_cons]
        exact ih _ _ (hfield _ _ mention.1 mention.2 h)

/-- Removing a field leaves all other elements. -/
theorem mem_removeField_of_ne {element : Element} {name : String} (hname : element.name? ≠ some name)
    {elements : List Element} (h : element ∈ elements) : element ∈ removeField name elements := by
  induction elements with
  | nil => cases h
  | cons first rest ih =>
    rw [removeField]
    rcases List.mem_cons.1 h with rfl | h
    · rw [if_neg hname]
      exact List.mem_cons_self
    · split
      · exact h
      · exact List.mem_cons_of_mem _ (ih h)

/-- Replacing a field leaves all other elements. -/
theorem mem_replaceField_of_ne {element : Element} {name : String}
    (hname : element.name? ≠ some name) (content : Content) {elements : List Element}
    (h : element ∈ elements) : element ∈ replaceField name content elements := by
  induction elements with
  | nil => cases h
  | cons first rest ih =>
    rw [replaceField]
    rcases List.mem_cons.1 h with rfl | h
    · rw [if_neg hname]
      exact List.mem_cons_self
    · split
      · exact List.mem_cons_of_mem _ h
      · exact List.mem_cons_of_mem _ (ih h)

/-- A field that is replaced has the new content. -/
theorem mem_replaceField_self {name : String} (content : Content) {elements : List Element}
    (h : name ∈ fieldNames elements) : .field name content ∈ replaceField name content elements := by
  induction elements with
  | nil => cases h
  | cons first rest ih =>
    rw [replaceField]
    split
    · exact List.mem_cons_self
    · next hfirst =>
      rw [fieldNames_cons, List.mem_append, Option.mem_toList] at h
      exact List.mem_cons_of_mem _ (ih (h.resolve_left hfirst))

/-- An override changes no other field, and neither stanzas nor raw lines. -/
theorem mem_overrideField_of_ne {element : Element} {name : String}
    (hname : element.name? ≠ some name) (value : Scalar) {elements : List Element}
    (h : element ∈ elements) : element ∈ overrideField elements name value := by
  rw [overrideField.eq_def]
  split
  · exact mem_removeField_of_ne hname h
  · simp only
    split
    · exact mem_replaceField_of_ne hname _ h
    · exact List.mem_append_left _ h

/-- After an override by anything but a null there is a field with its text. -/
theorem mem_overrideField_self (elements : List Element) (name : String) {value : Scalar}
    (hvalue : value ≠ .null) :
    .field name (.ofText value.plain) ∈ overrideField elements name value := by
  rw [overrideField.eq_def]
  split
  · exact absurd rfl hvalue
  · simp only
    split
    · next hany => exact mem_replaceField_self _ (any_name?_iff.1 hany)
    · exact List.mem_append_right _ (List.mem_singleton_self _)

/-- What no override mentions stays. -/
theorem mem_overrideAll_of_unmentioned {element : Element} {elements : List Element}
    (h : element ∈ elements) {entries : List Verbatim}
    (hunmentioned : ∀ name ∈ element.name?, name ∉ (entries.flatMap mentions).map (·.1)) :
    element ∈ overrideAll elements entries := by
  refine overrideAll_induction
    (p := fun mentioned elements ↦ (∀ name ∈ element.name?, name ∉ mentioned.map Prod.fst) →
      element ∈ elements)
    (fun _ ↦ h) (fun _ _ _ ih hnot ↦ List.mem_append_left _ (ih hnot))
    (fun mentioned _ name value ih hnot ↦ ?_) entries hunmentioned
  simp only [List.map_append, List.mem_append, not_or] at hnot
  refine mem_overrideField_of_ne (fun hname ↦ ?_) value (ih fun other hother ↦ (hnot other hother).1)
  exact (hnot name hname).2 (List.mem_singleton_self name)

/-- The last mention of a field counts, if it is no null. -/
theorem mem_overrideAll_of_lastMention {entries : List Verbatim} {name : String} {value : Scalar}
    (hlast : lastMention? (entries.flatMap mentions) name = some value) (hvalue : value ≠ .null)
    (elements : List Element) :
    .field name (.ofText value.plain) ∈ overrideAll elements entries := by
  refine overrideAll_induction
    (p := fun mentioned elements ↦ lastMention? mentioned name = some value →
      .field name (.ofText value.plain) ∈ elements)
    (fun h ↦ nomatch h) (fun _ _ _ ih hlast ↦ List.mem_append_left _ (ih hlast))
    (fun mentioned elements other value' ih hlast ↦ ?_) entries hlast
  by_cases heq : other = name
  · subst heq
    obtain rfl : value' = value := by
      rw [Verbatim.lastMention?_concat_self] at hlast
      exact Option.some.inj hlast
    exact mem_overrideField_self elements other hvalue
  · rw [Verbatim.lastMention?_concat_of_ne _ _ _ heq] at hlast
    refine mem_overrideField_of_ne (fun hname ↦ heq ?_) value' (ih hlast)
    exact (Option.some.inj (show some name = some other from hname)).symm

end Element

/-- Where a package gives a text to a field, at a depth. -/
inductive Package.GivesText (package : Package) : Nat → String → String → Prop
  /-- In the header, if no override at the top mentions the field. Name, version, version of the format
  and license files are laid out by themselves. -/
  | header (key : String) {field : Field} {text : String} (horder : key ∈ Field.headerOrder)
    (hfield : Registry.find? Field.all key = some field)
    (hlaid : key ∉ ["name", "version", "cabal-version", "license-file"])
    (hvalue : package.fields.get? key = some (.text text))
    (hkept : field.label ∉ (package.verbatim.flatMap mentions).map (·.1)) :
    package.GivesText 0 field.label text
  /-- As the description of a flag. -/
  | flag {flag : Flag} {text : String} (hflag : flag ∈ package.flags)
    (htext : flag.description = some text) : package.GivesText 1 "description" text
  /-- As the last override of a field at the top. -/
  | override {name : String} {value : Scalar}
    (hlast : lastMention? (package.verbatim.flatMap mentions) name = some value)
    (hvalue : value ≠ .null) : package.GivesText 0 name value.plain
  /-- As the last override of a field in a section. -/
  | sectionOverride {part : Section} {name : String} {value : Scalar} (hpart : part ∈ package.sections)
    (hlast : lastMention? (part.verbatim.flatMap mentions) name = some value)
    (hvalue : value ≠ .null) : package.GivesText 1 name value.plain

/-- A text is laid out where it is given. -/
theorem Package.GivesText.mem_pieces {package : Package} {depth : Nat} {name text : String}
    (h : package.GivesText depth name text) :
    (depth, .field name (.ofText text)) ∈ Element.piecesAll 0 package.elements := by
  have hstanza : ∀ stanza ∈ package.stanzas, stanza ∈ package.elements := by
    intro stanza hmem
    rw [elements_eq]
    refine Element.mem_overrideAll_of_unmentioned (List.mem_append_right _ hmem) fun name hname ↦ ?_
    rw [Element.name?_of_isStanza (isStanza_of_mem_stanzas hmem)] at hname
    cases hname
  cases h with
  | @header key field text horder hfield hlaid hvalue hkept =>
    have helement : package.headerElement? key = some (.field field.label (.ofText text)) := by
      simp only [List.mem_cons, List.not_mem_nil, or_false, not_or] at hlaid
      obtain ⟨hname, hversion, hformat, hlicense⟩ := hlaid
      rw [headerElement?]
      · rw [hvalue, hfield]
        rfl
      all_goals assumption
    have hmem : .field field.label (.ofText text) ∈ package.headerElements ++ package.stanzas :=
      List.mem_append_left _ (List.mem_filterMap.2 ⟨key, horder, helement⟩)
    refine Element.mem_piecesAll.2 ⟨.field field.label (.ofText text), ?_, List.mem_singleton_self _⟩
    rw [elements_eq]
    refine Element.mem_overrideAll_of_unmentioned hmem fun name hname ↦ ?_
    rw [← Option.some.inj hname]
    exact hkept
  | @flag flag text hflag htext =>
    refine Element.mem_piecesAll.2 ⟨flag.element, hstanza _ ?_, ?_⟩
    · exact List.mem_append_left _ (List.mem_append_right _ (List.mem_map_of_mem hflag))
    · rw [Flag.element, htext]
      exact List.mem_cons_of_mem _ List.mem_cons_self
  | @override name value hlast hvalue =>
    refine Element.mem_piecesAll.2 ⟨.field name (.ofText value.plain), ?_, List.mem_singleton_self _⟩
    rw [elements_eq]
    exact Element.mem_overrideAll_of_lastMention hlast hvalue _
  | @sectionOverride part name value hpart hlast hvalue =>
    refine Element.mem_piecesAll.2 ⟨part.element, hstanza _ ?_, ?_⟩
    · exact List.mem_append_right _ (List.mem_map_of_mem hpart)
    · refine List.mem_cons_of_mem _
        (Element.mem_piecesAll.2 ⟨.field name (.ofText value.plain), ?_, List.mem_singleton_self _⟩)
      exact Element.mem_overrideAll_of_lastMention hlast hvalue _

/-! ### The lines of a field -/

/-- What is written for a piece stands together. -/
theorem LayoutHints.isInfix_topLines (hints : LayoutHints) {piece : Nat × Piece}
    {elements : List Element} (h : piece ∈ Element.piecesAll 0 elements) (before : Option Bool) :
    hints.pieceLines piece <:+: hints.topLines before elements := by
  induction elements generalizing before with
  | nil => cases h
  | cons element rest ih =>
    rw [topLines_cons, linesOf_eq_pieces]
    rcases List.mem_append.1 h with h | h
    · have helement : hints.pieceLines piece <:+: (element.pieces 0).flatMap hints.pieceLines := by
        rw [List.flatMap_def]
        exact List.infix_of_mem_flatten (List.mem_map_of_mem h)
      exact helement.trans ⟨_, _, rfl⟩
    · exact (ih h _).trans (List.suffix_append _ _).isInfix

/-- The lines of a piece are written in turn among those of the package. -/
theorem Package.isInfix_lines {package : Package} (hints : LayoutHints) {piece : Nat × Piece}
    (h : piece ∈ Element.piecesAll 0 package.elements) :
    hints.pieceLines piece <:+: package.lines hints := by
  rw [lines_eq]
  exact hints.isInfix_topLines ((hints.piecesAll_arrangeTop_perm 0 package.elements).mem_iff.2 h) none

namespace LayoutHints

variable (hints : LayoutHints) (depth : Nat) (name : String) {text : String}

/-- A text of one line is written behind the name. -/
theorem fieldLinesOf_ofText_singleton {line : String} (h : textLines text = [line]) :
    hints.fieldLinesOf (spaces depth) name (.ofText text) =
      [spaces depth ++ if line = "" then name ++ ":" else hints.label name ++ line] := by
  have hinline : Content.ofText text = .inline line := by rw [Content.ofText, h]
  rw [hinline]
  by_cases hempty : line = ""
  · subst hempty
    rw [fieldLinesOf, if_pos rfl, String.append_assoc]
  · rw [fieldLinesOf, if_neg hempty, String.append_assoc]
    exact hempty

/-- A text of several lines is written as a block of rows below the name of its field. -/
theorem exists_fieldLinesOf_ofText {first second : String} {rest : List String}
    (h : textLines text = first :: second :: rest) :
    ∃ rows, hints.fieldLinesOf (spaces depth) name (.ofText text) =
        (spaces depth ++ name ++ ":") :: rows ∧
      List.Forall₂ (IsRowOf (spaces depth ++ spaces itemIndent)) (textLines text) rows := by
  have hblock : Content.ofText text = .block (textLines text) := by rw [Content.ofText, h]
  refine ⟨_, by rw [hblock, fieldLinesOf], ?_⟩
  rw [List.forall₂_map_right_iff, List.forall₂_same]
  intro line hline
  refine isRowOf_text ?_ ?_ (inOneLine_of_mem_textLines hline)
  · rw [Text.isWhite_append, Text.isWhite_spaces, Text.isWhite_spaces]
    rfl
  · exact Text.inOneLine_append.2 ⟨Text.inOneLine_spaces _, Text.inOneLine_spaces _⟩

end LayoutHints

namespace Package

/-- A text that a package gives to a field is written there, in lines that stand together: behind the
name if it has one line, and below it, row by row, if it has several. -/
theorem text_isOneField {package : Package} {depth : Nat} {name text : String}
    (h : package.GivesText depth name text) (hints : LayoutHints) :
    let indent := spaces (hints.indentation * depth)
    let written := hints.fieldLinesOf indent name (.ofText text)
    written <:+: package.lines hints ∧ AreLinesOf (textLines text) text ∧
      ((∃ line, textLines text = [line] ∧
          written = [indent ++ if line = "" then name ++ ":" else hints.label name ++ line]) ∨
        2 ≤ (textLines text).length ∧ ∃ rows, written = (indent ++ name ++ ":") :: rows ∧
          List.Forall₂ (IsRowOf (indent ++ spaces itemIndent)) (textLines text) rows) := by
  intro indent written
  refine ⟨?_, areLinesOf_textLines text, ?_⟩
  · simp only [written, LayoutHints.fieldLinesOf_eq]
    exact isInfix_lines hints h.mem_pieces
  · match hlines : textLines text with
    | [] => exact absurd hlines (textLines_ne_nil text)
    | [line] => exact .inl ⟨line, rfl, hints.fieldLinesOf_ofText_singleton _ name hlines⟩
    | first :: second :: rest =>
      rw [← hlines]
      exact .inr ⟨by simp [hlines], hints.exists_fieldLinesOf_ofText _ name hlines⟩

/-- A manifest with a description that has a line of a single space. -/
def spacedDescription : Value :=
  .object [("name", .text "foo"), ("description", .text "a\n \nb")]

/-- Its fields. -/
def spacedFields : FieldSet := ⟨[("name", .text "foo"), ("description", .text "a\n \nb")]⟩

/-- Its package. -/
def spacedPackage : Package where
  name := "foo"
  version := "0.0.0"
  fields := ⟨[("description", .text "a\n \nb"), ("build-type", .text "Simple")]⟩
  sections := []
  flags := []
  sourceRepository := none
  verbatim := []

/-- The manifest with a line of blanks is read without a complaint. -/
theorem run_package_spacedDescription :
    (sampleContext.package 0 spacedDescription).run ⟨[], ()⟩ = (.ok spacedFields, ⟨[], ()⟩) := by
  simp only [spacedDescription, Context.package, Context.scope, Context.fields, Context.fieldValue]
  rfl

/-- Its package gives the text as it stands. -/
theorem givesText_spacedPackage : spacedPackage.GivesText 0 "description" "a\n \nb" :=
  .header "description" (by decide) rfl (by decide) rfl (by decide)

theorem text_isOneField_spaced :
    spacedPackage.GivesText 0 "description" "a\n \nb" ∧
      ∃ rows, LayoutHints.standard.fieldLinesOf "" "description" (.ofText "a\n \nb") =
          "description:" :: rows ∧ List.Forall₂ (IsRowOf "    ") ["a", " ", "b"] rows :=
  ⟨givesText_spacedPackage,
    ((text_isOneField givesText_spacedPackage .standard).2.2.resolve_left fun ⟨_, hline, _⟩ ↦ by
      cases hline).2⟩

/-- A line of a single space in a description is written as it is, as a row that is not to be seen and
ends the field. -/
theorem exists_white_row :
    (sampleContext.package 0 spacedDescription).run ⟨[], ()⟩ = (.ok spacedFields, ⟨[], ()⟩) ∧
      ofFields "package.yaml" false spacedFields = ([], .ok spacedPackage) ∧
      (∀ lister memory, (spacedPackage.infer lister).run memory = .ok (spacedPackage, memory)) ∧
      spacedPackage.GivesText 0 "description" "a\n \nb" ∧
      LayoutHints.standard.fieldLinesOf "" "description" (.ofText "a\n \nb") =
        ["description:", "    a", "     ", "    b"] ∧
      ["description:", "    a", "     ", "    b"] <:+: spacedPackage.lines .standard ∧
      isWhite "     " := by
  refine ⟨run_package_spacedDescription, rfl, fun _ _ ↦ rfl, givesText_spacedPackage, by decide, ?_,
    by decide⟩
  exact isInfix_lines .standard givesText_spacedPackage.mem_pieces

end Package

end CabalManifest
