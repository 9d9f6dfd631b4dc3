import CabalManifest.Proofs.MeasuredLines

/-!
# A column of values that is kept

A package whose texts are in one line each is written in readable pieces
(`Package.IsSingleLined.isReadable`). So the column of values that it was written with is found
again in its description exactly if all raw lines fit it (`Package.alignment_render_eq_some_iff`),
once a field is padded up to it.

Three things can make the column get lost: a raw line with a single space in front of its value,
options that start with an empty one, so that they are written one further column to the right, and
an override whose name is taken for another field.
-/

namespace CabalManifest

open LayoutHints
open Text (Unbroken IsFlush)

/-! ### Texts in single lines -/

/-- A text in one line that starts with no blank. -/
def Text.IsSingleLine (text : String) : Prop := IsFlush text.toList ∧ Unbroken text.toList

open Text (IsSingleLine)

instance (text : String) : Decidable (IsSingleLine text) :=
  inferInstanceAs (Decidable (_ ∧ _))

/-- A value whose texts are in single lines. Of a dependency it matters only that it is in one line: one
without a name may be written with a blank in front. -/
def FieldValue.IsSingleLined : FieldValue → Prop
  | .text s => IsSingleLine s
  | .texts items => ∀ item ∈ items, IsSingleLine item
  | .dependencies items => ∀ item ∈ items, Unbroken item.text.toList
  | _ => True

/-- A scope whose texts are in single lines. -/
def FieldSet.IsSingleLined (fields : FieldSet) : Prop :=
  ∀ key value, fields.get? key = some value → value.IsSingleLined

/-- A conditional whose texts are in single lines, at any depth. -/
inductive Conditional.IsSingleLined : Conditional → Prop
  | intro {conditional : Conditional} :
    IsSingleLine conditional.condition →
      (∀ branch ∈ conditional.branches, branch.IsSingleLined) →
        (∀ branch ∈ conditional.branches, ∀ inner ∈ branch.conditionals, inner.IsSingleLined) →
          conditional.IsSingleLined

/-- An override with names and values in single lines, or raw lines that start fields. -/
def Verbatim.IsSingleLined : Verbatim → Prop
  | .raw text => ∀ line ∈ textLines text, Unbroken line.toList ∧ isFieldLine line.toList = true
  | .fields entries => ∀ entry ∈ entries, IsSingleLine entry.1 ∧ IsSingleLine entry.2.plain

/-- A section whose texts are in single lines. -/
structure Section.IsSingleLined (part : Section) : Prop where
  name : ∀ name ∈ part.name, IsSingleLine name
  fields : part.fields.IsSingleLined
  conditionals : ∀ conditional ∈ part.conditionals, conditional.IsSingleLined
  verbatim : ∀ entry ∈ part.verbatim, entry.IsSingleLined

/-- A package whose texts are in single lines, and whose raw lines start fields. -/
structure Package.IsSingleLined (package : Package) : Prop where
  name : IsSingleLine package.name
  version : IsSingleLine package.version
  fields : package.fields.IsSingleLined
  sections : ∀ part ∈ package.sections, part.IsSingleLined
  flags : ∀ flag ∈ package.flags,
    IsSingleLine flag.name ∧ ∀ text ∈ flag.description, IsSingleLine text
  sourceRepository : ∀ repository ∈ package.sourceRepository, IsSingleLine repository.location ∧
    IsSingleLine repository.kind ∧ ∀ subdir ∈ repository.subdir, IsSingleLine subdir
  verbatim : ∀ entry ∈ package.verbatim, entry.IsSingleLined

/-! ### Pieces in single lines -/

/-- A piece whose texts are in one line each. Only an override can have a name that is none, and it
has a single line. -/
inductive Piece.IsSingleLined : Piece → Prop
  | header {text : String} (hunbroken : Unbroken text.toList)
    (hletter : text.toList.head?.any Char.isAlpha) (hfield : isFieldLine text.toList = false) :
    IsSingleLined (.header text)
  | field {name : String} {content : Content} (hname : isFieldName name.toList)
    (hcontent : content.IsUnbroken) : IsSingleLined (.field name content)
  | override {name text : String} (hname : IsSingleLine name) (htext : Unbroken text.toList) :
    IsSingleLined (.field name (.inline text))
  | raw {lines : List String}
    (h : ∀ line ∈ lines, Unbroken line.toList ∧ isFieldLine line.toList = true) :
    IsSingleLined (.raw lines)

/-- The lines of such a piece can be told from each other, if what is written in the line of a field
starts with no blank, and its name with no other name. -/
theorem Piece.IsSingleLined.isReadable {piece : Piece} (h : piece.IsSingleLined)
    (hfield : ∀ field ∈ piece.field?,
      IsFlush field.2.inlineText.toList ∧ isFieldLine field.1.toList = false) :
    piece.IsReadable := by
  cases h with
  | header hunbroken hletter hheader => exact .header hunbroken hletter hheader
  | field hname hcontent => exact .field hname hcontent (hfield _ rfl).1
  | @override name text hoverride htext =>
    cases hname : isFieldName name.toList with
    | true => exact .field hname (List.forall_mem_singleton.2 htext) (hfield _ rfl).1
    | false => exact .unnamed hname hoverride.2 hoverride.1 (hfield _ rfl).2 htext
  | raw h => exact .raw h

/-- An element all of whose pieces have their texts in one line each. -/
def Element.IsSingleLined (element : Element) : Prop :=
  ∀ depth, ∀ piece ∈ element.pieces depth, piece.2.IsSingleLined

namespace Element

theorem isSingleLined_field {name : String} {content : Content}
    (h : (Piece.field name content).IsSingleLined) : (field name content).IsSingleLined := by
  intro depth piece hpiece
  rwa [List.mem_singleton.1 hpiece]

theorem isSingleLined_stanza (sortable : Bool) (header : String) (elements : List Element)
    (hheader : (Piece.header header).IsSingleLined)
    (h : ∀ element ∈ elements, element.IsSingleLined) :
    (stanza header elements sortable).IsSingleLined := by
  intro depth piece hpiece
  rcases List.mem_cons.1 hpiece with rfl | hpiece
  · exact hheader
  · obtain ⟨element, helement, hpiece⟩ := mem_piecesAll.1 hpiece
    exact h element helement (depth + 1) piece hpiece

/-- A named field with a text in a single line. -/
theorem isSingleLined_inline {name text : String} (hname : isFieldName name.toList)
    (htext : Unbroken text.toList) : (field name (.inline text)).IsSingleLined :=
  isSingleLined_field (.field hname (List.forall_mem_singleton.2 htext))

end Element

/-- A word with a text behind it is a header in a single line. -/
theorem Piece.isSingleLined_header {word text : String} (hword : isFieldName word.toList)
    (htext : Unbroken text.toList) : (Piece.header (word ++ " " ++ text)).IsSingleLined := by
  have hlist : (word ++ " " ++ text).toList = word.toList ++ ' ' :: text.toList := by
    simp
  refine .header ?_ ?_ ?_
  · rw [hlist, Text.unbroken_append, Text.unbroken_cons]
    exact ⟨(plain_of_isFieldName hword).unbroken, by decide, htext⟩
  · rw [hlist]
    exact head?_any_isAlpha_of_isFieldName hword _
  · rw [hlist]
    exact isFieldLine_append_space hword _

/-- A text in one line is written in a line. -/
theorem ofText_of_unbroken {text : String} (h : Unbroken text.toList) :
    Content.ofText text = .inline text := by
  have hnot : '\n' ∉ text.toList := fun hmem ↦ absurd (h _ hmem) (by decide)
  rw [Content.ofText, textLines, Text.dropRight_of_not_mem hnot, List.splitOn_eq_singleton hnot,
    List.map_singleton, String.ofList_toList]

theorem isUnbroken_ofText {text : String} (h : Unbroken text.toList) :
    (Content.ofText text).IsUnbroken := by
  rw [ofText_of_unbroken h]
  exact List.forall_mem_singleton.2 h

theorem unbroken_intercalate {separator : String} (hseparator : Unbroken separator.toList)
    {texts : List String} (h : ∀ text ∈ texts, Unbroken text.toList) :
    Unbroken (separator.intercalate texts).toList := by
  intro c hc
  rw [String.toList_intercalate] at hc
  rcases Text.mem_intercalate hc with hc | ⟨piece, hpiece, hc⟩
  · exact hseparator c hc
  · obtain ⟨text, htext, rfl⟩ := List.mem_map.1 hpiece
    exact h text htext c hc

/-! ### Fields -/

/-- A value whose texts are in one line each. -/
def FieldValue.IsUnbroken : FieldValue → Prop
  | .text s => Unbroken s.toList
  | .texts items => ∀ item ∈ items, Unbroken item.toList
  | .dependencies items => ∀ item ∈ items, Unbroken item.text.toList
  | _ => True

theorem FieldValue.IsSingleLined.isUnbroken {value : FieldValue} (h : value.IsSingleLined) :
    value.IsUnbroken := by
  cases value with
  | text text => exact h.2
  | texts items => exact fun item hitem ↦ (h item hitem).2
  | dependencies items => exact h
  | _ => trivial

/-- With the main file set apart, the texts of a scope are still in one line each. -/
theorem FieldSet.IsSingleLined.withMain {fields : FieldSet} (h : fields.IsSingleLined)
    {key : String} {value : FieldValue} (hget : fields.withMain.get? key = some value) :
    value.IsUnbroken := by
  obtain hgiven | ⟨main, hmain, hset⟩ := FieldSet.get?_withMain_eq_some hget
  · exact (h key value hgiven).isUnbroken
  · have hline : Unbroken main.toList := (h _ _ hmain).2
    rcases hset with ⟨-, rfl⟩ | ⟨-, rfl⟩
    · have hending : Unbroken "/.hs".toList := by decide
      exact fun c hc ↦ (mem_of_mem_splitMain hc).elim (hline c) (hending c)
    · have hoptions : ∀ item ∈ fields.texts "ghc-options", Unbroken item.toList :=
        FieldSet.forall_mem_texts fun items hitems item hitem ↦ (h _ _ hitems item hitem).2
      refine List.forall_mem_append.2 ⟨hoptions, List.forall_mem_singleton.2 ?_⟩
      rw [String.toList_append, Text.unbroken_append]
      exact ⟨by decide, hline⟩

/-- A field whose value has its texts in one line each. -/
theorem Field.isSingleLined_of_element? {field : Field} (hlabel : isFieldName field.label.toList)
    {value : FieldValue} (h : value.IsUnbroken) {element : Element}
    (helement : field.element? value = some element) : element.IsSingleLined := by
  have hitems (items : List String) (h : ∀ item ∈ items, Unbroken item.toList)
      (helement : field.itemsElement items = some element) : element.IsSingleLined := by
    rw [Field.itemsElement] at helement
    split at helement
    · cases helement
    · cases helement
      refine Element.isSingleLined_field (.field hlabel ?_)
      cases field.style with
      | words | joined =>
        exact List.forall_mem_singleton.2 (unbroken_intercalate (by decide) h)
      | commas | lines | scalar => exact h
  cases value with
  | texts items => exact hitems items h helement
  | dependencies items => exact hitems _ (List.forall_mem_map.2 h) helement
  | bool b =>
    cases helement
    cases b <;> exact Element.isSingleLined_inline hlabel (by decide)
  | text text =>
    cases helement
    exact Element.isSingleLined_field (.field hlabel (isUnbroken_ofText h))
  | _ => cases helement

theorem FieldSet.IsSingleLined.passes {fields : FieldSet} (h : fields.IsSingleLined)
    (kind : SectionKind) : fields.withMain.Passes Element.IsSingleLined kind :=
  fun _ _ _ _ hvalue hfield ↦
    Field.isSingleLined_of_element? (isFieldName_label_of_field? hfield) (h.withMain hvalue)

/-! ### Packages -/

/-- What stands under conditionals in single lines is in single lines. -/
theorem Conditional.isSingleLined_of_mem_elements {conditionals : List Conditional}
    (h : ∀ conditional ∈ conditionals, conditional.IsSingleLined) (kind : SectionKind) :
    ∀ element ∈ Conditional.elements kind conditionals, element.IsSingleLined := by
  refine Conditional.forall_elements (Element.isSingleLined_stanza false)
    (.header (by decide) (by decide) (by decide)) (fun conditional hconditional ↦ ?_) h
  obtain ⟨hcondition, hbranches, hinner⟩ := hconditional
  exact ⟨Piece.isSingleLined_header (show isFieldName "if".toList by decide) hcondition.2,
    fun branch hbranch ↦ ⟨(hbranches branch hbranch).passes kind, hinner branch hbranch⟩⟩

/-- An override in single lines adds elements in single lines. -/
theorem Verbatim.IsSingleLined.passes {entry : Verbatim} (h : entry.IsSingleLined) :
    entry.Passes Element.IsSingleLined := by
  cases entry with
  | raw text =>
    intro depth piece hpiece
    rw [List.mem_singleton.1 hpiece]
    exact .raw h
  | fields values =>
    intro value hvalue
    obtain ⟨hname, htext⟩ := h value hvalue
    rw [ofText_of_unbroken htext.2]
    exact Element.isSingleLined_field (.override hname htext.2)

theorem Section.isSingleLined_header {part : Section} (h : part.IsSingleLined) :
    (Piece.header part.header).IsSingleLined := by
  rw [Section.header]
  split
  · cases part.kind <;> exact .header (by decide) (by decide) (by decide)
  · next name hname =>
    have hword : isFieldName part.kind.header.toList := by cases part.kind <;> decide
    exact Piece.isSingleLined_header hword (h.name name hname).2

theorem Section.IsSingleLined.passes {part : Section} (h : part.IsSingleLined) :
    part.Passes (Piece.IsSingleLined <| .header ·) Element.IsSingleLined where
  header := isSingleLined_header h
  type := Element.isSingleLined_inline (by decide) (by decide)
  language := Element.isSingleLined_inline (by decide) (by decide)
  fields := h.fields.passes part.kind
  conditionals := Conditional.isSingleLined_of_mem_elements h.conditionals part.kind
  verbatim entry hentry := (h.verbatim entry hentry).passes

theorem Flag.passes_isSingleLined {flag : Flag} (hname : IsSingleLine flag.name)
    (hdescription : ∀ text ∈ flag.description, IsSingleLine text) :
    flag.Passes (Piece.IsSingleLined <| .header ·) Element.IsSingleLined := by
  have hbool : ∀ b, Unbroken (boolText b).toList := by decide
  exact {
    header := Piece.isSingleLined_header (show isFieldName "flag".toList by decide) hname.2
    description := fun text htext ↦ Element.isSingleLined_field
      (.field (by decide) (isUnbroken_ofText (hdescription text htext).2))
    manual := Element.isSingleLined_inline (by decide) (hbool _)
    default := Element.isSingleLined_inline (by decide) (hbool _) }

namespace Package

theorem IsSingleLined.passesHeader {package : Package} (h : package.IsSingleLined) :
    package.PassesHeader Element.IsSingleLined := by
  have hversion := (isLine_formatVersion package.formatVersion).2.unbroken
  have hfiles : ∀ file ∈ package.fields.texts "license-file", Unbroken file.toList :=
    FieldSet.forall_mem_texts fun items hget item hitem ↦ (h.fields _ _ hget item hitem).2
  refine ⟨Element.isSingleLined_inline (by decide) h.name.2,
    Element.isSingleLined_inline (by decide) h.version.2,
    Element.isSingleLined_inline (by decide) hversion,
    fun file hfile ↦ Element.isSingleLined_inline (by decide) (hfiles file hfile),
    Element.isSingleLined_field (.field (by decide) hfiles),
    fun key value field element hget hfield ↦ ?_⟩
  have hlabel := isFieldName_label_of_mem_registries field
    (List.mem_append_left _ (List.mem_of_find?_eq_some hfield))
  exact Field.isSingleLined_of_element? hlabel (h.fields _ _ hget).isUnbroken

/-- The elements of a package whose texts are in single lines are in single lines. -/
theorem IsSingleLined.elements {package : Package} (h : package.IsSingleLined) :
    ∀ element ∈ package.elements, element.IsSingleLined := by
  have hpasses : package.Passes (Piece.IsSingleLined <| .header ·) Element.IsSingleLined := {
    header := h.passesHeader
    sourceRepository := fun repository hrepository ↦ by
      obtain ⟨hlocation, hkind, hsubdir⟩ := h.sourceRepository repository hrepository
      exact ⟨.header (by decide) (by decide) (by decide),
        Element.isSingleLined_inline (by decide) hkind.2,
        Element.isSingleLined_inline (by decide) hlocation.2,
        fun subdir hget ↦ Element.isSingleLined_inline (by decide) (hsubdir subdir hget).2⟩
    flags := fun flag hflag ↦
      Flag.passes_isSingleLined (h.flags flag hflag).1 (h.flags flag hflag).2
    sections := fun part hpart ↦ (h.sections part hpart).passes
    verbatim := fun entry hentry ↦ (h.verbatim entry hentry).passes }
  exact hpasses.elements (Element.isSingleLined_stanza true)

theorem render_eq_renderTop (package : Package) (hints : LayoutHints) :
    package.render hints = hints.renderTop package.elements :=
  rfl

/-- The pieces that a package is written in. -/
def pieces (package : Package) : List (Nat × Piece) := Element.piecesAll 0 package.elements

/-- Whether some field of a package is padded up to the column of values, by two spaces at least. -/
def IsPadded (package : Package) (hints : LayoutHints) : Prop :=
  ∃ field ∈ fieldsOf package.pieces, isFieldName field.1.toList = true ∧ field.2.inlineText ≠ "" ∧
    ∃ gap, 2 ≤ gap ∧ hints.label field.1 = field.1 ++ ":" ++ spaces gap

/-- Whether what is written in the line of each field starts with no blank, and its name with no
name of another field. -/
def IsUnambiguous (package : Package) : Prop :=
  ∀ field ∈ fieldsOf package.pieces,
    IsFlush field.2.inlineText.toList ∧ isFieldLine field.1.toList = false

theorem IsSingleLined.isReadable {package : Package} (h : package.IsSingleLined)
    (hunambiguous : package.IsUnambiguous) : ∀ piece ∈ package.pieces, piece.2.IsReadable := by
  intro piece hpiece
  obtain ⟨element, helement, hmem⟩ := Element.mem_piecesAll.1 hpiece
  refine (h.elements element helement 0 piece hmem).isReadable fun field hfield ↦ ?_
  exact hunambiguous field (List.mem_filterMap.2 ⟨piece, hpiece, hfield⟩)

/-- Whether raw lines agree with a column of values, as they are read where they stand. -/
def RawLinesFit (package : Package) (hints : LayoutHints) (column : Nat) : Prop :=
  ∀ depth lines, (depth, .raw lines) ∈ package.pieces →
    ∀ measure ∈ readMeasures (hints.seen (depth, .raw lines)), measure.Fits column

/-- The column of values that a package was written with is found again in its description exactly
if all raw lines fit it. -/
theorem alignment_render_eq_some_iff {package : Package} {hints : LayoutHints} {column : Nat}
    (hpackage : package.IsSingleLined) (hunambiguous : package.IsUnambiguous)
    (halignment : hints.alignment = some column) (hpadded : package.IsPadded hints) :
    (ofText (package.render hints)).alignment = some column ↔
      package.RawLinesFit hints column := by
  have hpieces := hints.piecesAll_arrangeTop_perm 0 package.elements
  have hreadable : ∀ piece ∈ Element.piecesAll 0 (hints.arrangeTop package.elements),
      piece.2.IsReadable := fun piece hpiece ↦
    hpackage.isReadable hunambiguous piece (hpieces.mem_iff.1 hpiece)
  have hlines : relevantLines (package.render hints).toList =
      hints.seenAll 0 (hints.arrangeTop package.elements) := by
    rw [render_eq_renderTop]
    exact hints.relevantLines_topLines fun piece hpiece _ hline ↦
      hints.unbroken_of_isReadable (hreadable piece hpiece) hline
  obtain ⟨⟨name, content⟩, hmem, hname, hvalue, gap, hgap, hlabel⟩ := hpadded
  have hgapOf : hints.gapOf name = gap := by
    have hlength := congrArg (fun label ↦ label.toList.length)
      ((hints.label_eq name).symm.trans hlabel)
    simpa using hlength
  have hwritten : (name, content) ∈
      fieldsOf (Element.piecesAll 0 (hints.arrangeTop package.elements)) :=
    (hpieces.filterMap _).mem_iff.2 hmem
  rw [alignment_ofText, ← relevantLines_eq, hlines,
    hints.alignmentOf_seenAll_eq_some_iff hreadable halignment hwritten hname hvalue (by omega)]
  exact forall₂_congr fun depth lines ↦ imp_congr_left hpieces.mem_iff

/-! ### Columns that are kept and lost -/

/-- Hints that align values to a column. -/
def alignedHints : LayoutHints := { LayoutHints.standard with alignment := some 16 }

/-- A package with a library that has options, and with overrides. -/
def optionsPackage (options : List String) (verbatim : List Verbatim) : Package where
  name := "foo"
  version := "0.0.0"
  fields := ⟨[]⟩
  sections := [⟨.library, none, ⟨[("ghc-options", .texts options)]⟩, [], []⟩]
  flags := []
  sourceRepository := none
  verbatim := verbatim

/-- The elements of such a package in front of its overrides. -/
def optionsElements (options : String) : List Element :=
  [.field "name" (.inline "foo"), .field "version" (.inline "0.0.0"),
    .field "cabal-version" (.inline ">= 1.10"),
    .stanza "library" [.field "ghc-options" (.inline options),
      .field "default-language" (.inline "Haskell2010")] true]

theorem headerElements_optionsPackage (options : List String) (verbatim : List Verbatim) :
    (optionsPackage options verbatim).headerElements =
      [.field "name" (.inline "foo"), .field "version" (.inline "0.0.0"),
        .field "cabal-version" (.inline ">= 1.10")] := by
  have hversion : (optionsPackage options verbatim).formatVersion = ⟨1, 10⟩ := by
    simp only [formatVersion, optionsPackage, List.flatMap_cons, List.flatMap_nil,
      Section.formatVersions, Conditional.scopesIn]
    rfl
  -- Only the format version depends on the options.
  have hkey : ∀ key, (optionsPackage options verbatim).headerElement? key =
      ({ optionsPackage [] [] with sections := [] } : Package).headerElement? key := by
    intro key
    rw [headerElement?.eq_def, headerElement?.eq_def, hversion]
    rfl
  simp only [headerElements, hkey]
  rfl

theorem isSingleLined_optionsPackage {options : List String} {verbatim : List Verbatim}
    (hoptions : ∀ option ∈ options, IsSingleLine option)
    (hverbatim : ∀ entry ∈ verbatim, entry.IsSingleLined) :
    (optionsPackage options verbatim).IsSingleLined where
  name := show IsSingleLine "foo" by decide
  version := show IsSingleLine "0.0.0" by decide
  fields := by
    intro key value hget
    cases hget
  sections := by
    refine List.forall_mem_singleton.2 ⟨?_, ?_, List.forall_mem_nil _, List.forall_mem_nil _⟩
    · intro name hname
      cases hname
    · intro key value hget
      obtain ⟨-, rfl⟩ := Prod.mk.inj (List.mem_singleton.1 (Entries.mem_of_get?_eq_some hget))
      exact hoptions
  flags := List.forall_mem_nil _
  sourceRepository := by
    intro repository hrepository
    cases hrepository
  verbatim := hverbatim

section

variable {first : String} {rest : List String} {verbatim : List Verbatim} {elements : List Element}

theorem elements_optionsPackage
    (h : Element.overrideAll (optionsElements (" ".intercalate (first :: rest))) verbatim =
      elements) :
    (optionsPackage (first :: rest) verbatim).elements = elements := by
  have hlibrary : Section.element
      ⟨.library, none, ⟨[("ghc-options", .texts (first :: rest))]⟩, [], []⟩ =
        .stanza "library" [.field "ghc-options" (.inline (" ".intercalate (first :: rest))),
          .field "default-language" (.inline "Haskell2010")] true := by
    rw [Section.element, Conditional.elements]
    rfl
  rw [elements_eq, headerElements_optionsPackage, stanzas, ← h]
  simp only [optionsPackage, List.map_cons, hlibrary]
  rfl

/-- The name of such a package is padded. -/
theorem isPadded_optionsPackage
    (h : Element.overrideAll (optionsElements (" ".intercalate (first :: rest))) verbatim =
      elements)
    (hname : .field "name" (.inline "foo") ∈ elements) :
    (optionsPackage (first :: rest) verbatim).IsPadded alignedHints := by
  have hpiece : (0, .field "name" (.inline "foo")) ∈
      (optionsPackage (first :: rest) verbatim).pieces := by
    rw [pieces, elements_optionsPackage h]
    exact Element.mem_piecesAll.2 ⟨_, hname, List.mem_singleton_self _⟩
  refine ⟨("name", .inline "foo"), mem_fieldsOf.2 ⟨0, hpiece⟩, by decide, by decide, 11, ?_, rfl⟩
  decide

theorem alignment_optionsPackage {lines : List String}
    (h : Element.overrideAll (optionsElements (" ".intercalate (first :: rest))) verbatim =
      elements)
    (hlines : alignedHints.topLines none elements = lines)
    (hunbroken : ∀ line ∈ lines, Unbroken line.toList) :
    (ofText ((optionsPackage (first :: rest) verbatim).render alignedHints)).alignment =
      alignmentOf (visibleLines lines) := by
  rw [alignment_ofText, ← relevantLines_eq, render_eq_renderTop, renderTop,
    elements_optionsPackage h, arrangeTop_of_unordered rfl rfl, hlines,
    relevantLines_intercalate hunbroken]

end

/-- A raw line that fits the column keeps it. -/
theorem alignment_render_raw :
    (ofText ((optionsPackage ["-Wall"] [.raw "x-note:         y"]).render alignedHints)).alignment =
      some 16 := by
  have hpieces : (optionsPackage ["-Wall"] [.raw "x-note:         y"]).pieces =
      Element.piecesAll 0 (optionsElements "-Wall" ++ [.raw ["x-note:         y"]]) :=
    congrArg (Element.piecesAll 0) (elements_optionsPackage rfl)
  refine (alignment_render_eq_some_iff (isSingleLined_optionsPackage (by decide) ?_) ?_ rfl
    (isPadded_optionsPackage rfl List.mem_cons_self)).2 ?_
  · exact List.forall_mem_singleton.2 (show ∀ line ∈ textLines "x-note:         y", _ by decide)
  · rw [IsUnambiguous, hpieces]
    decide
  · intro depth lines hpiece
    rw [hpieces] at hpiece
    have hraw : (depth, Piece.raw lines) = (0, .raw ["x-note:         y"]) := by
      simpa [optionsElements, Element.pieces, Element.piecesAll] using hpiece
    cases hraw
    decide

/-- Beside a padded field the column gets lost by a raw line with a single space in front of its
value, by options that start with an empty one, and by an override whose name is taken for that of
another field. -/
theorem exists_alignment_lost :
    alignedHints.alignment = some 16 ∧
      (let package := optionsPackage ["-Wall"] [.raw "x: y"]
      package.IsSingleLined ∧ package.IsPadded alignedHints ∧
        (ofText (package.render alignedHints)).alignment = none) ∧
      (let package := optionsPackage ["", "-Wall"] []
      package.IsSingleLined ∧ package.IsPadded alignedHints ∧
        (ofText (package.render alignedHints)).alignment = none) ∧
      (let package := optionsPackage ["-Wall"] [.fields [("a: b", .text "c")]]
      package.IsSingleLined ∧ package.IsPadded alignedHints ∧
        (ofText (package.render alignedHints)).alignment = none) := by
  have hoptions : ∀ option ∈ ["", "-Wall"], IsSingleLine option := by decide
  refine ⟨rfl, ⟨?_, isPadded_optionsPackage rfl List.mem_cons_self, ?_⟩,
    ⟨?_, isPadded_optionsPackage rfl List.mem_cons_self, ?_⟩,
    ⟨?_, isPadded_optionsPackage rfl List.mem_cons_self, ?_⟩⟩
  · refine isSingleLined_optionsPackage (List.forall_mem_cons.1 hoptions).2 ?_
    exact List.forall_mem_singleton.2 (show ∀ line ∈ textLines "x: y", _ by decide)
  · rw [alignment_optionsPackage rfl rfl (by decide)]
    rfl
  · exact isSingleLined_optionsPackage hoptions (List.forall_mem_nil _)
  · rw [alignment_optionsPackage rfl rfl (by decide)]
    rfl
  · refine isSingleLined_optionsPackage (List.forall_mem_cons.1 hoptions).2 ?_
    exact List.forall_mem_singleton.2 (show ∀ entry ∈ [("a: b", Scalar.text "c")], _ by decide)
  · rw [alignment_optionsPackage rfl rfl (by decide)]
    rfl

end Package

end CabalManifest
