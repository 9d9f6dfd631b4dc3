import CabalManifest.Entries
import CabalManifest.Text.Blank

/-!
# Layout hints

What an existing package description tells about the way its owner likes it laid out: the order of
fields, the column of values, the indentation and the place of commas. Writing a package with the
hints of its previous description changes no more lines than necessary.

Blank lines and comments count for nothing, and a line that is indented deeper than the field above
it belongs to the value of that field, whatever it looks like.
-/

namespace CabalManifest

/-- Where the commas of a list stand. -/
inductive CommaStyle where
  | leading
  | trailing
  deriving DecidableEq, Repr

/-- How a package description is laid out. -/
structure LayoutHints where
  /-- The fields in front of and between the sections, in order. -/
  fieldOrder : List String
  /-- The fields of each section, by its header line. -/
  sectionOrders : Entries (List String)
  /-- The column at which values start, if there is one. -/
  alignment : Option Nat
  /-- The number of spaces that each level is indented by. -/
  indentation : Nat
  commaStyle : CommaStyle
  deriving DecidableEq, Repr

namespace LayoutHints

/-- The layout of a description without a predecessor. -/
def standard : LayoutHints := ⟨[], [], none, 2, .leading⟩

/-! ### Lines -/

/-- Replaces tabs by spaces up to the next column that is a multiple of eight. -/
def expandTabs : Nat → List Char → List Char
  | _, [] => []
  | column, '\t' :: cs =>
    let width := 8 - column % 8
    List.replicate width ' ' ++ expandTabs (column + width) cs
  | column, c :: cs => c :: expandTabs (column + 1) cs

/-- Whether a line is blank or a comment. -/
def isIgnored (line : List Char) : Bool :=
  let body := Text.trim line
  body.isEmpty || "--".toList.isPrefixOf body

/-- The lines that count, without blanks at the end and without tabs. -/
def relevantLines (text : List Char) : List (List Char) :=
  (Text.lines text).filterMap fun line ↦
    if isIgnored line then none else some (expandTabs 0 (Text.trimRight line))

/-- The number of spaces a line starts with. -/
def indentOf (line : List Char) : Nat := (line.takeWhile (· == ' ')).length

/-- A character of a field name after the first. -/
def isNameChar (c : Char) : Bool := c.isAlphanum || c == '_' || c == '.' || c == '-'

/-- A line that starts a field: its name, the blanks after the colon, and the value. -/
structure FieldLine where
  name : List Char
  gap : List Char
  value : List Char

/-- Reads a line that starts a field. -/
def fieldLine? : List Char → Option FieldLine
  | [] => none
  | c :: cs =>
    match c.isAlpha, cs.dropWhile isNameChar with
    | true, ':' :: rest =>
      some ⟨c :: cs.takeWhile isNameChar, rest.takeWhile Text.isBlank, rest.dropWhile Text.isBlank⟩
    | _, _ => none

/-- Whether a line starts a field. -/
def isFieldLine (line : List Char) : Bool := (fieldLine? line).isSome

/-! ### Sections -/

/-- A header line with the lines below it. -/
abbrev Block := List Char × List (List Char)

/-- The indented lines at the beginning, and the sections after them: each line that is not indented
and starts no field, with the indented lines below it. -/
def splitSections : List (List Char) → List (List Char) × List Block
  | [] => ([], [])
  | line :: lines =>
    let (body, rest) := splitSections lines
    if indentOf line != 0 then (line :: body, rest)
    else if isFieldLine line then ([], rest)
    else ([], (Text.trim line, body) :: rest)

/-- The names of the fields that stand directly in a section: those indented like its first line. -/
def directFields (body : List (List Char)) : List String :=
  match body with
  | [] => []
  | first :: _ =>
    (body.filter fun line ↦ indentOf line == indentOf first).filterMap fun line ↦
      (fieldLine? (Text.trim line)).map fun field ↦ String.ofList field.name

/-- The sections of a description. -/
def sections (lines : List (List Char)) : List Block := (splitSections lines).2

/-- The field orders of sections; of several sections with one header, the first counts. -/
def orders (sections : List Block) : Entries (List String) :=
  sections.foldl
    (fun orders (header, body) ↦
      let header := String.ofList header
      if Entries.has orders header then orders else orders ++ [(header, directFields body)])
    []

/-- The indentation of the first section that has a body. -/
def sectionIndent (sections : List Block) : Nat :=
  ((sections.findSome? fun (_, body) ↦ body.head?).map indentOf).getD standard.indentation

/-! ### Values -/

/-- The lines that start a field, given the indentation of the field above, without the lines that
belong to the value of one. -/
def fieldLinesFrom : Option Nat → List (List Char) → List (List Char)
  | _, [] => []
  | above, line :: lines =>
    let indent := indentOf line
    if (above.map fun n ↦ decide (n < indent)).getD false then fieldLinesFrom above lines
    else if isFieldLine (Text.trim line) then line :: fieldLinesFrom (some indent) lines
    else fieldLinesFrom none lines

/-- The lines that start a field. -/
def fieldLines (lines : List (List Char)) : List (List Char) := fieldLinesFrom none lines

/-- The columns at which values start, apart for fields padded with several blanks and for the
others. -/
def valueColumns (lines : List (List Char)) : List Nat × List Nat :=
  let fields := (fieldLines lines).filterMap fun line ↦ fieldLine? (Text.trim line)
  let inline := fields.filter fun field ↦ !field.value.isEmpty
  let column (field : FieldLine) : Nat := field.name.length + 1 + field.gap.length
  let (padded, others) := inline.partition fun field ↦ field.gap.length > 1
  (padded.map column, others.map column)

/-- The column at which all values start. Padded fields have to agree on it, and the names of the
others have to be too long for it. -/
def alignmentOf (lines : List (List Char)) : Option Nat :=
  match valueColumns lines with
  | ([], _) => none
  | (column :: padded, others) =>
    if padded.all (· == column) && others.all (column ≤ ·) then some column else none

/-- Where commas stand: at the start of a line if there is one there, else at the end if there is
one there. -/
def commaStyleOf (lines : List (List Char)) : CommaStyle :=
  if lines.any fun line ↦ ", ".toList.isPrefixOf (Text.trim line) then .leading
  else if lines.any fun line ↦ line.getLast? = some ',' then .trailing
  else .leading

/-- The hints that a package description gives. -/
def ofText (text : String) : LayoutHints :=
  let lines := relevantLines text.toList
  let sections := sections lines
  { fieldOrder := (lines.filter fun line ↦ indentOf line == 0).filterMap fun line ↦
      (fieldLine? line).map fun field ↦ String.ofList field.name
    sectionOrders := orders sections
    alignment := alignmentOf lines
    indentation := sectionIndent sections
    commaStyle := commaStyleOf lines }

end LayoutHints

end CabalManifest
