import CabalManifest.Description
import CabalManifest.LayoutHints

/-!
# Writing package descriptions

The text of a package description, laid out as hints say. Each element takes whole lines; the
elements of a stanza are indented one level deeper than its header, and at the top an empty line sets
every stanza apart.
-/

namespace CabalManifest

namespace LayoutHints

/-- The number of spaces between a field and the items below it. -/
def itemIndent : Nat := 4

/-- A number of spaces. -/
def spaces (n : Nat) : String := String.ofList (List.replicate n ' ')

/-- The name of a field with the colon and the spaces before its value. A name that is too long for
the column of values is followed by a single space. -/
def label (hints : LayoutHints) (name : String) : String :=
  let label := name ++ ":"
  match hints.alignment with
  | some column =>
    if label.length + 1 ≤ column then label ++ spaces (column - label.length) else label ++ " "
  | none => label ++ " "

/-- The items of a list with commas between them. -/
def commaLines (style : CommaStyle) (indent : String) : List String → List String
  | [] => []
  | first :: rest =>
    match style with
    | .leading =>
      (indent ++ spaces itemIndent ++ first) ::
        rest.map fun item ↦ indent ++ spaces (itemIndent - 2) ++ ", " ++ item
    | .trailing =>
      let items := first :: rest
      (items.dropLast.map fun item ↦ indent ++ spaces itemIndent ++ item ++ ",") ++
        [indent ++ spaces itemIndent ++ items.getLastD ""]

/-- The lines of a field. A blank line would end the field, so that a dot stands for it. -/
def fieldLinesOf (hints : LayoutHints) (indent name : String) : Content → List String
  | .inline "" => [indent ++ name ++ ":"]
  | .inline text => [indent ++ hints.label name ++ text]
  | .block lines =>
    (indent ++ name ++ ":") :: lines.map fun line ↦
      indent ++ spaces itemIndent ++ (if line = "" then "." else line)
  | .lines items => (indent ++ name ++ ":") :: items.map fun item ↦ indent ++ spaces itemIndent ++ item
  | .commas items => (indent ++ name ++ ":") :: commaLines hints.commaStyle indent items

/-- Lines that stand as they are, at the indentation of their scope. -/
def rawLines (indent : String) (lines : List String) : List String :=
  lines.map fun line ↦ if line = "" then "" else indent ++ line

mutual

/-- Sorts the elements of every stanza that may be sorted, as the hints say for its header. -/
def arrange (hints : LayoutHints) : Element → Element
  | .stanza header elements sortable =>
    let elements := arrangeAll hints elements
    let order := (hints.sectionOrders.get? header).getD []
    .stanza header (if sortable then Element.sortBy order elements else elements) sortable
  | element => element

/-- Sorts the elements of the stanzas among some elements. -/
def arrangeAll (hints : LayoutHints) : List Element → List Element
  | [] => []
  | element :: rest => arrange hints element :: arrangeAll hints rest

end

mutual

/-- The lines of an element at a depth. -/
def linesOf (hints : LayoutHints) (depth : Nat) : Element → List String
  | .field name content => hints.fieldLinesOf (spaces (hints.indentation * depth)) name content
  | .raw lines => rawLines (spaces (hints.indentation * depth)) lines
  | .stanza header elements _ =>
    (spaces (hints.indentation * depth) ++ header) :: linesOfAll hints (depth + 1) elements

/-- The lines of the elements of a stanza. -/
def linesOfAll (hints : LayoutHints) (depth : Nat) : List Element → List String
  | [] => []
  | element :: rest => linesOf hints depth element ++ linesOfAll hints depth rest

end

/-- Whether an element is a stanza. -/
def isStanza : Element → Bool
  | .stanza .. => true
  | _ => false

/-- The lines of the elements at the top; `before` tells whether the element before is a stanza, if
there is one. -/
def topLines (hints : LayoutHints) : Option Bool → List Element → List String
  | _, [] => []
  | before, element :: rest =>
    let apart := match before with
      | none => false
      | some wasStanza => wasStanza || isStanza element
    (if apart then [""] else []) ++ linesOf hints 0 element ++
      topLines hints (some (isStanza element)) rest

end LayoutHints

/-- The lines of a package description. -/
def Package.lines (package : Package) (hints : LayoutHints) : List String :=
  let elements := Element.sortBy hints.fieldOrder (hints.arrangeAll package.elements)
  hints.topLines none elements

/-- The text of a package description. -/
def Package.render (package : Package) (hints : LayoutHints) : String :=
  "\n".intercalate (package.lines hints) ++ "\n"

end CabalManifest
