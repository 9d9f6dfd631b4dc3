import CabalManifest.FieldSet

/-!
# The elements of a package description

A description is a list of elements: fields, stanzas that hold elements of their own, and lines that
stand as they are. Before it is written, the elements of a scope are changed by its overrides and
sorted by the field order that its owner likes.
-/

namespace CabalManifest

/-- The value of a field as it is laid out. -/
inductive Content where
  /-- After the name. -/
  | inline (text : String)
  /-- The lines of a longer text, below the name. -/
  | block (lines : List String)
  /-- Items below the name, one in a line. -/
  | lines (items : List String)
  /-- Items below the name, one in a line, with commas between them. -/
  | commas (items : List String)
  deriving DecidableEq, Repr

/-- A part of a package description. -/
inductive Element where
  | field (name : String) (content : Content)
  /-- A header with the elements below it, which may be sorted or have to keep their order. -/
  | stanza (header : String) (elements : List Element) (sortable : Bool)
  | raw (lines : List String)

/-- The lines of a text without the line feeds at its end. -/
def textLines (text : String) : List String :=
  (List.splitOn '\n' (Text.dropRight (· == '\n') text.toList)).map String.ofList

/-- The content of a field with a text for its value. -/
def Content.ofText (text : String) : Content :=
  match textLines text with
  | [line] => .inline line
  | several => .block several

namespace Element

instance : Inhabited Element := ⟨.raw []⟩

/-- The name of a field. -/
def name? : Element → Option String
  | field name _ => some name
  | _ => none

/-! ### Order -/

/-- Ranks each element: a field by its position in `order`, counted from one, and every other
element like the last such field before it. Elements before the first have rank zero. -/
def ranked (order : List String) : Nat → List Element → List (Nat × Element)
  | _, [] => []
  | last, element :: rest =>
    let rank := match element.name?.bind (order.idxOf? ·) with
      | some position => position + 1
      | none => last
    (rank, element) :: ranked order rank rest

/-- Sorts elements by the positions of their names in `order`. Elements that it does not name stay
right behind the field before them, and elements of one rank keep their order. -/
def sortBy (order : List String) (elements : List Element) : List Element :=
  ((ranked order 0 elements).mergeSort fun a b ↦ a.1 ≤ b.1).map (·.2)

/-! ### Overrides -/

/-- Gives the first field of a name another content. -/
def replaceField (name : String) (content : Content) : List Element → List Element
  | [] => []
  | element :: rest =>
    if element.name? = some name then .field name content :: rest
    else element :: replaceField name content rest

/-- Removes the first field of a name. -/
def removeField (name : String) : List Element → List Element
  | [] => []
  | element :: rest =>
    if element.name? = some name then rest else element :: removeField name rest

/-- Overrides one field: a null removes it, anything else replaces it, or adds it at the end. -/
def overrideField (elements : List Element) (name : String) (value : Scalar) : List Element :=
  match value with
  | .null => removeField name elements
  | value =>
    let content := Content.ofText value.plain
    if elements.any fun element ↦ element.name? = some name then
      replaceField name content elements
    else elements ++ [.field name content]

/-- Applies one override to the elements of a scope. -/
def override (elements : List Element) : Verbatim → List Element
  | .raw text => elements ++ [.raw (textLines text)]
  | .fields entries =>
    entries.foldl (fun elements entry ↦ overrideField elements entry.1 entry.2) elements

/-- Applies the overrides of a scope in their order. -/
def overrideAll (elements : List Element) (entries : List Verbatim) : List Element :=
  entries.foldl override elements

end Element

end CabalManifest
