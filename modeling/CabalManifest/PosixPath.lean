import CabalManifest.Text.Blank

/-!
# Paths

A path is a root and the names below it. Reading a path drops empty names and single dots, so that
`a//b`, `./a/b` and `a/b/` are one path; a pair of dots is kept, for only the file tree can tell what
it means. Two slashes at the beginning, no more and no fewer, are a root of their own.
-/

namespace CabalManifest

/-- Where a path starts. -/
inductive Root where
  | relative
  | slash
  | doubleSlash
  deriving DecidableEq, Repr

/-- A root and the names below it, none of which is empty or a single dot. -/
structure PosixPath where
  root : Root
  names : List String
  deriving DecidableEq, Repr

namespace PosixPath

/-- The root that a text starts with. -/
def rootOf : List Char → Root
  | '/' :: '/' :: '/' :: _ => .slash
  | '/' :: '/' :: _ => .doubleSlash
  | '/' :: _ => .slash
  | _ => .relative

/-- The names of a text, in order. -/
def namesOf (cs : List Char) : List String :=
  ((List.splitOn '/' cs).map String.ofList).filter fun name ↦ name != "" && name != "."

/-- The path that a text denotes. -/
def ofString (text : String) : PosixPath := ⟨rootOf text.toList, namesOf text.toList⟩

/-- The path that names nothing: the place itself. -/
def here : PosixPath := ⟨.relative, []⟩

/-- Whether a path starts at a root. -/
def isAbsolute (path : PosixPath) : Bool := path.root != .relative

/-- The text of a root. -/
def rootText : Root → String
  | .relative => ""
  | .slash => "/"
  | .doubleSlash => "//"

/-- A path as text. -/
def text (path : PosixPath) : String :=
  if path = here then "." else rootText path.root ++ "/".intercalate path.names

/-- A path seen from another one; an absolute path is the same from everywhere. -/
def join (base path : PosixPath) : PosixPath :=
  if path.isAbsolute then path else ⟨base.root, base.names ++ path.names⟩

/-- A path below a base, as text. -/
def below (base : PosixPath) (path : String) : PosixPath := base.join (ofString path)

/-- The last name; empty for a root. -/
def name (path : PosixPath) : String := path.names.getLastD ""

/-- The path without its last name. -/
def parent (path : PosixPath) : PosixPath := { path with names := path.names.dropLast }

/-! ### Stem and suffix -/

/-- Cuts a name at its last dot, provided that something stands on both sides of it. -/
def splitName (name : List Char) : List Char × List Char :=
  let reversed := name.reverse
  let ending := reversed.takeWhile (· != '.')
  match reversed.dropWhile (· != '.') with
  | '.' :: c :: rest => if ending.isEmpty then (name, []) else
      ((c :: rest).reverse, '.' :: ending.reverse)
  | _ => (name, [])

/-- The last name without its suffix. -/
def stem (path : PosixPath) : String := String.ofList (splitName path.name.toList).1

/-- The suffix of the last name, with its dot. -/
def suffix (path : PosixPath) : String := String.ofList (splitName path.name.toList).2

/-! ### Relative paths -/

/-- Adds a name to those before it. A pair of dots undoes the last of these, a single one nothing. -/
def follow (names : List String) (name : String) : List String :=
  if name = "." then names else if name = ".." then names.dropLast else names ++ [name]

/-- Follows the dots among some names. -/
def normalizeNames (names : List String) : List String := names.foldl follow []

/-- The absolute path without pairs of dots, for a path seen from an absolute place. -/
def resolve (place path : PosixPath) : PosixPath :=
  ⟨.slash, normalizeNames (place.join path).names⟩

/-- The path that leads from a base to a path below it. -/
def relativeTo? (path base : PosixPath) : Option PosixPath :=
  if path.root = base.root && base.names.isPrefixOf path.names then
    some ⟨.relative, path.names.drop base.names.length⟩
  else none

/-- Stem and suffix make up the name. -/
theorem splitName_append (name : List Char) : (splitName name).1 ++ (splitName name).2 = name := by
  unfold splitName
  dsimp only
  split
  · next c rest h =>
    split
    · simp
    · have := List.takeWhile_append_dropWhile (p := (· != '.')) (l := name.reverse)
      rw [h] at this
      have := congrArg List.reverse this
      simpa using this
  · simp

end PosixPath

end CabalManifest
