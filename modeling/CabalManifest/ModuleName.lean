import CabalManifest.PosixPath

/-!
# Module names

A module `Foo.Bar` is kept in a file `Foo/Bar.hs`, or with another suffix that some tool turns into
such a file. Every component of a module name starts with a capital letter.

The main file of a program is given as a file, or as a module or a function of one, in which case
the compiler has to be told.
-/

namespace CabalManifest.ModuleName

/-- The suffixes of source files, in the order in which they are preferred. -/
def suffixes : List String := [".hs", ".lhs", ".chs", ".hsc", ".y", ".ly", ".x"]

/-- A character of a component after the first. -/
def isComponentChar (c : Char) : Bool := c.isAlphanum || c == '_' || c == '\''

/-- A capital letter followed by letters, digits, underscores and primes. -/
def isCapitalized : List Char → Bool
  | [] => false
  | c :: cs => c.isUpper && cs.all isComponentChar

/-- Whether a text is a component; a line feed at its end is passed over. -/
def isComponent (text : String) : Bool :=
  let cs := text.toList
  isCapitalized (if cs.getLast? = some '\n' then cs.dropLast else cs)

/-- The module that a file holds, if its path is that of a module. -/
def ofPath? (path : String) : Option String :=
  let path := PosixPath.ofString path
  let components := path.parent.names ++ [path.stem]
  if suffixes.contains path.suffix && !path.isAbsolute && components.all isComponent then
    some (".".intercalate components)
  else none

/-- The module with the locations of a package's own files. -/
def pathsModule (package : String) : String :=
  "Paths_" ++ String.ofList (package.toList.map fun c ↦ if c = '-' then '_' else c)

/-- The parts of a dotted name. -/
def parts (name : String) : List String := (List.splitOn '.' name.toList).map String.ofList

/-- The main file of a program, and what the compiler has to be told about it: nothing for a file,
the name itself for a module or a function. -/
def splitMain (main : String) : String × Option String :=
  if suffixes.contains (PosixPath.ofString main).suffix then (main, none)
  else
    let parts := parts main
    let components := if isComponent (parts.getLastD "") then parts else parts.dropLast
    ("/".intercalate components ++ ".hs", some main)

/-- The compiler is told the main program as it was given. -/
theorem eq_of_splitMain_eq {main file target : String} (h : splitMain main = (file, some target)) :
    target = main := by
  rw [splitMain] at h
  split at h
  · cases h
  · cases h
    rfl

/-- The module that the main file of a program is. -/
def ofMain? (main : String) : Option String := ofPath? (splitMain main).1

end CabalManifest.ModuleName
