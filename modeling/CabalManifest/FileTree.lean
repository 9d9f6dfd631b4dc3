import CabalManifest.Failure
import CabalManifest.PosixPath

/-!
# File trees

A tree of directories and files. A *location* is the list of names that leads from the root to a file
or directory, without single or double dots. A path is followed name by name: every name before the
last has to be a directory that is there, even one that a pair of dots undoes right after.

There are no links, and everything may be read and written by everyone: what is at a location is there
under this location only, and an operation that finds it cannot be refused.
-/

namespace CabalManifest

/-- What is found at a location. -/
inductive Entry where
  | directory
  | file (content : ByteArray)

/-- The names from the root to a file or directory. -/
abbrev Location := List String

/-- The files and directories of a tree, by location. The root is a directory without an entry. -/
structure FileTree where
  entries : List (Location × Entry)

/-- Why a path leads nowhere. -/
inductive Stray where
  /-- A name of it is missing. -/
  | missing
  /-- A name before the last is that of a file. -/
  | throughFile
  /-- A name of it is longer than a name can be. -/
  | longName
  deriving DecidableEq, Repr

namespace FileTree

/-- The tree with nothing but a root. -/
def empty : FileTree := ⟨[]⟩

/-- What is found at a location. -/
def get? (tree : FileTree) (location : Location) : Option Entry :=
  if location.isEmpty then some .directory else tree.entries.lookup location

/-- Puts something at a location. -/
def insert (tree : FileTree) (location : Location) (entry : Entry) : FileTree :=
  ⟨(location, entry) :: tree.entries.filter fun found ↦ found.1 != location⟩

/-- Removes a location with everything below it. -/
def erase (tree : FileTree) (location : Location) : FileTree :=
  ⟨tree.entries.filter fun found ↦ !location.isPrefixOf found.1⟩

/-! ### Following paths -/

/-- The most bytes that a name can have. -/
def nameLimit : Nat := 255

/-- Follows names from a location. -/
def follow (tree : FileTree) : Location → List String → Except Stray Location
  | location, [] => .ok location
  | location, name :: names =>
    match tree.get? location with
    | none => .error .missing
    | some (.file _) => .error .throughFile
    | some .directory =>
      if name = "." then follow tree location names
      else if name = ".." then follow tree location.dropLast names
      else if nameLimit < name.utf8ByteSize then .error .longName
      else follow tree (location ++ [name]) names

/-- What is found by following names from a location. -/
def find (tree : FileTree) (location : Location) (names : List String) : Except Stray Entry := do
  match tree.get? (← tree.follow location names) with
  | some entry => return entry
  | none => throw .missing

/-- Whether following names from a location leads to a file. -/
def isFile (tree : FileTree) (location : Location) (names : List String) : Bool :=
  match tree.find location names with
  | .ok (.file _) => true
  | _ => false

/-- Whether following names from a location leads to a directory. -/
def isDirectory (tree : FileTree) (location : Location) (names : List String) : Bool :=
  match tree.find location names with
  | .ok .directory => true
  | _ => false

/-- Whether following names from a location leads anywhere. -/
def exists? (tree : FileTree) (location : Location) (names : List String) : Bool :=
  (tree.find location names).toOption.isSome

/-! ### Listing -/

/-- The names in a directory, with what they stand for. -/
def children (tree : FileTree) (location : Location) : List (String × Entry) :=
  tree.entries.filterMap fun (found, entry) ↦
    if found.dropLast = location then found.getLast?.map (·, entry) else none

/-- Sorts texts by their characters. -/
def sortTexts (texts : List String) : List String := texts.mergeSort fun a b ↦ decide (a ≤ b)

/-- The files below a location, each by its path from there, in order. -/
def filesBelow (tree : FileTree) (location : Location) : List String :=
  sortTexts <| tree.entries.filterMap fun (found, entry) ↦
    match entry with
    | .file _ =>
      if location.isPrefixOf found then some ("/".intercalate (found.drop location.length))
      else none
    | .directory => none

/-! ### Making directories -/

/-- Why a directory is not made. -/
inductive Obstacle where
  /-- Its path leads nowhere. -/
  | stray (stray : Stray)
  /-- There is something under its path already. -/
  | occupied
  deriving DecidableEq, Repr

/-- Makes one directory, given the names that lead to it from a location. -/
def makeDirectory (tree : FileTree) (location : Location) (names : List String) :
    Except Obstacle FileTree :=
  match tree.follow location names with
  | .error stray => .error (.stray stray)
  | .ok target =>
    if names.getLast? = some ".." || (tree.get? target).isSome then .error .occupied
    else .ok (tree.insert target .directory)

/-- Makes a directory with those around it that are missing, given the names that lead to it, the
last one first. A directory that is there is left alone. What has been made before an obstacle stays;
the obstacle comes with the names that lead to it, the last one first. -/
def makeDirectories (tree : FileTree) (location : Location) :
    List String → FileTree × Except (Obstacle × List String) Unit
  | [] => (tree, .ok ())
  | name :: around =>
    let names := (name :: around).reverse
    let settle (tree : FileTree) (obstacle : Obstacle) :
        FileTree × Except (Obstacle × List String) Unit :=
      if tree.isDirectory location names then (tree, .ok ())
      else (tree, .error (obstacle, name :: around))
    match tree.makeDirectory location names with
    | .ok tree => (tree, .ok ())
    | .error (.stray .missing) =>
      match makeDirectories tree location around with
      | (tree, .error obstacle) => (tree, .error obstacle)
      | (tree, .ok ()) =>
        match tree.makeDirectory location names with
        | .ok tree => (tree, .ok ())
        | .error obstacle => settle tree obstacle
    | .error obstacle => settle tree obstacle

/-! ### What changes -/

theorem get?_insert (tree : FileTree) {location : Location} (location' : Location) (entry : Entry)
    (h : location ≠ []) :
    (tree.insert location entry).get? location' =
      if location' = location then some entry else tree.get? location' := by
  unfold get? insert
  by_cases hl : location' = location
  · subst hl
    simp [h]
  · rw [if_neg hl]
    by_cases hn : location'.isEmpty
    · simp [hn]
    · simp only [hn, List.lookup_cons, beq_false_of_ne hl]
      have key : ∀ entries : List (Location × Entry),
          (entries.filter fun found ↦ found.1 != location).lookup location' =
            entries.lookup location' := by
        intro entries
        induction entries with
        | nil => rfl
        | cons pair rest ih =>
          obtain ⟨k, v⟩ := pair
          by_cases hk : k = location
          · subst hk
            simp [List.lookup_cons, beq_false_of_ne hl, ih]
          · simp [hk, List.lookup_cons, ih]
      exact key tree.entries

end FileTree

end CabalManifest
