import CabalManifest.FileTree

/-!
# File patterns

A pattern is a path some names of which hold wildcards: `*` for any characters, `?` for one, and a
class in brackets for one of several. A name that is just `**` stands for any number of directories.
No wildcard matches the dot that hides a file, but for a pattern that has the dot itself.

A pattern without wildcards stands for itself, if there is such a file.
-/

namespace CabalManifest.Glob

/-! ### Patterns of names -/

/-- A part of a pattern. -/
inductive Piece where
  /-- Any characters. -/
  | star
  /-- Any one character. -/
  | any
  /-- One character out of some ranges, or one out of none of them. -/
  | oneOf (negated : Bool) (ranges : List (Char × Char))
  /-- One certain character. -/
  | only (c : Char)
  deriving DecidableEq, Repr

/-- Whether a name has wildcards. -/
def hasWildcards (name : String) : Bool := name.toList.any fun c ↦ c == '*' || c == '?' || c == '['

/-- Whether a text is read as a pattern, and not as the path of one file. -/
def isPattern (text : String) : Bool := hasWildcards text || text.toList.contains ']'

/-- A text without a certain character at its beginning. -/
def dropHead (c : Char) : List Char → List Char
  | [] => []
  | d :: cs => if d = c then cs else d :: cs

/-- The inside of a class and what follows its closing bracket; a bracket that stands first, or after
the exclamation mark that comes first, is a member of the class. -/
def splitClass? (cs : List Char) : Option (List Char × List Char) :=
  match (dropHead ']' (dropHead '!' cs)).dropWhile (· != ']') with
  | _ :: rest => some (cs.take (cs.length - rest.length - 1), rest)
  | [] => none

theorem length_dropHead_le (c : Char) (cs : List Char) : (dropHead c cs).length ≤ cs.length := by
  cases cs with
  | nil => simp [dropHead]
  | cons d cs => rw [dropHead]; split <;> simp

theorem length_of_splitClass? {cs inside rest : List Char}
    (h : splitClass? cs = some (inside, rest)) : rest.length < cs.length := by
  unfold splitClass? at h
  split at h
  · next c r hr =>
    simp only [Option.some.injEq, Prod.mk.injEq] at h
    obtain ⟨-, rfl⟩ := h
    have h1 := congrArg List.length hr
    have h2 := (List.dropWhile_sublist (· != ']') (l := dropHead ']' (dropHead '!' cs))).length_le
    have h3 := length_dropHead_le ']' (dropHead '!' cs)
    have h4 := length_dropHead_le '!' cs
    rw [List.length_cons] at h1
    omega
  · cases h

/-! ### Classes -/

/-- The parts of a class between the hyphens that make ranges, the first of which has at least a
number of characters. A hyphen that would leave less than two characters for the part before it is a
character of that part. -/
def partsOf (least : Nat) (cs : List Char) : List (List Char) :=
  match _h : (cs.drop least).dropWhile (· != '-') with
  | _ :: rest =>
    (cs.take least ++ (cs.drop least).takeWhile (· != '-')) :: partsOf 2 rest
  | [] => [cs]
termination_by cs.length
decreasing_by
  have h1 := congrArg List.length _h
  have h2 := (List.dropWhile_sublist (· != '-') (l := cs.drop least)).length_le
  simp only [List.length_cons, List.length_drop] at h1 h2
  omega

/-- A hyphen at the end of a class is a character of the part before it. -/
def closeParts : List (List Char) → List (List Char)
  | [part, []] => [part ++ ['-']]
  | part :: parts => part :: closeParts parts
  | [] => []

/-- Leaves out the ranges that run backwards, and joins the parts on both sides of them. -/
def dropBackward : List (List Char) → List (List Char)
  | part :: parts =>
    match dropBackward parts with
    | next :: rest =>
      if next.headD '\x00' < part.getLastD '\x00' then (part.dropLast ++ next.tail) :: rest
      else part :: next :: rest
    | [] => [part]
  | [] => []

/-- The characters of a class and the ranges between its parts. -/
def rangesOf : List Char → List (List Char) → List (Char × Char)
  | part, [] => part.map fun c ↦ (c, c)
  | part, next :: rest =>
    let single := part.dropLast.map fun c ↦ (c, c)
    single ++ (part.getLastD '-', next.headD '-') :: rangesOf next.tail rest

/-- The class of an inside. An exclamation mark that comes first once backward ranges are left out
negates it, and a hyphen that comes first is a character. -/
def classOf (inside : List Char) : Piece :=
  let least := if inside.head? = some '!' then 2 else 1
  match dropBackward (closeParts (partsOf least inside)) with
  | ['!'] :: next :: rest => .oneOf true (('-', '-') :: rangesOf next rest)
  | ('!' :: part) :: rest => .oneOf true (rangesOf part rest)
  | part :: rest => .oneOf false (rangesOf part rest)
  | [] => .oneOf false []

/-- The parts of a pattern. -/
def pieces : List Char → List Piece
  | [] => []
  | '*' :: rest => .star :: pieces rest
  | '?' :: rest => .any :: pieces rest
  | '[' :: rest =>
    match _h : splitClass? rest with
    | some (inside, after) => classOf inside :: pieces after
    | none => .only '[' :: pieces rest
  | c :: rest => .only c :: pieces rest
termination_by cs => cs.length
decreasing_by
  all_goals simp only [List.length_cons, Nat.lt_add_one]
  exact Nat.lt_succ_of_lt (length_of_splitClass? _h)

/-! ### Matching -/

/-- Whether one character matches a part of a pattern. -/
def matchesChar (c : Char) : Piece → Bool
  | .star | .any => true
  | .oneOf negated ranges => negated != ranges.any fun range ↦ range.1 ≤ c && c ≤ range.2
  | .only d => c == d

/-- Which ends of a pattern, from the whole pattern to its empty end, match the empty text: those of
stars alone. -/
def emptyRow : List Piece → List Bool
  | [] => [true]
  | piece :: pattern =>
    let after := emptyRow pattern
    (piece = .star && after.headD false) :: after

/-- Which ends of a pattern match a text, given which of them match the text without its first
character. A star matches that character, or nothing. -/
def nextRow (c : Char) : List Piece → List Bool → List Bool
  | [], _ => [false]
  | piece :: pattern, row =>
    let after := nextRow c pattern row.tail
    let here :=
      if piece = .star then row.headD false || after.headD false
      else matchesChar c piece && row.tail.headD false
    here :: after

/-- Whether a text matches a pattern. All ends of the text are compared with all ends of the pattern,
so that a pattern with many stars takes no longer than one with few. -/
def isMatch (pattern : List Piece) (cs : List Char) : Bool :=
  (cs.foldr (fun c row ↦ nextRow c pattern row) (emptyRow pattern)).headD false

/-! ### Patterns of paths -/

/-- Whether a name is hidden. -/
def isHidden (name : String) : Bool := name.toList.head? = some '.'

/-- The files and directories in a directory that match a pattern. -/
def namesMatching (tree : FileTree) (location : Location) (pattern : List Char)
    (onlyDirectories : Bool) : List String :=
  (tree.children location).filterMap fun (name, entry) ↦
    let isWanted := match entry with
      | .directory => true
      | .file _ => !onlyDirectories
    let isShown := pattern.head? = some '.' || !isHidden name
    if isWanted && isShown && isMatch (pieces pattern) name.toList then some name else none

/-- The paths of everything below a directory that is not hidden and not in a hidden directory. -/
def namesBelow (tree : FileTree) (location : Location) (onlyDirectories : Bool) :
    List (List String) :=
  tree.entries.filterMap fun (found, entry) ↦
    let names := found.drop location.length
    let isWanted := match entry with
      | .directory => true
      | .file _ => !onlyDirectories
    if location.isPrefixOf found && !names.isEmpty && isWanted && !names.any isHidden then
      some names
    else none

/-- One step along a pattern: from the names so far to those that match one name more. The name `**`
matches no names, too, even after a file. -/
def expandName (tree : FileTree) (start : Location) (pattern : String) (isLast : Bool)
    (names : List String) : List (List String) :=
  let directory? := match tree.follow start names with
    | .ok location => if tree.isDirectory location [] then some location else none
    | .error _ => none
  if pattern = "**" then
    let below := (directory?.map fun location ↦ namesBelow tree location (!isLast)).getD []
    names :: below.map (names ++ ·)
  else if hasWildcards pattern then
    let found := (directory?.map fun location ↦
      namesMatching tree location pattern.toList (!isLast)).getD []
    found.map fun name ↦ names ++ [name]
  else if tree.exists? start (names ++ [pattern]) then [names ++ [pattern]]
  else []

/-- The names that match a list of patterns, from the names so far. -/
def expandNames (tree : FileTree) (start : Location) : List String → List String → List (List String)
  | [], names => [names]
  | pattern :: patterns, names =>
    (expandName tree start pattern patterns.isEmpty names).flatMap (expandNames tree start patterns)

/-- The names of a pattern, single dots among them. -/
def namesOf (pattern : String) : List String :=
  ((List.splitOn '/' pattern.toList).map String.ofList).filter (· != "")

/-- The names, from a location, that match a pattern and could lead to files; there is at least one
name. The names before the first one with wildcards are taken as they are. Names that match in
several ways occur as often. -/
def candidates (tree : FileTree) (start : Location) (pattern : String) : List (List String) :=
  if pattern.toList.getLast? = some '/' then []
  else
    let names := namesOf pattern
    let found := expandNames tree start (names.dropWhile fun name ↦ !hasWildcards name)
      (names.takeWhile fun name ↦ !hasWildcards name)
    found.filter fun names ↦ !names.isEmpty

end CabalManifest.Glob
