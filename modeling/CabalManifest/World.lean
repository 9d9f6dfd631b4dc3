import CabalManifest.Glob
import CabalManifest.Yaml

/-!
# The world of a run

What a run reads and changes outside of itself: the file tree seen from a current directory, the
answers of the network, and the messages that were logged. The world is a value; an operation that
changes it returns the changed one, and an operation that fails leaves it as it found it.

Left out is what no value of this kind can say: links between files, permissions, disks that are full
or fail in the middle of a write, and other programs that change files during the run.

The network is a finite table of answers: any address without an entry holds no document.
-/

namespace CabalManifest

/-! ### Logging -/

/-- How important a message is. -/
inductive Level where
  | trace
  | debug
  | info
  | warning
  | error
  | critical
  | silent
  deriving DecidableEq, Repr

/-- The place of a level among all levels. -/
def Level.rank : Level → Nat
  | trace => 0
  | debug => 1
  | info => 2
  | warning => 3
  | error => 4
  | critical => 5
  | silent => 6

/-! ### Worlds -/

/-- What an address on the network answers. -/
inductive Answer where
  /-- A status and the content that comes with it. -/
  | response (status : Nat) (content : ByteArray)
  /-- No connection. -/
  | unreachable (cause : String)

/-- All that a run can read and change. -/
structure World where
  tree : FileTree
  network : List (String × Answer)
  /-- The current directory. -/
  place : PosixPath
  environment : Entries String
  /-- The home directories of the accounts, by their names. -/
  homes : Entries String
  /-- The addresses that were asked, in order. -/
  requests : List String
  /-- The least level that is logged. -/
  threshold : Level
  log : List (Level × String)

/-- A computation that changes the world and may fail. -/
abbrev Run := ExceptT Failure (StateM World)

namespace World

/-- The names that a path adds to a starting location. -/
def startOf (world : World) (path : PosixPath) : Location :=
  if path.isAbsolute then [] else world.place.names

/-- Logs a message. -/
def say (world : World) (level : Level) (message : String) : World :=
  if world.threshold.rank ≤ level.rank then { world with log := world.log ++ [(level, message)] }
  else world

/-- The value of a variable of the environment; an empty one counts as unset. -/
def setting? (world : World) (name : String) : Option String :=
  (world.environment.get? name).filter (· != "")

/-- The absolute path of a path, without dots. -/
def resolve (world : World) (path : PosixPath) : PosixPath := world.place.resolve path

/-- Refuses a path that no file can have. -/
def checkPath (path : PosixPath) : Except Failure Unit :=
  match Text.firstHalves? (Text.codes path.text.toList) with
  | some fault => .error (.unencodable fault)
  | none => if path.text.contains '\x00' then .error .embeddedNull else .ok ()

/-- A path as messages show it: relative to a root if it is below, else absolute. -/
def shorten (world : World) (path : PosixPath) (root : Option PosixPath) :
    Except Failure String := do
  checkPath path
  let path := world.resolve path
  match root.bind fun root ↦ path.relativeTo? (world.resolve root) with
  | some relative => return relative.text
  | none => return path.text

/-- The home directories that a table of accounts tells, each account in a line of seven columns. -/
def homesOf (table : String) : Entries String :=
  (Text.lines table.toList).filterMap fun line ↦
    match List.splitOn ':' line with
    | [name, _, _, _, _, home, _] => some (String.ofList name, String.ofList home)
    | _ => none

/-- The home directory of a user, who is named by what follows a tilde: nothing for the current
user, else the name of an account. -/
def home (world : World) (user : String) : Except Failure PosixPath :=
  if user.contains '\x00' then .error .embeddedNull
  else match if user = "" then world.environment.get? "HOME" else world.homes.get? user with
    | none => .error .noHome
    | some home =>
      match Text.dropRight (· == '/') home.toList with
      | [] => .ok (PosixPath.ofString "/")
      | '~' :: _ => .error .noHome
      | cs => .ok (PosixPath.ofString (String.ofList cs))

/-- The path with a home directory in the place of a leading tilde. -/
def expandHome (world : World) (path : PosixPath) : Except Failure PosixPath :=
  match path.root, path.names with
  | .relative, name :: names =>
    match name.toList with
    | '~' :: user => do return (← world.home (String.ofList user)).join ⟨.relative, names⟩
    | _ => .ok path
  | _, _ => .ok path

/-! ### Reading -/

/-- The most bytes that a path can have. -/
def pathLimit : Nat := 4095

/-- Where a path leads. -/
def follow (world : World) (path : PosixPath) : Except Stray Location :=
  if pathLimit < path.text.utf8ByteSize then .error .longName
  else world.tree.follow (world.startOf path) path.names

/-- What a path leads to. -/
def find (world : World) (path : PosixPath) : Except Stray Entry := do
  match world.tree.get? (← world.follow path) with
  | some entry => return entry
  | none => throw .missing

/-- What a path leads to, if anything. There is nothing under a path that no file can have, but one
that is too long is a failure. -/
def find? (world : World) (path : PosixPath) : Except Failure (Option Entry) :=
  match checkPath path, world.find path with
  | .ok (), .ok entry => .ok (some entry)
  | .ok (), .error .longName => .error (.longName path.text)
  | _, _ => .ok none

/-- Whether a path leads to a file. -/
def isFile (world : World) (path : PosixPath) : Except Failure Bool := do
  match ← world.find? path with
  | some (.file _) => return true
  | _ => return false

/-- Whether a path leads to a directory. -/
def isDirectory (world : World) (path : PosixPath) : Except Failure Bool := do
  match ← world.find? path with
  | some .directory => return true
  | _ => return false

/-- The failure of a path that leads nowhere. -/
def strayFailure (path : PosixPath) : Stray → Failure
  | .missing => .noFile path.text
  | .throughFile => .notDirectory path.text
  | .longName => .longName path.text

/-- The bytes of a file. -/
def readBytes (world : World) (path : PosixPath) : Except Failure ByteArray := do
  checkPath path
  match world.find path with
  | .ok (.file content) => return content
  | .ok .directory => throw (.isDirectory path.text)
  | .error stray => throw (strayFailure path stray)

/-- The text of a file; every kind of line break reads as a line feed. -/
def readText (world : World) (path : PosixPath) : Except Failure String := do
  let text ← (Text.decode (← world.readBytes path)).mapError Failure.undecodable
  return String.ofList (Text.unifyNewlines text.toList)

/-- The files below a directory, in order. -/
def listFiles (world : World) (path : PosixPath) : Except Failure (List String) := do
  if ← world.isDirectory path then
    match world.follow path with
    | .ok location => return world.tree.filesBelow location
    | .error stray => throw (strayFailure path stray)
  else throw (.noDirectory path.text)

/-- The files that match a pattern seen from a directory, in order. A file that matches in several
ways occurs as often. -/
def glob (world : World) (directory : PosixPath) (pattern : String) :
    Except Failure (List String) := do
  let path := PosixPath.ofString pattern
  if !Glob.isPattern pattern then
    return if ← world.isFile (directory.join path) then [pattern] else []
  let names := Glob.namesOf pattern
  if names.any Glob.hasWildcards then
    checkPath (directory.join ⟨path.root, names.takeWhile fun name ↦ !Glob.hasWildcards name⟩)
  let start? := if path.isAbsolute then some []
    else (world.follow directory).toOption
  let candidates := (start?.map fun start ↦ Glob.candidates world.tree start pattern).getD []
  let found := candidates.map fun names ↦ PosixPath.mk path.root (names.filter (· != "."))
  let files ← found.filterM fun path ↦ world.isFile (directory.join path)
  return FileTree.sortTexts (files.map PosixPath.text)

/-! ### Writing -/

/-- Writes a file into a directory that is there. -/
def writeBytes (world : World) (path : PosixPath) (content : ByteArray) :
    Except Failure World := do
  checkPath path
  match world.follow path with
  | .error stray => .error (strayFailure path stray)
  | .ok location =>
    match world.tree.get? location with
    | some .directory => .error (.isDirectory path.text)
    | _ => .ok { world with tree := world.tree.insert location (.file content) }

/-- The failure of a directory that is not made. -/
def obstacleFailure (path : PosixPath) : FileTree.Obstacle → Failure
  | .stray stray => strayFailure path stray
  | .occupied => .fileExists path.text

/-- Makes a directory with all the directories around it. -/
def makeDirectories (world : World) (path : PosixPath) : World × Except Failure Unit :=
  match checkPath path with
  | .error failure => (world, .error failure)
  | .ok () =>
    let (tree, result) := world.tree.makeDirectories (world.startOf path) path.names.reverse
    ({ world with tree := tree }, result.mapError fun (obstacle, names) ↦
      obstacleFailure { path with names := names.reverse } obstacle)

/-! ### The network -/

/-- Asks an address. -/
def request (world : World) (url : String) : Answer × World :=
  ((world.network.lookup url).getD (.response 404 .empty),
    { world with requests := world.requests ++ [url] })

/-- More than the number of documents that can be read in a world: each is a file that is there, or
is stored under one of the paths that its address spells. -/
def documentBound (world : World) : Nat :=
  world.network.foldl (fun bound entry ↦ bound + (entry.1.length + 1))
    (world.tree.entries.length + 1)

end World

namespace Run

/-- Logs a message. -/
def say (level : Level) (message : String) : Run Unit := modify (·.say level message)

/-- Reads something of the world. -/
def reading {α : Type} (read : World → Except Failure α) : Run α := do
  match read (← get) with
  | .ok result => return result
  | .error failure => throw failure

/-- Changes the world. -/
def changing (change : World → Except Failure World) : Run Unit := do
  set (← reading change)

/-- Makes a directory with all the directories around it; those made before a failure stay. -/
def makeDirectories (path : PosixPath) : Run Unit := do
  let (world, result) := (← get).makeDirectories path
  set world
  match result with
  | .ok () => return
  | .error failure => throw failure

/-- Writes a text file into a directory that is there. The file is emptied first, so that it stays
empty if no bytes stand for the text. -/
def writeText (path : PosixPath) (text : String) : Run Unit := do
  match Text.encode? text with
  | .ok content => changing (·.writeBytes path content)
  | .error fault => do
    changing (·.writeBytes path .empty)
    throw (.unencodable fault)

end Run

end CabalManifest
