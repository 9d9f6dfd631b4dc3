import CabalManifest.CommandLine

/-!
# The program

Runs a command on the disk: the directories that the command can concern are read into a world, the
command runs in it, and the files that it changed are written back. There is no connection to a
network, so that only documents in the store can be taken over.
-/

namespace CabalManifest.Program

/-- How deep directories are read. -/
def maxDepth : Nat := 64

/-- Reads what some entries of a directory stand for, with all that is below them. -/
def readEntries : Nat → Location → Array IO.FS.DirEntry → IO (List (Location × Entry))
  | 0, _, _ => return []
  | depth + 1, location, entries =>
    entries.toList.flatMapM fun entry ↦ do
      let path := entry.path
      let found := location ++ [entry.fileName]
      if ← path.isDir then
        return (found, .directory) :: (← readEntries depth found (← path.readDir))
      if ← path.pathExists then return [(found, .file (← IO.FS.readBinFile path))]
      return []

/-- Reads all that is in a directory, if there is such a directory. -/
def readDirectory (path : PosixPath) : IO (List (Location × Entry)) := do
  let place := (← IO.currentDir) / path.text
  if ← place.isDir then readEntries maxDepth path.names (← place.readDir) else return []

/-- The directories that are in none of the others. -/
def outermost (paths : List PosixPath) : List PosixPath :=
  paths.eraseDups.filter fun path ↦ !paths.any fun other ↦
    other ≠ path && other.names.isPrefixOf path.names

/-- A directory with all directories around it. -/
def around (path : PosixPath) : List Location :=
  (List.range path.names.length).map fun n ↦ path.names.take (n + 1)

/-- Reads some directories. -/
def readTree (paths : List PosixPath) : IO FileTree := do
  let paths := outermost paths
  let found ← paths.flatMapM readDirectory
  return ⟨(paths.flatMap around).eraseDups.map (·, .directory) ++ found⟩

/-- The variables of the environment that matter. -/
def readEnvironment : IO (Entries String) :=
  ["HOME", "CABALIZE_DEFAULTS_DIR", "CABALIZE_LOG_LEVEL", "LOG_LEVEL"].filterMapM fun name ↦ do
    return (← IO.getEnv name).map (name, ·)

/-- The home directories of the accounts. -/
def readHomes : IO (Entries String) := do
  let table : String := "/etc/passwd"
  try return World.homesOf (← IO.FS.readFile table) catch _ => return []

/-- The directory of the manifest that an operand names. -/
def operandDirectory (world : World) (operand : String) : IO PosixPath := do
  let path := world.resolve (PosixPath.ofString operand)
  if ← ((← IO.currentDir) / path.text).isDir then return path else return path.parent

/-- The directories that a command can concern. -/
def directories (arguments : List String) (world : World) : IO (List PosixPath) := do
  match CommandLine.Request.ofArguments arguments with
  | .run options =>
    let named ← options.path.toList.mapM (operandDirectory world)
    let store := (Store.directory options.defaultsDir world).toOption.toList
    return world.place :: named ++ store.map world.resolve
  | _ => return []

/-- The world that a command starts in. -/
def readWorld (arguments : List String) : IO World := do
  let place := PosixPath.ofString (← IO.currentDir).toString
  let world : World := ⟨.empty, [], place, ← readEnvironment, ← readHomes, [], .info, []⟩
  return { world with tree := ← readTree (← directories arguments world) }

/-- Writes the files that a command changed. -/
def writeChanges (before after : FileTree) : IO Unit :=
  after.entries.forM fun (location, entry) ↦ do
    match entry, before.get? location with
    | .file content, some (.file known) =>
      if content != known then IO.FS.writeBinFile ("/" ++ "/".intercalate location) content
    | .file content, _ => do
      IO.FS.createDirAll ("/" ++ "/".intercalate location.dropLast)
      IO.FS.writeBinFile ("/" ++ "/".intercalate location) content
    | .directory, _ => pure ()

/-- Runs the program with some arguments. -/
def run (arguments : List String) : IO UInt32 := do
  let before ← readWorld arguments
  let (report, after) := (CommandLine.run arguments).run before
  writeChanges before.tree after.tree
  after.log.forM fun (_, message) ↦ IO.eprintln message
  IO.print report.stdout
  IO.eprint report.stderr
  return UInt32.ofNat report.code

end CabalManifest.Program

/-- The command line. -/
def main (arguments : List String) : IO UInt32 := CabalManifest.Program.run arguments
