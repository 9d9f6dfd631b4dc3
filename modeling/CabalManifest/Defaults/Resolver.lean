import CabalManifest.Defaults.Store

/-!
# Resolving references

Turns a reference into the document it names. A document is known by the absolute path of its file,
however the reference spells it: this decides whether a document refers back to one that led to it,
and whether it has been read before.
-/

namespace CabalManifest

/-- A document of defaults, and where it comes from. -/
structure Document where
  /-- The fields of the document. -/
  value : List (String × Value)
  /-- The name of the document in messages. -/
  source : String
  /-- The absolute path of the document. -/
  canonical : String
  /-- Where references of the document itself start. -/
  directory : PosixPath

/-- Where references lead. -/
structure Resolver where
  /-- The directory of the store. -/
  store : PosixPath
  /-- What paths in messages are relative to. -/
  displayRoot : Option PosixPath

/-- The documents that were read in a run, by their absolute paths. -/
abbrev Cache := Entries (List (String × Value))

namespace Resolver

/-- A computation that also remembers the documents it read. -/
abbrev Resolving := StateT Cache Run

/-- The file that a reference names, seen from a directory. -/
def fileOf (resolver : Resolver) (base : PosixPath) : Reference → PosixPath
  | .onDisk path => base.below path
  | .github document => document.location resolver.store

/-- The file that a reference names, and its name in messages. -/
def locate (resolver : Resolver) (base : PosixPath) (reference : Reference) (world : World) :
    Except Failure (PosixPath × String) := do
  let file := resolver.fileOf base reference
  return (file, ← world.shorten file resolver.displayRoot)

/-- The content of the document that a reference names. -/
def content (resolver : Resolver) (file : PosixPath) (label : String) : Reference → Run ByteArray
  | .onDisk _ => do
    match (← get).readBytes file with
    | .ok content => return content
    | .error (.noFile _) => throw (.missingDefaults label true)
    | .error failure => throw failure
  | .github document => Store.fetch resolver.store document

/-- Reads the document that a reference names; it has to be an object. -/
def load (resolver : Resolver) (file : PosixPath) (label : String) (reference : Reference) :
    Run (List (String × Value)) := do
  let content ← resolver.content file label reference
  match ← Run.reading fun _ ↦ Yaml.readBytes label content with
  | .object entries => return entries
  | value => throw (.invalid label Place.top (.expected "Object" value.shape))

/-- The cycle that ends a chain of documents at one of its members. -/
def cycleTo (canonical : String) (visited : List String) : List String :=
  visited.dropWhile (· != canonical) ++ [canonical]

/-- The document that a reference names, seen from a directory, given the chain of documents that
leads to it. -/
def resolve (resolver : Resolver) (reference : Reference) (visited : List String)
    (base : PosixPath) : Resolving Document := do
  let (file, label) ← Run.reading (resolver.locate base reference)
  let world ← getThe World
  let canonical := (world.resolve file).text
  if visited.contains canonical then throw (.cyclicDefaults (cycleTo canonical visited))
  let value ← match (← getThe Cache).get? canonical with
    | some value => pure value
    | none => do
      let value ← resolver.load file label reference
      modifyThe Cache (·.insert canonical value)
      pure value
  return ⟨value, label, canonical, file.parent⟩

end Resolver

end CabalManifest
