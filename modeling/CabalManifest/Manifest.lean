import CabalManifest.Manifest.Scope

/-!
# Manifests on disk

Finds and loads the manifest of a package, and reads it in the world: its file patterns are matched
against the files of the package, and its references are resolved through the store and the network.
-/

namespace CabalManifest

/-! ### Finding and loading -/

namespace Manifest

/-- The name of the manifest in the directory of its package. -/
def fileName : String := "package.yaml"

/-- The manifest that a path names, either itself or by its directory. -/
def find (path : Option String) : Run PosixPath := do
  let place := (← get).place
  let start ← match path with
    | none => pure place
    | some path => place.join <$> Run.reading (·.expandHome (PosixPath.ofString path))
  let target :=
    if ← Run.reading (·.isDirectory start) then start.below fileName else start
  if ← Run.reading (·.isFile target) then return (← get).resolve target
  throw (.noManifest (if target.parent = place then target.name else target.text))

/-- The fields of a manifest; it has to be an object. -/
def load (manifest : PosixPath) : Run (List (String × Value)) := do
  let text ← Run.reading (·.readText manifest)
  match ← Run.reading fun _ ↦ Yaml.readText manifest.name text with
  | .object entries => return entries
  | value => throw (.invalid manifest.name Place.top (.expected "Object" value.shape))

end Manifest

/-! ### Reading in the world -/

/-- The services of the world to a package: its own files, and the documents that can be resolved. -/
def Services.ofPackage (directory : PosixPath) (resolver? : Option Resolver) :
    Services (Cache × World) where
  glob pattern := fun (_, world) ↦ world.glob directory pattern
  resolve? := resolver?.map fun resolver reference visited base (cache, world) ↦
    match (resolver.resolve reference visited base).run cache world with
    | (.ok (document, cache), world) => (.ok document, (cache, world))
    | (.error failure, world) => (.error failure, (cache, world))

/-- The context of a manifest in the directory of its package. -/
def Context.ofPackage (source : String) (directory : PosixPath) (resolver? : Option Resolver) :
    Context (Cache × World) :=
  ⟨.ofPackage directory resolver?, source, directory, []⟩

/-- Reads in the world, with nothing remembered yet. -/
def Decode.inWorld {α : Type} (decode : Decode (Cache × World) α) : StateM World (Warned α) := do
  let (result, progress) := decode.run ⟨[], [], ← get⟩
  set progress.state.2
  return (progress.warnings, result)

theorem Decode.run_inWorld {α : Type} (decode : Decode (Cache × World) α) (world : World) :
    decode.inWorld.run world = (((decode.run ⟨[], [], world⟩).2.warnings,
      (decode.run ⟨[], [], world⟩).1), (decode.run ⟨[], [], world⟩).2.state.2) :=
  rfl

end CabalManifest
