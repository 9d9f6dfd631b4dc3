import CabalManifest.Inference
import CabalManifest.Manifest
import CabalManifest.Rendering
import CabalManifest.Resolution

/-!
# Building package descriptions

Compiles a manifest into the text of its package description, and writes that text next to the
manifest. A description starts with a header that says it was generated; one without the header was
written by hand and is replaced only on demand, and one that would not change is not written.
-/

namespace CabalManifest

/-! ### Compiling -/

/-- A compiled manifest. -/
structure Compiled where
  /-- The file of the package description. -/
  target : PosixPath
  /-- The description, without the header. -/
  text : String
  warnings : List Warning

/-- What every generated description starts with. -/
def generatedHeader : String :=
  String.join ["-- This file has been generated from package.yaml by cabalize.\n", "--\n",
    "-- Changes here are overwritten; edit the manifest instead.\n", "\n"]

/-- The whole content of the package description. -/
def Compiled.output (compiled : Compiled) : String := generatedHeader ++ compiled.text

/-- Lists the files below the source directories of a package. -/
def World.lister (world : World) (directory : PosixPath) : Lister := fun dir ↦
  match world.listFiles (directory.below dir) with
  | .ok files => .ok (some files)
  | .error (.noDirectory _) => .ok none
  | .error failure => .error failure

/-- A number of things. -/
def counted (n : Nat) (thing : String) : String := toString n ++ " " ++ thing ++ "(s)"

namespace Manifest

/-- Reads the fields of a manifest, with all that it refers to. -/
def readFields (manifest : PosixPath) (resolver : Resolver) :
    Run (List Warning × FieldSet) := do
  let entries ← load manifest
  let world ← get
  let context := Context.ofPackage manifest.name manifest.parent (some resolver)
  let (warnings, fields) ← (context.package world.documentBound (.object entries)).inWorld
  return (warnings, ← Run.reading fun _ ↦ fields)

/-- The package of a manifest, with the modules of its source directories. -/
def readPackage (manifest : PosixPath) (resolver : Resolver) :
    Run (List Warning × Package) := do
  let directory := manifest.parent
  let (warnings, fields) ← readFields manifest resolver
  let hasLicense ← Run.reading (·.isFile (directory.below FieldSet.licenseFile))
  let (further, package) := Package.ofFields manifest.name hasLicense fields
  let package ← Run.reading fun _ ↦ package
  Run.say .debug ("Resolved package " ++ package.name ++ "-" ++ package.version ++ " with " ++
    counted package.sections.length "section")
  let (package, discovery) ← Run.reading fun world ↦
    (package.infer (world.lister directory)).run Discovery.start
  Run.say .debug ("Inferred modules for " ++ counted package.sections.length "section")
  return (warnings ++ further ++ discovery.warnings, package)

/-- The text to take the layout from: the one that is given, else the description that is there. -/
def previousText (previous : Option String) (target : PosixPath) : Run (Option String) := do
  match previous with
  | some text => return some text
  | none =>
    if ← Run.reading (·.isFile target) then some <$> Run.reading (·.readText target)
    else return none

/-- Compiles a manifest, writing nothing but downloaded documents. -/
def compile (manifest : PosixPath) (store : PosixPath) (previous : Option String) :
    Run Compiled := do
  let directory := manifest.parent
  let (warnings, package) ← readPackage manifest ⟨store, some directory⟩
  let target := directory.below (package.name ++ ".cabal")
  let hints := match ← previousText previous target with
    | none | some "" => LayoutHints.standard
    | some text => LayoutHints.ofText text
  unless package.isWritable do throw (.longInteger none)
  Run.say .debug ("Compiled " ++ target.name ++ " (" ++ counted warnings.length "warning" ++ ")")
  return ⟨target, package.render hints, warnings⟩

/-! ### Building -/

/-- How a build ended. -/
inductive Outcome where
  /-- The description is printed, not written. -/
  | printed (output : String)
  | generated
  | upToDate
  /-- There is a description that was written by hand. -/
  | modified
  deriving DecidableEq, Repr

/-- Whether a description was written by hand. -/
def isHandwritten (text : String) : Bool := !text.startsWith generatedHeader

/-- Puts a compiled description in its place, unless it is there already or would replace one that
was written by hand; only `force` permits that. -/
def install (compiled : Compiled) (force : Bool) : Run Outcome := do
  let target := compiled.target
  let present ← previousText none target
  if present = some compiled.output then
    Run.say .info (target.name ++ " is up-to-date")
    return .upToDate
  if present.any isHandwritten && !force then
    Run.say .warning
      (target.name ++ " was modified manually, please use --force to overwrite.")
    return .modified
  Run.writeText target compiled.output
  Run.say .info ("Generated " ++ target.name)
  return .generated

/-- Compiles a manifest, and prints the description or puts it in its place. -/
def build (manifest : PosixPath) (store : PosixPath) (toOutput force : Bool) : Run Outcome := do
  let compiled ← compile manifest store none
  compiled.warnings.forM fun warning ↦ Run.say .warning warning.message
  if toOutput then return .printed compiled.output
  install compiled force

end Manifest

end CabalManifest
