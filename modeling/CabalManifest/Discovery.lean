import CabalManifest.Failure
import CabalManifest.ModuleName

/-!
# Finding modules

The modules under a source directory, in the order in which its files are listed. A directory is
listed once, on its first use; one that is not there has no modules and is warned about once. How
files are listed is up to the monad of the lister.
-/

namespace CabalManifest

/-- Lists the files below a source directory, if there is such a directory. -/
abbrev Listing (m : Type → Type) := String → m (Option (List String))

/-- Lists files, or fails where a directory cannot be looked for. -/
abbrev Lister := Listing (Except Failure)

/-- What has been found so far. -/
structure Discovery where
  /-- The modules of each directory, in the order of first use. -/
  found : Entries (List String)
  /-- What is worth a warning, in order. -/
  warnings : List Warning

namespace Discovery

/-- Nothing has been listed yet. -/
def start : Discovery := ⟨[], []⟩

/-- A computation that finds modules. -/
abbrev Finding (m : Type → Type) := StateT Discovery m

/-- A computation that finds modules. It fails where a directory cannot be looked for. -/
abbrev Finder := Finding (Except Failure)

variable {m : Type → Type} [Monad m]

/-- The modules of a list of files. -/
def modulesOf (files : List String) : List String := (files.filterMap ModuleName.ofPath?).eraseDups

/-- The modules under a source directory. -/
def modulesIn (lister : Listing m) (dir : String) : Finding m (List String) := do
  let state ← get
  match state.found.get? dir with
  | some modules => return modules
  | none =>
    let files? ← lister dir
    let modules := modulesOf (files?.getD [])
    let warnings := if files?.isSome then state.warnings else state.warnings ++ [.noSourceDir dir]
    set (⟨state.found.insert dir modules, warnings⟩ : Discovery)
    return modules

/-- The modules under several source directories, each module once. -/
def discover (lister : Listing m) (dirs : List String) : Finding m (List String) := do
  let modules ← dirs.mapM (modulesIn lister)
  return modules.flatten.eraseDups

end Discovery

end CabalManifest
