import CabalManifest.Failure
import CabalManifest.Merge
import CabalManifest.Package

/-!
# From the fields of a manifest to a package

A manifest that has been read becomes a package: the common fields at the top are merged into every
section that takes them, the conditionals at the top hold in each of these sections before the
section's own, and the fields of the header that can be derived are filled in. A field that is given
is never derived, and a null that is given keeps a field from being derived.
-/

namespace CabalManifest

/-! ### Sections -/

namespace FieldSet

/-- The fields on how a section itself is built. -/
def withoutNested (body : FieldSet) : FieldSet :=
  body.filterKeys fun key ↦ key != "when" && key != "verbatim"

/-- A section with a body, in a manifest with certain fields at its top. -/
def sectionOf (top : FieldSet) (kind : SectionKind) (name : Option String) (body : FieldSet) :
    Section where
  kind := kind
  name := name
  fields := if kind.takesGlobals then top.mergeSection body else body.withoutNested
  conditionals :=
    if kind.takesGlobals then top.conditionals ++ body.conditionals else body.conditionals
  verbatim := body.verbatim

/-- The programs of a package. A single one without a name is named after the package. -/
def executables (top : FieldSet) (packageName : String) : List (String × FieldSet) :=
  match top.bodies "executables", top.body? "executable" with
  | [], some body => [(packageName, body)]
  | named, _ => named

/-- Whether a single program gives way to named ones. -/
def hasIgnoredExecutable (top : FieldSet) : Bool :=
  top.has "executable" && !(top.bodies "executables").isEmpty

/-- The sections of a package, in the order in which they are written. -/
def sections (top : FieldSet) (packageName : String) : List Section :=
  let single (kind : SectionKind) (key : String) : List Section :=
    (top.body? key).toList.map (top.sectionOf kind none)
  let several (kind : SectionKind) (bodies : List (String × FieldSet)) : List Section :=
    bodies.map fun (name, body) ↦ top.sectionOf kind (some name) body
  single .customSetup "custom-setup" ++ single .library "library" ++
    several .internalLibrary (top.bodies "internal-libraries") ++
    several .executable (top.executables packageName) ++
    several .test (top.bodies "tests") ++ several .benchmark (top.bodies "benchmarks")

end FieldSet

/-! ### Source repositories -/

namespace SourceRepository

/-- Reads `owner/repo`, with a directory in the repository after it if there is one. -/
def ofGithub? (text : String) : Option SourceRepository :=
  match (List.splitOn '/' (Text.dropRight (· == '/') (text.toList.dropWhile (· == '/')))).map String.ofList with
  | owner :: repo :: directory =>
    if owner = "" || repo = "" then none
    else
      let subdir := "/".intercalate directory
      some ⟨"https://github.com/" ++ owner ++ "/" ++ repo, if subdir = "" then none else subdir,
        "git"⟩
  | _ => none

end SourceRepository

/-! ### The header -/

namespace FieldSet

/-- Sets a field that is not there. -/
def insertNew (fields : FieldSet) (key : String) (value : FieldValue) : FieldSet :=
  if fields.has key then fields else fields.insert key value

/-- The fields that are no nulls. -/
def withoutNulls (fields : FieldSet) : FieldSet :=
  ⟨fields.entries.filter fun (_, value) ↦
    match value with
    | .null => false
    | _ => true⟩

/-- The license file that a package has without saying so. -/
def licenseFile : String := "LICENSE"

/-- The fields in front of the sections, given the address of the repository on GitHub and whether
there is a license file. -/
def header (top : FieldSet) (github : Option String) (hasLicense : Bool) : FieldSet :=
  let fields := top.filterKeys fun key ↦
    Field.headerOrder.contains key && key != "name" && key != "version"
  let fields := match github with
    | some url =>
      (fields.insertNew "homepage" (.text (url ++ "#readme"))).insertNew "bug-reports"
        (.text (url ++ "/issues"))
    | none => fields
  let fields := match fields.get? "author" with
    | some author => fields.insertNew "maintainer" author
    | none => fields
  let fields :=
    if hasLicense then fields.insertNew "license-file" (.texts [licenseFile]) else fields
  let buildType := if top.has "custom-setup" then "Custom" else "Simple"
  (fields.insertNew "build-type" (.text buildType)).withoutNulls

/-- The repository of a package on GitHub. -/
def github (top : FieldSet) (source : String) : Except Failure (Option SourceRepository) :=
  match top.text? "github" with
  | none => .ok none
  | some text =>
    match SourceRepository.ofGithub? text with
    | some repository => .ok (some repository)
    | none => .error (.invalid source (Place.top.key "github") (.notRepository (.text text)))

end FieldSet

/-! ### Packages -/

namespace Package

/-- The version of a package that gives none. -/
def defaultVersion : String := "0.0.0"

/-- The package of a manifest with certain fields, and the warnings on the way. -/
def ofFields (source : String) (hasLicense : Bool) (top : FieldSet) :
    Warned Package :=
  match top.text? "name" with
  | none => ([], .error (.invalid source Place.top (.missingKey "name")))
  | some name =>
    (if top.hasIgnoredExecutable then [.executableIgnored source] else [], do
      let github ← top.github source
      return {
        name := name
        version := (top.text? "version").getD defaultVersion
        fields := top.header (github.map (·.location)) hasLicense
        sections := top.sections name
        flags := top.flags
        sourceRepository :=
          github <|> (top.text? "git").map fun location ↦ ⟨location, none, "git"⟩
        verbatim := top.verbatim })

end Package

end CabalManifest
