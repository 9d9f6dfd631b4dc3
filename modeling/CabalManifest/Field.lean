/-!
# The fields of a manifest

Every key of a manifest is described once: how its value is read, how two values for it merge, and
how it is named and laid out in a package description. A key behaves the same in whatever scope it
stands; a *registry*, a list of fields, only says which keys a scope knows.
-/

namespace CabalManifest

/-- The kinds of sections, each a buildable target or the setup program. -/
inductive SectionKind where
  | library
  | internalLibrary
  | executable
  | test
  | benchmark
  | customSetup
  deriving DecidableEq, Repr

/-- How the value of a field is read. -/
inductive Form where
  /-- A text; a null too, if allowed. -/
  | text (nullable : Bool)
  /-- A text or a number. -/
  | version
  | bool
  /-- One of a few words. -/
  | keyword (accepted : List String)
  /-- A text or an array of texts; a null too, if allowed. -/
  | texts (nullable : Bool)
  /-- File patterns, which stand for the files they match. -/
  | globs
  | dependencies
  | conditionals
  | verbatim
  /-- References that are followed while their scope is read. -/
  | defaults
  /-- The body of one section. -/
  | body (kind : SectionKind)
  /-- The bodies of named sections. -/
  | bodies (kind : SectionKind)
  | flags
  deriving DecidableEq, Repr

/-- How a value gives way to one of higher precedence. -/
inductive Merging where
  /-- The higher value wins. -/
  | replace
  /-- The items of the lower value come first, then those of the higher one. -/
  | concat
  /-- Entries of the same name are replaced, others appended. -/
  | keyed
  /-- Both field sets are merged. -/
  | fieldSet
  /-- The field sets of the same name are merged, others appended. -/
  | fieldSets
  deriving DecidableEq, Repr

/-- How a value is laid out in a package description. -/
inductive Style where
  /-- After the name, in the same line. -/
  | scalar
  /-- One item in a line. -/
  | lines
  /-- One item in a line, with commas between items. -/
  | commas
  /-- All items in one line, with spaces between them. -/
  | words
  /-- All items in one line, with commas between them. -/
  | joined
  deriving DecidableEq, Repr

/-- A key and all that depends on it. -/
structure Field where
  key : String
  form : Form
  merging : Merging
  /-- The name in a package description. -/
  label : String
  style : Style

/-- The fields that a scope knows. -/
abbrev Registry := List Field

/-- The field of a key. -/
def Registry.find? (registry : Registry) (key : String) : Option Field :=
  List.find? (·.key == key) registry

namespace Field

/-- A field whose higher value wins and which is written after its name. -/
def plain (key : String) (form : Form) : Field := ⟨key, form, .replace, key, .scalar⟩

/-- A list of texts. -/
def texts (key : String) (merging : Merging) (style : Style) : Field :=
  ⟨key, .texts false, merging, key, style⟩

/-- A list of file patterns. -/
def globs (key : String) : Field := ⟨key, .globs, .concat, key, .lines⟩

/-- The kinds of build systems. -/
def buildTypes : List String := ["Simple", "Configure", "Make", "Custom"]

/-! ### The registries -/

/-- The fields of a package as a whole. -/
def package : Registry :=
  [plain "name" (.text false), plain "version" .version, plain "synopsis" (.text false),
    plain "description" (.text false), plain "category" (.text false),
    plain "stability" (.text false), plain "homepage" (.text true),
    plain "bug-reports" (.text true), texts "author" .replace .joined,
    ⟨"maintainer", .texts true, .replace, "maintainer", .joined⟩,
    texts "copyright" .replace .joined, plain "license" (.text false),
    texts "license-file" .replace .lines, texts "tested-with" .replace .joined,
    plain "build-type" (.keyword buildTypes), globs "extra-source-files", globs "extra-doc-files",
    globs "data-files", plain "data-dir" (.text false), plain "github" (.text false),
    plain "git" (.text false), ⟨"flags", .flags, .keyed, "flags", .scalar⟩,
    ⟨"custom-setup", .body .customSetup, .fieldSet, "custom-setup", .scalar⟩,
    ⟨"library", .body .library, .fieldSet, "library", .scalar⟩,
    ⟨"internal-libraries", .bodies .internalLibrary, .fieldSets, "internal-libraries", .scalar⟩,
    ⟨"executable", .body .executable, .fieldSet, "executable", .scalar⟩,
    ⟨"executables", .bodies .executable, .fieldSets, "executables", .scalar⟩,
    ⟨"tests", .bodies .test, .fieldSets, "tests", .scalar⟩,
    ⟨"benchmarks", .bodies .benchmark, .fieldSets, "benchmarks", .scalar⟩]

/-- The fields that stand at the top, in every section and in every conditional branch. -/
def common : Registry :=
  [⟨"source-dirs", .texts false, .concat, "hs-source-dirs", .lines⟩,
    texts "default-extensions" .concat .words, texts "other-extensions" .concat .words,
    texts "ghc-options" .concat .words, texts "ghc-prof-options" .concat .words,
    texts "ghc-shared-options" .concat .words, texts "ghcjs-options" .concat .words,
    texts "cpp-options" .concat .words, texts "cc-options" .concat .words, globs "c-sources",
    texts "cxx-options" .concat .words, globs "cxx-sources", globs "js-sources",
    texts "extra-lib-dirs" .concat .lines, texts "extra-libraries" .concat .lines,
    texts "extra-frameworks-dirs" .concat .lines, texts "frameworks" .concat .lines,
    texts "include-dirs" .concat .lines, texts "install-includes" .concat .lines,
    texts "ld-options" .concat .words,
    ⟨"pkg-config-dependencies", .texts false, .concat, "pkgconfig-depends", .commas⟩,
    ⟨"dependencies", .dependencies, .concat, "build-depends", .commas⟩,
    texts "build-tools" .concat .commas, plain "buildable" .bool,
    ⟨"when", .conditionals, .concat, "when", .scalar⟩]

/-- The further fields of libraries. -/
def library : Registry :=
  [plain "exposed" .bool, texts "exposed-modules" .concat .lines,
    texts "other-modules" .concat .lines, texts "generated-exposed-modules" .concat .scalar,
    texts "generated-other-modules" .concat .scalar, texts "reexported-modules" .concat .commas,
    texts "signatures" .concat .lines]

/-- The further fields of programs. -/
def executable : Registry :=
  [⟨"main", .text false, .replace, "main-is", .scalar⟩, texts "other-modules" .concat .lines,
    texts "generated-other-modules" .concat .scalar]

/-- The fields of the setup program. -/
def customSetup : Registry :=
  [⟨"dependencies", .dependencies, .concat, "setup-depends", .commas⟩]

/-- The fields of whole documents and section bodies, which no conditional branch knows. -/
def scope : Registry :=
  [plain "defaults" .defaults, ⟨"verbatim", .verbatim, .concat, "verbatim", .scalar⟩]

/-- The fields that module inference adds and no manifest gives. -/
def inferred : Registry := [texts "autogen-modules" .concat .lines]

/-- All fields, each as it behaves outside of the setup program. -/
def all : Registry := package ++ common ++ library ++ executable ++ scope ++ inferred

/-- The fields at the top of a document. -/
def topLevel : Registry := package ++ common

/-- How two values of a key merge. A key that no registry has is replaced. -/
def mergingOf (key : String) : Merging := ((Registry.find? all key).map (·.merging)).getD .replace

/-! ### The order of fields -/

/-- The fields in front of the sections, in the order in which they are written. -/
def headerOrder : List String :=
  ["name", "version", "synopsis", "description", "category", "stability", "homepage",
    "bug-reports", "author", "maintainer", "copyright", "license", "license-file", "tested-with",
    "build-type", "cabal-version", "extra-source-files", "extra-doc-files", "data-files",
    "data-dir"]

/-- The fields on how a section is built, in the order in which they are written. -/
def buildOrder : List String :=
  ["source-dirs", "default-extensions", "other-extensions", "ghc-options", "ghc-prof-options",
    "ghc-shared-options", "ghcjs-options", "cpp-options", "cc-options", "c-sources", "cxx-options",
    "cxx-sources", "js-sources", "extra-lib-dirs", "extra-libraries", "extra-frameworks-dirs",
    "frameworks", "include-dirs", "install-includes", "ld-options", "pkg-config-dependencies",
    "dependencies", "build-tools", "buildable"]

/-- The fields that name modules. -/
def moduleLists : List String :=
  ["exposed-modules", "other-modules", "generated-exposed-modules", "generated-other-modules"]

end Field

/-! ### Sections -/

namespace SectionKind

/-- The fields that the body of a section knows. -/
def fields : SectionKind → Registry
  | customSetup => Field.customSetup
  | library | internalLibrary => Field.common ++ Field.library
  | executable | test | benchmark => Field.common ++ Field.executable

/-- The fields of a section in the order in which they are written. -/
def order : SectionKind → List String
  | customSetup => ["dependencies"]
  | library | internalLibrary =>
    ["exposed", "exposed-modules", "other-modules", "autogen-modules", "reexported-modules",
      "signatures"] ++ Field.buildOrder
  | executable | test | benchmark =>
    ["main", "other-modules", "autogen-modules"] ++ Field.buildOrder

/-- The word that starts a section in a package description. -/
def header : SectionKind → String
  | customSetup => "custom-setup"
  | library | internalLibrary => "library"
  | executable => "executable"
  | test => "test-suite"
  | benchmark => "benchmark"

/-- Whether a section exposes modules, so that those found in its directories become exposed. -/
def exposesModules : SectionKind → Bool
  | library | internalLibrary => true
  | _ => false

/-- Whether a section takes over the common fields at the top of the manifest. -/
def takesGlobals : SectionKind → Bool
  | customSetup => false
  | _ => true

end SectionKind

end CabalManifest
