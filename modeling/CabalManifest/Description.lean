import CabalManifest.Element
import CabalManifest.ModuleName
import CabalManifest.Package

/-!
# From packages to elements

The elements of a package description in their standard order: the header, the source repository,
the flags, and the sections with their conditionals. The header names the lowest version of the
description format that has all the features in use.
-/

namespace CabalManifest

/-! ### The version of the format -/

/-- A version of the format of package descriptions. -/
structure FormatVersion where
  major : Nat
  minor : Nat
  deriving DecidableEq, Repr

namespace FormatVersion

/-- Whether a version comes before another one. -/
def before (a b : FormatVersion) : Bool :=
  a.major < b.major || (a.major == b.major && a.minor < b.minor)

/-- The later of two versions. -/
def later (a b : FormatVersion) : FormatVersion := if a.before b then b else a

/-- The version of a description without special features. -/
def lowest : FormatVersion := ⟨1, 10⟩

/-- A version as text. -/
def text (v : FormatVersion) : String := toString v.major ++ "." ++ toString v.minor

end FormatVersion

mutual

/-- The field sets of a scope and of the conditional branches in it. -/
def FieldSet.scopes (fields : FieldSet) : List FieldSet :=
  fields :: Conditional.scopesIn fields.conditionals
termination_by sizeOf fields
decreasing_by exact fields.sizeOf_conditionals_lt

/-- The field sets of the branches of some conditionals, at any depth. -/
def Conditional.scopesIn : List Conditional → List FieldSet
  | [] => []
  | ⟨_, thenFields, none⟩ :: rest => thenFields.scopes ++ Conditional.scopesIn rest
  | ⟨_, thenFields, some elseFields⟩ :: rest =>
    thenFields.scopes ++ elseFields.scopes ++ Conditional.scopesIn rest
termination_by conditionals => sizeOf conditionals

end

/-- Whether a list is there and has items. -/
def FieldSet.uses (fields : FieldSet) (key : String) : Bool := !(fields.texts key).isEmpty

/-- The versions that the fields of a scope ask for. -/
def FieldSet.formatVersions (fields : FieldSet) : List FormatVersion :=
  (if fields.uses "reexported-modules" then [⟨1, 22⟩] else []) ++
    (if fields.uses "signatures" || fields.uses "autogen-modules" then [⟨2, 0⟩] else [])

/-- The versions that a section asks for. -/
def Section.formatVersions (part : Section) : List FormatVersion :=
  (match part.kind with
    | .customSetup => [⟨1, 24⟩]
    | .internalLibrary => [⟨2, 0⟩]
    | _ => []) ++
    (part.fields :: Conditional.scopesIn part.conditionals).flatMap FieldSet.formatVersions

/-- The lowest version of the format that has every feature a package uses. -/
def Package.formatVersion (package : Package) : FormatVersion :=
  let asked := (if package.fields.uses "extra-doc-files" then [⟨1, 18⟩] else []) ++
    package.sections.flatMap Section.formatVersions
  asked.foldl FormatVersion.later FormatVersion.lowest

/-! ### Fields -/

/-- A truth value as it is written. -/
def boolText (b : Bool) : String := if b then "True" else "False"

/-- A list of items as it is laid out; without items there is nothing to write. -/
def Field.itemsElement (field : Field) (items : List String) : Option Element :=
  if items.isEmpty then none
  else some <| .field field.label <|
    match field.style with
    | .words => .inline (" ".intercalate items)
    | .joined => .inline (", ".intercalate items)
    | .commas => .commas items
    | .lines | .scalar => .lines items

/-- The element of a field with a value. -/
def Field.element? (field : Field) : FieldValue → Option Element
  | .dependencies items => field.itemsElement (items.map Dependency.text)
  | .texts items => field.itemsElement items
  | .bool b => some (.field field.label (.inline (boolText b)))
  | .text s => some (.field field.label (.ofText s))
  | _ => none

/-- Splits the main file into the file and an option for the compiler. -/
def FieldSet.withMain (fields : FieldSet) : FieldSet :=
  match fields.text? "main" with
  | none => fields
  | some main =>
    match ModuleName.splitMain main with
    | (file, none) => fields.insert "main" (.text file)
    | (file, some target) =>
      let options := fields.texts "ghc-options" ++ ["-main-is " ++ target]
      (fields.insert "main" (.text file)).insert "ghc-options" (.texts options)

/-- Setting the main file apart changes the main file, and may tell the compiler the main program. -/
theorem FieldSet.get?_withMain_eq_some {fields : FieldSet} {key : String} {value : FieldValue}
    (h : fields.withMain.get? key = some value) :
    fields.get? key = some value ∨ ∃ main, fields.get? "main" = some (.text main) ∧
      (key = "main" ∧ value = .text (ModuleName.splitMain main).1 ∨
        key = "ghc-options" ∧
          value = .texts (fields.texts "ghc-options" ++ ["-main-is " ++ main])) := by
  rw [withMain] at h
  split at h
  · exact .inl h
  · next main hmain =>
    have hgiven := text?_eq_some_iff.1 hmain
    split at h
    · next file hsplit =>
      rw [get?_insert] at h
      split at h
      · next hkey =>
        cases h
        exact .inr ⟨main, hgiven, .inl ⟨hkey.symm, by rw [hsplit]⟩⟩
      · exact .inl h
    · next file target hsplit =>
      obtain rfl := ModuleName.eq_of_splitMain_eq hsplit
      rw [get?_insert, get?_insert] at h
      split at h
      · next hkey =>
        cases h
        exact .inr ⟨target, hgiven, .inr ⟨hkey.symm, rfl⟩⟩
      · split at h
        · next hkey =>
          cases h
          exact .inr ⟨target, hgiven, .inl ⟨hkey.symm, by rw [hsplit]⟩⟩
        · exact .inl h

/-- The elements of the fields of a scope, in the order of their keys. -/
def FieldSet.elements (fields : FieldSet) (kind : SectionKind) : List Element :=
  kind.order.filterMap fun key ↦
    match fields.get? key, kind.fields.find? key <|> Registry.find? Field.all key with
    | some value, some field => field.element? value
    | _, _ => none

/-! ### Conditionals -/

mutual

/-- The elements of a conditional branch. -/
def FieldSet.branchElements (kind : SectionKind) (fields : FieldSet) : List Element :=
  fields.withMain.elements kind ++ Conditional.elements kind fields.conditionals
termination_by sizeOf fields
decreasing_by exact fields.sizeOf_conditionals_lt

/-- The stanzas of some conditionals: for each its condition, and what holds otherwise. -/
def Conditional.elements (kind : SectionKind) : List Conditional → List Element
  | [] => []
  | ⟨condition, thenFields, none⟩ :: rest =>
    .stanza ("if " ++ condition) (thenFields.branchElements kind) false ::
      Conditional.elements kind rest
  | ⟨condition, thenFields, some elseFields⟩ :: rest =>
    .stanza ("if " ++ condition) (thenFields.branchElements kind) false ::
      .stanza "else" (elseFields.branchElements kind) false :: Conditional.elements kind rest
termination_by conditionals => sizeOf conditionals

end

/-! ### Packages -/

/-- The language that sections are written in. -/
def defaultLanguage : String := "Haskell2010"

/-- The elements in front of a section's own fields. -/
def SectionKind.opening : SectionKind → List Element
  | .test | .benchmark => [.field "type" (.inline "exitcode-stdio-1.0")]
  | _ => []

/-- The elements behind a section's own fields. -/
def SectionKind.closing : SectionKind → List Element
  | .customSetup => []
  | _ => [.field "default-language" (.inline defaultLanguage)]

/-- The stanza of a section. -/
def Section.element (part : Section) : Element :=
  let elements := part.kind.opening ++ part.fields.withMain.elements part.kind ++
    Conditional.elements part.kind part.conditionals ++ part.kind.closing
  .stanza part.header (Element.overrideAll elements part.verbatim) true

/-- The stanza of a flag. -/
def Flag.element (flag : Flag) : Element :=
  let description := flag.description.map fun text ↦ Element.field "description" (.ofText text)
  .stanza ("flag " ++ flag.name)
    (description.toList ++
      [.field "manual" (.inline (boolText flag.manual)),
        .field "default" (.inline (boolText flag.default))])
    true

/-- The stanza of a source repository. -/
def SourceRepository.element (repository : SourceRepository) : Element :=
  let subdir := match repository.subdir with
    | none | some "" => []
    | some subdir => [Element.field "subdir" (.inline subdir)]
  .stanza "source-repository head"
    ([.field "type" (.inline repository.kind),
      .field "location" (.inline repository.location)] ++ subdir)
    true

/-- The element of a list of license files; a single one has a name of its own. -/
def licenseElement? : List String → Option Element
  | [] => none
  | [file] => some (.field "license-file" (.inline file))
  | files => some (.field "license-files" (.lines files))

/-- The element of a header field. -/
def Package.headerElement? (package : Package) (key : String) : Option Element :=
  match key with
  | "name" => some (.field "name" (.inline package.name))
  | "version" => some (.field "version" (.inline package.version))
  | "cabal-version" =>
    some (.field "cabal-version" (.inline (">= " ++ package.formatVersion.text)))
  | "license-file" => licenseElement? (package.fields.texts "license-file")
  | key =>
    match package.fields.get? key, Registry.find? Field.all key with
    | some value, some field => field.element? value
    | _, _ => none

/-- The elements of a package in their standard order, with the overrides at its top applied. -/
def Package.elements (package : Package) : List Element :=
  let elements := Field.headerOrder.filterMap package.headerElement? ++
    (package.sourceRepository.map SourceRepository.element).toList ++
    package.flags.map Flag.element ++ package.sections.map Section.element
  Element.overrideAll elements package.verbatim

end CabalManifest
