import CabalManifest.FieldSet

/-!
# Packages

A package once everything has been merged: the fields of its header and its sections, each with its
own fields and the conditionals that hold in it.
-/

namespace CabalManifest

/-- A buildable target, or the setup program. -/
structure Section where
  kind : SectionKind
  name : Option String
  fields : FieldSet
  conditionals : List Conditional
  verbatim : List Verbatim

/-- The line that starts a section. -/
def Section.header (part : Section) : String :=
  match part.name with
  | none => part.kind.header
  | some name => part.kind.header ++ " " ++ name

/-- Whether every value of an override has a text. -/
def Verbatim.isWritable : Verbatim → Bool
  | raw _ => true
  | fields entries => entries.all fun entry ↦ entry.2.isWritable

/-- Where the sources of a package are kept. -/
structure SourceRepository where
  location : String
  subdir : Option String
  kind : String
  deriving DecidableEq, Repr

/-- A package, ready to be written. -/
structure Package where
  name : String
  version : String
  fields : FieldSet
  sections : List Section
  flags : List Flag
  sourceRepository : Option SourceRepository
  verbatim : List Verbatim

/-- Whether every override of a package and its sections has a text. -/
def Package.isWritable (package : Package) : Bool :=
  (package.verbatim ++ package.sections.flatMap (·.verbatim)).all Verbatim.isWritable

end CabalManifest
