import CabalManifest.Failure
import CabalManifest.PosixPath

/-!
# References to defaults

A manifest can take over fields from other documents. A reference names such a document, in a file
on disk or in a public repository at some revision. It is written as `owner/repo@ref`, or as an
object with the keys `local`, or `github`, `ref` and `path`.
-/

namespace CabalManifest

/-- A document in a repository at a revision. -/
structure Repository where
  owner : String
  repo : String
  ref : String
  path : String
  deriving DecidableEq, Repr

/-- A reference to a document. -/
inductive Reference where
  | github (document : Repository)
  | onDisk (path : String)
  deriving DecidableEq, Repr

namespace Repository

/-- The path of a document whose reference gives none. -/
def defaultPath : String := ".hpack/defaults.yaml"

/-- The address of a document. -/
def url (r : Repository) : String :=
  "https://raw.githubusercontent.com/" ++ r.owner ++ "/" ++ r.repo ++ "/" ++ r.ref ++ "/" ++ r.path

/-- The place of a document in a store. -/
def location (store : PosixPath) (r : Repository) : PosixPath :=
  (((store.below r.owner).below r.repo).below r.ref).below r.path

/-- A character of the name of an owner or a repository. -/
def isNameChar (c : Char) : Bool := c.isAlphanum || c == '_' || c == '.' || c == '-'

/-- Splits `owner/repo` off a text. -/
def splitNames? (cs : List Char) : Option (String × String × List Char) :=
  let owner := cs.takeWhile isNameChar
  match cs.dropWhile isNameChar with
  | '/' :: rest =>
    let repo := rest.takeWhile isNameChar
    if owner.isEmpty || repo.isEmpty then none
    else some (String.ofList owner, String.ofList repo, rest.dropWhile isNameChar)
  | _ => none

/-- A text without a line feed at its end. -/
def dropFinalNewline (cs : List Char) : List Char :=
  if cs.getLast? = some '\n' then cs.dropLast else cs

/-- Reads `owner/repo`. -/
def names? (text : String) : Option (String × String) :=
  match splitNames? (dropFinalNewline text.toList) with
  | some (owner, repo, []) => some (owner, repo)
  | _ => none

/-- Reads `owner/repo@ref`. -/
def ofShorthand? (text : String) : Option Repository :=
  match splitNames? (dropFinalNewline text.toList) with
  | some (owner, repo, '@' :: c :: ref) =>
    if (c :: ref).any Text.isBlank then none
    else some ⟨owner, repo, String.ofList (c :: ref), defaultPath⟩
  | _ => none

end Repository

namespace Reference

/-- The keys of a reference. -/
def keys : List String := ["github", "ref", "path", "local"]

/-- What is unknown in the object of a reference. -/
def unknownKeys (source : String) (place : Place) (entries : List (String × Value)) :
    List Warning :=
  (entries.filter fun (key, _) ↦ !keys.contains key && !isPrivate key).map
    fun (key, _) ↦ .unrecognized source (place.key key)

/-- Reads a text that stands under a key. -/
def textOf (source : String) (place : Place) : Value → Except Failure String
  | .text s => .ok s
  | value => .error (.invalid source place (.expected "String" value.shape))

/-- Reads the object of a reference to a repository. -/
def ofRepositoryEntries (source : String) (place : Place) (entries : List (String × Value))
    (names : Value) : Except Failure Repository := do
  let split := match names with
    | .text s => Repository.names? s
    | _ => none
  match split with
  | none =>
    unless names.isWritable do throw (.longInteger none)
    throw (.invalid source (place.key "github") (.notRepository names))
  | some (owner, repo) =>
    let ref ← match Entries.get? entries "ref" with
      | none | some .null => throw (.invalid source place (.missingKey "ref"))
      | some ref => textOf source (place.key "ref") ref
    let path ← match Entries.get? entries "path" with
      | none => pure Repository.defaultPath
      | some path => textOf source (place.key "path") path
    return ⟨owner, repo, ref, path⟩

/-- Reads the object of a reference, which has to name one source. -/
def ofEntries (source : String) (place : Place) (entries : List (String × Value)) :
    Except Failure Reference :=
  match Entries.get? entries "github", Entries.get? entries "local" with
  | some _, some _ => .error (.invalid source place .twoSources)
  | none, some path => (textOf source (place.key "local") path).map .onDisk
  | none, none => .error (.invalid source place .noSource)
  | some names, none => (ofRepositoryEntries source place entries names).map .github

/-- Reads one reference. -/
def ofValue (source : String) (place : Place) : Value → Warned Reference
  | .text s =>
    match Repository.ofShorthand? s with
    | some document => ([], .ok (.github document))
    | none => ([], .error (.invalid source place (.notShorthand s)))
  | .object entries => (unknownKeys source place entries, ofEntries source place entries)
  | value => ([], .error (.invalid source place (.expected "Object or String" value.shape)))

/-- Reads the items of a list of references, the first of which has the given position. -/
def ofItems (source : String) (place : Place) : Nat → List Value → Warned (List Reference)
  | _, [] => ([], .ok [])
  | position, item :: items =>
    match ofValue source (place.index position) item with
    | (warnings, .error failure) => (warnings, .error failure)
    | (warnings, .ok reference) =>
      let (further, rest) := ofItems source place (position + 1) items
      (warnings ++ further, rest.map (reference :: ·))

/-- Reads one reference or a list of them. -/
def listOf (source : String) (place : Place) : Value → Warned (List Reference)
  | .array items => ofItems source place 0 items
  | value =>
    let (warnings, reference) := ofValue source place value
    (warnings, reference.map ([·]))

end Reference

end CabalManifest
