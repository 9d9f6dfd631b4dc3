import CabalManifest.Failure
import CabalManifest.Text.Blank

/-!
# Dependencies

A dependency is the name of a package with an optional version constraint. Constraints have one
normal form: no blanks but the single spaces around the operators `&&` and `||`. A list of
dependencies is written as a text, as an array of texts or objects, or as an object from names to
constraints; repeated names are all kept.
-/

namespace CabalManifest

/-- A package name with the versions it may have; without a constraint, any. -/
structure Dependency where
  name : String
  constraint : Option String
  deriving DecidableEq, Repr

/-! ### Constraints -/

namespace Constraint

/-- Puts a space on each side of every operator, matched from left to right. -/
def spaceOperators : List Char → List Char
  | [] => []
  | '&' :: '&' :: cs => ' ' :: '&' :: '&' :: ' ' :: spaceOperators cs
  | '|' :: '|' :: cs => ' ' :: '|' :: '|' :: ' ' :: spaceOperators cs
  | c :: cs => c :: spaceOperators cs

/-- A text without its blanks. -/
def compact (cs : List Char) : List Char := cs.filter fun c ↦ !Text.isBlank c

/-- The normal form of a constraint; a blank one means any version. -/
def normalize (constraint : String) : Option String :=
  match compact constraint.toList with
  | [] => none
  | cs => some (String.ofList (spaceOperators cs))

end Constraint

/-! ### The text form -/

namespace Dependency

/-- A character that a package name can start with. -/
def isNameStart (c : Char) : Bool := c.isAlphanum

/-- A character of a package name. -/
def isNameChar (c : Char) : Bool := c.isAlphanum || c == '_' || c == ':' || c == '.' || c == '-'

/-- Reads a name and a constraint, which may not be spread over several lines. -/
def ofText? (text : String) : Option Dependency :=
  match Text.trimLeft text.toList with
  | [] => none
  | c :: cs =>
    if isNameStart c then
      let constraint := Text.trim (cs.dropWhile isNameChar)
      if constraint.contains '\n' then none
      else some
        { name := String.ofList (c :: cs.takeWhile isNameChar)
          constraint := Constraint.normalize (String.ofList constraint) }
    else none

/-- Reads a dependency that stands at a place of a document. -/
def ofText (source : String) (place : Place) (text : String) : Except Failure Dependency :=
  match ofText? text with
  | some dependency => .ok dependency
  | none => .error (.invalid source place (.notDependency text))

/-- A dependency as it is written in a package description. -/
def text (dependency : Dependency) : String :=
  match dependency.constraint with
  | none | some "" => dependency.name
  | some constraint => dependency.name ++ " " ++ constraint

/-! ### Document values -/

mutual

/-- The constraint that a value stands for: a text, a number as the exact version, or an object that
holds it under `version`. -/
def constraintOf (source : String) : Place → Value → Except Failure (Option String)
  | _, .null => .ok none
  | _, .text constraint => .ok (Constraint.normalize constraint)
  | _, .int n =>
    if Decimal.isWritable n then .ok (some ("==" ++ (Scalar.int n).plain))
    else .error (.longInteger none)
  | _, .float x => .ok (some ("==" ++ (Scalar.float x).plain))
  | place, .object entries => versionOf source place entries
  | place, .bool _ =>
    .error (.invalid source place (.expected "Null, Object, Number, or String" .boolean))
  | place, .array _ =>
    .error (.invalid source place (.expected "Null, Object, Number, or String" .array))

/-- The constraint under the key `version`; without the key, any version. -/
def versionOf (source : String) (place : Place) :
    List (String × Value) → Except Failure (Option String)
  | [] => .ok none
  | (key, value) :: entries =>
    if key = "version" then constraintOf source (place.key "version") value
    else versionOf source place entries

end

/-- Reads an item of a list of dependencies. -/
def ofItem (source : String) (place : Place) : Value → Except Failure Dependency
  | .text text => ofText source place text
  | .object entries =>
    match Entries.get? entries "name" with
    | some (.text name) => do
      return ⟨name, ← versionOf source place entries⟩
    | _ => .error (.invalid source place (.missingKey "name"))
  | value => .error (.invalid source place (.expected "Object or String" value.shape))

/-- Reads the items of a list of dependencies, the first of which has the given position. -/
def ofItems (source : String) (place : Place) : Nat → List Value → Except Failure (List Dependency)
  | _, [] => .ok []
  | position, item :: items => do
    let dependency ← ofItem source (place.index position) item
    return dependency :: (← ofItems source place (position + 1) items)

/-- Reads the entries of an object from names to constraints. -/
def ofEntries (source : String) (place : Place) :
    List (String × Value) → Except Failure (List Dependency)
  | [] => .ok []
  | (name, value) :: entries => do
    let constraint ← constraintOf source (place.key name) value
    return ⟨name, constraint⟩ :: (← ofEntries source place entries)

/-- Reads a list of dependencies in any of its forms. -/
def listOf (source : String) (place : Place) : Value → Except Failure (List Dependency)
  | .text text => do return [← ofText source place text]
  | .array items => ofItems source place 0 items
  | .object entries => ofEntries source place entries
  | value => .error (.invalid source place (.expected "Array, Object, or String" value.shape))

end Dependency

end CabalManifest
