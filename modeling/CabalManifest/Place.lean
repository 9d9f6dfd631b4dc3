/-!
# Places in a document

Where a value stands in its document: the root and the keys and positions that lead from it to the
value. Messages show a place as `$.library.dependencies[2]`.
-/

namespace CabalManifest

/-- One step from a value to a part of it. -/
inductive Step where
  | key (name : String)
  | index (position : Nat)
  deriving DecidableEq, Repr

/-- A root, by the name messages give it, and the steps that lead on from there. -/
structure Place where
  root : String
  steps : List Step
  deriving DecidableEq, Repr

namespace Place

/-- The root of a document. -/
def top : Place := ⟨"$", []⟩

/-- The place of the value under a key. -/
def key (place : Place) (name : String) : Place :=
  { place with steps := place.steps ++ [.key name] }

/-- The place of an item of an array. -/
def index (place : Place) (position : Nat) : Place :=
  { place with steps := place.steps ++ [.index position] }

/-- A step as messages show it. -/
def stepText : Step → String
  | .key name => "." ++ name
  | .index position => "[" ++ toString position ++ "]"

/-- A place as messages show it. -/
def text (place : Place) : String :=
  place.steps.foldl (fun shown step ↦ shown ++ stepText step) place.root

end Place

end CabalManifest
