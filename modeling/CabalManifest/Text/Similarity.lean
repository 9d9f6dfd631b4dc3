/-!
# How similar two texts are

Two texts are aligned at their longest common run, then the parts before it and the parts after it in
turn. The share of characters that are aligned says how similar the texts are. Of several longest
runs, the one that starts first in the first text counts, and then first in the second.
-/

namespace CabalManifest.Text

/-- The number of characters with which two texts start alike. -/
def commonPrefix : List Char → List Char → Nat
  | a :: as, b :: bs => if a = b then commonPrefix as bs + 1 else 0
  | _, _ => 0

/-- A run that two texts have in common: where it starts in each, and its length. -/
structure CommonRun where
  first : Nat
  second : Nat
  length : Nat
  deriving DecidableEq, Repr

/-- The longer of two runs; of two equally long ones the first. -/
def CommonRun.longer (a b : CommonRun) : CommonRun := if a.length < b.length then b else a

/-- The longest run with which a text starts anywhere in another one, which begins at a position. -/
def runFrom (as : List Char) (first : Nat) : Nat → List Char → CommonRun
  | second, [] => ⟨first, second, 0⟩
  | second, b :: bs =>
    CommonRun.longer ⟨first, second, commonPrefix as (b :: bs)⟩
      (runFrom as first (second + 1) bs)

/-- The longest run that two texts have in common, the first of which begins at a position. -/
def longestRun (bs : List Char) : Nat → List Char → CommonRun
  | first, [] => ⟨first, 0, 0⟩
  | first, a :: as =>
    CommonRun.longer (runFrom (a :: as) first 0 bs) (longestRun bs (first + 1) as)

/-- The number of characters that are aligned, of texts up to a length. -/
def alignedUpTo : Nat → List Char → List Char → Nat
  | 0, _, _ => 0
  | bound + 1, as, bs =>
    let run := longestRun bs 0 as
    if run.length = 0 then 0
    else
      run.length + alignedUpTo bound (as.take run.first) (bs.take run.second) +
        alignedUpTo bound (as.drop (run.first + run.length)) (bs.drop (run.second + run.length))

/-- The number of characters of two texts that are aligned with each other. -/
def aligned (as bs : List Char) : Nat := alignedUpTo as.length as bs

/-- How similar two texts are, as a fraction of natural numbers. -/
structure Similarity where
  /-- The number of aligned characters in both texts. -/
  alike : Nat
  /-- The number of characters in both texts. -/
  total : Nat
  deriving DecidableEq, Repr

/-- How similar two texts are. -/
def similarity (as bs : List Char) : Similarity := ⟨2 * aligned as bs, as.length + bs.length⟩

/-- Whether two texts are at least as similar as three in five. -/
def Similarity.isClose (s : Similarity) : Bool := s.total * 3 ≤ s.alike * 5

/-- Whether one similarity is less than another. -/
def Similarity.lt (s t : Similarity) : Bool := s.alike * t.total < t.alike * s.total

/-- The candidate that is closest to a text, if any is close; of two equally close ones the greater. -/
def closest? (text : String) (candidates : List String) : Option String :=
  let close := candidates.filterMap fun candidate ↦
    let s := similarity candidate.toList text.toList
    if s.isClose then some (s, candidate) else none
  (close.foldl (fun best entry ↦
    match best with
    | none => some entry
    | some found =>
      if found.1.lt entry.1 || (!entry.1.lt found.1 && found.2 < entry.2) then some entry
      else some found) none).map (·.2)

end CabalManifest.Text
