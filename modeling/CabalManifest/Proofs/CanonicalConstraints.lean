import CabalManifest.Proofs.DependencyForms
import Mathlib.Data.List.Chain

/-!
# The normal form of constraints

A constraint without its blanks is a list of *symbols*: the operators `&&` and `||`, and single
characters. In a run such as `&&&` operators could be found in more than one way; matched from left to
right, no operator starts at a character that is left over (`IsLeftmost`), and the text tells its
symbols (`IsLeftmost.symbolsOf_flatMap`).

The normal form of a constraint is these symbols with a space on each side of every operator. Deleting
the spaces gives the constraint without its blanks again, so that two constraints have one normal form
if and only if they differ in blanks only (`normalize_isCanonical`).
-/

namespace CabalManifest.Constraint

/-! ### Symbols -/

/-- An operator that joins two constraints. -/
inductive Operator where
  | and
  | or
  deriving DecidableEq, Repr

/-- The character that an operator is written with, twice. -/
def Operator.char : Operator → Char
  | and => '&'
  | or => '|'

/-- What a constraint without blanks is made of. -/
inductive Symbol where
  | operator (o : Operator)
  | plain (c : Char)
  deriving DecidableEq, Repr

namespace Symbol

/-- The first character of a symbol. -/
def char : Symbol → Char
  | operator o => o.char
  | plain c => c

/-- A symbol without blanks. -/
def text : Symbol → List Char
  | operator o => [o.char, o.char]
  | plain c => [c]

/-- A symbol as it stands in a normal form. -/
def spaced : Symbol → List Char
  | operator o => [' ', o.char, o.char, ' ']
  | plain c => [c]

/-- The first symbol of a text starts with the first character. -/
theorem head?_flatMap_text (symbols : List Symbol) :
    (symbols.flatMap text).head? = symbols.head?.map char := by
  cases symbols with
  | nil => rfl
  | cons symbol symbols => cases symbol <;> rfl

end Symbol

/-- Whether operators are matched from left to right: behind a character that is left over there is no
further one of its kind, as the two would be an operator. -/
def IsLeftmost (symbols : List Symbol) : Prop :=
  symbols.IsChain fun first next ↦ ∀ o : Operator, first = .plain o.char → next.char ≠ o.char

/-- The symbols of a text, matched from left to right. -/
def symbolsOf : List Char → List Symbol
  | [] => []
  | '&' :: '&' :: cs => .operator .and :: symbolsOf cs
  | '|' :: '|' :: cs => .operator .or :: symbolsOf cs
  | c :: cs => .plain c :: symbolsOf cs

theorem symbolsOf_operator (o : Operator) (cs : List Char) :
    symbolsOf (o.char :: o.char :: cs) = .operator o :: symbolsOf cs := by
  cases o <;> rfl

/-- A character is left over where no operator starts. -/
theorem symbolsOf_plain {c : Char} {cs : List Char}
    (h : ∀ o : Operator, c = o.char → cs.head? ≠ some o.char) :
    symbolsOf (c :: cs) = .plain c :: symbolsOf cs := by
  rw [symbolsOf]
  · rintro rest rfl rfl
    exact h .and rfl rfl
  · rintro rest rfl rfl
    exact h .or rfl rfl

theorem flatMap_text_symbolsOf (cs : List Char) : (symbolsOf cs).flatMap Symbol.text = cs := by
  fun_induction symbolsOf cs with
  | case1 => rfl
  | case2 cs ih => exact congrArg ('&' :: '&' :: ·) ih
  | case3 cs ih => exact congrArg ('|' :: '|' :: ·) ih
  | case4 c cs _ _ ih => exact congrArg (c :: ·) ih

/-- The normal form of a text without blanks is made of its symbols. -/
theorem flatMap_spaced_symbolsOf (cs : List Char) :
    (symbolsOf cs).flatMap Symbol.spaced = spaceOperators cs := by
  fun_induction symbolsOf cs with
  | case1 => rfl
  | case2 cs ih => exact congrArg (' ' :: '&' :: '&' :: ' ' :: ·) ih
  | case3 cs ih => exact congrArg (' ' :: '|' :: '|' :: ' ' :: ·) ih
  | case4 c cs hand hor ih =>
    rw [spaceOperators]
    · exact congrArg (c :: ·) ih
    · exact hand
    · exact hor

theorem symbolsOf_eq_nil_iff {cs : List Char} : symbolsOf cs = [] ↔ cs = [] := by
  refine ⟨fun h ↦ ?_, fun h ↦ by rw [h]; rfl⟩
  rw [← flatMap_text_symbolsOf cs, h]
  rfl

theorem isLeftmost_symbolsOf (cs : List Char) : IsLeftmost (symbolsOf cs) := by
  fun_induction symbolsOf cs with
  | case1 => exact .nil
  | case2 cs ih => exact List.isChain_cons.2 ⟨fun _ _ _ h ↦ (nomatch h), ih⟩
  | case3 cs ih => exact List.isChain_cons.2 ⟨fun _ _ _ h ↦ (nomatch h), ih⟩
  | case4 c cs hand hor ih =>
    refine List.isChain_cons.2 ⟨fun next hnext o ho hchar ↦ ?_, ih⟩
    -- The text would go on with the same character, and the two would have been matched.
    have hhead : cs.head? = some o.char := by
      rw [← flatMap_text_symbolsOf cs, Symbol.head?_flatMap_text, Option.mem_def.1 hnext,
        Option.map_some, hchar]
    obtain ⟨rest, rfl⟩ := List.head?_eq_some_iff.1 hhead
    obtain rfl := Symbol.plain.inj ho
    cases o with
    | and => exact hand rest rfl rfl
    | or => exact hor rest rfl rfl

/-- Symbols that are matched from left to right are those of their text. -/
theorem IsLeftmost.symbolsOf_flatMap {symbols : List Symbol} (h : IsLeftmost symbols) :
    symbolsOf (symbols.flatMap Symbol.text) = symbols := by
  induction symbols with
  | nil => rfl
  | cons symbol symbols ih =>
    obtain ⟨hfirst, hrest⟩ := List.isChain_cons.1 h
    rw [List.flatMap_cons]
    cases symbol with
    | operator o => exact (symbolsOf_operator o _).trans (congrArg _ (ih hrest))
    | plain c =>
      have hover : ∀ o : Operator, c = o.char →
          (symbols.flatMap Symbol.text).head? ≠ some o.char := by
        intro o ho hhead
        rw [Symbol.head?_flatMap_text, Option.map_eq_some_iff] at hhead
        obtain ⟨next, hnext, hchar⟩ := hhead
        exact hfirst next hnext o (congrArg _ ho) hchar
      exact (symbolsOf_plain hover).trans (congrArg _ (ih hrest))

/-! ### Normal forms -/

/-- What is left of a normal form without its blanks; there is nothing if any version is meant. -/
theorem compact_normalize (constraint : String) :
    compact ((normalize constraint).elim [] String.toList) = compact constraint.toList := by
  rw [normalize_eq]
  split
  · next hnone => rw [hnone]; rfl
  · rw [Option.elim_some, String.toList_ofList, compact_spaceOperators]
    exact List.filter_eq_self.2 fun c hc ↦ by simp [isBlank_of_mem_compact hc]

/-- The normal form of constraints is canonical. Two constraints have the same if and only if they are
the same without their blanks, and a normal form is its own. It consists of the symbols of the
constraint without its blanks, in the only way to match operators from left to right, and has no
blanks but one space on each side of every operator; without a symbol, any version is meant. -/
theorem normalize_isCanonical (constraint : String) :
    (∀ other : String, normalize constraint = normalize other ↔
      compact constraint.toList = compact other.toList) ∧
    (normalize constraint).bind normalize = normalize constraint ∧
    ∃ symbols : List Symbol,
      (∀ others, IsLeftmost others ∧ others.flatMap Symbol.text = compact constraint.toList ↔
        others = symbols) ∧
      (∀ c, .plain c ∈ symbols → Text.isBlank c = false) ∧
      normalize constraint = if symbols = [] then none
        else some (String.ofList (symbols.flatMap Symbol.spaced)) := by
  refine ⟨fun other ↦ ⟨fun h ↦ ?_, normalize_congr⟩, ?_,
    symbolsOf (compact constraint.toList), fun others ↦ ⟨?_, ?_⟩, fun c hc ↦ ?_, ?_⟩
  · rw [← compact_normalize, h, compact_normalize]
  · cases hnormal : normalize constraint with
    | none => rfl
    | some normal => exact normalize_of_normalize hnormal
  · rintro ⟨hleftmost, htext⟩
    rw [← htext, hleftmost.symbolsOf_flatMap]
  · rintro rfl
    exact ⟨isLeftmost_symbolsOf _, flatMap_text_symbolsOf _⟩
  · have hmem : c ∈ (symbolsOf (compact constraint.toList)).flatMap Symbol.text :=
      List.mem_flatMap.2 ⟨_, hc, List.mem_singleton.2 rfl⟩
    rw [flatMap_text_symbolsOf] at hmem
    exact isBlank_of_mem_compact hmem
  · simp only [normalize_eq, flatMap_spaced_symbolsOf, symbolsOf_eq_nil_iff]

/-- Runs of operator characters are matched from the left. -/
example : normalize " >=1 &&& \t<2 ||||" = some ">=1 && &<2 ||  || " := by decide

end CabalManifest.Constraint
