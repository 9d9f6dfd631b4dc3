/-!
# Surrogate halves

An escape in a document can name half of a surrogate pair. Such a half is no character, and no bytes
stand for it, but a text that holds it can still be compared and shown. It is kept as two characters
that have no meaning of their own: a noncharacter, and the private-use character `0x100000` above the
half. Everything that looks at code points reads the pair as the one code point that it is kept for.

A text can have these two characters itself. Such a text is not told apart from the one with the half:
it counts as a text with the half, and has no bytes either (`Text.encode?`).
-/

namespace CabalManifest.Text

/-- Whether a code point is half of a surrogate pair. -/
def isHalf (code : Nat) : Bool := 0xD800 ≤ code && code ≤ 0xDFFF

/-- The noncharacter in front of a half. -/
def halfMark : Char := Char.ofNat 0x10FFFE

/-- The characters that are kept for a code point. Those for a half are characters of their own, too,
so that different lists of code points may be kept as the same text. -/
def ofCode (code : Nat) : List Char :=
  if isHalf code then [halfMark, Char.ofNat (0x100000 + code)] else [Char.ofNat code]

/-- The half that two characters are kept for. -/
def halfOf? (c d : Char) : Option Nat :=
  let code := d.toNat - 0x100000
  if c = halfMark && isHalf code then some code else none

/-- The code points that a text is kept for. -/
def codes : List Char → List Nat
  | [] => []
  | [c] => [c.toNat]
  | c :: d :: cs =>
    match halfOf? c d with
    | some half => half :: codes cs
    | none => c.toNat :: codes (d :: cs)

/-! ### Texts without halves -/

theorem isHalf_toNat (c : Char) : isHalf c.toNat = false := by
  have hvalid : c.toNat.isValidChar := c.valid
  simp only [isHalf, Bool.and_eq_false_iff, decide_eq_false_iff_not]
  rcases hvalid with h | h <;> omega

theorem codes_cons_of_ne {c : Char} (h : c ≠ halfMark) (cs : List Char) :
    codes (c :: cs) = c.toNat :: codes cs := by
  cases cs with
  | nil => rfl
  | cons d ds => simp [codes, halfOf?, h]

/-- As long as no half is kept, the code points are those of the characters. -/
theorem codes_append_of_notMem {cs : List Char} (h : halfMark ∉ cs) (rest : List Char) :
    codes (cs ++ rest) = cs.map Char.toNat ++ codes rest := by
  induction cs with
  | nil => rfl
  | cons c cs ih =>
    rw [List.mem_cons, not_or] at h
    rw [List.cons_append, codes_cons_of_ne (Ne.symm h.1), ih h.2, List.map_cons, List.cons_append]

theorem codes_of_notMem {cs : List Char} (h : halfMark ∉ cs) : codes cs = cs.map Char.toNat := by
  simpa [codes] using codes_append_of_notMem h []

end CabalManifest.Text
