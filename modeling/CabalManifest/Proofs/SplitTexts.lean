import CabalManifest.Text.Blank
import Mathlib.Data.List.DropRight

/-!
# Texts in pieces

Texts are split with the operations of the library for lists. What is added here is how they treat
the first character of a text, and which characters the pieces have.
-/

namespace CabalManifest.Text

/-! ### Splitting at a character -/

theorem splitOn_cons_self (separator : Char) (cs : List Char) :
    (separator :: cs).splitOn separator = [] :: cs.splitOn separator :=
  List.splitOn_append_cons_self [] cs

/-- A character that separates nothing belongs to the first piece. -/
theorem exists_splitOn_cons {separator c : Char} (h : c ≠ separator) (cs : List Char) :
    ∃ first rest, cs.splitOn separator = first :: rest ∧
      (c :: cs).splitOn separator = (c :: first) :: rest := by
  obtain ⟨first, rest, hcut⟩ := List.exists_cons_of_ne_nil (List.splitOn_ne_nil separator cs)
  refine ⟨first, rest, hcut, ?_⟩
  rw [List.splitOn_cons_eq_if_modifyHead, if_neg (by simpa using h), hcut, List.modifyHead_cons]

/-- The pieces of a text are made of its characters other than the separator. -/
theorem mem_and_ne_of_mem_splitOn {separator c : Char} {cs piece : List Char}
    (hpiece : piece ∈ cs.splitOn separator) (hc : c ∈ piece) : c ∈ cs ∧ c ≠ separator := by
  induction cs generalizing piece with
  | nil =>
    rw [List.mem_singleton.1 hpiece] at hc
    cases hc
  | cons d cs ih =>
    by_cases hd : d = separator
    · rw [hd, splitOn_cons_self] at hpiece
      rcases List.mem_cons.1 hpiece with rfl | hpiece
      · cases hc
      · exact (ih hpiece hc).imp_left (List.mem_cons_of_mem _)
    · obtain ⟨first, rest, hcut, hsplit⟩ := exists_splitOn_cons hd cs
      rw [hcut] at ih
      rw [hsplit] at hpiece
      rcases List.mem_cons.1 hpiece with rfl | hpiece
      · rcases List.mem_cons.1 hc with rfl | hc
        · exact ⟨List.mem_cons_self, hd⟩
        · exact (ih List.mem_cons_self hc).imp_left (List.mem_cons_of_mem _)
      · exact (ih (List.mem_cons_of_mem _ hpiece) hc).imp_left (List.mem_cons_of_mem _)

/-- A text is told by its pieces. -/
theorem splitOn_injective (separator : Char) :
    Function.Injective (List.splitOn separator : List Char → List (List Char)) :=
  Function.LeftInverse.injective (g := [separator].intercalate) fun _ ↦
    List.intercalate_splitOn separator

/-! ### Dropping from the right -/

theorem dropRight_eq_rdropWhile (p : Char → Bool) (cs : List Char) :
    dropRight p cs = cs.rdropWhile p := rfl

theorem dropRight_of_not_mem {c : Char} {cs : List Char} (h : c ∉ cs) :
    dropRight (· == c) cs = cs := by
  refine List.rdropWhile_eq_self_iff.2 fun hne hlast ↦ h ?_
  rw [← beq_iff_eq.1 hlast]
  exact List.getLast_mem hne

/-- What is dropped is a run of the character. -/
theorem exists_eq_dropRight_append (c : Char) (cs : List Char) :
    ∃ n, cs = dropRight (· == c) cs ++ List.replicate n c := by
  simp only [dropRight_eq_rdropWhile]
  induction cs using List.reverseRecOn with
  | nil => exact ⟨0, rfl⟩
  | append_singleton cs d ih =>
    by_cases hd : d = c
    · obtain ⟨n, hn⟩ := ih
      refine ⟨n + 1, ?_⟩
      rw [List.rdropWhile_concat_pos (· == c) cs d (by simpa using hd), List.replicate_succ',
        ← List.append_assoc, ← hn, hd]
    · refine ⟨0, ?_⟩
      rw [List.rdropWhile_concat_neg (· == c) cs d (by simpa using hd), List.replicate_zero,
        List.append_nil]

/-- What is kept ends with no such character. -/
theorem eq_false_of_getLast?_dropRight {p : Char → Bool} {cs : List Char} {c : Char}
    (h : (dropRight p cs).getLast? = some c) : p c = false := by
  obtain ⟨front, hfront⟩ := List.getLast?_eq_some_iff.1 h
  have hkept : cs.rdropWhile p = front ++ [c] := hfront
  have hlast := List.rdropWhile_last_not p cs (by simp [hkept])
  simpa [hkept] using hlast

end CabalManifest.Text
