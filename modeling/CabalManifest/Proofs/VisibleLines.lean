import CabalManifest.LayoutHints
import Mathlib.Data.List.DropRight

/-!
# What hints are taken from

Hints are taken from the visible lines of a text. A line is *visible* if it is neither blank nor a
comment; then its blanks at the end and its tabs are gone (`visible?`). What such a line says lies
in its indentation and in its trimmed text, and both can be told from the line as it was written:

* `trim_of_visible?` gives the trimmed text, up to tabs;
* `indentOf_of_visible?` gives the indentation, exactly so if a character that is no blank follows
  the spaces.

`lines_append_newline` takes one line after another off a text.
-/

namespace CabalManifest

/-! ### Lines -/

namespace Text

/-- A text that no character breaks into lines. -/
def Unbroken (cs : List Char) : Prop := ∀ c ∈ cs, isLineBoundary c = false

instance (cs : List Char) : Decidable (Unbroken cs) :=
  List.decidableBAll _ cs

@[simp]
theorem unbroken_nil : Unbroken [] := by
  simp [Unbroken]

@[simp]
theorem unbroken_cons {c : Char} {cs : List Char} :
    Unbroken (c :: cs) ↔ isLineBoundary c = false ∧ Unbroken cs := by
  simp [Unbroken]

@[simp]
theorem unbroken_append {xs ys : List Char} :
    Unbroken (xs ++ ys) ↔ Unbroken xs ∧ Unbroken ys := by
  simp [Unbroken, or_imp, forall_and]

@[simp]
theorem unbroken_replicate_space (n : Nat) : Unbroken (List.replicate n ' ') := by
  intro c hc
  rw [List.eq_of_mem_replicate hc]
  rfl

/-- A line that is ended by a line feed is the first line of a text. -/
theorem lines_append_newline {line : List Char} (h : Unbroken line) (text : List Char) :
    lines (line ++ '\n' :: text) = line :: lines text := by
  induction line with
  | nil =>
    rw [List.nil_append, lines]
    · rfl
    · simp
  | cons c line ih =>
    obtain ⟨hc, hline⟩ := unbroken_cons.1 h
    have hreturn : c ≠ '\r' := by
      rintro rfl
      exact absurd hc (by decide)
    rw [List.cons_append, lines, hc, ih hline]
    · rfl
    · intro _ hcr
      exact absurd hcr hreturn

/-- The lines of a text that is put together from lines. -/
theorem lines_flatMap_newline {ls : List (List Char)} (h : ∀ line ∈ ls, Unbroken line) :
    lines (ls.flatMap (· ++ ['\n'])) = ls := by
  induction ls with
  | nil => rfl
  | cons line ls ih =>
    rw [List.flatMap_cons, List.append_assoc, List.singleton_append,
      lines_append_newline (h line List.mem_cons_self),
      ih fun other hother ↦ h other (List.mem_cons_of_mem _ hother)]

/-! ### Trimming -/

/-- Whether a text starts with something that is no blank, or is empty. -/
def IsFlush (cs : List Char) : Prop := ∀ c ∈ cs.head?, isBlank c = false

instance (cs : List Char) : Decidable (IsFlush cs) :=
  @Option.decidableForallMem _ _ _ cs.head?

theorem isFlush_nil : IsFlush [] := by
  simp [IsFlush]

@[simp]
theorem isFlush_cons {c : Char} {cs : List Char} : IsFlush (c :: cs) ↔ isBlank c = false := by
  simp [IsFlush]

theorem trimLeft_of_isFlush {cs : List Char} (h : IsFlush cs) : trimLeft cs = cs := by
  cases cs with
  | nil => rfl
  | cons c cs => exact List.dropWhile_cons_of_neg (by simp [isFlush_cons.1 h])

/-- What is left after the blanks at the beginning starts with none. -/
theorem isFlush_trimLeft (cs : List Char) : IsFlush (trimLeft cs) := by
  intro c hc
  have hhead := List.head?_dropWhile_not isBlank cs
  rw [trimLeft] at hc
  rw [hc] at hhead
  simpa using hhead

/-- Blanks in front of a text do not matter to what is left without them. -/
theorem trimLeft_append_of_blank {blanks : List Char} (h : ∀ c ∈ blanks, isBlank c = true)
    (cs : List Char) : trimLeft (blanks ++ cs) = trimLeft cs :=
  List.dropWhile_append_of_pos h

theorem trimLeft_replicate_space (n : Nat) (cs : List Char) :
    trimLeft (List.replicate n ' ' ++ cs) = trimLeft cs :=
  trimLeft_append_of_blank (fun c hc ↦ by rw [List.eq_of_mem_replicate hc]; rfl) cs

/-- Blanks at the end are those behind the last character that is no blank. -/
theorem trimRight_append (xs : List Char) {ys : List Char} (h : ∃ c ∈ ys, isBlank c = false) :
    trimRight (xs ++ ys) = xs ++ trimRight ys := by
  have hsome : (ys.reverse.dropWhile isBlank).isEmpty = false := by
    obtain ⟨c, hc, hblank⟩ := h
    refine Bool.eq_false_iff.2 fun hempty ↦ ?_
    have hall := List.dropWhile_eq_nil_iff.1 (List.isEmpty_iff.1 hempty) c (by simpa using hc)
    rw [hblank] at hall
    cases hall
  rw [trimRight, trimRight, dropRight, dropRight, List.reverse_append, List.dropWhile_append,
    hsome]
  simp

theorem trimRight_cons {c : Char} (h : isBlank c = false) (cs : List Char) :
    trimRight (c :: cs) = c :: trimRight cs := by
  by_cases hcs : ∃ d ∈ cs, isBlank d = false
  · exact trimRight_append [c] hcs
  · have hblank : ∀ d ∈ cs.reverse, isBlank d = true := by
      simpa using hcs
    rw [trimRight, trimRight, dropRight, dropRight, List.reverse_cons,
      List.dropWhile_append_of_pos hblank, List.dropWhile_cons_of_neg (by simp [h]),
      List.dropWhile_eq_nil_iff.2 hblank]
    rfl

/-- Nothing is dropped at the end if the last character is no blank. -/
theorem trimRight_eq_self_iff {cs : List Char} :
    trimRight cs = cs ↔ ∀ c ∈ cs.getLast?, isBlank c = false := by
  refine (List.rdropWhile_eq_self_iff (p := isBlank) (l := cs)).trans ⟨fun h c hc ↦ ?_, fun h hne ↦ ?_⟩
  · obtain ⟨hne, rfl⟩ := List.mem_getLast?_eq_getLast hc
    simpa using h hne
  · simpa using h _ (List.getLast?_eq_some_getLast hne)

/-- A character that is no blank ends a text. -/
theorem trimRight_concat (cs : List Char) {c : Char} (h : isBlank c = false) :
    trimRight (cs ++ [c]) = cs ++ [c] :=
  trimRight_eq_self_iff.2 (by simpa using h)

@[simp]
theorem trimRight_trimRight (cs : List Char) : trimRight (trimRight cs) = trimRight cs :=
  List.rdropWhile_idempotent isBlank cs

/-- Trimming goes from both sides alike. -/
theorem trimLeft_trimRight (cs : List Char) : trimLeft (trimRight cs) = trim cs := by
  by_cases h : ∃ c ∈ cs, isBlank c = false
  · have hsplit : cs.takeWhile isBlank ++ trimLeft cs = cs := List.takeWhile_append_dropWhile
    have hrest : ∃ c ∈ trimLeft cs, isBlank c = false := by
      obtain ⟨c, hc, hblank⟩ := h
      rw [← hsplit, List.mem_append] at hc
      rcases hc with hc | hc
      · rw [List.mem_takeWhile_imp hc] at hblank
        cases hblank
      · exact ⟨c, hc, hblank⟩
    have hflush : IsFlush (trimRight (trimLeft cs)) := by
      have hleft := isFlush_trimLeft cs
      cases hcs : trimLeft cs with
      | nil => exact isFlush_nil
      | cons c rest =>
        rw [hcs, isFlush_cons] at hleft
        rw [trimRight_cons hleft, isFlush_cons]
        exact hleft
    conv => lhs; rw [← hsplit]
    rw [trimRight_append _ hrest,
      trimLeft_append_of_blank (fun c hc ↦ List.mem_takeWhile_imp hc),
      trimLeft_of_isFlush hflush, trim]
  · have hblank : ∀ c ∈ cs, isBlank c = true := by simpa using h
    have hright : trimRight cs = [] := by
      rw [trimRight, dropRight, List.dropWhile_eq_nil_iff.2 (by simpa using hblank)]
      rfl
    have hleft : trimLeft cs = [] := List.dropWhile_eq_nil_iff.2 hblank
    rw [trim, hright, hleft]
    rfl

end Text

namespace LayoutHints

/-! ### Tabs -/

@[simp]
theorem expandTabs_nil (column : Nat) : expandTabs column [] = [] := rfl

/-- A tab is as many spaces as there are up to the next column of eight. -/
@[simp]
theorem expandTabs_tab (column : Nat) (cs : List Char) :
    expandTabs column ('\t' :: cs) =
      List.replicate (8 - column % 8) ' ' ++ expandTabs (column + (8 - column % 8)) cs := by
  rw [expandTabs]

theorem expandTabs_cons {c : Char} (h : c ≠ '\t') (column : Nat) (cs : List Char) :
    expandTabs column (c :: cs) = c :: expandTabs (column + 1) cs := by
  rw [expandTabs]
  exact h

/-- Tabs in front of a text only change the column that it starts in. -/
theorem exists_expandTabs_append (column : Nat) (xs ys : List Char) :
    ∃ next, expandTabs column (xs ++ ys) = expandTabs column xs ++ expandTabs next ys := by
  induction xs generalizing column with
  | nil => exact ⟨column, rfl⟩
  | cons c xs ih =>
    by_cases hc : c = '\t'
    · subst hc
      obtain ⟨next, hnext⟩ := ih (column + (8 - column % 8))
      exact ⟨next, by simp [hnext]⟩
    · obtain ⟨next, hnext⟩ := ih (column + 1)
      exact ⟨next, by simp [expandTabs_cons hc, hnext]⟩

/-- Without tabs nothing is expanded. -/
theorem expandTabs_of_no_tab {cs : List Char} (h : '\t' ∉ cs) (column : Nat) :
    expandTabs column cs = cs := by
  induction cs generalizing column with
  | nil => rfl
  | cons c cs ih =>
    rw [List.mem_cons, not_or] at h
    rw [expandTabs_cons (Ne.symm h.1), ih h.2]

/-- A beginning without tabs stays, and the rest is expanded from a later column. -/
theorem exists_expandTabs_append_of_no_tab {xs : List Char} (h : '\t' ∉ xs) (column : Nat)
    (ys : List Char) : ∃ next, expandTabs column (xs ++ ys) = xs ++ expandTabs next ys := by
  obtain ⟨next, hnext⟩ := exists_expandTabs_append column xs ys
  rw [expandTabs_of_no_tab h] at hnext
  exact ⟨next, hnext⟩

theorem tab_not_mem_replicate_space (n : Nat) : '\t' ∉ List.replicate n ' ' := by
  simp [List.mem_replicate]

/-- Blanks stay blanks. -/
theorem isBlank_of_mem_expandTabs {cs : List Char} (h : ∀ c ∈ cs, Text.isBlank c = true)
    {column : Nat} {c : Char} (hc : c ∈ expandTabs column cs) : Text.isBlank c = true := by
  induction cs generalizing column with
  | nil => cases hc
  | cons d cs ih =>
    have hcs := fun c hc ↦ h c (List.mem_cons_of_mem _ hc)
    by_cases hd : d = '\t'
    · subst hd
      rw [expandTabs_tab, List.mem_append] at hc
      rcases hc with hc | hc
      · rw [List.eq_of_mem_replicate hc]
        rfl
      · exact ih hcs hc
    · rw [expandTabs_cons hd, List.mem_cons] at hc
      rcases hc with rfl | hc
      · exact h c List.mem_cons_self
      · exact ih hcs hc

theorem ne_tab_of_not_blank {c : Char} (h : Text.isBlank c = false) : c ≠ '\t' := by
  rintro rfl
  exact absurd h (by decide)

/-- A text that starts with something that is no blank starts with it without tabs, too. -/
theorem expandTabs_cons_of_not_blank {c : Char} (h : Text.isBlank c = false) (column : Nat)
    (cs : List Char) : expandTabs column (c :: cs) = c :: expandTabs (column + 1) cs :=
  expandTabs_cons (ne_tab_of_not_blank h) column cs

/-- A last character that is no blank stays the last one. -/
theorem expandTabs_concat_of_not_blank {c : Char} (h : Text.isBlank c = false) (column : Nat)
    (cs : List Char) : expandTabs column (cs ++ [c]) = expandTabs column cs ++ [c] := by
  obtain ⟨next, hnext⟩ := exists_expandTabs_append column cs [c]
  rw [hnext, expandTabs_cons_of_not_blank h, expandTabs_nil]

/-- Without tabs, too, there are no blanks at the end of a text that had none. -/
theorem trimRight_expandTabs {cs : List Char} (h : Text.trimRight cs = cs) (column : Nat) :
    Text.trimRight (expandTabs column cs) = expandTabs column cs := by
  rcases List.eq_nil_or_concat' cs with rfl | ⟨init, last, rfl⟩
  · rfl
  · have hlast : Text.isBlank last = false :=
      Text.trimRight_eq_self_iff.1 h last (by simp)
    rw [expandTabs_concat_of_not_blank hlast]
    exact Text.trimRight_concat _ hlast

/-! ### Visible lines -/

/-- What is left of a line that counts. -/
def visible? (line : List Char) : Option (List Char) :=
  if isIgnored line then none else some (expandTabs 0 (Text.trimRight line))

/-- The lines that matter are those that show something. -/
theorem relevantLines_eq (text : List Char) :
    relevantLines text = (Text.lines text).filterMap visible? :=
  rfl

/-- The visible lines among some lines. -/
def visibleLines (lines : List String) : List (List Char) :=
  lines.filterMap fun line ↦ visible? line.toList

@[simp]
theorem visibleLines_append (xs ys : List String) :
    visibleLines (xs ++ ys) = visibleLines xs ++ visibleLines ys :=
  List.filterMap_append

theorem visibleLines_cons_of_some {line : String} {visible : List Char}
    (h : visible? line.toList = some visible) (lines : List String) :
    visibleLines (line :: lines) = visible :: visibleLines lines :=
  List.filterMap_cons_some h

/-- What is visible of lines in several parts is what is visible of each part. -/
theorem visibleLines_flatMap {α : Type} (lines : α → List String) (xs : List α) :
    visibleLines (xs.flatMap lines) = xs.flatMap fun x ↦ visibleLines (lines x) :=
  List.filterMap_flatMap ..

/-- Whether a line counts is told by its trimmed text. -/
theorem visible?_eq_none_iff {line : List Char} : visible? line = none ↔ isIgnored line := by
  simp [visible?]

/-- What is visible ends with no blank. -/
theorem trimRight_of_visible? {line visible : List Char} (h : visible? line = some visible) :
    Text.trimRight visible = visible := by
  rw [visible?, Option.ite_none_left_eq_some] at h
  obtain ⟨-, h⟩ := h
  rw [← Option.some.inj h]
  exact trimRight_expandTabs (Text.trimRight_trimRight line) 0

/-- The trimmed text of a line stays the same, but for the tabs in it. -/
theorem trim_of_visible? {line visible : List Char} (h : visible? line = some visible) :
    ∃ column, Text.trim visible = expandTabs column (Text.trim line) := by
  have hright := trimRight_of_visible? h
  rw [visible?, Option.ite_none_left_eq_some] at h
  obtain ⟨-, h⟩ := h
  have hvisible := Option.some.inj h
  set body := Text.trimRight line with hbody
  have hsplit : body.takeWhile Text.isBlank ++ Text.trim line = body := by
    rw [← Text.trimLeft_trimRight line]
    exact List.takeWhile_append_dropWhile
  obtain ⟨next, hnext⟩ := exists_expandTabs_append 0 (body.takeWhile Text.isBlank) (Text.trim line)
  have hflush : Text.IsFlush (expandTabs next (Text.trim line)) := by
    have htrim := Text.isFlush_trimLeft body
    rw [hbody, Text.trimLeft_trimRight] at htrim
    cases hcs : Text.trim line with
    | nil => exact Text.isFlush_nil
    | cons c cs =>
      rw [hcs, Text.isFlush_cons] at htrim
      rw [expandTabs_cons_of_not_blank htrim, Text.isFlush_cons]
      exact htrim
  refine ⟨next, ?_⟩
  rw [← Text.trimLeft_trimRight, hright, ← hvisible, ← hsplit, hnext,
    Text.trimLeft_append_of_blank fun c hc ↦
      isBlank_of_mem_expandTabs (fun _ ↦ List.mem_takeWhile_imp) hc]
  exact Text.trimLeft_of_isFlush hflush

/-- A visible line starts with no blank if it was written with none. -/
theorem isFlush_of_visible? {line visible : List Char} (h : visible? line = some visible)
    (hflush : Text.IsFlush line) : Text.IsFlush visible := by
  rw [visible?, Option.ite_none_left_eq_some] at h
  rw [← Option.some.inj h.2]
  cases line with
  | nil => exact Text.isFlush_nil
  | cons c cs =>
    rw [Text.isFlush_cons] at hflush
    rw [Text.trimRight_cons hflush, expandTabs_cons_of_not_blank hflush, Text.isFlush_cons]
    exact hflush

/-- Spaces in front of a line indent it by as many more columns. -/
theorem indentOf_replicate_append (n : Nat) (cs : List Char) :
    indentOf (List.replicate n ' ' ++ cs) = n + indentOf cs := by
  rw [indentOf, indentOf, List.takeWhile_append_of_pos (by simp [List.mem_replicate]),
    List.length_append, List.length_replicate]

/-- A visible line is indented by the spaces that it starts with, at least. -/
theorem indentOf_of_visible? {n : Nat} {cs visible : List Char}
    (h : visible? (List.replicate n ' ' ++ cs) = some visible) :
    n ≤ indentOf visible ∧ (Text.IsFlush cs → indentOf visible = n) := by
  rw [visible?, Option.ite_none_left_eq_some] at h
  obtain ⟨hcounts, h⟩ := h
  have hvisible := Option.some.inj h
  have hsome : ∃ c ∈ cs, Text.isBlank c = false := by
    by_contra hnone
    refine hcounts ?_
    have hblank : ∀ c ∈ cs, Text.isBlank c = true := by simpa using hnone
    have hempty : Text.trimLeft cs = [] := List.dropWhile_eq_nil_iff.2 hblank
    rw [isIgnored, Text.trim, Text.trimLeft_replicate_space, hempty]
    rfl
  rw [Text.trimRight_append _ hsome] at hvisible
  obtain ⟨next, hnext⟩ := exists_expandTabs_append_of_no_tab (tab_not_mem_replicate_space n) 0
    (Text.trimRight cs)
  rw [hnext] at hvisible
  rw [← hvisible, indentOf_replicate_append]
  refine ⟨Nat.le_add_right _ _, fun hflush ↦ ?_⟩
  cases cs with
  | nil => simp at hsome
  | cons c cs =>
    rw [Text.isFlush_cons] at hflush
    have hspace : c ≠ ' ' := by
      rintro rfl
      exact absurd hflush (by decide)
    rw [Text.trimRight_cons hflush, expandTabs_cons_of_not_blank hflush]
    simp [indentOf, hspace]

end LayoutHints

end CabalManifest
