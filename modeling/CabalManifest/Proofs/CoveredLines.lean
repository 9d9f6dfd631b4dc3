import CabalManifest.Proofs.RecoveredHints

/-!
# What stands below a field

A line that is indented deeper than the field above it belongs to the value of that field. It is
*covered*: whatever it looks like, the scan for fields passes over it, as it passes over blank lines
and comments. So the fields that a description starts, and with them the column of values and the
order of the header, do not depend on what stands below a field (`ofText_eq_of_covered`).

The field itself may be covered by a field above it. Then the scan takes nothing at all from it, and
goes on below it in the state that it had before; `exists_scans_field` has both cases.
-/

namespace CabalManifest

namespace LayoutHints

/-! ### Field lines as they are written -/

/-- A line starts a field if it starts with a name and a colon. -/
theorem isFieldLine_iff {line : List Char} :
    isFieldLine line = true ↔ ∃ name rest, isFieldName name = true ∧ line = name ++ ':' :: rest := by
  constructor
  · intro h
    cases line with
    | nil => cases h
    | cons c cs =>
      rw [isFieldLine, fieldLine?] at h
      split at h
      · next rest halpha hdrop =>
        refine ⟨c :: cs.takeWhile isNameChar, rest, ?_, ?_⟩
        · rw [isFieldName, halpha, Bool.true_and, List.all_eq_true]
          exact fun d hd ↦ List.mem_takeWhile_imp hd
        · rw [List.cons_append, ← hdrop, List.takeWhile_append_dropWhile]
      · cases h
  · rintro ⟨name, rest, hname, rfl⟩
    cases name with
    | nil => cases hname
    | cons c cs =>
      simp only [isFieldName, Bool.and_eq_true, List.all_eq_true] at hname
      have hdrop : (cs ++ ':' :: rest).dropWhile isNameChar = ':' :: rest := by
        rw [List.dropWhile_append_of_pos hname.2]
        exact List.dropWhile_cons_of_neg (by decide)
      rw [List.cons_append, isFieldLine, fieldLine?, hname.1, hdrop]
      rfl

/-- Characters that are no blanks were there before tabs were replaced. -/
theorem exists_append_of_expandTabs {xs ys line : List Char}
    (hxs : ∀ c ∈ xs, Text.isBlank c = false) {column : Nat}
    (h : expandTabs column line = xs ++ ys) : ∃ rest, line = xs ++ rest := by
  induction xs generalizing line column with
  | nil => exact ⟨line, rfl⟩
  | cons x xs ih =>
    rw [List.forall_mem_cons] at hxs
    cases line with
    | nil => cases h
    | cons c cs =>
      have hc : c ≠ '\t' := by
        rintro rfl
        have hwidth : 8 - column % 8 = (7 - column % 8) + 1 := by omega
        rw [expandTabs_tab, hwidth, List.replicate_succ] at h
        rw [← (List.cons.inj h).1] at hxs
        exact absurd hxs.1 (by decide)
      rw [expandTabs_cons hc] at h
      obtain ⟨rfl, htail⟩ := List.cons.inj h
      obtain ⟨rest, rfl⟩ := ih hxs.2 htail
      exact ⟨rest, rfl⟩

/-- A line starts a field whether it has tabs or spaces for them. -/
theorem isFieldLine_expandTabs (column : Nat) (line : List Char) :
    isFieldLine (expandTabs column line) = isFieldLine line := by
  refine Bool.eq_iff_iff.2 ⟨fun h ↦ ?_, fun h ↦ ?_⟩
  · obtain ⟨name, rest, hname, hline⟩ := isFieldLine_iff.1 h
    have hvisible : ∀ c ∈ name ++ [':'], Text.isBlank c = false := by
      refine List.forall_mem_append.2 ⟨fun c hc ↦ ?_, List.forall_mem_singleton.2 (by decide)⟩
      exact isBlank_of_isNameChar (isNameChar_of_mem hname hc)
    obtain ⟨rest, rfl⟩ := exists_append_of_expandTabs hvisible (hline.trans (List.append_cons ..))
    exact isFieldLine_iff.2 ⟨name, rest, hname, (List.append_cons ..).symm⟩
  · obtain ⟨name, rest, hname, rfl⟩ := isFieldLine_iff.1 h
    obtain ⟨next, hnext⟩ := exists_expandTabs_append_of_no_tab
      (plain_of_isFieldName hname).tab_not_mem column (':' :: rest)
    refine isFieldLine_iff.2 ⟨name, expandTabs (next + 1) rest, hname, ?_⟩
    rw [hnext, expandTabs_cons (by decide)]

/-- A line that starts a field counts. -/
theorem isIgnored_of_isFieldLine {line : List Char} (h : isFieldLine (Text.trim line) = true) :
    isIgnored line = false := by
  obtain ⟨name, rest, hname, htrim⟩ := isFieldLine_iff.1 h
  cases name with
  | nil => cases hname
  | cons c cs =>
    have hdash : c ≠ '-' := by
      rintro rfl
      cases hname
    refine isIgnored_eq_false (by simp [htrim]) ?_
    rw [htrim]
    simp [List.isPrefixOf, Ne.symm hdash]

/-! ### Indentation as it is written -/

/-- The indentation of a line with spaces for tabs. -/
def writtenIndent (line : List Char) : Nat := indentOf (expandTabs 0 line)

/-- Only what stands in front of the first other character counts as indentation. -/
theorem indentOf_append {xs : List Char} (h : ∃ c ∈ xs, c ≠ ' ') (ys : List Char) :
    indentOf (xs ++ ys) = indentOf xs := by
  obtain ⟨c, hc, hspace⟩ := h
  rw [indentOf, indentOf, List.takeWhile_append, if_neg]
  intro hall
  have hmem : c ∈ xs.takeWhile (· == ' ') := by
    rwa [(List.takeWhile_prefix _).eq_of_length hall]
  exact hspace (by simpa using List.mem_takeWhile_imp hmem)

/-- A visible line is indented as it was written. -/
theorem indentOf_eq_writtenIndent {line visible : List Char} (h : visible? line = some visible) :
    indentOf visible = writtenIndent line := by
  obtain ⟨hcounts, h⟩ := Option.ite_none_left_eq_some.1 h
  obtain ⟨blanks, hblanks⟩ : Text.trimRight line <+: line := List.rdropWhile_prefix _ _
  obtain ⟨next, hnext⟩ := exists_expandTabs_append 0 (Text.trimRight line) blanks
  rw [hblanks] at hnext
  rw [← Option.some.inj h, writtenIndent, hnext]
  refine (indentOf_append ?_ _).symm
  rcases List.eq_nil_or_concat' (Text.trimRight line) with hnil | ⟨init, last, hconcat⟩
  · refine absurd ?_ hcounts
    rw [isIgnored, ← Text.trimLeft_trimRight, hnil]
    rfl
  · -- the last character that is left is no blank, and so no space
    have hlast : Text.isBlank last = false :=
      Text.trimRight_eq_self_iff.1 (Text.trimRight_trimRight line) last (by simp [hconcat])
    refine ⟨last, ?_, ?_⟩
    · rw [hconcat, expandTabs_concat_of_not_blank hlast]
      exact List.mem_concat_self
    · rintro rfl
      cases hlast

/-- A line that starts a field is seen as one. -/
theorem exists_visible?_of_isFieldLine {line : List Char}
    (h : isFieldLine (Text.trim line) = true) :
    ∃ visible, visible? line = some visible ∧ indentOf visible = writtenIndent line ∧
      isFieldLine (Text.trim visible) = true := by
  obtain ⟨visible, hvisible⟩ : ∃ visible, visible? line = some visible :=
    Option.ne_none_iff_exists'.1 fun hnone ↦ by
      rw [visible?_eq_none_iff, isIgnored_of_isFieldLine h] at hnone
      cases hnone
  obtain ⟨column, hcolumn⟩ := trim_of_visible? hvisible
  refine ⟨visible, hvisible, indentOf_eq_writtenIndent hvisible, ?_⟩
  rwa [hcolumn, isFieldLine_expandTabs]

/-! ### The scan for fields -/

/-- Lines that the scan for fields takes some of and leaves in some state, whatever follows. -/
def Scans (above : Option Nat) (lines starts : List (List Char)) (next : Option Nat) : Prop :=
  ∀ rest, fieldLinesFrom above (lines ++ rest) = starts ++ fieldLinesFrom next rest

theorem Scans.nil (above : Option Nat) : Scans above [] [] above := fun _ ↦ rfl

theorem Scans.append {above between next : Option Nat} {xs ys starts starts' : List (List Char)}
    (h : Scans above xs starts between) (h' : Scans between ys starts' next) :
    Scans above (xs ++ ys) (starts ++ starts') next := by
  intro rest
  rw [List.append_assoc, h, h', List.append_assoc]

/-- The scan passes over deeper lines. -/
theorem Scans.of_deeper {indent : Nat} {lines : List (List Char)}
    (h : ∀ line ∈ lines, indent < indentOf line) : Scans (some indent) lines [] (some indent) :=
  fieldLinesFrom_of_deeper h

/-- A line that the line above leaves alone is taken if it starts a field. -/
theorem Scans.singleton {above : Option Nat} {line : List Char}
    (h : ∀ n ∈ above, indentOf line ≤ n) :
    Scans above [line] (if isFieldLine (Text.trim line) then [line] else [])
      (if isFieldLine (Text.trim line) then some (indentOf line) else none) := by
  intro rest
  rw [List.singleton_append, fieldLinesFrom_cons h]
  split <;> rfl

/-- What the scan takes of some lines does not depend on what follows. -/
theorem exists_scans (lines : List (List Char)) (above : Option Nat) :
    ∃ starts next, Scans above lines starts next := by
  induction lines generalizing above with
  | nil => exact ⟨[], above, .nil above⟩
  | cons line lines ih =>
    have hline : ∃ starts next, Scans above [line] starts next := by
      by_cases halone : ∀ n ∈ above, indentOf line ≤ n
      · exact ⟨_, _, .singleton halone⟩
      · simp only [not_forall, not_le] at halone
        obtain ⟨n, rfl, hdeeper⟩ := halone
        exact ⟨_, _, .of_deeper (by simpa using hdeeper)⟩
    obtain ⟨starts, between, hstarts⟩ := hline
    obtain ⟨starts', next, hstarts'⟩ := ih between
    exact ⟨_, next, hstarts.append hstarts'⟩

/-- What the scan takes of a field does not depend on the lines below that it covers. -/
theorem exists_scans_field (above : Option Nat) {line : List Char}
    (h : isFieldLine (Text.trim line) = true) :
    ∃ starts next, ∀ further : List (List Char),
      (∀ other ∈ further, indentOf line < indentOf other) →
        Scans above (line :: further) starts next := by
  by_cases halone : ∀ n ∈ above, indentOf line ≤ n
  · refine ⟨[line] ++ [], some (indentOf line), fun further hfurther ↦ ?_⟩
    have hline := Scans.singleton halone
    rw [h] at hline
    exact hline.append (.of_deeper hfurther)
  · -- a field above covers the line, and all the more what is deeper than the line
    simp only [not_forall, not_le] at halone
    obtain ⟨n, rfl, hdeeper⟩ := halone
    refine ⟨[], some n, fun further hfurther ↦ .of_deeper ?_⟩
    exact List.forall_mem_cons.2 ⟨hdeeper, fun other hother ↦ hdeeper.trans (hfurther other hother)⟩

/-! ### Covered lines -/

/-- Lines that count for nothing below a field: blank lines, comments, and lines that are indented
deeper than the field. -/
def IsCovered (start line : List Char) : Prop :=
  isIgnored line = true ∨ writtenIndent start < writtenIndent line

instance (start line : List Char) : Decidable (IsCovered start line) :=
  inferInstanceAs (Decidable (_ ∨ _))

/-- Of covered lines, no more than deeper ones are seen. -/
theorem indentOf_lt_of_isCovered {start : List Char} {lines : List (List Char)}
    (h : ∀ line ∈ lines, IsCovered start line) {visible : List Char}
    (hvisible : visible ∈ lines.filterMap visible?) : writtenIndent start < indentOf visible := by
  obtain ⟨line, hline, hvisible⟩ := List.mem_filterMap.1 hvisible
  rw [indentOf_eq_writtenIndent hvisible]
  refine (h line hline).resolve_left fun hignored ↦ ?_
  rw [visible?_eq_none_iff.2 hignored] at hvisible
  cases hvisible

/-- The names of the fields in front of and between the sections. -/
def topNames (lines : List (List Char)) : List String :=
  (lines.filter fun line ↦ indentOf line == 0).filterMap fun line ↦
    (fieldLine? line).map fun field ↦ String.ofList field.name

theorem fieldOrder_ofText (text : String) :
    (ofText text).fieldOrder = topNames ((Text.lines text.toList).filterMap visible?) :=
  rfl

theorem alignment_ofText (text : String) :
    (ofText text).alignment = alignmentOf ((Text.lines text.toList).filterMap visible?) :=
  rfl

theorem topNames_append (xs ys : List (List Char)) :
    topNames (xs ++ ys) = topNames xs ++ topNames ys := by
  simp [topNames]

theorem topNames_of_indented {lines : List (List Char)} (h : ∀ line ∈ lines, 0 < indentOf line) :
    topNames lines = [] := by
  have hnone : lines.filter (fun line ↦ indentOf line == 0) = [] :=
    List.filter_eq_nil_iff.2 fun line hline ↦ by simpa using (h line hline).ne'
  rw [topNames, hnone, List.filterMap_nil]

/-- The column of values rests on the lines that start fields. -/
theorem alignmentOf_congr {xs ys : List (List Char)} (h : fieldLines xs = fieldLines ys) :
    alignmentOf xs = alignmentOf ys := by
  rw [alignmentOf, alignmentOf, valueColumns, valueColumns, h]

/-- What the scan takes of a description does not depend on the covered lines below a field. -/
theorem fieldLines_eq_of_covered {before run run' after : List (List Char)} {start : List Char}
    (hstart : isFieldLine (Text.trim start) = true) (hrun : ∀ line ∈ run, IsCovered start line)
    (hrun' : ∀ line ∈ run', IsCovered start line) :
    fieldLines ((before ++ start :: (run ++ after)).filterMap visible?) =
      fieldLines ((before ++ start :: (run' ++ after)).filterMap visible?) := by
  obtain ⟨visible, hvisible, hindent, hfield⟩ := exists_visible?_of_isFieldLine hstart
  obtain ⟨starts, between, hbefore⟩ := exists_scans (before.filterMap visible?) none
  obtain ⟨taken, next, hfurther⟩ := exists_scans_field between hfield
  have hscan : ∀ run : List (List Char), (∀ line ∈ run, IsCovered start line) →
      fieldLines ((before ++ start :: (run ++ after)).filterMap visible?) =
        starts ++ taken ++ fieldLinesFrom next (after.filterMap visible?) := by
    intro run hrun
    have hseen : (before ++ start :: (run ++ after)).filterMap visible? =
        (before.filterMap visible? ++ visible :: run.filterMap visible?) ++
          after.filterMap visible? := by
      rw [List.filterMap_append, List.filterMap_cons_some hvisible, List.filterMap_append]
      simp
    rw [fieldLines, hseen]
    exact hbefore.append (hfurther _ fun other hother ↦ hindent ▸ indentOf_lt_of_isCovered hrun hother) _
  rw [hscan run hrun, hscan run' hrun']

/-- The order of the header does not depend on the covered lines below a field. -/
theorem topNames_eq_of_covered {before run run' after : List (List Char)} {start : List Char}
    (hrun : ∀ line ∈ run, IsCovered start line) (hrun' : ∀ line ∈ run', IsCovered start line) :
    topNames ((before ++ start :: (run ++ after)).filterMap visible?) =
      topNames ((before ++ start :: (run' ++ after)).filterMap visible?) := by
  have hnone : ∀ run : List (List Char), (∀ line ∈ run, IsCovered start line) →
      topNames (run.filterMap visible?) = [] := fun run hrun ↦
    topNames_of_indented fun _ hvisible ↦ Nat.zero_lt_of_lt (indentOf_lt_of_isCovered hrun hvisible)
  have hsplit : ∀ run : List (List Char), before ++ start :: (run ++ after) =
      before ++ [start] ++ run ++ after := by simp
  simp only [hsplit, List.filterMap_append, topNames_append, hnone run hrun, hnone run' hrun']

/-- What stands below a field has no influence on the column of values and on the order of the
header: any lines that are deeper than the field, blank or comments can stand there instead. -/
theorem ofText_eq_of_covered {text text' : String} {before run run' after : List (List Char)}
    {start : List Char} (htext : Text.lines text.toList = before ++ start :: (run ++ after))
    (htext' : Text.lines text'.toList = before ++ start :: (run' ++ after))
    (hstart : isFieldLine (Text.trim start) = true) (hrun : ∀ line ∈ run, IsCovered start line)
    (hrun' : ∀ line ∈ run', IsCovered start line) :
    (ofText text').alignment = (ofText text).alignment ∧
      (ofText text').fieldOrder = (ofText text).fieldOrder := by
  simp only [alignment_ofText, fieldOrder_ofText, htext, htext']
  exact ⟨alignmentOf_congr (fieldLines_eq_of_covered hstart hrun' hrun),
    topNames_eq_of_covered hrun' hrun⟩

/-- A line of a description that looks like a field makes room for one that is indented by a tab, an
empty line and a comment. -/
theorem ofText_eq_of_covered_block :
    let text := "name:  x\nlibrary\n  main:\n    note: y\n  type: z\n"
    let text' := "name:  x\nlibrary\n  main:\n\tnote:   y\n\n-- a: b\n  type: z\n"
    let run := ["    note: y".toList]
    let run' := ["\tnote:   y".toList, [], "-- a: b".toList]
    (∀ line ∈ run, IsCovered "  main:".toList line) ∧
      (∀ line ∈ run', IsCovered "  main:".toList line) ∧
        (ofText text').alignment = (ofText text).alignment ∧
          (ofText text').fieldOrder = (ofText text).fieldOrder := by
  intro text text' run run'
  have hrun : ∀ line ∈ run, IsCovered "  main:".toList line := by
    decide
  have hrun' : ∀ line ∈ run', IsCovered "  main:".toList line := by
    decide
  have htext : Text.lines text.toList = ["name:  x".toList, "library".toList] ++
      "  main:".toList :: (run ++ ["  type: z".toList]) := by
    simp only [text]
    rfl
  have htext' : Text.lines text'.toList = ["name:  x".toList, "library".toList] ++
      "  main:".toList :: (run' ++ ["  type: z".toList]) := by
    simp only [text']
    rfl
  exact ⟨hrun, hrun', ofText_eq_of_covered htext htext' (by decide) hrun hrun'⟩

end LayoutHints

end CabalManifest
