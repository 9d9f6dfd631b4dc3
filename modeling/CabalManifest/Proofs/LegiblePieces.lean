import CabalManifest.Proofs.Pieces

/-!
# What is seen of a piece

A piece is *legible* if what is written of it is recognised when it is read again: names are names,
headers start no field, and no line of a value looks like an item behind a comma, unless it is one.

* A header is seen as one line, which starts no field (`visibleLines_header`).
* A field is seen as one line that starts it, and lines that are indented deeper
  (`visibleLines_field`). The first line gives the name, the gap in front of the value, and whether
  there is a value at all.
* Commas stand in front of items exactly where hints say so (`exists_leadsComma_iff`).
-/

namespace CabalManifest

/-! ### Texts -/

namespace Text

/-- A control character. -/
def isControl (c : Char) : Bool := c.toNat < 32 || (127 ≤ c.toNat && c.toNat < 160)

/-- A text in one line without control characters. -/
def Plain (cs : List Char) : Prop := ∀ c ∈ cs, isControl c = false ∧ isLineBoundary c = false

instance (cs : List Char) : Decidable (Plain cs) :=
  List.decidableBAll _ cs

/-- A plain text with no blanks around it. -/
def Tidy (cs : List Char) : Prop := cs ≠ [] ∧ trim cs = cs ∧ Plain cs

instance (cs : List Char) : Decidable (Tidy cs) :=
  inferInstanceAs (Decidable (_ ∧ _))

@[simp]
theorem plain_append {xs ys : List Char} : Plain (xs ++ ys) ↔ Plain xs ∧ Plain ys :=
  List.forall_mem_append

/-- A plain text is in one line. -/
theorem Plain.unbroken {cs : List Char} (h : Plain cs) : Unbroken cs := fun c hc ↦ (h c hc).2

theorem Plain.tab_not_mem {cs : List Char} (h : Plain cs) : '\t' ∉ cs := fun hc ↦
  absurd (h _ hc).1 (by decide)

/-- A text without blanks around it has none in front of it and none behind it. -/
theorem isFlush_and_trimRight_of_trim {cs : List Char} (h : trim cs = cs) :
    IsFlush cs ∧ trimRight cs = cs := by
  have hright : trimRight cs = cs := by
    conv => lhs; rw [← h, trim, trimRight_trimRight]
    exact h
  refine ⟨?_, hright⟩
  rw [← h, ← trimLeft_trimRight]
  exact isFlush_trimLeft _

theorem Tidy.isFlush {cs : List Char} (h : Tidy cs) : IsFlush cs :=
  (isFlush_and_trimRight_of_trim h.2.1).1

/-- A tidy text ends with no blank. -/
theorem Tidy.trimRight_eq {cs : List Char} (h : Tidy cs) : trimRight cs = cs :=
  (isFlush_and_trimRight_of_trim h.2.1).2

/-- Spaces in front of a text do not matter to what is left without them. -/
theorem trim_replicate_space_append (n : Nat) (cs : List Char) :
    trim (List.replicate n ' ' ++ cs) = trim cs := by
  rw [trim, trimLeft_replicate_space, trim]

theorem trim_of_isFlush {cs : List Char} (h : IsFlush cs) : trim cs = trimRight cs := by
  rw [trim, trimLeft_of_isFlush h]

/-- A text that starts with something that is no blank still does so when it is trimmed. -/
theorem head?_trim_of_isFlush {cs : List Char} (h : IsFlush cs) : (trim cs).head? = cs.head? := by
  rw [trim_of_isFlush h]
  cases cs with
  | nil => rfl
  | cons c cs => rw [trimRight_cons (isFlush_cons.1 h), List.head?_cons, List.head?_cons]

end Text

namespace LayoutHints

open Text (Unbroken IsFlush Plain Tidy)

/-! ### Names -/

/-- Whether a text is the name of a field. -/
def isFieldName : List Char → Bool
  | [] => false
  | c :: cs => c.isAlpha && cs.all isNameChar

theorem isNameChar_of_isAlpha {c : Char} (h : c.isAlpha) : isNameChar c = true := by
  simp [isNameChar, Char.isAlphanum, h]

theorem isNameChar_of_mem {name : List Char} (h : isFieldName name) {c : Char} (hc : c ∈ name) :
    isNameChar c = true := by
  cases name with
  | nil => cases hc
  | cons d cs =>
    simp only [isFieldName, Bool.and_eq_true, List.all_eq_true] at h
    rcases List.mem_cons.1 hc with rfl | hc
    · exact isNameChar_of_isAlpha h.1
    · exact h.2 c hc

/-- The characters of names lie in a range of codes that has no colon. -/
theorem toNat_of_isNameChar {c : Char} (h : isNameChar c = true) :
    45 ≤ c.toNat ∧ c.toNat ≤ 122 ∧ c.toNat ≠ 58 := by
  have halpha : c.isAlpha = (c.isUpper || c.isLower) := rfl
  have hupper : c.isUpper = decide (c.val ≥ 'A'.val ∧ c.val ≤ 'Z'.val) := rfl
  have hlower : c.isLower = (decide (c.val ≥ 'a'.val) && decide (c.val ≤ 'z'.val)) := rfl
  simp only [isNameChar, Char.isAlphanum, halpha, hupper, hlower, Char.isDigit, Bool.or_eq_true,
    Bool.and_eq_true, decide_eq_true_eq, beq_iff_eq, ge_iff_le, UInt32.le_iff_toNat_le] at h
  rcases h with ((h | rfl) | rfl) | rfl
  · have hval : c.toNat = c.val.toNat := rfl
    simp at h
    omega
  all_goals decide

/-- A character of a name is visible. -/
theorem isBlank_of_isNameChar {c : Char} (h : isNameChar c = true) : Text.isBlank c = false := by
  have hrange := toNat_of_isNameChar h
  simp only [Text.isBlank, Bool.or_eq_false_iff, Bool.and_eq_false_iff, decide_eq_false_iff_not,
    beq_eq_false_iff_ne]
  omega

theorem plain_of_isNameChar {cs : List Char} (h : ∀ c ∈ cs, isNameChar c = true) : Plain cs := by
  intro c hc
  have hrange := toNat_of_isNameChar (h c hc)
  simp only [Text.isControl, Text.isLineBoundary, Bool.or_eq_false_iff, Bool.and_eq_false_iff,
    decide_eq_false_iff_not, beq_eq_false_iff_ne]
  omega

/-- The name of a field is plain. -/
theorem plain_of_isFieldName {name : List Char} (h : isFieldName name) : Plain name :=
  plain_of_isNameChar fun _ ↦ isNameChar_of_mem h

/-- A text that starts with a name starts with a letter. -/
theorem head?_any_isAlpha_of_isFieldName {name : List Char} (h : isFieldName name)
    (rest : List Char) : (name ++ rest).head?.any Char.isAlpha := by
  cases name with
  | nil => cases h
  | cons c cs =>
    rw [isFieldName, Bool.and_eq_true] at h
    simpa using h.1

/-- A field is recognised by its name and the colon. -/
theorem fieldLine?_of_isFieldName {name : List Char} (h : isFieldName name) (gap : Nat)
    {value : List Char} (hvalue : IsFlush value) :
    fieldLine? (name ++ ':' :: (List.replicate gap ' ' ++ value)) =
      some ⟨name, List.replicate gap ' ', value⟩ := by
  cases name with
  | nil => cases h
  | cons c cs =>
    simp only [isFieldName, Bool.and_eq_true, List.all_eq_true] at h
    have hcolon : isNameChar ':' = false := rfl
    have hdrop : (cs ++ ':' :: (List.replicate gap ' ' ++ value)).dropWhile isNameChar =
        ':' :: (List.replicate gap ' ' ++ value) := by
      rw [List.dropWhile_append_of_pos h.2, List.dropWhile_cons_of_neg (by simp [hcolon])]
    have htake : (cs ++ ':' :: (List.replicate gap ' ' ++ value)).takeWhile isNameChar = cs := by
      rw [List.takeWhile_append_of_pos h.2, List.takeWhile_cons_of_neg (by simp [hcolon]),
        List.append_nil]
    have hblank : ∀ c ∈ List.replicate gap ' ', Text.isBlank c = true := by
      intro c hc
      rw [List.eq_of_mem_replicate hc]
      rfl
    have hvalue' : value.takeWhile Text.isBlank = [] := by
      cases value with
      | nil => rfl
      | cons d ds => exact List.takeWhile_cons_of_neg (by simp [Text.isFlush_cons.1 hvalue])
    rw [List.cons_append, fieldLine?, h.1, hdrop, htake]
    simp only
    rw [List.takeWhile_append_of_pos hblank, List.dropWhile_append_of_pos hblank, hvalue',
      List.append_nil, ← Text.trimLeft, Text.trimLeft_of_isFlush hvalue]

/-- A line that shows something and is no comment is not ignored. -/
theorem isIgnored_eq_false {line : List Char} (hne : Text.trim line ≠ [])
    (h : "--".toList.isPrefixOf (Text.trim line) = false) : isIgnored line = false := by
  rw [isIgnored, h, Bool.or_false]
  simpa using hne

/-! ### Commas -/

/-- Whether a text looks like an item behind a comma. -/
def leadsComma : List Char → Bool
  | ',' :: c :: _ => c == ' ' || c == '\t'
  | _ => false

/-- Whether a comma and a space lead a line can be told before its tabs are expanded. -/
theorem isPrefixOf_expandTabs (column : Nat) (cs : List Char) :
    ", ".toList.isPrefixOf (expandTabs column cs) = leadsComma cs := by
  match cs with
  | [] => rfl
  | [c] =>
    by_cases hc : c = '\t'
    · subst hc
      have hwidth : 8 - column % 8 = (7 - column % 8) + 1 := by omega
      rw [expandTabs_tab, hwidth, List.replicate_succ]
      rfl
    · rw [expandTabs_cons hc]
      simp [leadsComma, List.isPrefixOf]
  | c :: d :: cs =>
    by_cases hc : c = ','
    · subst hc
      rw [expandTabs_cons (by decide)]
      by_cases hd : d = '\t'
      · subst hd
        have hwidth : 8 - (column + 1) % 8 = (7 - (column + 1) % 8) + 1 := by omega
        rw [expandTabs_tab, hwidth, List.replicate_succ]
        simp [leadsComma]
      · have htab : (d == '\t') = false := beq_eq_false_iff_ne.2 hd
        rw [expandTabs_cons hd]
        simp [leadsComma, List.isPrefixOf, htab, BEq.comm]
    · have hleads : leadsComma (c :: d :: cs) = false := by
        rw [leadsComma]
        intro _ _ heq
        exact hc (List.cons.inj heq).1
      rw [hleads]
      by_cases htab : c = '\t'
      · subst htab
        have hwidth : 8 - column % 8 = (7 - column % 8) + 1 := by omega
        rw [expandTabs_tab, hwidth, List.replicate_succ]
        rfl
      · rw [expandTabs_cons htab]
        simp [List.isPrefixOf, Ne.symm hc]

/-- A visible line is taken for an item behind a comma if it was written as one. -/
theorem isPrefixOf_trim_of_visible? {line visible : List Char} (h : visible? line = some visible) :
    ", ".toList.isPrefixOf (Text.trim visible) = leadsComma (Text.trim line) := by
  obtain ⟨column, hcolumn⟩ := trim_of_visible? h
  rw [hcolumn, isPrefixOf_expandTabs]

/-! ### Legible pieces -/

/-- A text that can stand for a line of its own in a list. -/
def IsItem (item : List Char) : Prop :=
  Tidy item ∧ item.head? ≠ some ',' ∧ "--".toList.isPrefixOf item = false

instance (item : List Char) : Decidable (IsItem item) :=
  inferInstanceAs (Decidable (_ ∧ _))

/-- An item starts with a character that is neither a blank nor a comma. -/
theorem IsItem.exists_cons {item : List Char} (h : IsItem item) :
    ∃ c cs, item = c :: cs ∧ Text.isBlank c = false ∧ c ≠ ',' := by
  obtain ⟨htidy, hcomma, -⟩ := h
  cases item with
  | nil => exact absurd rfl htidy.1
  | cons c cs => exact ⟨c, cs, rfl, Text.isFlush_cons.1 htidy.isFlush, by simpa using hcomma⟩

/-- An item stays as it is with a comma behind it. -/
theorem IsItem.trim_append_comma {item : List Char} (h : IsItem item) :
    Text.trim (item ++ [',']) = item ++ [','] := by
  obtain ⟨c, cs, rfl, hblank, -⟩ := h.exists_cons
  have hflush : IsFlush (c :: cs ++ [',']) := Text.isFlush_cons.2 hblank
  rw [Text.trim_of_isFlush hflush]
  exact Text.trimRight_concat _ (by decide)

theorem IsItem.isPrefixOf_append_comma {item : List Char} (h : IsItem item) :
    "--".toList.isPrefixOf (item ++ [',']) = false := by
  have hdashes := h.2.2
  match item with
  | [] => rfl
  | [c] => simp [List.isPrefixOf]
  | c :: d :: cs => simpa [List.isPrefixOf] using hdashes

/-- A text that can stand as the header of a stanza: it starts with a letter, but no field. -/
def IsHeader (header : List Char) : Prop :=
  Tidy header ∧ (header.head?.any Char.isAlpha) ∧ isFieldLine header = false

instance (header : List Char) : Decidable (IsHeader header) :=
  inferInstanceAs (Decidable (_ ∧ _))

end LayoutHints

open LayoutHints
open Text (Unbroken IsFlush Plain Tidy)

/-- A value whose lines cannot be taken for anything else. -/
def Content.Legible : Content → Prop
  | .inline text => IsFlush text.toList ∧ Unbroken text.toList
  | .block rows => ∀ row ∈ rows, Unbroken row.toList ∧ leadsComma (Text.trim row.toList) = false
  | .lines items | .commas items => ∀ item ∈ items, IsItem item.toList

/-- A piece that is recognised when it is read again. -/
def Piece.Legible : Piece → Prop
  | .header text => IsHeader text.toList
  | .field name content => isFieldName name.toList ∧ content.Legible
  | .raw _ => False

/-- Whether a value is a list with commas in it. -/
def Content.HasCommas (content : Content) : Prop := ∃ items, content = .commas items ∧ 2 ≤ items.length

namespace LayoutHints

variable (hints : LayoutHints)

@[simp]
theorem toList_spaces (n : Nat) : (spaces n).toList = List.replicate n ' ' := by
  simp [spaces]

theorem toList_indented (n k : Nat) (body : String) :
    (spaces n ++ spaces k ++ body).toList = List.replicate (n + k) ' ' ++ body.toList := by
  simp [List.replicate_append_replicate]

/-! ### Further lines -/

/-- A line that starts otherwise has no comma in front. -/
theorem leadsComma_of_head? {cs : List Char} (h : cs.head? ≠ some ',') : leadsComma cs = false := by
  rw [leadsComma]
  rintro c rest rfl
  exact h rfl

theorem leadsComma_trim_of_isFlush {cs : List Char} (hflush : IsFlush cs)
    (h : cs.head? ≠ some ',') : leadsComma (Text.trim cs) = false :=
  leadsComma_of_head? (by rwa [Text.head?_trim_of_isFlush hflush])

/-- What a line behind the first line of a field can look like. -/
structure IsFurther (content : Content) (indent : Nat) (line : List Char) : Prop where
  deeper : ∃ n body, indent < n ∧ line = List.replicate n ' ' ++ body
  unbroken : Unbroken line
  hasCommas : leadsComma (Text.trim line) → hints.commaStyle = .leading ∧ content.HasCommas

/-- A line that is indented further belongs to the field above it. -/
theorem IsFurther.of_indented {content : Content} {indent k : Nat} (hk : 0 < k) {body : String}
    (hbody : Unbroken body.toList)
    (hcommas : leadsComma (Text.trim body.toList) →
      hints.commaStyle = .leading ∧ content.HasCommas) :
    hints.IsFurther content indent (spaces indent ++ spaces k ++ body).toList := by
  rw [toList_indented]
  refine ⟨⟨_, _, Nat.lt_add_of_pos_right hk, rfl⟩, ?_, ?_⟩
  · exact Text.unbroken_append.2 ⟨Text.unbroken_replicate_space _, hbody⟩
  · rwa [Text.trim_replicate_space_append]

/-- An item that is indented further belongs to the field above it. -/
theorem IsFurther.of_isItem {content : Content} {indent k : Nat} (hk : 0 < k) {item : String}
    (h : IsItem item.toList) :
    hints.IsFurther content indent (spaces indent ++ spaces k ++ item).toList := by
  refine .of_indented hints hk h.1.2.2.unbroken fun hleads ↦ ?_
  rw [leadsComma_trim_of_isFlush h.1.isFlush h.2.1] at hleads
  cases hleads

/-- The lines behind the first line of a field are indented deeper, and none of them looks like an
item behind a comma, unless it is one. -/
theorem isFurther_of_mem_furtherLines {content : Content} (h : content.Legible) {indent : Nat}
    {line : String} (hline : line ∈ hints.furtherLines (spaces indent) content) :
    hints.IsFurther content indent line.toList := by
  cases content with
  | inline text => cases hline
  | block lines =>
    obtain ⟨row, hrow, rfl⟩ := List.mem_map.1 hline
    obtain ⟨hunbroken, hleads⟩ := h row hrow
    refine .of_indented hints (by decide) ?_ fun hcommas ↦ ?_
    · split
      · decide
      · exact hunbroken
    · split at hcommas
      · cases hcommas
      · rw [hleads] at hcommas
        cases hcommas
  | lines items =>
    obtain ⟨item, hitem, rfl⟩ := List.mem_map.1 hline
    exact .of_isItem hints (by decide) (h item hitem)
  | commas items =>
    rw [furtherLines] at hline
    cases items with
    | nil => cases hline
    | cons first rest =>
      cases hstyle : hints.commaStyle with
      | leading =>
        rw [hstyle, commaLines, List.mem_cons, List.mem_map] at hline
        rcases hline with rfl | ⟨item, hitem, rfl⟩
        · exact .of_isItem hints (by decide) (h first List.mem_cons_self)
        · rw [String.append_assoc]
          refine .of_indented hints (by decide) ?_ fun _ ↦ ⟨hstyle, _, rfl, ?_⟩
          · have hunbroken := (h item (List.mem_cons_of_mem _ hitem)).1.2.2.unbroken
            simpa using ⟨by decide, by decide, hunbroken⟩
          · have hpos := List.length_pos_of_mem hitem
            simp
            omega
      | trailing =>
        rw [hstyle, commaLines, List.mem_append, List.mem_map, List.mem_singleton] at hline
        rcases hline with ⟨item, hitem, rfl⟩ | rfl
        · have hitem := h item (List.dropLast_subset _ hitem)
          rw [String.append_assoc]
          refine .of_indented hints (by decide) ?_ fun hleads ↦ ?_
          · simpa using ⟨hitem.1.2.2.unbroken, by decide⟩
          · obtain ⟨c, cs, hcs, hblank, hcomma⟩ := hitem.exists_cons
            rw [String.toList_append, hcs, List.cons_append, leadsComma_trim_of_isFlush
              (Text.isFlush_cons.2 hblank) (by simpa using hcomma)] at hleads
            cases hleads
        · refine .of_isItem hints (by decide) (h _ ?_)
          rw [List.getLastD_cons]
          exact List.getLastD_mem_cons

/-- With commas in front of items, a list that has commas shows one. -/
theorem exists_leadsComma_of_hasCommas {content : Content} (h : content.Legible)
    (hcommas : content.HasCommas) (hstyle : hints.commaStyle = .leading) (indent : Nat) :
    ∃ line ∈ hints.furtherLines (spaces indent) content,
      leadsComma (Text.trim line.toList) = true := by
  obtain ⟨items, rfl, hlength⟩ := hcommas
  match items, hlength with
  | first :: second :: rest, _ =>
    obtain ⟨c, cs, hcs, hblank, -⟩ := (h second (by simp)).exists_cons
    have htrim : Text.trim (", " ++ second).toList = ',' :: ' ' :: Text.trimRight (c :: cs) := by
      have hflush : IsFlush (", ".toList ++ c :: cs) :=
        Text.isFlush_cons.2 (show Text.isBlank ',' = false by decide)
      rw [String.toList_append, hcs, Text.trim_of_isFlush hflush]
      exact Text.trimRight_append [',', ' '] ⟨c, List.mem_cons_self, hblank⟩
    refine ⟨spaces indent ++ spaces (itemIndent - 2) ++ ", " ++ second, ?_, ?_⟩
    · rw [furtherLines, hstyle, commaLines]
      simp
    · rw [String.append_assoc, toList_indented, Text.trim_replicate_space_append, htrim]
      rfl

/-- With commas behind items, a list that has commas shows one. -/
theorem exists_getLast?_of_hasCommas {content : Content} (h : content.Legible)
    (hcommas : content.HasCommas) (hstyle : hints.commaStyle = .trailing) (indent : Nat) :
    ∃ visible ∈ visibleLines (hints.furtherLines (spaces indent) content),
      visible.getLast? = some ',' := by
  obtain ⟨items, rfl, hlength⟩ := hcommas
  match items, hlength with
  | first :: second :: rest, _ =>
    have hfirst := h first List.mem_cons_self
    set line := spaces indent ++ spaces itemIndent ++ first ++ "," with hline
    have hmem : line ∈ hints.furtherLines (spaces indent) (.commas (first :: second :: rest)) := by
      rw [furtherLines, hstyle, commaLines]
      simp [hline]
    have hlist : line.toList =
        List.replicate (indent + itemIndent) ' ' ++ (first.toList ++ [',']) := by
      rw [hline, String.append_assoc, toList_indented, String.toList_append]
      rfl
    have hright : Text.trimRight line.toList = line.toList := by
      rw [hlist, ← List.append_assoc]
      exact Text.trimRight_concat _ (by decide)
    have htrim : Text.trim line.toList = first.toList ++ [','] := by
      rw [hlist, Text.trim_replicate_space_append, hfirst.trim_append_comma]
    have hcounts : isIgnored line.toList = false :=
      isIgnored_eq_false (by simp [htrim]) (by rw [htrim]; exact hfirst.isPrefixOf_append_comma)
    refine ⟨expandTabs 0 line.toList, ?_, ?_⟩
    · refine List.mem_filterMap.2 ⟨line, hmem, ?_⟩
      rw [visible?, hcounts, hright]
      rfl
    · rw [hlist, ← List.append_assoc, expandTabs_concat_of_not_blank (by decide)]
      simp

/-! ### First lines -/

/-- A visible line that is indented by some spaces, with a text behind them. -/
structure IsSeen (indent : Nat) (text : List Char) (line : List Char) : Prop where
  indentOf_eq : indentOf line = indent
  trim_eq : ∃ column, Text.trim line = expandTabs column text
  unindented : indent = 0 → Text.trim line = line

/-- A line that starts with a letter is seen. -/
theorem exists_isSeen {cs : List Char} (h : cs.head?.any Char.isAlpha) (indent : Nat) :
    ∃ line, visible? (List.replicate indent ' ' ++ cs) = some line ∧
      IsSeen indent (Text.trimRight cs) line := by
  cases cs with
  | nil => cases h
  | cons c cs =>
    have hblank : Text.isBlank c = false :=
      isBlank_of_isNameChar (isNameChar_of_isAlpha (by simpa using h))
    have hdash : c ≠ '-' := by
      rintro rfl
      cases h
    have hflush : IsFlush (c :: cs) := Text.isFlush_cons.2 hblank
    have htrim : Text.trim (List.replicate indent ' ' ++ c :: cs) = Text.trimRight (c :: cs) := by
      rw [Text.trim_replicate_space_append, Text.trim_of_isFlush hflush]
    have hcounts : isIgnored (List.replicate indent ' ' ++ c :: cs) = false := by
      rw [Text.trimRight_cons hblank] at htrim
      refine isIgnored_eq_false (by simp [htrim]) ?_
      rw [htrim]
      simp [List.isPrefixOf, Ne.symm hdash]
    obtain ⟨line, hline⟩ : ∃ line, visible? (List.replicate indent ' ' ++ c :: cs) = some line :=
      Option.ne_none_iff_exists'.1 fun hnone ↦ by
        rw [visible?_eq_none_iff, hcounts] at hnone
        cases hnone
    refine ⟨line, hline, (indentOf_of_visible? hline).2 hflush, ?_, ?_⟩
    · rw [← htrim]
      exact trim_of_visible? hline
    · rintro rfl
      rw [Text.trim_of_isFlush (isFlush_of_visible? hline hflush), trimRight_of_visible? hline]

/-- The gap between the name of a field and its value. -/
def gapAt (name : String) (content : Content) : Nat :=
  if content.inlineText = "" then 0 else hints.gapOf name

/-- A field starts with its name, a colon, the gap and what stands in the same line. -/
theorem toList_startOf (name : String) (content : Content) :
    (hints.startOf name content).toList =
      name.toList ++
        ':' :: (List.replicate (hints.gapAt name content) ' ' ++ content.inlineText.toList) := by
  rw [startOf, gapAt]
  split
  · next h => simp [h]
  · simp

/-- A visible line that starts a field, with the gap behind its name. -/
structure StartsField (indent : Nat) (name : String) (gap : Nat) (hasValue : Bool)
    (line : List Char) : Prop where
  indentOf_eq : indentOf line = indent
  unindented : indent = 0 → Text.trim line = line
  fieldLine?_eq : ∃ value, fieldLine? (Text.trim line) =
    some ⟨name.toList, List.replicate gap ' ', value⟩ ∧ value.isEmpty = !hasValue

/-- The value of a legible field does not start with a blank. -/
theorem isFlush_inlineText {content : Content} (h : content.Legible) :
    IsFlush content.inlineText.toList := by
  cases content with
  | inline text => exact h.1
  | _ => exact Text.isFlush_nil

/-- What stands in the line of a legible field is in one line. -/
theorem unbroken_inlineText {content : Content} (h : content.Legible) :
    Unbroken content.inlineText.toList := by
  cases content with
  | inline text => exact h.2
  | _ => exact Text.unbroken_nil

/-- Blanks at the end of the first line of a field are those of its value. -/
theorem trimRight_startOf (name : String) {content : Content} (h : content.Legible) :
    Text.trimRight (hints.startOf name content).toList =
      (name.toList ++ ':' :: List.replicate (hints.gapAt name content) ' ') ++
        Text.trimRight content.inlineText.toList := by
  rw [toList_startOf, gapAt]
  split
  · next hempty =>
    have hright : Text.trimRight (name.toList ++ [':']) = name.toList ++ [':'] :=
      Text.trimRight_concat _ (by decide)
    have hnil : Text.trimRight [] = [] := rfl
    simpa [hempty, hnil] using hright
  · next hempty =>
    have hflush := isFlush_inlineText h
    cases hcs : content.inlineText.toList with
    | nil => exact absurd (String.toList_eq_nil_iff.1 hcs) hempty
    | cons c cs =>
      rw [← List.cons_append, ← List.append_assoc, Text.trimRight_append]
      exact ⟨c, List.mem_cons_self, Text.isFlush_cons.1 (hcs ▸ hflush)⟩

/-- The first line of a field is seen as such. -/
theorem exists_startsField {name : String} (hname : isFieldName name.toList) {content : Content}
    (hcontent : content.Legible) (indent : Nat) :
    ∃ line, visible? (spaces indent ++ hints.startOf name content).toList = some line ∧
      StartsField indent name (hints.gapAt name content) (content.inlineText != "") line := by
  set gap := hints.gapAt name content with hgap
  set value := content.inlineText.toList with hvalue
  have hflush : IsFlush value := isFlush_inlineText hcontent
  have hlist : (spaces indent ++ hints.startOf name content).toList =
      List.replicate indent ' ' ++ (name.toList ++ ':' :: (List.replicate gap ' ' ++ value)) := by
    rw [String.toList_append, toList_spaces, toList_startOf]
  obtain ⟨line, hline, hindent, ⟨column, hcolumn⟩, hunindented⟩ :=
    exists_isSeen (head?_any_isAlpha_of_isFieldName hname _) indent
  rw [← hlist] at hline
  have hright := hints.trimRight_startOf name hcontent
  rw [toList_startOf, ← hgap, ← hvalue] at hright
  have hno_tab : '\t' ∉ name.toList ++ ':' :: List.replicate gap ' ' := by
    have hname_tab := (plain_of_isFieldName hname).tab_not_mem
    simp [hname_tab, List.mem_replicate]
  obtain ⟨next, hnext⟩ := exists_expandTabs_append_of_no_tab hno_tab column (Text.trimRight value)
  rw [hright, hnext, List.append_assoc, List.cons_append] at hcolumn
  have hvalue' : IsFlush (expandTabs next (Text.trimRight value)) ∧
      (expandTabs next (Text.trimRight value)).isEmpty = value.isEmpty := by
    cases hcs : value with
    | nil => exact ⟨Text.isFlush_nil, rfl⟩
    | cons c cs =>
      have hblank := Text.isFlush_cons.1 (hcs ▸ hflush)
      rw [Text.trimRight_cons hblank, expandTabs_cons_of_not_blank hblank, Text.isFlush_cons]
      exact ⟨hblank, rfl⟩
  refine ⟨line, hline, hindent, hunindented, expandTabs next (Text.trimRight value), ?_, ?_⟩
  · rw [hcolumn]
    exact fieldLine?_of_isFieldName hname gap hvalue'.1
  · rw [hvalue'.2, hvalue, bne, Bool.not_not, Bool.eq_iff_iff, List.isEmpty_iff, beq_iff_eq]
    exact String.toList_eq_nil_iff

/-- A header is seen as it is. -/
theorem exists_isSeen_header {header : String} (h : IsHeader header.toList) (indent : Nat) :
    ∃ line, visible? (spaces indent ++ header).toList = some line ∧ indentOf line = indent ∧
      Text.trim line = header.toList ∧ (indent = 0 → Text.trim line = line) := by
  obtain ⟨htidy, hletter, -⟩ := h
  obtain ⟨line, hline, hindent, ⟨column, hcolumn⟩, hunindented⟩ := exists_isSeen hletter indent
  refine ⟨line, ?_, hindent, ?_, hunindented⟩
  · rw [String.toList_append, toList_spaces, hline]
  · rw [hcolumn, htidy.trimRight_eq, expandTabs_of_no_tab htidy.2.2.tab_not_mem]

end LayoutHints

end CabalManifest
