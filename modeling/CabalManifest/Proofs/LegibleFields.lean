import CabalManifest.Proofs.Regeneration
import CabalManifest.Proofs.SplitTexts

/-!
# Which values are written legibly

The values of a package as they have to be for its description to be read again: items of lists are
tidy, and texts do not look like anything else. Field by field, such values become legible elements
(`isLegibleField_of_element?`), and so do the fields of a scope (`FieldSet.IsTidy.passes`) and what
stands under its conditions (`Conditional.isNested_of_mem_elements`).
-/

namespace CabalManifest

open LayoutHints
open Text (Unbroken IsFlush Plain Tidy)

/-! ### Texts -/

namespace Text

/-- A text in one line that starts with no blank. -/
def IsLine (cs : List Char) : Prop := IsFlush cs ∧ Plain cs

instance (cs : List Char) : Decidable (IsLine cs) :=
  inferInstanceAs (Decidable (_ ∧ _))

theorem Tidy.isLine {cs : List Char} (h : Tidy cs) : IsLine cs := ⟨h.isFlush, h.2.2⟩

theorem not_mem_of_plain {cs : List Char} (h : Plain cs) : '\n' ∉ cs := fun hc ↦
  absurd (h _ hc).1 (by decide)

/-- The characters of texts that are joined are those of the texts and the separator. -/
theorem mem_intercalate {separator : List Char} {pieces : List (List Char)} {c : Char}
    (h : c ∈ separator.intercalate pieces) : c ∈ separator ∨ ∃ piece ∈ pieces, c ∈ piece := by
  induction pieces with
  | nil => simp [List.intercalate] at h
  | cons piece pieces ih =>
    cases pieces with
    | nil => exact .inr ⟨piece, List.mem_cons_self, by simpa [List.intercalate] using h⟩
    | cons other pieces =>
      rw [List.intercalate_cons_cons, List.mem_append, List.mem_append] at h
      rcases h with (h | h) | h
      · exact .inr ⟨piece, List.mem_cons_self, h⟩
      · exact .inl h
      · rcases ih h with h | ⟨found, hfound, h⟩
        · exact .inl h
        · exact .inr ⟨found, List.mem_cons_of_mem _ hfound, h⟩

theorem IsFlush.append {xs ys : List Char} (hx : IsFlush xs) (hy : xs = [] → IsFlush ys) :
    IsFlush (xs ++ ys) := by
  cases xs with
  | nil => exact hy rfl
  | cons x xs => exact isFlush_cons.2 (isFlush_cons.1 hx)

theorem IsLine.append {xs ys : List Char} (hx : IsLine xs) (hne : xs ≠ []) (hy : Plain ys) :
    IsLine (xs ++ ys) :=
  ⟨hx.1.append fun h ↦ absurd h hne, plain_append.2 ⟨hx.2, hy⟩⟩

/-- Texts that are joined start as the first of them, or as the separator. -/
theorem isFlush_intercalate {separator first : List Char} (hfirst : IsFlush first)
    (hseparator : first = [] → IsFlush separator ∧ separator ≠ []) (rest : List (List Char)) :
    IsFlush (separator.intercalate (first :: rest)) := by
  cases rest with
  | nil => simpa [List.intercalate] using hfirst
  | cons other rest =>
    rw [List.intercalate_cons_cons, List.append_assoc]
    refine hfirst.append fun hnil ↦ ?_
    obtain ⟨hflush, hne⟩ := hseparator hnil
    exact hflush.append fun h ↦ absurd h hne

/-- The first piece of a text starts like the text, if it is not empty. -/
theorem isFlush_of_splitOn {separator : Char} {cs first : List Char} {rest : List (List Char)}
    (hsplit : cs.splitOn separator = first :: rest) (hflush : IsFlush cs) : IsFlush first := by
  cases cs with
  | nil =>
    rw [← (List.cons.inj hsplit).1]
    exact isFlush_nil
  | cons c cs =>
    by_cases hc : c = separator
    · rw [hc, splitOn_cons_self] at hsplit
      rw [← (List.cons.inj hsplit).1]
      exact isFlush_nil
    · obtain ⟨_, _, -, hcut⟩ := exists_splitOn_cons hc cs
      rw [hcut] at hsplit
      rw [← (List.cons.inj hsplit).1]
      exact isFlush_cons.2 (isFlush_cons.1 hflush)

end Text

/-- A text that stays legible as the value of a field: after its line feeds at the end it is a line
that starts with no blank, or several lines none of which looks like an item behind a comma. -/
def IsLegibleText (text : String) : Prop := (Content.ofText text).Legible

theorem ofText_of_isLine {text : String} (h : Text.IsLine text.toList) :
    Content.ofText text = .inline text := by
  have hnot := Text.not_mem_of_plain h.2
  rw [Content.ofText, textLines, Text.dropRight_of_not_mem hnot, List.splitOn_eq_singleton hnot,
    List.map_singleton, String.ofList_toList]

theorem legible_inline_of_isLine {text : String} (h : Text.IsLine text.toList) :
    (Content.inline text).Legible :=
  ⟨h.1, h.2.unbroken⟩

theorem isLegibleText_of_isLine {text : String} (h : Text.IsLine text.toList) :
    IsLegibleText text := by
  rw [IsLegibleText, ofText_of_isLine h]
  exact legible_inline_of_isLine h

/-- Items that are joined by plain text make up a legible line, if the first of them does. -/
theorem legible_inline_intercalate {separator first : String} (hseparator : Plain separator.toList)
    (hfirst : first.toList ≠ []) {rest : List String}
    (h : ∀ item ∈ first :: rest, Text.IsLine item.toList) :
    (Content.inline (separator.intercalate (first :: rest))).Legible := by
  rw [Content.Legible, String.toList_intercalate, List.map_cons]
  refine ⟨Text.isFlush_intercalate (h first List.mem_cons_self).1 (fun hnil ↦ absurd hnil hfirst) _,
    fun c hc ↦ ?_⟩
  rw [← List.map_cons] at hc
  rcases Text.mem_intercalate hc with hc | ⟨piece, hpiece, hc⟩
  · exact (hseparator c hc).2
  · obtain ⟨item, hitem, rfl⟩ := List.mem_map.1 hpiece
    exact ((h item hitem).2 c hc).2

/-! ### Fields -/

/-- A value whose items are tidy and whose text passes a test. -/
def FieldValue.IsTidy (isText : String → Prop) : FieldValue → Prop
  | .text s => isText s
  | .texts items => ∀ item ∈ items, IsItem item.toList
  | .dependencies items => ∀ dependency ∈ items, IsItem dependency.text.toList
  | _ => True

theorem isFieldName_label_of_mem_registries :
    ∀ field ∈ Field.all ++ Field.customSetup, isFieldName field.label.toList = true := by
  decide

theorem mem_registries_of_mem_fields {kind : SectionKind} {field : Field}
    (h : field ∈ kind.fields) : field ∈ Field.all ++ Field.customSetup := by
  cases kind with
  | customSetup => exact List.mem_append_right _ h
  | _ =>
    simp only [SectionKind.fields, Field.all, List.mem_append] at h ⊢
    tauto

/-- A legible field. -/
def Element.IsLegibleField (element : Element) : Prop :=
  ∃ name content, element = .field name content ∧ isFieldName name.toList ∧ content.Legible

theorem isLegibleField_of_isLine {name text : String} (hname : isFieldName name.toList)
    (h : Text.IsLine text.toList) : (Element.field name (.inline text)).IsLegibleField :=
  ⟨name, _, rfl, hname, legible_inline_of_isLine h⟩

/-- Items in one line are laid out legibly if each of them is a line and the first one not empty. -/
theorem isLegibleField_of_inline_items {field : Field} (hlabel : isFieldName field.label.toList)
    (hstyle : field.style = .words ∨ field.style = .joined) {items : List String}
    (hfirst : ∀ first ∈ items.head?, first ≠ "")
    (h : ∀ item ∈ items, Text.IsLine item.toList) {element : Element}
    (helement : field.itemsElement items = some element) : element.IsLegibleField := by
  cases items with
  | nil => cases helement
  | cons first rest =>
    have hne : first.toList ≠ [] := fun hnil ↦
      hfirst first rfl (String.toList_eq_nil_iff.1 hnil)
    rcases hstyle with hstyle | hstyle
    · rw [Field.itemsElement, hstyle] at helement
      cases helement
      exact ⟨_, _, rfl, hlabel, legible_inline_intercalate (by decide) hne h⟩
    · rw [Field.itemsElement, hstyle] at helement
      cases helement
      exact ⟨_, _, rfl, hlabel, legible_inline_intercalate (by decide) hne h⟩

theorem ne_empty_of_isItem {item : String} (h : IsItem item.toList) : item ≠ "" := by
  rintro rfl
  exact h.1.1 rfl

/-- Tidy items are laid out legibly, in whatever style. -/
theorem isLegibleField_of_items {field : Field} (hlabel : isFieldName field.label.toList)
    {items : List String} (h : ∀ item ∈ items, IsItem item.toList) {element : Element}
    (helement : field.itemsElement items = some element) : element.IsLegibleField := by
  have hline : ∀ item ∈ items, Text.IsLine item.toList := fun item hitem ↦ (h item hitem).1.isLine
  have hfirst : ∀ first ∈ items.head?, first ≠ "" := by
    rintro first hmem
    exact ne_empty_of_isItem (h first (List.mem_of_head? hmem))
  cases hstyle : field.style with
  | words => exact isLegibleField_of_inline_items hlabel (.inl hstyle) hfirst hline helement
  | joined => exact isLegibleField_of_inline_items hlabel (.inr hstyle) hfirst hline helement
  | _ =>
    rw [Field.itemsElement, hstyle] at helement
    split at helement
    · cases helement
    · cases helement
      exact ⟨_, _, rfl, hlabel, h⟩

/-- Tidy values are laid out legibly. -/
theorem isLegibleField_of_element? {field : Field} (hlabel : isFieldName field.label.toList)
    {value : FieldValue} (h : value.IsTidy IsLegibleText) {element : Element}
    (helement : field.element? value = some element) : element.IsLegibleField := by
  cases value with
  | dependencies items =>
    refine isLegibleField_of_items hlabel (fun item hitem ↦ ?_) helement
    obtain ⟨dependency, hdependency, rfl⟩ := List.mem_map.1 hitem
    exact h dependency hdependency
  | texts items => exact isLegibleField_of_items hlabel h helement
  | bool b =>
    cases helement
    cases b
    · exact isLegibleField_of_isLine hlabel (by decide)
    · exact isLegibleField_of_isLine hlabel (by decide)
  | text s =>
    cases helement
    exact ⟨_, _, rfl, hlabel, h⟩
  | _ => cases helement

/-! ### Scopes -/

/-- The field that a key has in a section. -/
def SectionKind.field? (kind : SectionKind) (key : String) : Option Field :=
  kind.fields.find? key <|> Registry.find? Field.all key

theorem isFieldName_label_of_field? {kind : SectionKind} {key : String} {field : Field}
    (h : kind.field? key = some field) : isFieldName field.label.toList := by
  rcases (Option.orElse_eq_some ..).1 h with h | ⟨-, h⟩
  · exact isFieldName_label_of_mem_registries field
      (mem_registries_of_mem_fields (List.mem_of_find?_eq_some h))
  · exact isFieldName_label_of_mem_registries field
      (List.mem_append_left _ (List.mem_of_find?_eq_some h))

/-- A field set of a section or a branch whose values are tidy. -/
def FieldSet.IsTidy (fields : FieldSet) : Prop :=
  ∀ entry ∈ fields.entries, entry.2.IsTidy fun text ↦ Text.IsLine text.toList

theorem FieldValue.IsTidy.imp {p q : String → Prop} (himp : ∀ text, p text → q text)
    {value : FieldValue} (h : value.IsTidy p) : value.IsTidy q := by
  cases value with
  | text s => exact himp s h
  | _ => exact h

theorem FieldSet.IsTidy.value {fields : FieldSet} (h : fields.IsTidy) {key : String}
    {value : FieldValue} (hget : fields.get? key = some value) :
    value.IsTidy fun text ↦ Text.IsLine text.toList :=
  h (key, value) (Entries.mem_of_get?_eq_some hget)

theorem FieldSet.IsTidy.texts {fields : FieldSet} (h : fields.IsTidy) {key : String} :
    ∀ item ∈ fields.texts key, IsItem item.toList :=
  FieldSet.forall_mem_texts fun _ hget ↦ h.value hget

/-! ### The main file -/

/-- The file of a main program is made of the characters of the main program, slashes and an ending. -/
theorem mem_of_mem_splitMain {main : String} {c : Char}
    (h : c ∈ (ModuleName.splitMain main).1.toList) : c ∈ main.toList ∨ c ∈ "/.hs".toList := by
  rw [ModuleName.splitMain] at h
  split at h
  · exact .inl h
  · rw [String.toList_append, String.toList_intercalate, List.mem_append] at h
    rcases h with h | h
    · rcases Text.mem_intercalate h with h | ⟨piece, hpiece, h⟩
      · rw [List.mem_singleton.1 h]
        exact .inr (by decide)
      · obtain ⟨component, hcomponent, rfl⟩ := List.mem_map.1 hpiece
        have hparts : component ∈ ModuleName.parts main := by
          split at hcomponent
          · exact hcomponent
          · exact List.dropLast_subset _ hcomponent
        obtain ⟨part, hpart, rfl⟩ := List.mem_map.1 hparts
        rw [String.toList_ofList] at h
        exact .inl ((Text.mem_and_ne_of_mem_splitOn hpart h).1)
    · exact .inr (List.mem_cons_of_mem _ h)

/-- The file of a main program starts with no blank if the main program starts with none. -/
theorem isFlush_splitMain {main : String} (h : IsFlush main.toList) :
    IsFlush (ModuleName.splitMain main).1.toList := by
  have key : ∀ components : List String, components <+: ModuleName.parts main →
      IsFlush ("/".intercalate components ++ ".hs").toList := by
    intro components hprefix
    have hpieces : components.map String.toList <+: List.splitOn '.' main.toList := by
      have hmap := hprefix.map String.toList
      rwa [ModuleName.parts, List.map_map, show String.toList ∘ String.ofList = id from
        funext fun _ ↦ String.toList_ofList, List.map_id] at hmap
    rw [String.toList_append, String.toList_intercalate]
    cases components with
    | nil => decide
    | cons first rest =>
      obtain ⟨further, hsplit⟩ := hpieces
      have hfirst : IsFlush first.toList := Text.isFlush_of_splitOn hsplit.symm h
      have hslash : first.toList = [] → IsFlush "/".toList ∧ "/".toList ≠ [] := fun _ ↦ by decide
      have hjoined := Text.isFlush_intercalate hfirst hslash (rest.map String.toList)
      exact hjoined.append fun _ ↦ by decide
  rw [ModuleName.splitMain]
  split
  · exact h
  · refine key _ ?_
    split
    · exact List.prefix_rfl
    · exact List.dropLast_prefix _

/-- The file of a main program is a line if the main program is one. -/
theorem isLine_splitMain {main : String} (h : Text.IsLine main.toList) :
    Text.IsLine (ModuleName.splitMain main).1.toList := by
  have hending : Plain "/.hs".toList := by decide
  exact ⟨isFlush_splitMain h.1, fun c hc ↦ (mem_of_mem_splitMain hc).elim (h.2 c) (hending c)⟩

/-- With the main file set apart, every value is tidy but for the options of the compiler, which
still fit into one line. -/
theorem FieldSet.IsTidy.withMain {fields : FieldSet} (h : fields.IsTidy) {key : String}
    {value : FieldValue} (hget : fields.withMain.get? key = some value) :
    (value.IsTidy fun text ↦ Text.IsLine text.toList) ∨
      key = "ghc-options" ∧ ∃ items, value = .texts items ∧
        (∀ first ∈ items.head?, first ≠ "") ∧ ∀ item ∈ items, Text.IsLine item.toList := by
  obtain hgiven | ⟨main, hmain, ⟨-, rfl⟩ | ⟨rfl, rfl⟩⟩ := FieldSet.get?_withMain_eq_some hget
  · exact .inl (h.value hgiven)
  · exact .inl (isLine_splitMain (h.value hmain))
  · have hline : Text.IsLine main.toList := h.value hmain
    refine .inr ⟨rfl, _, rfl, fun first hfirst ↦ ?_, fun item hitem ↦ ?_⟩
    · cases hoptions : fields.texts "ghc-options" with
      | nil =>
        rw [hoptions, List.nil_append, List.head?_cons, Option.mem_some] at hfirst
        rw [← hfirst]
        exact fun hempty ↦ by simpa using congrArg String.toList hempty
      | cons option options =>
        rw [hoptions, List.cons_append, List.head?_cons, Option.mem_some] at hfirst
        rw [← hfirst]
        exact ne_empty_of_isItem (h.texts option (hoptions ▸ List.mem_cons_self))
    · rcases List.mem_append.1 hitem with hitem | hitem
      · exact (h.texts item hitem).1.isLine
      · rw [List.mem_singleton.1 hitem, String.toList_append]
        exact Text.IsLine.append (by decide) (by decide) hline.2

theorem style_ghcOptions (kind : SectionKind) :
    ∀ field ∈ kind.field? "ghc-options", field.style = .words := by
  cases kind <;> decide

/-- The fields of a tidy scope are laid out legibly. -/
theorem FieldSet.IsTidy.passes {fields : FieldSet} (h : fields.IsTidy) (kind : SectionKind) :
    fields.withMain.Passes Element.IsLegibleField kind := by
  intro key value field element hget hfield helement
  have hlabel := isFieldName_label_of_field? hfield
  rcases h.withMain hget with htidy | ⟨rfl, items, rfl, hfirst, hitems⟩
  · have htext := htidy.imp fun _ ↦ isLegibleText_of_isLine
    exact isLegibleField_of_element? hlabel htext helement
  · have hstyle := style_ghcOptions kind field hfield
    exact isLegibleField_of_inline_items hlabel (.inl hstyle) hfirst hitems helement

/-! ### Headers -/

/-- A word with a space behind it starts no field. -/
theorem isFieldLine_append_space {word : List Char} (hword : isFieldName word) (text : List Char) :
    isFieldLine (word ++ ' ' :: text) = false := by
  cases word with
  | nil => cases hword
  | cons c cs =>
    have hdrop : (cs ++ ' ' :: text).dropWhile isNameChar = ' ' :: text := by
      rw [List.dropWhile_append_of_pos fun d hd ↦ isNameChar_of_mem hword (List.mem_cons_of_mem _ hd),
        List.dropWhile_cons_of_neg (by decide)]
    rw [List.cons_append, isFieldLine, fieldLine?, hdrop]
    cases c.isAlpha <;> rfl

/-- A word with a tidy text behind it is a header. -/
theorem isHeader_append {word text : List Char} (hword : isFieldName word) (htext : Tidy text) :
    IsHeader (word ++ ' ' :: text) := by
  have hletter := head?_any_isAlpha_of_isFieldName hword (' ' :: text)
  have hfield := isFieldLine_append_space hword text
  cases word with
  | nil => cases hword
  | cons c cs =>
    have hname := fun d hd ↦ isNameChar_of_mem hword (c := d) hd
    have hblank := isBlank_of_isNameChar (hname c List.mem_cons_self)
    have hsplit : c :: cs ++ ' ' :: text = (c :: cs ++ [' ']) ++ text := by simp
    refine ⟨⟨by simp, ?_, ?_⟩, hletter, hfield⟩
    · obtain ⟨d, ds, hcons⟩ := List.exists_cons_of_ne_nil htext.1
      have hvisible : ∃ d ∈ text, Text.isBlank d = false :=
        ⟨d, hcons ▸ List.mem_cons_self, Text.isFlush_cons.1 (hcons ▸ htext.isFlush)⟩
      have hflush : IsFlush (c :: cs ++ ' ' :: text) := Text.isFlush_cons.2 hblank
      rw [Text.trim_of_isFlush hflush, hsplit, Text.trimRight_append _ hvisible,
        htext.trimRight_eq]
    · rw [hsplit]
      exact Text.plain_append.2 ⟨Text.plain_append.2 ⟨plain_of_isFieldName hword, by decide⟩,
        htext.2.2⟩

/-! ### Conditionals -/

/-- A conditional with tidy conditions and values, at any depth. -/
inductive Conditional.IsTidy : Conditional → Prop
  | intro {conditional : Conditional} :
    Tidy conditional.condition.toList →
      (∀ branch ∈ conditional.branches, branch.IsTidy) →
        (∀ branch ∈ conditional.branches, ∀ inner ∈ branch.conditionals, inner.IsTidy) →
          conditional.IsTidy

/-- An element that can stand inside of a stanza: it keeps its order, and all of it is legible. -/
def Element.IsNested (element : Element) : Prop :=
  element.IsSteady ∧ ∀ depth, ∀ piece ∈ element.pieces depth, piece.2.Legible

theorem Element.IsLegibleField.isNested {element : Element} (h : element.IsLegibleField) :
    element.IsNested := by
  obtain ⟨name, content, rfl, hname, hcontent⟩ := h
  refine ⟨fun _ ↦ rfl, fun depth piece hpiece ↦ ?_⟩
  rw [List.mem_singleton.1 hpiece]
  exact ⟨hname, hcontent⟩

/-- A stanza that keeps its order can stand inside of another one if its elements can. -/
theorem Element.isNested_stanza (header : String) (elements : List Element)
    (hheader : IsHeader header.toList) (h : ∀ element ∈ elements, element.IsNested) :
    (Element.stanza header elements false).IsNested := by
  refine ⟨fun hints ↦ ?_, fun depth piece hpiece ↦ ?_⟩
  · have hall : elements.map hints.arrange = elements :=
      (List.map_congr_left fun element helement ↦ (h element helement).1 hints).trans
        (List.map_id _)
    rw [arrange, arrangeAll_eq_map, hall]
    rfl
  · rcases List.mem_cons.1 hpiece with rfl | hpiece
    · exact hheader
    · obtain ⟨element, helement, hpiece⟩ := Element.mem_piecesAll.1 hpiece
      exact (h element helement).2 (depth + 1) piece hpiece

/-- What stands under tidy conditionals keeps its order and is legible. -/
theorem Conditional.isNested_of_mem_elements {conditionals : List Conditional}
    (h : ∀ conditional ∈ conditionals, conditional.IsTidy) {kind : SectionKind} :
    ∀ element ∈ Conditional.elements kind conditionals, element.IsNested := by
  refine Conditional.forall_elements Element.isNested_stanza (by decide)
    (fun conditional hconditional ↦ ?_) h
  obtain ⟨hcondition, hbranches, hinner⟩ := hconditional
  refine ⟨?_, fun branch hbranch ↦ ⟨?_, hinner branch hbranch⟩⟩
  · rw [String.toList_append]
    exact isHeader_append (show isFieldName "if".toList by decide) hcondition
  · exact ((hbranches branch hbranch).passes kind).imp fun _ ↦ Element.IsLegibleField.isNested

end CabalManifest
