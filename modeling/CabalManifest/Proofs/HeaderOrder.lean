import CabalManifest.Proofs.Arrangement

/-!
# The header and the stanzas behind it

In their standard order, the fields of the header stand in front of all stanzas. A previous
description can give the header another order, and stanzas stay behind the field that they stand
behind: they move with the last header field that the previous description names.

So the header stays in front of the stanzas exactly if that field is also the one which the previous
description names behind all others (`fieldsFirst_sortBy_iff`). A description that starts with the
version of the format tears the header apart.
-/

namespace CabalManifest

namespace Element

open LayoutHints (isStanza)

/-- No field stands behind a stanza. -/
def FieldsFirst (elements : List Element) : Prop :=
  elements.Pairwise fun a b ↦ isStanza a → b.name? = none

/-- The last of the fields that an order names. -/
def lastNamed? (order : List String) (elements : List Element) : Option String :=
  ((fieldNames elements).filter order.contains).getLast?

/-- The last of the fields that an order names is also the last one in the order. -/
def KeepsLast (order : List String) (elements : List Element) : Prop :=
  ∀ last ∈ lastNamed? order elements, ∀ name ∈ fieldNames elements, name ∈ order →
    order.idxOf name ≤ order.idxOf last

instance (order : List String) (elements : List Element) : Decidable (KeepsLast order elements) :=
  inferInstanceAs (Decidable (∀ last ∈ lastNamed? order elements, _))

/-- Elements without a stanza in front of a field, followed by stanzas only. -/
theorem FieldsFirst.append {xs ys : List Element} (hx : ∀ x ∈ xs, isStanza x = false)
    (hy : ∀ y ∈ ys, isStanza y) : FieldsFirst (xs ++ ys) := by
  refine List.pairwise_append.2 ⟨?_, ?_, fun x hmem y _ hstanza ↦ ?_⟩
  · refine List.pairwise_of_forall_mem_list fun x hmem y _ hstanza ↦ ?_
    rw [hx x hmem] at hstanza
    cases hstanza
  · exact List.pairwise_of_forall_mem_list fun _ _ y hmem _ ↦ name?_of_isStanza (hy y hmem)
  · rw [hx x hmem] at hstanza
    cases hstanza

section Behind

variable {cuts : String → Bool} {stanzas : List Element}

/-- Stanzas start no blocks. -/
theorem blocks_append_of_nil (hs : ∀ stanza ∈ stanzas, isStanza stanza) {fields : List Element}
    (h : (blocks cuts fields).2 = []) :
    blocks cuts (fields ++ stanzas) = (fields ++ stanzas, []) := by
  induction fields with
  | nil =>
    rw [List.nil_append]
    clear h
    induction stanzas with
    | nil => rfl
    | cons stanza rest ih =>
      have hname := name?_of_isStanza (hs stanza List.mem_cons_self)
      have hrest := ih fun other hother ↦ hs other (List.mem_cons_of_mem _ hother)
      rw [blocks_cons_other rest (by simp [hname]), hrest]
  | cons field rest ih =>
    obtain ⟨name, hname, hcuts⟩ | ho := starts_or_not cuts field
    · simp [blocks_cons_field rest hname hcuts] at h
    · rw [blocks_cons_other rest ho] at h
      rw [List.cons_append, blocks_cons_other _ ho, ih h]

/-- Stanzas behind some blocks belong to the last of them. -/
theorem blocks_append_of_concat (hs : ∀ stanza ∈ stanzas, isStanza stanza) {fields : List Element}
    {bs : List (String × List Element)} {last : String × List Element}
    (h : (blocks cuts fields).2 = bs ++ [last]) :
    blocks cuts (fields ++ stanzas) =
      ((blocks cuts fields).1, bs ++ [(last.1, last.2 ++ stanzas)]) := by
  induction fields generalizing bs with
  | nil => simp [blocks] at h
  | cons field rest ih =>
    obtain ⟨name, hname, hcuts⟩ | ho := starts_or_not cuts field
    · rw [blocks_cons_field rest hname hcuts] at h ⊢
      rw [List.cons_append, blocks_cons_field _ hname hcuts]
      cases bs with
      | nil =>
        obtain ⟨rfl, hnil⟩ := List.cons.inj h
        have hrest : (blocks cuts rest).1 = rest := by
          simpa [hnil] using append_ofBlocks cuts rest
        simp [blocks_append_of_nil hs hnil, hrest]
      | cons first bs =>
        obtain ⟨rfl, htail⟩ := List.cons.inj h
        simp [ih htail]
    · rw [blocks_cons_other rest ho] at h ⊢
      rw [List.cons_append, blocks_cons_other _ ho, ih h]

end Behind

section Sorted

variable {order : List String} {fields stanzas : List Element} {bs : List (String × List Element)}
  {last : String × List Element}

/-- If the fields in front of stanzas are cut where the order names them, the order keeps the last
of these at the end exactly if it puts no block behind the last one. -/
theorem keepsLast_iff_of_concat (h : (blocks order.contains fields).2 = bs ++ [last]) :
    KeepsLast order fields ↔ ∀ block ∈ bs, position order block ≤ position order last := by
  have hnamed := map_blocks order.contains fields
  rw [h] at hnamed
  have hmem (name : String) :
      name ∈ fieldNames fields ∧ name ∈ order ↔ name ∈ (bs ++ [last]).map (·.1) := by
    rw [hnamed]
    simp
  have hget : lastNamed? order fields = some last.1 := by
    rw [lastNamed?, ← hnamed]
    simp
  simp only [KeepsLast, hget, Option.mem_def, Option.some.injEq, forall_eq', ← and_imp, hmem]
  simp [position, or_imp, forall_and]

/-- A block that is sorted behind the one with the stanzas would start with a field behind them. -/
theorem position_le_of_fieldsFirst (hf : ∀ field ∈ fields, isStanza field = false)
    (hs : ∀ stanza ∈ stanzas, isStanza stanza) (hne : stanzas ≠ [])
    (hlast : (blocks order.contains fields).2 = bs ++ [last])
    (h : FieldsFirst (sortBy order (fields ++ stanzas))) {block : String × List Element}
    (hmem : block ∈ bs) : position order block ≤ position order last := by
  obtain ⟨stanza, hstanza⟩ := List.exists_mem_of_ne_nil stanzas hne
  rw [sortBy_eq_blocks, blocks_append_of_concat hs hlast] at h
  have hblock : block ∈ (blocks order.contains fields).2 := hlast ▸ List.mem_append_left _ hmem
  have hapart := (List.pairwise_flatMap.1 (List.pairwise_append.1 h).2.1).2
  have hsorted := @Ranking.pairwise_mergeSort _ (position order)
    (bs ++ [(last.1, last.2 ++ stanzas)])
  set sorted := (bs ++ [(last.1, last.2 ++ stanzas)]).mergeSort (Ranking.fits (position order))
  have hin : block ∈ sorted := List.mem_mergeSort.2 (List.mem_append_left _ hmem)
  obtain ⟨xs, ys, hsplit⟩ := List.append_of_mem
    (show (last.1, last.2 ++ stanzas) ∈ sorted from List.mem_mergeSort.2 (by simp))
  rw [hsplit] at hapart hsorted hin
  rcases List.mem_append.1 hin with hbefore | hafter
  · have hfits := (List.pairwise_append.1 hsorted).2.2 block hbefore _ List.mem_cons_self
    exact (Ranking.fits_iff _ _ _).1 hfits
  rcases List.mem_cons.1 hafter with heq | hafter
  · -- a block of fields has no stanzas in it
    have hfield : stanza ∈ fields := by
      rw [← append_ofBlocks order.contains fields]
      refine List.mem_append_right _ (List.mem_flatMap.2 ⟨block, hblock, ?_⟩)
      exact heq ▸ List.mem_append_right _ hstanza
    have hfalse := hf stanza hfield
    rw [hs stanza hstanza] at hfalse
    cases hfalse
  · obtain ⟨field, rest, hcons, hname, -⟩ := exists_cons_of_mem_blocks hblock
    have hnone := List.rel_of_pairwise_cons (List.pairwise_append.1 hapart).2.1 hafter stanza
      (List.mem_append_right _ hstanza) field (hcons ▸ List.mem_cons_self) (hs stanza hstanza)
    rw [hname] at hnone
    cases hnone

/-- If no block is put behind the last one, the stanzas in it stay at the end. -/
theorem fieldsFirst_of_position_le (hf : ∀ field ∈ fields, isStanza field = false)
    (hs : ∀ stanza ∈ stanzas, isStanza stanza)
    (hlast : (blocks order.contains fields).2 = bs ++ [last])
    (h : ∀ block ∈ bs, position order block ≤ position order last) :
    FieldsFirst (sortBy order (fields ++ stanzas)) := by
  have happend := append_ofBlocks order.contains fields
  rw [hlast] at happend
  rw [sortBy_eq_blocks, blocks_append_of_concat hs hlast,
    Ranking.mergeSort_concat_of_fits fun block hmem ↦ by simpa [position] using h block hmem]
  have hshape : (blocks order.contains fields).1 ++ ofBlocks
        (bs.mergeSort (Ranking.fits (position order)) ++ [(last.1, last.2 ++ stanzas)]) =
      ((blocks order.contains fields).1 ++ ofBlocks
        (bs.mergeSort (Ranking.fits (position order)) ++ [last])) ++ stanzas := by
    simp
  rw [hshape]
  refine FieldsFirst.append (fun element helement ↦ hf element <| happend ▸ ?_) hs
  have hperm := (List.mergeSort_perm bs (Ranking.fits (position order))).append_right [last]
  exact ((hperm.flatMap_right _).append_left _).mem_iff.1 helement

end Sorted

/-- With stanzas behind them, fields that are sorted stay in front exactly if the order keeps the
last field that it names at the end. -/
theorem fieldsFirst_sortBy_iff (order : List String) {fields stanzas : List Element}
    (hf : ∀ field ∈ fields, isStanza field = false) (hs : ∀ stanza ∈ stanzas, isStanza stanza)
    (hne : stanzas ≠ []) :
    FieldsFirst (sortBy order (fields ++ stanzas)) ↔ KeepsLast order fields := by
  obtain hnil | ⟨bs, last, hlast⟩ := List.eq_nil_or_concat' (blocks order.contains fields).2
  · -- the order names no field at all, and nothing moves
    rw [sortBy_eq_blocks, blocks_append_of_nil hs hnil]
    refine iff_of_true (by simpa using FieldsFirst.append hf hs) ?_
    simp [KeepsLast, lastNamed?, ← map_blocks order.contains fields, hnil]
  · rw [keepsLast_iff_of_concat hlast]
    exact ⟨fun h _ hmem ↦ position_le_of_fieldsFirst hf hs hne hlast h hmem,
      fieldsFirst_of_position_le hf hs hlast⟩

end Element

open Element

/-! ### The header of a package -/

namespace Package

theorem isStanza_of_mem_headerElements {package : Package} {element : Element}
    (h : element ∈ package.headerElements) : LayoutHints.isStanza element = false := by
  obtain ⟨key, -, hkey⟩ := List.mem_filterMap.1 h
  have hname := name?_of_headerElement? hkey
  cases element with
  | stanza => cases hname
  | field => rfl
  | raw => rfl

/-- Without overrides, arranging a package is sorting its header together with its stanzas. -/
theorem arranged_eq_sortBy {package : Package} (h : package.verbatim = [])
    (hints : LayoutHints) :
    package.arranged hints = sortBy hints.fieldOrder
      (package.headerElements ++ package.stanzas.map hints.arrange) := by
  have hheader : package.headerElements.map hints.arrange = package.headerElements :=
    (List.map_congr_left fun _ helement ↦
      hints.arrange_of_not_stanza (isStanza_of_mem_headerElements helement)).trans (List.map_id _)
  rw [arranged, LayoutHints.arrangeTop, elements_eq, h, overrideAll, List.foldl_nil,
    LayoutHints.arrangeAll_eq_map, List.map_append, hheader]

/-- Without overrides at its top, the header of a package stays in front of its stanzas exactly if
there are none, or the hints keep the last header field that they name at the end. -/
theorem fieldsFirst_arranged_iff {package : Package} (h : package.verbatim = [])
    (hints : LayoutHints) :
    FieldsFirst (package.arranged hints) ↔
      package.stanzas = [] ∨ KeepsLast hints.fieldOrder package.headerElements := by
  rw [arranged_eq_sortBy h]
  have hheader : ∀ element ∈ package.headerElements, LayoutHints.isStanza element = false :=
    fun _ helement ↦ isStanza_of_mem_headerElements helement
  by_cases hnone : package.stanzas = []
  · refine iff_of_true ?_ (.inl hnone)
    have hsorted : ∀ element ∈ sortBy hints.fieldOrder package.headerElements,
        LayoutHints.isStanza element = false :=
      fun element helement ↦ hheader element ((perm_sortBy hints.fieldOrder _).mem_iff.1 helement)
    simpa [hnone] using FieldsFirst.append hsorted (List.forall_mem_nil _)
  · have hstanza : ∀ element ∈ package.stanzas.map hints.arrange, LayoutHints.isStanza element := by
      intro element helement
      obtain ⟨stanza, hmem, rfl⟩ := List.mem_map.1 helement
      rw [LayoutHints.isStanza_arrange]
      exact isStanza_of_mem_stanzas hmem
    rw [fieldsFirst_sortBy_iff hints.fieldOrder hheader hstanza (by simpa using hnone)]
    exact (or_iff_right hnone).symm

/-- A package is written element by element in its arrangement. Without overrides at its top, no
field of its header is written behind a stanza exactly if there is no stanza, or the last header
field that the previous description names is also the one that it names behind all others. -/
theorem render_fieldsFirst_iff (package : Package) (previous : String)
    (h : package.verbatim = []) :
    package.render (.ofText previous) =
        "\n".intercalate ((LayoutHints.ofText previous).topLines none
          (package.arranged (.ofText previous))) ++ "\n" ∧
      (FieldsFirst (package.arranged (.ofText previous)) ↔
        package.stanzas = [] ∨
          KeepsLast (LayoutHints.ofText previous).fieldOrder package.headerElements) :=
  ⟨rfl, fieldsFirst_arranged_iff h _⟩

end Package

/-- The version of the format may come first where another field of the header comes last. -/
theorem render_fieldsFirst_version_first :
    let package : Package :=
      ⟨"foo", "1", ⟨[("data-dir", .text "data")]⟩, [], [⟨"dev", true, false, none⟩], none, []⟩
    package.verbatim = [] ∧ FieldsFirst (package.arranged
      (.ofText "cabal-version: 1.10\nname: foo\ndata-dir: data\n\nflag dev\n")) :=
  ⟨rfl, (Package.render_fieldsFirst_iff _ _ rfl).2.2 (.inr (by decide))⟩

namespace LayoutHints

/-- No field at the top of a description stands behind the header of a stanza. -/
def TextFieldsFirst (text : String) : Prop :=
  ((relevantLines text.toList).filter fun line ↦ indentOf line == 0).Pairwise fun a b ↦
    isFieldLine b → isFieldLine a

instance (text : String) : Decidable (TextFieldsFirst text) :=
  inferInstanceAs (Decidable (List.Pairwise _ _))

end LayoutHints

/-- A header whose previous description starts with the version of the format is torn apart, although
there all fields stand in front of the stanzas: the stanzas follow the version, and the other fields
the stanzas. -/
theorem not_fieldsFirst_of_version_first :
    ¬∀ (package : Package) (previous : String), package.verbatim = [] →
      LayoutHints.TextFieldsFirst previous →
        FieldsFirst (package.arranged (.ofText previous)) := by
  intro h
  have htorn := h
    ⟨"foo", "1", ⟨[("build-type", .text "Simple")]⟩, [], [⟨"dev", true, false, none⟩], none, []⟩
    "cabal-version: 1.10\nname: foo\n\nflag dev\n" rfl (by decide)
  rw [Package.fieldsFirst_arranged_iff rfl] at htorn
  revert htorn
  decide

end CabalManifest
