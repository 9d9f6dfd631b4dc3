import CabalManifest.Element
import Mathlib.Data.List.Nodup
import Mathlib.Data.List.Sort

/-!
# Sorting elements by the order of fields

`Element.sortBy` ranks elements one after another and sorts them by rank. Its result is said here
without ranks: the elements are cut into *blocks*, each a field with what stands behind it, and the
blocks are arranged as wholes (`sortBy_eq_blocks`).

* `eq_of_sorted_of_filter_eq` is the uniqueness of stable sorting: sorted lists with the same items
  of every rank are the same list. All that is said about sorting below rests on it.
* `sortBy_fieldNames_sortBy` says that the fields of a sorted list, taken as an order of their own,
  sort the elements in the same way again, although fields that the first order does not name are
  named by the second. As names that no field has count for nothing (`sortBy_filter`), so does every
  order that shows these fields one after another (`sortBy_own_order`).
* `sortBy_arranges_blocks` is the whole of what sorting does: the blocks are told apart by what they
  are (`IsCut`), and sorted elements are cut where they were cut before (`blocks_sortBy`), so that to
  sort them again changes nothing.
-/

namespace CabalManifest

/-! ### Sorting by rank -/

namespace Ranking

variable {α : Type*} (rank : α → Nat)

/-- Whether one item may stand in front of another one. -/
def fits (a b : α) : Bool := rank a ≤ rank b

@[simp]
theorem fits_iff (a b : α) : fits rank a b = true ↔ rank a ≤ rank b :=
  decide_eq_true_iff

theorem fits_trans (a b c : α) : fits rank a b → fits rank b c → fits rank a c := by
  simp only [fits_iff]
  omega

theorem fits_total (a b : α) : fits rank a b || fits rank b a := by
  simp only [Bool.or_eq_true, fits_iff]
  omega

/-- The items of one rank. -/
abbrev ofRank (n : Nat) (items : List α) : List α := items.filter fun item ↦ rank item == n

variable {rank}

/-- The first item of a sorted list has the least of its ranks. -/
theorem rank_le_of_mem {a b : α} {items : List α}
    (h : (a :: items).Pairwise fun x y ↦ fits rank x y) (hb : b ∈ a :: items) :
    rank a ≤ rank b := by
  rcases List.mem_cons.1 hb with rfl | hb
  · exact le_refl _
  · have hab := List.rel_of_pairwise_cons h hb
    exact (fits_iff rank a b).1 hab

/-- Sorted lists that have the same items of every rank, in the same order, are the same list. -/
theorem eq_of_sorted_of_filter_eq :
    ∀ {xs ys : List α}, xs.Pairwise (fun a b ↦ fits rank a b) →
      ys.Pairwise (fun a b ↦ fits rank a b) → (∀ n, ofRank rank n xs = ofRank rank n ys) →
        xs = ys := by
  intro xs
  induction xs with
  | nil =>
    intro ys _ _ h
    cases ys with
    | nil => rfl
    | cons y ys => simpa [ofRank] using h (rank y)
  | cons x xs ih =>
    intro ys hx hy h
    cases ys with
    | nil => simpa [ofRank] using h (rank x)
    | cons y ys =>
      -- each head occurs in the other list, so that their ranks are the same
      have hxy : x ∈ y :: ys := by
        have hx : x ∈ ofRank rank (rank x) (x :: xs) := by simp [ofRank]
        exact List.mem_of_mem_filter (h (rank x) ▸ hx)
      have hyx : y ∈ x :: xs := by
        have hy : y ∈ ofRank rank (rank y) (y :: ys) := by simp [ofRank]
        exact List.mem_of_mem_filter ((h (rank y)).symm ▸ hy)
      have hrank : rank x = rank y := le_antisymm (rank_le_of_mem hx hyx) (rank_le_of_mem hy hxy)
      have hhead : x = y := by
        have hsame := h (rank x)
        simp only [ofRank, List.filter_cons, beq_self_eq_true, hrank, if_true] at hsame
        exact (List.cons.inj hsame).1
      subst hhead
      have htail : xs = ys := by
        refine ih hx.of_cons hy.of_cons fun n ↦ ?_
        have hsame := h n
        simp only [ofRank, List.filter_cons] at hsame
        split at hsame
        · exact (List.cons.inj hsame).2
        · exact hsame
      rw [htail]

theorem pairwise_mergeSort (items : List α) :
    (items.mergeSort (fits rank)).Pairwise fun a b ↦ fits rank a b :=
  List.pairwise_mergeSort (fits_trans rank) (fits_total rank) items

/-- Sorting keeps the items of one rank and their order. -/
theorem ofRank_mergeSort (n : Nat) (items : List α) :
    ofRank rank n (items.mergeSort (fits rank)) = ofRank rank n items := by
  have hsorted : (ofRank rank n items).Pairwise fun a b ↦ fits rank a b := by
    refine List.pairwise_of_forall_mem_list fun a ha b hb ↦ ?_
    have ha := (List.mem_filter.1 ha).2
    have hb := (List.mem_filter.1 hb).2
    simp only [beq_iff_eq] at ha hb
    simp [ha, hb]
  have hsub : (ofRank rank n items).Sublist (items.mergeSort (fits rank)) :=
    List.sublist_mergeSort (fits_trans rank) (fits_total rank) hsorted List.filter_sublist
  have hsub' : (ofRank rank n items).Sublist (ofRank rank n (items.mergeSort (fits rank))) := by
    simpa [ofRank] using hsub.filter fun item ↦ rank item == n
  refine (hsub'.eq_of_length_le ?_).symm
  exact ((List.mergeSort_perm items (fits rank)).filter _).length_eq.le

/-- An item of least rank stays in front. -/
theorem mergeSort_cons_of_fits {item : α} {items : List α}
    (h : ∀ other ∈ items, fits rank item other) :
    (item :: items).mergeSort (fits rank) = item :: items.mergeSort (fits rank) := by
  refine eq_of_sorted_of_filter_eq (pairwise_mergeSort _) ?_ fun n ↦ ?_
  · exact (pairwise_mergeSort items).cons fun other hother ↦ h other (List.mem_mergeSort.1 hother)
  · have htail := @ofRank_mergeSort _ rank n items
    rw [ofRank_mergeSort]
    simp only [ofRank, List.filter_cons] at htail ⊢
    rw [htail]

/-- An item of greatest rank stays at the end. -/
theorem mergeSort_concat_of_fits {item : α} {items : List α}
    (h : ∀ other ∈ items, fits rank other item) :
    (items ++ [item]).mergeSort (fits rank) = items.mergeSort (fits rank) ++ [item] := by
  refine eq_of_sorted_of_filter_eq (pairwise_mergeSort _) ?_ fun n ↦ ?_
  · refine List.pairwise_append.2 ⟨pairwise_mergeSort items, by simp, fun a ha b hb ↦ ?_⟩
    rw [List.mem_singleton.1 hb]
    exact h a (List.mem_mergeSort.1 ha)
  · have hinit := @ofRank_mergeSort _ rank n items
    rw [ofRank_mergeSort]
    simp only [ofRank, List.filter_append] at hinit ⊢
    rw [hinit]

/-- Ranks that compare alike sort alike. -/
theorem mergeSort_congr {rank' : α → Nat} {items : List α}
    (h : ∀ a ∈ items, ∀ b ∈ items, rank a ≤ rank b ↔ rank' a ≤ rank' b) :
    items.mergeSort (fits rank) = items.mergeSort (fits rank') := by
  have hfits : ∀ a ∈ items, ∀ b ∈ items, fits rank a b = fits rank' (id a) (id b) :=
    fun a ha b hb ↦ Bool.eq_iff_iff.2 (by simpa using h a ha b hb)
  have hmap := List.map_mergeSort hfits
  rwa [List.map_id, List.map_id] at hmap

/-- The items of a run, each with the rank of the run. -/
def spread (run : Nat × List α) : List (Nat × α) := run.2.map (run.1, ·)

theorem ofRank_flatMap_spread (n : Nat) (runs : List (Nat × List α)) :
    ofRank Prod.fst n (runs.flatMap spread) = (ofRank Prod.fst n runs).flatMap spread := by
  induction runs with
  | nil => rfl
  | cons run runs ih =>
    rw [List.flatMap_cons, ofRank, List.filter_append]
    change _ ++ ofRank Prod.fst n (runs.flatMap spread) = _
    rw [ih]
    by_cases h : run.1 = n <;> simp [ofRank, spread, List.filter_map, Function.comp_def, h]

/-- Runs of items of one rank are sorted as wholes. -/
theorem mergeSort_flatMap_spread (runs : List (Nat × List α)) :
    (runs.flatMap spread).mergeSort (fits Prod.fst) =
      (runs.mergeSort (fits Prod.fst)).flatMap spread := by
  refine eq_of_sorted_of_filter_eq (pairwise_mergeSort _) ?_ fun n ↦ ?_
  · refine List.pairwise_flatMap.2 ⟨fun run _ ↦ ?_, ?_⟩
    · exact List.pairwise_map.2 (List.pairwise_of_forall fun _ _ ↦ by simp)
    · refine (pairwise_mergeSort runs).imp fun {a b} hab x hx y hy ↦ ?_
      obtain ⟨_, -, rfl⟩ := List.mem_map.1 hx
      obtain ⟨_, -, rfl⟩ := List.mem_map.1 hy
      exact hab
  · rw [ofRank_mergeSort, ofRank_flatMap_spread, ofRank_flatMap_spread, ofRank_mergeSort]

end Ranking

namespace Element

/-! ### Blocks -/

/-- Cuts elements in front of every field whose name passes a test: what stands in front of the
first such field, and the blocks after it, each by the name of its first field. -/
def blocks (cuts : String → Bool) : List Element → List Element × List (String × List Element)
  | [] => ([], [])
  | element :: rest =>
    let (inFront, further) := blocks cuts rest
    match element.name? with
    | some name =>
      if cuts name then ([], (name, element :: inFront) :: further)
      else (element :: inFront, further)
    | none => (element :: inFront, further)

/-- The elements of some blocks. -/
abbrev ofBlocks (blocks : List (String × List Element)) : List Element := blocks.flatMap (·.2)

variable {cuts : String → Bool}

theorem blocks_cons_field {element : Element} {name : String} (rest : List Element)
    (hname : element.name? = some name) (hcuts : cuts name) :
    blocks cuts (element :: rest) =
      ([], (name, element :: (blocks cuts rest).1) :: (blocks cuts rest).2) := by
  simp [blocks, hname, hcuts]

theorem blocks_cons_other {element : Element} (rest : List Element)
    (h : ∀ name, element.name? = some name → cuts name = false) :
    blocks cuts (element :: rest) = (element :: (blocks cuts rest).1, (blocks cuts rest).2) := by
  rw [blocks]
  cases hname : element.name? with
  | none => rfl
  | some name => simp [h name hname]

/-- Whether an element starts a block or not. -/
theorem starts_or_not (cuts : String → Bool) (element : Element) :
    (∃ name, element.name? = some name ∧ cuts name = true) ∨
      ∀ name, element.name? = some name → cuts name = false := by
  cases hname : element.name? with
  | none => exact .inr fun _ h ↦ by simp at h
  | some name =>
    cases hcuts : cuts name with
    | true => exact .inl ⟨name, rfl, hcuts⟩
    | false => exact .inr fun _ h ↦ by rwa [← Option.some.inj h]

/-- Nothing is lost where elements are cut. -/
theorem append_ofBlocks (cuts : String → Bool) (elements : List Element) :
    (blocks cuts elements).1 ++ ofBlocks (blocks cuts elements).2 = elements := by
  induction elements with
  | nil => rfl
  | cons element rest ih =>
    obtain ⟨name, hname, hcuts⟩ | h := starts_or_not cuts element
    · simpa [blocks_cons_field rest hname hcuts] using ih
    · simpa [blocks_cons_other rest h] using ih

/-- Each block goes by the name of its first element, which starts a block. -/
theorem exists_cons_of_mem_blocks {elements : List Element} {block : String × List Element}
    (h : block ∈ (blocks cuts elements).2) :
    ∃ element rest, block.2 = element :: rest ∧ element.name? = some block.1 ∧
      cuts block.1 = true := by
  induction elements with
  | nil => simp [blocks] at h
  | cons element rest ih =>
    obtain ⟨name, hname, hcuts⟩ | ho := starts_or_not cuts element
    · rw [blocks_cons_field rest hname hcuts, List.mem_cons] at h
      rcases h with rfl | h
      · exact ⟨element, _, rfl, hname, hcuts⟩
      · exact ih h
    · rw [blocks_cons_other rest ho] at h
      exact ih h

/-- Elements are cut the same way whatever stands in front of them. -/
theorem blocks_append (xs : List Element) {ys : List Element}
    (hys : (blocks cuts ys).1 = []) :
    blocks cuts (xs ++ ys) = ((blocks cuts xs).1, (blocks cuts xs).2 ++ (blocks cuts ys).2) := by
  induction xs with
  | nil => exact Prod.ext hys rfl
  | cons x xs ih =>
    obtain ⟨name, hname, hcuts⟩ | h := starts_or_not cuts x
    · simp [blocks_cons_field _ hname hcuts, ih]
    · simp [blocks_cons_other _ h, ih]

/-! ### Sorting blocks -/

theorem idxOf?_of_mem {name : String} {order : List String} (h : name ∈ order) :
    order.idxOf? name = some (order.idxOf name) := by
  obtain ⟨position, hposition⟩ := Option.isSome_iff_exists.1 (List.isSome_idxOf?.2 h)
  rw [List.idxOf_eq_getD_idxOf?, hposition]
  rfl

/-- The position of the name of a block. -/
def position (order : List String) (block : String × List Element) : Nat := order.idxOf block.1

/-- Ranking goes block by block: what stands in front of the first field that the order names keeps
the rank from before, and every element of a block has the rank of the field that starts it. -/
theorem ranked_eq (order : List String) (last : Nat) (elements : List Element) :
    ranked order last elements =
      Ranking.spread (last, (blocks order.contains elements).1) ++
        ((blocks order.contains elements).2.map fun block ↦
          (order.idxOf block.1 + 1, block.2)).flatMap Ranking.spread := by
  induction elements generalizing last with
  | nil => rfl
  | cons element rest ih =>
    obtain ⟨name, hname, hcuts⟩ | h := starts_or_not order.contains element
    · have hmem : name ∈ order := by simpa using hcuts
      have hpos : order.idxOf? name = some (order.idxOf name) := idxOf?_of_mem hmem
      simp [ranked, hname, hpos, ih, blocks_cons_field rest hname hcuts, Ranking.spread]
    · have hrank : element.name?.bind (order.idxOf? ·) = none := by
        cases hname : element.name? with
        | none => rfl
        | some name => simpa using h name hname
      simp [ranked, hrank, ih, blocks_cons_other rest h, Ranking.spread]

/-- Sorted elements are what stands in front of the first field that the order names, and then the
blocks, each as it was, by the positions of their names. -/
theorem sortBy_eq_blocks (order : List String) (elements : List Element) :
    sortBy order elements =
      (blocks order.contains elements).1 ++
        ofBlocks ((blocks order.contains elements).2.mergeSort (Ranking.fits (position order))) := by
  set runs := (blocks order.contains elements).2.map fun block ↦
    (order.idxOf block.1 + 1, block.2) with hruns
  have hfront : ((0, (blocks order.contains elements).1) :: runs).mergeSort (Ranking.fits Prod.fst) =
      (0, (blocks order.contains elements).1) :: runs.mergeSort (Ranking.fits Prod.fst) :=
    Ranking.mergeSort_cons_of_fits fun _ _ ↦ by simp
  have hmap : runs.mergeSort (Ranking.fits Prod.fst) =
      ((blocks order.contains elements).2.mergeSort (Ranking.fits (position order))).map fun block ↦
        (order.idxOf block.1 + 1, block.2) := by
    refine (List.map_mergeSort fun a _ b _ ↦ ?_).symm
    exact Bool.eq_iff_iff.2 (by simp [position])
  have hrun : ranked order 0 elements =
      ((0, (blocks order.contains elements).1) :: runs).flatMap Ranking.spread := by
    rw [ranked_eq, List.flatMap_cons]
  show ((ranked order 0 elements).mergeSort (Ranking.fits Prod.fst)).map (·.2) = _
  rw [hrun, Ranking.mergeSort_flatMap_spread, hfront, hmap]
  simp [Ranking.spread, List.map_flatMap, List.flatMap_map, Function.comp_def]

/-! ### Sorting again by one's own order -/

/-- The names of the fields among some elements. -/
def fieldNames (elements : List Element) : List String := elements.filterMap name?

/-- Every field starts a block. -/
abbrev fieldBlocks (elements : List Element) : List Element × List (String × List Element) :=
  blocks (fun _ ↦ true) elements

/-- Blocks go by the names that pass the test. -/
theorem map_blocks (cuts : String → Bool) (elements : List Element) :
    (blocks cuts elements).2.map (·.1) = (fieldNames elements).filter cuts := by
  induction elements with
  | nil => rfl
  | cons element rest ih =>
    rw [fieldNames] at ih ⊢
    cases hname : element.name? with
    | none => simp [blocks, hname, ih]
    | some name => cases hcuts : cuts name <;> simp [blocks, hname, hcuts, ih]

theorem map_fieldBlocks (elements : List Element) :
    (fieldBlocks elements).2.map (·.1) = fieldNames elements := by
  rw [fieldBlocks, map_blocks, List.filter_true]

/-- Where elements are cut is a matter of the names of their fields only. -/
theorem blocks_congr {cuts' : String → Bool} {elements : List Element}
    (h : ∀ name ∈ fieldNames elements, cuts name = cuts' name) :
    blocks cuts elements = blocks cuts' elements := by
  induction elements with
  | nil => rfl
  | cons element rest ih =>
    have hrest : blocks cuts rest = blocks cuts' rest := ih fun name hname ↦ h name (by
      simp only [fieldNames, List.mem_filterMap, List.mem_cons] at hname ⊢
      obtain ⟨other, hother, heq⟩ := hname
      exact ⟨other, .inr hother, heq⟩)
    cases hname : element.name? with
    | none => simp [blocks, hname, hrest]
    | some name =>
      have hcuts := h name (by simp [fieldNames, hname])
      simp [blocks, hname, hrest, hcuts]

/-- An order that names every field cuts in front of every field. -/
theorem blocks_eq_fieldBlocks {elements : List Element}
    (h : ∀ name ∈ fieldNames elements, cuts name = true) :
    blocks cuts elements = fieldBlocks elements :=
  blocks_congr h

/-- The blocks of fields behind some elements, if these are blocks under another test. -/
theorem fieldBlocks_append_ofBlocks (inFront : List Element) {bs : List (String × List Element)}
    (hbs : ∀ block ∈ bs, (fieldBlocks block.2).1 = []) :
    fieldBlocks (inFront ++ ofBlocks bs) =
      ((fieldBlocks inFront).1,
        (fieldBlocks inFront).2 ++ bs.flatMap fun block ↦ (fieldBlocks block.2).2) := by
  have key : ∀ bs : List (String × List Element),
      (∀ block ∈ bs, (fieldBlocks block.2).1 = []) →
        fieldBlocks (ofBlocks bs) = ([], bs.flatMap fun block ↦ (fieldBlocks block.2).2) := by
    intro bs hbs
    induction bs with
    | nil => rfl
    | cons block bs ih =>
      have hrest := ih fun other hother ↦ hbs other (List.mem_cons_of_mem _ hother)
      rw [ofBlocks, List.flatMap_cons, fieldBlocks,
        blocks_append block.2 (congrArg Prod.fst hrest)]
      exact Prod.ext (hbs block List.mem_cons_self) (congrArg (_ ++ ·) (congrArg Prod.snd hrest))
  rw [fieldBlocks, blocks_append inFront (congrArg Prod.fst (key bs hbs))]
  exact Prod.ext rfl (congrArg (_ ++ ·) (congrArg Prod.snd (key bs hbs)))

/-- Sorting only rearranges the blocks of fields, and keeps what stands in front of all of them. -/
theorem fieldBlocks_sortBy (order : List String) (elements : List Element) :
    (fieldBlocks (sortBy order elements)).1 = (fieldBlocks elements).1 ∧
      ((fieldBlocks (sortBy order elements)).2).Perm (fieldBlocks elements).2 := by
  set bs := (blocks order.contains elements).2 with hbs
  have hstart : ∀ block ∈ bs, (fieldBlocks block.2).1 = [] := by
    intro block hblock
    obtain ⟨element, rest, hcons, hname, -⟩ := exists_cons_of_mem_blocks hblock
    rw [hcons, fieldBlocks, blocks_cons_field rest hname rfl]
  have hsorted := fieldBlocks_append_ofBlocks (blocks order.contains elements).1
    fun block (hblock : block ∈ bs.mergeSort (Ranking.fits (position order))) ↦
      hstart block (List.mem_mergeSort.1 hblock)
  have helements := fieldBlocks_append_ofBlocks (blocks order.contains elements).1 hstart
  rw [append_ofBlocks] at helements
  rw [sortBy_eq_blocks, hsorted, helements]
  exact ⟨rfl, ((List.mergeSort_perm bs _).flatMap_right _).append_left _⟩

theorem perm_sortBy (order : List String) (elements : List Element) :
    (sortBy order elements).Perm elements := by
  rw [sortBy_eq_blocks]
  conv => rhs; rw [← append_ofBlocks order.contains elements]
  exact ((List.mergeSort_perm _ _).flatMap_right _).append_left _

/-- Blocks with distinct names stand in the order of their names. -/
theorem pairwise_position {bs : List (String × List Element)} (h : (bs.map (·.1)).Nodup) :
    bs.Pairwise fun a b ↦ Ranking.fits (position (bs.map (·.1))) a b := by
  refine List.pairwise_iff_getElem.2 fun i j hi hj hij ↦ ?_
  have hidx : ∀ k (hk : k < bs.length), (bs.map (·.1)).idxOf bs[k].1 = k := by
    intro k hk
    have hget := h.idxOf_getElem k (by simpa using hk)
    rwa [List.getElem_map] at hget
  simp [position, hidx i hi, hidx j hj, hij.le]

/-- The fields of sorted elements are an order that sorts the elements the same way again. -/
theorem sortBy_fieldNames_sortBy (order : List String) {elements : List Element}
    (h : (fieldNames elements).Nodup) :
    sortBy (fieldNames (sortBy order elements)) elements = sortBy order elements := by
  obtain ⟨hfront, hperm⟩ := fieldBlocks_sortBy order elements
  set sorted := sortBy order elements with hsorted
  have hnames : (fieldNames sorted).Perm (fieldNames elements) := by
    rw [← map_fieldBlocks, ← map_fieldBlocks]
    exact hperm.map _
  have hnodup : ((fieldBlocks sorted).2.map (·.1)).Nodup := by
    rw [map_fieldBlocks]
    exact hnames.nodup_iff.2 h
  have hcut : blocks (fieldNames sorted).contains elements = fieldBlocks elements :=
    blocks_eq_fieldBlocks fun name hname ↦ by simpa using hnames.mem_iff.2 hname
  have harranged : (fieldBlocks elements).2.mergeSort (Ranking.fits (position (fieldNames sorted))) =
      (fieldBlocks sorted).2 := by
    have hown := (map_fieldBlocks sorted).symm
    refine List.Perm.eq_of_pairwise ?_ (Ranking.pairwise_mergeSort _)
      (hown ▸ pairwise_position hnodup) ((List.mergeSort_perm _ _).trans hperm.symm)
    · intro a b ha hb hab hba
      have ha : a ∈ (fieldBlocks sorted).2 := hperm.mem_iff.2 (List.mem_mergeSort.1 ha)
      have hidx : (fieldNames sorted).idxOf a.1 = (fieldNames sorted).idxOf b.1 := by
        simp only [Ranking.fits_iff, position] at hab hba
        omega
      have hmem : a.1 ∈ fieldNames sorted := hown ▸ List.mem_map_of_mem ha
      exact List.inj_on_of_nodup_map hnodup ha hb ((List.idxOf_inj hmem).1 hidx)
  rw [sortBy_eq_blocks, hcut, harranged, ← hfront, append_ofBlocks]

/-- An order without names leaves everything where it is. -/
@[simp]
theorem sortBy_nil (elements : List Element) : sortBy [] elements = elements := by
  have hnone : (blocks ([] : List String).contains elements).2 = [] := by
    have hnames := map_blocks ([] : List String).contains elements
    rw [List.filter_eq_nil_iff.2 fun _ _ ↦ by simp] at hnames
    exact List.map_eq_nil_iff.1 hnames
  have happend := append_ofBlocks ([] : List String).contains elements
  rw [hnone] at happend
  rw [sortBy_eq_blocks, hnone, List.mergeSort_nil]
  exact happend

/-- Elements that stand in the order of their own fields stay where they are. -/
theorem sortBy_fieldNames {elements : List Element} (h : (fieldNames elements).Nodup) :
    sortBy (fieldNames elements) elements = elements := by
  have hsorted := sortBy_fieldNames_sortBy [] h
  rwa [sortBy_nil] at hsorted

/-! ### Names that no field has -/

theorem idxOf_filter_le_iff {p : String → Bool} {a b : String} (ha : p a) (hb : p b)
    (order : List String) :
    (order.filter p).idxOf a ≤ (order.filter p).idxOf b ↔ order.idxOf a ≤ order.idxOf b := by
  induction order with
  | nil => rfl
  | cons name order ih =>
    by_cases hname : p name
    · rw [List.filter_cons_of_pos hname, List.idxOf_cons, List.idxOf_cons, List.idxOf_cons,
        List.idxOf_cons]
      cases name == a <;> cases name == b <;> simp [ih]
    · have hne : ∀ {other}, p other → name ≠ other := fun hother heq ↦ hname (heq ▸ hother)
      rw [List.filter_cons_of_neg hname, List.idxOf_cons_ne _ (hne ha),
        List.idxOf_cons_ne _ (hne hb), ih]
      omega

/-- Names that no field has count for nothing in an order. -/
theorem sortBy_filter (order : List String) (elements : List Element) :
    sortBy (order.filter (· ∈ fieldNames elements)) elements = sortBy order elements := by
  have hcuts : blocks (order.filter (· ∈ fieldNames elements)).contains elements =
      blocks order.contains elements :=
    blocks_congr fun name hname ↦ by simp [hname]
  have hname : ∀ block ∈ (blocks order.contains elements).2, block.1 ∈ fieldNames elements := by
    intro block hblock
    have hmem : block.1 ∈ (blocks order.contains elements).2.map (·.1) := List.mem_map_of_mem hblock
    rw [map_blocks] at hmem
    exact List.mem_of_mem_filter hmem
  rw [sortBy_eq_blocks, sortBy_eq_blocks order, hcuts, Ranking.mergeSort_congr fun a ha b hb ↦ ?_]
  exact idxOf_filter_le_iff (by simp [hname a ha]) (by simp [hname b hb]) order

/-- The fields of sorted elements, taken as an order, sort the elements as they are sorted: also
fields that the first order did not name stay in their places, and so do stanzas and raw lines. It
does not matter what other names stand between those of the fields. -/
theorem sortBy_own_order (order : List String) {elements : List Element}
    (h : (fieldNames elements).Nodup) :
    let sorted := sortBy order elements
    sortBy (fieldNames sorted) elements = sorted ∧
      ∀ own : List String, own.filter (· ∈ fieldNames elements) = fieldNames sorted →
        sortBy own elements = sorted := by
  refine ⟨sortBy_fieldNames_sortBy order h, fun own hown ↦ ?_⟩
  rw [← sortBy_filter own, hown, sortBy_fieldNames_sortBy order h]

/-- Fields with a raw line in front of them and a stanza between them. -/
def carriedElements : List Element :=
  [.raw ["-- top"], .field "name" (.inline "foo"), .field "x-note" (.inline "a"),
    .stanza "flag dev" [] true, .field "license" (.inline "MIT"), .field "author" (.inline "me")]

/-- Sorted by an order that names two of the fields. -/
def carriedSorted : List Element :=
  [.raw ["-- top"], .field "license" (.inline "MIT"), .field "author" (.inline "me"),
    .field "name" (.inline "foo"), .field "x-note" (.inline "a"), .stanza "flag dev" [] true]

/-- The order of the result names all fields, and a field that is not there. -/
theorem sortBy_own_order_carried :
    (fieldNames carriedElements).Nodup ∧ sortBy ["license", "name"] carriedElements = carriedSorted ∧
      sortBy ["license", "synopsis", "author", "name", "x-note"] carriedElements = carriedSorted := by
  have hnodup : (fieldNames carriedElements).Nodup := by decide
  have hsorted : sortBy ["license", "name"] carriedElements = carriedSorted := by
    have hranked : ranked ["license", "name"] 0 carriedElements =
        [(0, .raw ["-- top"]), (2, .field "name" (.inline "foo")), (2, .field "x-note" (.inline "a")),
          (2, .stanza "flag dev" [] true), (1, .field "license" (.inline "MIT")),
          (1, .field "author" (.inline "me"))] := rfl
    rw [sortBy, hranked]
    simp [List.mergeSort]
    rfl
  refine ⟨hnodup, hsorted, ?_⟩
  rw [← hsorted]
  refine (sortBy_own_order ["license", "name"] hnodup).2 _ ?_
  rw [hsorted]
  decide

/-! ### Sorting again by the same order -/

/-- What stands in front of all blocks has no block of its own. -/
theorem blocks_fst (cuts : String → Bool) (elements : List Element) :
    blocks cuts (blocks cuts elements).1 = ((blocks cuts elements).1, []) := by
  induction elements with
  | nil => rfl
  | cons element rest ih =>
    obtain ⟨name, hname, hcuts⟩ | h := starts_or_not cuts element
    · rw [blocks_cons_field rest hname hcuts]
      rfl
    · rw [blocks_cons_other rest h, blocks_cons_other _ h, ih]

/-- A block is cut nowhere but in front of its first field. -/
theorem blocks_of_mem_blocks {elements : List Element} {block : String × List Element}
    (h : block ∈ (blocks cuts elements).2) : blocks cuts block.2 = ([], [block]) := by
  induction elements with
  | nil => simp [blocks] at h
  | cons element rest ih =>
    obtain ⟨name, hname, hcuts⟩ | ho := starts_or_not cuts element
    · rw [blocks_cons_field rest hname hcuts, List.mem_cons] at h
      rcases h with rfl | h
      · rw [blocks_cons_field _ hname hcuts, blocks_fst]
      · exact ih h
    · rw [blocks_cons_other rest ho] at h
      exact ih h

/-- Blocks that stand one after another are cut apart again. -/
theorem blocks_ofBlocks {bs : List (String × List Element)}
    (h : ∀ block ∈ bs, blocks cuts block.2 = ([], [block])) :
    blocks cuts (ofBlocks bs) = ([], bs) := by
  induction bs with
  | nil => rfl
  | cons block bs ih =>
    have hrest : blocks cuts (ofBlocks bs) = ([], bs) :=
      ih fun other hother ↦ h other (List.mem_cons_of_mem _ hother)
    have hblock : blocks cuts block.2 = ([], [block]) := h block List.mem_cons_self
    rw [ofBlocks, List.flatMap_cons, blocks_append block.2 (congrArg Prod.fst hrest), hblock, hrest,
      List.singleton_append]

/-- Sorting arranges the blocks and leaves the places of the cuts as they are. -/
theorem blocks_sortBy (order : List String) (elements : List Element) :
    blocks order.contains (sortBy order elements) =
      ((blocks order.contains elements).1,
        (blocks order.contains elements).2.mergeSort (Ranking.fits (position order))) := by
  have harranged := blocks_ofBlocks fun block (hblock : block ∈
      (blocks order.contains elements).2.mergeSort (Ranking.fits (position order))) ↦
    blocks_of_mem_blocks (List.mem_mergeSort.1 hblock)
  rw [sortBy_eq_blocks, blocks_append _ (congrArg Prod.fst harranged), blocks_fst, harranged,
    List.nil_append]

/-- Sorted elements stay where they are. -/
theorem sortBy_sortBy (order : List String) (elements : List Element) :
    sortBy order (sortBy order elements) = sortBy order elements := by
  have hsorted := @Ranking.pairwise_mergeSort _ (position order) (blocks order.contains elements).2
  rw [sortBy_eq_blocks order (sortBy order elements), blocks_sortBy,
    List.mergeSort_of_pairwise hsorted, ← sortBy_eq_blocks]

/-- What the cuts of elements are: they lose nothing, each block is led by a field that the order
names, and there is no such field anywhere else. -/
structure IsCut (order : List String) (elements inFront : List Element)
    (bs : List (String × List Element)) : Prop where
  append_eq : inFront ++ ofBlocks bs = elements
  inFront_unnamed : ∀ element ∈ inFront, ∀ name ∈ element.name?, name ∉ order
  exists_leader : ∀ block ∈ bs, ∃ leader rest, block.2 = leader :: rest ∧
    leader.name? = some block.1 ∧ block.1 ∈ order ∧
      ∀ element ∈ rest, ∀ name ∈ element.name?, name ∉ order

/-- Elements without a block have no field that starts one. -/
theorem unnamed_of_blocks_eq_nil {order : List String} {elements : List Element}
    (h : (blocks order.contains elements).2 = []) :
    ∀ element ∈ elements, ∀ name ∈ element.name?, name ∉ order := by
  intro element helement name hname hmem
  have hnone : (fieldNames elements).filter order.contains = [] := by
    rw [← map_blocks, h, List.map_nil]
  have hfield : name ∈ fieldNames elements := List.mem_filterMap.2 ⟨element, helement, hname⟩
  exact List.filter_eq_nil_iff.1 hnone name hfield (by simpa using hmem)

theorem isCut_blocks (order : List String) (elements : List Element) :
    IsCut order elements (blocks order.contains elements).1 (blocks order.contains elements).2 where
  append_eq := append_ofBlocks _ _
  inFront_unnamed := unnamed_of_blocks_eq_nil (congrArg Prod.snd (blocks_fst _ _))
  exists_leader := by
    intro block hblock
    obtain ⟨leader, rest, hcons, hname, hcuts⟩ := exists_cons_of_mem_blocks hblock
    have hwhole := blocks_of_mem_blocks hblock
    rw [hcons, blocks_cons_field rest hname hcuts] at hwhole
    have hrest : (blocks order.contains rest).2 = [] :=
      (List.cons.inj (congrArg Prod.snd hwhole)).2
    exact ⟨leader, rest, hcons, hname, by simpa using hcuts, unnamed_of_blocks_eq_nil hrest⟩

/-- Sorting is a stable arrangement of blocks: what stands in front of the first field that the
order names stays in front, and behind it stand the other blocks, each whole and as it was, by the
first position of the name of their field in the order, and blocks of one position as they stood.
No element is lost or made, and to sort again changes nothing. -/
theorem sortBy_arranges_blocks (order : List String) (elements : List Element) :
    (∃ inFront bs arranged,
      IsCut order elements inFront bs ∧ sortBy order elements = inFront ++ ofBlocks arranged ∧
        arranged.Perm bs ∧ arranged.Pairwise (fun a b ↦ order.idxOf a.1 ≤ order.idxOf b.1) ∧
          ∀ position, arranged.filter (fun block ↦ order.idxOf block.1 == position) =
            bs.filter fun block ↦ order.idxOf block.1 == position) ∧
      (sortBy order elements).Perm elements ∧
        sortBy order (sortBy order elements) = sortBy order elements := by
  refine ⟨⟨_, _, _, isCut_blocks order elements, sortBy_eq_blocks order elements,
    List.mergeSort_perm _ _, ?_, fun n ↦ Ranking.ofRank_mergeSort n _⟩,
    perm_sortBy order elements, sortBy_sortBy order elements⟩
  exact (Ranking.pairwise_mergeSort _).imp fun h ↦ (Ranking.fits_iff _ _ _).1 h

end Element

end CabalManifest
