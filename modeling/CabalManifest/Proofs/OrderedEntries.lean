import CabalManifest.Entries
import Mathlib.Data.List.Nodup

/-!
# Laws of ordered entries

Entries whose names are distinct are told by what is under each name, and by the order of the names
(`ext_get?`). Merging such entries keeps the names distinct, and it is associative if the values
merge associatively (`mergeWith_assoc`).
-/

namespace CabalManifest

namespace Entries

variable {α : Type*}

theorem has_eq_true_iff {entries : Entries α} {key : String} :
    has entries key = true ↔ key ∈ keys entries := by
  simp [has, keys]

theorem get?_eq_none_iff {entries : Entries α} {key : String} :
    get? entries key = none ↔ key ∉ keys entries := by
  induction entries with
  | nil => simp [keys]
  | cons entry rest ih =>
    obtain ⟨k, v⟩ := entry
    rw [get?_cons]
    by_cases h : k = key
    · simp [h, keys]
    · simp only [h, if_false, ih, keys, List.map_cons, List.mem_cons, not_or]
      exact (and_iff_right (Ne.symm h)).symm

theorem has_eq_isSome (entries : Entries α) (key : String) :
    has entries key = (get? entries key).isSome := by
  rw [Bool.eq_iff_iff, has_eq_true_iff, Option.isSome_iff_ne_none, ne_eq, get?_eq_none_iff, not_not]

theorem mem_of_get?_eq_some {entries : Entries α} {key : String} {value : α}
    (h : get? entries key = some value) : (key, value) ∈ entries := by
  induction entries with
  | nil => cases h
  | cons entry rest ih =>
    obtain ⟨k, v⟩ := entry
    rw [get?_cons] at h
    split at h
    · next hk =>
      cases h
      rw [hk]
      exact List.mem_cons_self
    · exact List.mem_cons_of_mem _ (ih h)

/-- Distinct names lead to what is under them. -/
theorem get?_eq_some_of_mem {entries : Entries α} (h : (keys entries).Nodup) {key : String}
    {value : α} (hmem : (key, value) ∈ entries) : get? entries key = some value := by
  induction entries with
  | nil => cases hmem
  | cons entry rest ih =>
    obtain ⟨k, v⟩ := entry
    rw [keys, List.map_cons, List.nodup_cons] at h
    rw [get?_cons]
    rcases List.mem_cons.1 hmem with heq | hmem
    · cases heq
      rw [if_pos rfl]
    · rw [if_neg, ih h.2 hmem]
      rintro rfl
      exact h.1 (List.mem_map.2 ⟨_, hmem, rfl⟩)

/-- Entries with distinct names are told by the order of the names and by what is under them. -/
theorem ext_get? {xs ys : Entries α} (hnodup : (keys xs).Nodup) (hkeys : keys xs = keys ys)
    (hget : ∀ key, get? xs key = get? ys key) : xs = ys := by
  induction xs generalizing ys with
  | nil => exact (List.map_eq_nil_iff.1 hkeys.symm).symm
  | cons x xs ih =>
    obtain _ | ⟨y, ys⟩ := ys
    · cases hkeys
    obtain ⟨k, v⟩ := x
    obtain ⟨k', w⟩ := y
    obtain ⟨rfl, hrest⟩ : k = k' ∧ keys xs = keys ys := List.cons_eq_cons.1 hkeys
    have hfirst := hget k
    rw [get?_cons, get?_cons, if_pos rfl, if_pos rfl, Option.some_inj] at hfirst
    obtain ⟨hk, hnodup⟩ := List.nodup_cons.1 hnodup
    rw [hfirst, ih hnodup hrest fun key ↦ ?_]
    by_cases h : k = key
    · subst h
      rw [get?_eq_none_iff.2 hk, get?_eq_none_iff.2 (hrest ▸ hk)]
    · simpa [get?_cons, h] using hget key

/-! ### Inserting -/

theorem nodup_keys_insert {entries : Entries α} (h : (keys entries).Nodup) (key : String)
    (value : α) : (keys (entries.insert key value)).Nodup := by
  rw [keys_insert]
  split
  · exact h
  · next hkey => exact List.nodup_append'.2 ⟨h, List.nodup_singleton key, by simpa using hkey⟩

theorem mem_keys_insert {entries : Entries α} {key key' : String} {value : α}
    (h : key' ∈ keys (entries.insert key value)) : key' = key ∨ key' ∈ keys entries := by
  rw [keys_insert] at h
  split at h
  · exact .inr h
  · exact (List.mem_append.1 h).symm.imp_left List.mem_singleton.1

/-- What is there stays as it is when something new is inserted. -/
theorem get?_insert_of_new {entries : Entries α} {key key' : String} {value found : α}
    (hnew : entries.get? key = none) (h : entries.get? key' = some found) :
    (entries.insert key value).get? key' = some found := by
  rw [get?_insert, if_neg]
  · exact h
  · rintro rfl
    cases hnew.symm.trans h

theorem get?_insert_self (entries : Entries α) (key : String) (value : α) :
    (entries.insert key value).get? key = some value := by
  rw [get?_insert, if_pos rfl]

theorem mem_insert {entries : Entries α} {key : String} {value : α} {entry : String × α}
    (h : entry ∈ entries.insert key value) : entry = (key, value) ∨ entry ∈ entries := by
  induction entries with
  | nil => exact .inl (List.mem_singleton.1 h)
  | cons first rest ih =>
    obtain ⟨k, v⟩ := first
    rw [insert] at h
    split at h
    · next hk =>
      subst hk
      exact (List.mem_cons.1 h).imp_right (List.mem_cons_of_mem _)
    · rcases List.mem_cons.1 h with rfl | h
      · exact .inr List.mem_cons_self
      · exact (ih h).imp_right (List.mem_cons_of_mem _)

/-- Collected entries have distinct names. -/
theorem nodup_keys_ofList (pairs : List (String × α)) : (keys (ofList pairs)).Nodup := by
  have key : ∀ (pairs : List (String × α)) (entries : Entries α), (keys entries).Nodup →
      (keys (pairs.foldl (fun entries pair ↦ entries.insert pair.1 pair.2) entries)).Nodup := by
    intro pairs
    induction pairs with
    | nil => exact fun _ h ↦ h
    | cons pair pairs ih => exact fun entries h ↦ ih _ (nodup_keys_insert h _ _)
  exact key pairs [] List.nodup_nil

theorem mem_ofList {pairs : List (String × α)} {entry : String × α} (h : entry ∈ ofList pairs) :
    entry ∈ pairs := by
  have key : ∀ (pairs : List (String × α)) (entries : Entries α),
      entry ∈ pairs.foldl (fun entries pair ↦ entries.insert pair.1 pair.2) entries →
        entry ∈ pairs ∨ entry ∈ entries := by
    intro pairs
    induction pairs with
    | nil => exact fun _ h ↦ .inr h
    | cons pair pairs ih =>
      intro entries h
      rcases ih _ h with h | h
      · exact .inl (List.mem_cons_of_mem _ h)
      · rcases mem_insert h with rfl | h
        · exact .inl List.mem_cons_self
        · exact .inr h
  exact (key pairs [] h).resolve_right List.not_mem_nil

/-! ### Merging -/

/-- Puts entries over others, combining the two values of a name that both have. -/
def mergeWith (f : String → α → α → α) (lower : Entries α) : Entries α → Entries α
  | [] => lower
  | (key, value) :: higher =>
    mergeWith f
      (lower.insert key ((get? lower key).elim value fun present ↦ f key present value)) higher

variable {f : String → α → α → α} {lower middle higher : Entries α}

/-- What is under a name is merged from what is under it on both sides. -/
theorem get?_mergeWith (h : (keys higher).Nodup) (key : String) :
    get? (mergeWith f lower higher) key = (get? lower key).merge (f key) (get? higher key) := by
  induction higher generalizing lower with
  | nil => rw [mergeWith, get?_nil, Option.merge_none_right]
  | cons entry higher ih =>
    obtain ⟨k, v⟩ := entry
    obtain ⟨hk, h⟩ := List.nodup_cons.1 h
    rw [mergeWith, ih h, get?_insert, get?_cons]
    by_cases heq : k = key
    · subst heq
      rw [get?_eq_none_iff.2 hk, if_pos rfl, if_pos rfl, Option.merge_none_right]
      cases get? lower k <;> rfl
    · rw [if_neg heq, if_neg heq]

/-- The names of the lower side come first, then the new ones of the higher side. -/
theorem keys_mergeWith (h : (keys higher).Nodup) :
    keys (mergeWith f lower higher) =
      keys lower ++ (keys higher).filter fun key ↦ key ∉ keys lower := by
  induction higher generalizing lower with
  | nil => simp [mergeWith, keys]
  | cons entry higher ih =>
    obtain ⟨k, v⟩ := entry
    obtain ⟨hk, h⟩ := List.nodup_cons.1 h
    have hnames : keys ((k, v) :: higher) = k :: keys higher := rfl
    rw [mergeWith, ih h, keys_insert, hnames]
    by_cases hmem : k ∈ keys lower
    · rw [if_pos hmem, List.filter_cons_of_neg (by simpa using hmem)]
    · rw [if_neg hmem, List.filter_cons_of_pos (by simpa using hmem), List.append_assoc,
        List.singleton_append]
      -- The new name does not come again, so that it hides nothing of what follows.
      congr 2
      refine List.filter_congr fun key hkey ↦ ?_
      have hne : key ≠ k := fun heq ↦ hk (heq ▸ hkey)
      simp [hne]

theorem nodup_keys_mergeWith (hlower : (keys lower).Nodup) (hhigher : (keys higher).Nodup) :
    (keys (mergeWith f lower higher)).Nodup := by
  rw [keys_mergeWith hhigher]
  refine hlower.append (hhigher.filter _) fun key hkey hnew ↦ ?_
  simpa [hkey] using (List.mem_filter.1 hnew).2

/-- What holds of all values on both sides, and of what two of them merge into, holds of all values
afterwards. -/
theorem forall_get?_mergeWith (h : (keys higher).Nodup) {p : String → α → Prop}
    (hlower : ∀ key, ∀ x ∈ get? lower key, p key x) (hhigher : ∀ key, ∀ y ∈ get? higher key, p key y)
    (hboth : ∀ key, ∀ x ∈ get? lower key, ∀ y ∈ get? higher key, p key (f key x y)) (key : String) :
    ∀ z ∈ get? (mergeWith f lower higher) key, p key z := by
  intro z hz
  rw [get?_mergeWith h, Option.mem_def, Option.merge_eq_some_iff] at hz
  obtain ⟨hx, -⟩ | ⟨-, hy⟩ | ⟨x, y, hx, hy, rfl⟩ := hz
  · exact hlower key z hx
  · exact hhigher key z hy
  · exact hboth key x hx y hy

/-- Over nothing, entries are what they were. -/
theorem nil_mergeWith (h : (keys higher).Nodup) : mergeWith f [] higher = higher := by
  have hkeys : keys (mergeWith f [] higher) = keys higher := by
    rw [keys_mergeWith h]
    simp [keys]
  refine ext_get? (hkeys ▸ h) hkeys fun key ↦ ?_
  rw [get?_mergeWith h, get?_nil, Option.merge_none_left]

/-- Merging entries is associative if merging their values is. -/
theorem mergeWith_assoc (hlower : (keys lower).Nodup) (hmiddle : (keys middle).Nodup)
    (hhigher : (keys higher).Nodup)
    (hassoc : ∀ key, ∀ x ∈ get? lower key, ∀ y ∈ get? middle key, ∀ z ∈ get? higher key,
      f key (f key x y) z = f key x (f key y z)) :
    mergeWith f (mergeWith f lower middle) higher =
      mergeWith f lower (mergeWith f middle higher) := by
  have hupper := @nodup_keys_mergeWith _ f _ _ hmiddle hhigher
  have hkeys : keys (mergeWith f (mergeWith f lower middle) higher) =
      keys (mergeWith f lower (mergeWith f middle higher)) := by
    rw [keys_mergeWith hhigher, keys_mergeWith hmiddle, keys_mergeWith hupper,
      keys_mergeWith hhigher, List.filter_append, List.filter_filter, List.append_assoc]
    congr 2
    refine List.filter_congr fun key _ ↦ ?_
    by_cases h : key ∈ keys lower <;> by_cases h' : key ∈ keys middle <;>
      simp [List.mem_filter, h, h']
  refine ext_get? (nodup_keys_mergeWith (nodup_keys_mergeWith hlower hmiddle) hhigher) hkeys
    fun key ↦ ?_
  rw [get?_mergeWith hhigher, get?_mergeWith hmiddle, get?_mergeWith hupper,
    get?_mergeWith hhigher]
  -- Only where all three sides have a value there is something to show.
  cases hx : get? lower key <;> cases hy : get? middle key <;> cases hz : get? higher key <;>
    simp only [Option.merge_none_left, Option.merge_none_right, Option.merge_some_some]
  rw [hassoc key _ hx _ hy _ hz]

end Entries

end CabalManifest
