import CabalManifest.Proofs.OrderedEntries
import CabalManifest.Yaml

/-!
# Values with distinct keys

An object has every key once. The type of values does not say so; what is read from a document has
the property (`Yaml.isKeyed_of_readBytes`).
-/

namespace CabalManifest

mutual

/-- Whether every object in a value has every key once. -/
def Value.isKeyed : Value → Bool
  | .scalar _ => true
  | .array items => areKeyedItems items
  | .object entries => decide (Entries.keys entries).Nodup && areKeyedEntries entries

/-- Whether every object in some values has every key once. -/
def Value.areKeyedItems : List Value → Bool
  | [] => true
  | item :: items => item.isKeyed && areKeyedItems items

/-- Whether every object in some entries has every key once. -/
def Value.areKeyedEntries : List (String × Value) → Bool
  | [] => true
  | (_, value) :: entries => value.isKeyed && areKeyedEntries entries

end

namespace Value

theorem areKeyedItems_iff {items : List Value} :
    areKeyedItems items ↔ ∀ item ∈ items, item.isKeyed := by
  induction items with
  | nil => simp [areKeyedItems]
  | cons item items ih => rw [areKeyedItems, Bool.and_eq_true, ih, List.forall_mem_cons]

theorem areKeyedEntries_iff {entries : List (String × Value)} :
    areKeyedEntries entries ↔ ∀ entry ∈ entries, entry.2.isKeyed := by
  induction entries with
  | nil => simp [areKeyedEntries]
  | cons entry entries ih =>
    obtain ⟨key, value⟩ := entry
    rw [areKeyedEntries, Bool.and_eq_true, ih, List.forall_mem_cons]

/-- Whether some entries are those of an object in which every object has every key once. -/
def areKeyed (entries : List (String × Value)) : Bool := (object entries).isKeyed

theorem areKeyed_iff {entries : List (String × Value)} :
    areKeyed entries ↔ (Entries.keys entries).Nodup ∧ ∀ entry ∈ entries, entry.2.isKeyed := by
  rw [areKeyed, isKeyed, Bool.and_eq_true, decide_eq_true_iff, areKeyedEntries_iff]

end Value

/-! ### Values of documents -/

namespace Yaml

/-- A result in two steps has a result of the first step. -/
theorem exists_of_bind_eq_ok {ε α β : Type} {result : Except ε α} {next : α → Except ε β} {b : β}
    (h : result >>= next = .ok b) : ∃ a, result = .ok a ∧ next a = .ok b := by
  cases result with
  | error => cases h
  | ok a => exact ⟨a, rfl, h⟩

mutual

theorem Datum.isKeyed_of_toValue {datum : Datum} {value : Value} (h : datum.toValue = .ok value) :
    value.isKeyed := by
  cases datum with
  | null | bool | int | float | text | bytes | moment =>
    rw [Datum.toValue] at h
    cases h
    rfl
  | list items =>
    rw [Datum.toValue] at h
    obtain ⟨values, hvalues, hvalue⟩ := exists_of_bind_eq_ok h
    cases hvalue
    exact Value.areKeyedItems_iff.2 (Datum.isKeyed_of_itemValues hvalues)
  | map entries =>
    rw [Datum.toValue] at h
    obtain ⟨pairs, hpairs, hvalue⟩ := exists_of_bind_eq_ok h
    cases hvalue
    exact Value.areKeyed_iff.2 ⟨Entries.nodup_keys_ofList pairs, fun entry hentry ↦
      Datum.isKeyed_of_entryValues hpairs entry (Entries.mem_ofList hentry)⟩
  | set members =>
    rw [Datum.toValue] at h
    obtain ⟨text, -, hvalue⟩ := exists_of_bind_eq_ok h
    cases hvalue
    rfl

theorem Datum.isKeyed_of_itemValues {items : List Datum} {values : List Value}
    (h : Datum.itemValues items = .ok values) : ∀ value ∈ values, value.isKeyed := by
  cases items with
  | nil =>
    cases h
    exact List.forall_mem_nil _
  | cons item items =>
    rw [Datum.itemValues] at h
    obtain ⟨value, hvalue, h⟩ := exists_of_bind_eq_ok h
    obtain ⟨rest, hrest, h⟩ := exists_of_bind_eq_ok h
    cases h
    exact List.forall_mem_cons.2
      ⟨Datum.isKeyed_of_toValue hvalue, Datum.isKeyed_of_itemValues hrest⟩

theorem Datum.isKeyed_of_entryValues {entries : List (Datum × Datum)}
    {pairs : List (String × Value)} (h : Datum.entryValues entries = .ok pairs) :
    ∀ entry ∈ pairs, entry.2.isKeyed := by
  cases entries with
  | nil =>
    cases h
    exact List.forall_mem_nil _
  | cons entry entries =>
    obtain ⟨key, datum⟩ := entry
    rw [Datum.entryValues] at h
    obtain ⟨text, -, h⟩ := exists_of_bind_eq_ok h
    obtain ⟨value, hvalue, h⟩ := exists_of_bind_eq_ok h
    obtain ⟨rest, hrest, h⟩ := exists_of_bind_eq_ok h
    cases h
    exact List.forall_mem_cons.2
      ⟨Datum.isKeyed_of_toValue hvalue, Datum.isKeyed_of_entryValues hrest⟩

end

/-- What is read from a document has every key once. -/
theorem isKeyed_of_parse {text : String} {value : Value} (h : parse text = .ok value) :
    value.isKeyed := by
  simp only [parse] at h
  split at h
  · cases h
  · obtain ⟨graph, -, h⟩ := exists_of_bind_eq_ok h
    cases graph with
    | none =>
      cases h
      rfl
    | some graph =>
      obtain ⟨datum, -, h⟩ := exists_of_bind_eq_ok h
      exact Datum.isKeyed_of_toValue h

theorem isKeyed_of_readText {source text : String} {value : Value}
    (h : readText source text = .ok value) : value.isKeyed := by
  rw [readText] at h
  cases hparse : parse text <;> rw [hparse] at h <;> cases h
  exact isKeyed_of_parse hparse

theorem isKeyed_of_readBytes {source : String} {bytes : ByteArray} {value : Value}
    (h : readBytes source bytes = .ok value) : value.isKeyed := by
  rw [readBytes] at h
  obtain ⟨text, -, h⟩ := exists_of_bind_eq_ok h
  exact isKeyed_of_readText h

end Yaml

end CabalManifest
