/-!
# Ordered entries

Lists of named values in which the order of the names matters and no name is meant to occur twice.
Inserting under a name that is present replaces the value in its place; a new name goes to the end.
-/

namespace CabalManifest

/-- Named values in order. -/
abbrev Entries (α : Type u) := List (String × α)

namespace Entries

variable {α : Type u}

/-- The names in order. -/
def keys (entries : Entries α) : List String := entries.map (·.1)

/-- The value under a name: that of its first occurrence. -/
def get? (entries : Entries α) (key : String) : Option α := entries.lookup key

/-- Whether a name is present. -/
def has (entries : Entries α) (key : String) : Bool := entries.any (·.1 == key)

/-- Puts a value under a name. -/
def insert : Entries α → String → α → Entries α
  | [], key, value => [(key, value)]
  | (k, v) :: rest, key, value =>
    if k = key then (k, value) :: rest else (k, v) :: insert rest key value

/-- Collects named values; of several under one name the last counts, at the place of the first. -/
def ofList (pairs : List (String × α)) : Entries α :=
  pairs.foldl (fun entries pair ↦ entries.insert pair.1 pair.2) []

/-! ### What inserting and filtering do -/

@[simp] theorem get?_nil (key : String) : get? ([] : Entries α) key = none := rfl

theorem get?_cons (k : String) (v : α) (rest : Entries α) (key : String) :
    get? ((k, v) :: rest) key = if k = key then some v else get? rest key := by
  rw [get?, List.lookup_cons]
  by_cases h : k = key
  · simp [h]
  · simp [h, beq_false_of_ne (Ne.symm h), get?]

theorem get?_insert (entries : Entries α) (key key' : String) (value : α) :
    (entries.insert key value).get? key' = if key = key' then some value else entries.get? key' := by
  induction entries with
  | nil => simp [insert, get?_cons]
  | cons pair rest ih =>
    obtain ⟨k, v⟩ := pair
    rw [insert]
    split
    · next h => subst h; simp only [get?_cons]; split <;> simp_all
    · next h =>
      rw [get?_cons, get?_cons, ih]
      by_cases h1 : k = key'
      · subst h1; simp [Ne.symm h]
      · simp [h1]

/-- Filtering by name leaves out what does not pass. -/
theorem get?_filter (entries : Entries α) (p : String → Bool) (key : String) :
    get? (entries.filter fun entry ↦ p entry.1) key = if p key then get? entries key else none := by
  induction entries with
  | nil => simp
  | cons pair rest ih =>
    obtain ⟨k, v⟩ := pair
    rw [List.filter_cons]
    by_cases h : k = key
    · subst h
      split
      · next hp => simp_all [get?_cons]
      · next hp => rw [ih]; simp_all
    · split
      · rw [get?_cons, get?_cons, ih, if_neg h, if_neg h]
      · rw [get?_cons, ih, if_neg h]

/-- Inserting keeps the names and their order, and puts a new name last. -/
theorem keys_insert (entries : Entries α) (key : String) (value : α) :
    keys (entries.insert key value) =
      if key ∈ keys entries then keys entries else keys entries ++ [key] := by
  induction entries with
  | nil => simp [insert, keys]
  | cons pair rest ih =>
    obtain ⟨k, v⟩ := pair
    rw [insert]
    split
    · next h => subst h; simp [keys]
    · next h =>
      have h' : ¬key = k := fun e ↦ h e.symm
      simp only [keys, List.map_cons, List.mem_cons, h', false_or] at ih ⊢
      rw [ih]
      split <;> simp_all

end Entries

end CabalManifest
