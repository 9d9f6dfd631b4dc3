import CabalManifest.Dependency
import CabalManifest.Field

/-!
# Field sets

What a scope of a manifest holds once it has been read: its fields in the order in which they were
written, each with a value of the form its key asks for. A conditional holds the field sets of its
branches, and a branch may hold conditionals again.
-/

namespace CabalManifest

/-- A flag of a package. -/
structure Flag where
  name : String
  manual : Bool
  default : Bool
  description : Option String
  deriving DecidableEq, Repr

/-- Text that overrides what is written: lines as they are, or values for the fields of a scope. -/
inductive Verbatim where
  | raw (text : String)
  | fields (entries : List (String × Scalar))

mutual

/-- The value of a field. -/
inductive FieldValue where
  | null
  | text (s : String)
  | bool (b : Bool)
  | texts (items : List String)
  | dependencies (items : List Dependency)
  | conditionals (items : List Conditional)
  | verbatim (entries : List Verbatim)
  | flags (entries : List (String × Flag))
  | body (fields : FieldSet)
  | bodies (named : List (String × FieldSet))

/-- Fields that hold under a condition, with those that hold otherwise. -/
structure Conditional where
  condition : String
  thenFields : FieldSet
  elseFields : Option FieldSet

/-- The fields of a scope, in order. -/
structure FieldSet where
  entries : List (String × FieldValue)

end

instance : Inhabited FieldValue := ⟨.null⟩

instance : Inhabited FieldSet := ⟨⟨[]⟩⟩

instance : Inhabited Conditional := ⟨⟨"", default, none⟩⟩

namespace FieldSet

/-- The scope without fields. -/
def empty : FieldSet := ⟨[]⟩

/-- The value of a field; a null counts as a value. -/
def get? (fields : FieldSet) (key : String) : Option FieldValue := Entries.get? fields.entries key

/-- Whether a field is there, if only as a null. -/
def has (fields : FieldSet) (key : String) : Bool := Entries.has fields.entries key

/-- Sets a field. -/
def insert (fields : FieldSet) (key : String) (value : FieldValue) : FieldSet :=
  ⟨Entries.insert fields.entries key value⟩

/-- The fields whose keys pass a test. -/
def filterKeys (fields : FieldSet) (p : String → Bool) : FieldSet :=
  ⟨fields.entries.filter fun entry ↦ p entry.1⟩

/-! ### Values by form -/

/-- The text of a field. -/
def text? (fields : FieldSet) (key : String) : Option String :=
  match fields.get? key with
  | some (.text s) => some s
  | _ => none

/-- The items of a field, if it is there and no null. -/
def texts? (fields : FieldSet) (key : String) : Option (List String) :=
  match fields.get? key with
  | some (.texts items) => some items
  | _ => none

/-- The items of a field; none if it is missing. -/
def texts (fields : FieldSet) (key : String) : List String := (fields.texts? key).getD []

/-- The conditionals of a scope. -/
def conditionals (fields : FieldSet) : List Conditional :=
  match fields.get? "when" with
  | some (.conditionals items) => items
  | _ => []

/-- The overrides of a scope. -/
def verbatim (fields : FieldSet) : List Verbatim :=
  match fields.get? "verbatim" with
  | some (.verbatim entries) => entries
  | _ => []

/-- The body under a key. -/
def body? (fields : FieldSet) (key : String) : Option FieldSet :=
  match fields.get? key with
  | some (.body body) => some body
  | _ => none

/-- The named bodies under a key. -/
def bodies (fields : FieldSet) (key : String) : List (String × FieldSet) :=
  match fields.get? key with
  | some (.bodies named) => named
  | _ => []

/-- The flags of a package. -/
def flags (fields : FieldSet) : List Flag :=
  match fields.get? "flags" with
  | some (.flags entries) => entries.map (·.2)
  | _ => []

end FieldSet

/-- The branches of a conditional. -/
def Conditional.branches (conditional : Conditional) : List FieldSet :=
  conditional.thenFields :: conditional.elseFields.toList

/-! ### What setting and filtering do -/

namespace FieldSet

theorem get?_insert (fields : FieldSet) (key key' : String) (value : FieldValue) :
    (fields.insert key value).get? key' = if key = key' then some value else fields.get? key' :=
  Entries.get?_insert fields.entries key key' value

theorem get?_filterKeys (fields : FieldSet) (p : String → Bool) (key : String) :
    (fields.filterKeys p).get? key = if p key then fields.get? key else none :=
  Entries.get?_filter fields.entries p key

variable {fields fields' : FieldSet} {key : String}

/-! What a field holds depends on its value only. -/

theorem text?_congr (h : fields.get? key = fields'.get? key) :
    fields.text? key = fields'.text? key := by
  rw [text?, text?, h]

theorem texts?_congr (h : fields.get? key = fields'.get? key) :
    fields.texts? key = fields'.texts? key := by
  rw [texts?, texts?, h]

theorem texts_congr (h : fields.get? key = fields'.get? key) :
    fields.texts key = fields'.texts key := by
  rw [texts, texts, texts?_congr h]

theorem text?_eq_some_iff {text : String} :
    fields.text? key = some text ↔ fields.get? key = some (.text text) := by
  rw [text?]
  split
  · next found hget => simp [hget]
  · next hother => exact iff_of_false nofun (hother text)

/-- The items of a field are those of the list that it holds. -/
theorem forall_mem_texts {p : String → Prop}
    (h : ∀ items, fields.get? key = some (.texts items) → ∀ item ∈ items, p item) :
    ∀ item ∈ fields.texts key, p item := by
  rw [texts, texts?]
  split
  · next items hget => exact h items hget
  · exact List.forall_mem_nil _

theorem texts_of_get?_eq_none (h : fields.get? key = none) : fields.texts key = [] := by
  rw [texts, texts?, h]
  rfl

theorem texts_insert (items : List String) : (fields.insert key (.texts items)).texts key = items := by
  rw [texts, texts?, get?_insert, if_pos rfl]
  rfl

theorem conditionals_insert (items : List Conditional) :
    (fields.insert "when" (.conditionals items)).conditionals = items := by
  rw [conditionals, get?_insert, if_pos rfl]

theorem conditionals_congr (h : fields.get? "when" = fields'.get? "when") :
    fields.conditionals = fields'.conditionals := by
  rw [conditionals, conditionals, h]

end FieldSet

/-! ### Nesting -/

theorem Entries.sizeOf_lt_of_get? {α : Type u} [SizeOf α] {entries : Entries α} {key : String}
    {value : α} (h : entries.get? key = some value) : sizeOf value < sizeOf entries := by
  induction entries with
  | nil => cases h
  | cons pair rest ih =>
    obtain ⟨k, v⟩ := pair
    rw [get?_cons] at h
    split at h
    · cases h; simp; omega
    · have := ih h; simp; omega

/-- The conditionals of a scope are smaller than the scope, so that recursion on nested conditionals
ends. -/
theorem FieldSet.sizeOf_conditionals_lt (fields : FieldSet) :
    sizeOf fields.conditionals < sizeOf fields := by
  obtain ⟨entries⟩ := fields
  unfold FieldSet.conditionals
  split
  · next items h =>
    have := Entries.sizeOf_lt_of_get? h
    simp at this ⊢; omega
  · simp only [List.nil.sizeOf_spec, FieldSet.mk.sizeOf_spec]
    cases entries with
    | nil => simp
    | cons pair rest =>
      rw [List.cons.sizeOf_spec]
      omega

end CabalManifest
