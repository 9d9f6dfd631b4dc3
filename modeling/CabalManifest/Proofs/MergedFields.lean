import CabalManifest.Merge
import CabalManifest.Proofs.OrderedEntries
import Mathlib.Data.List.Induction

/-!
# Merging as an operation

A field set is *formed* if every key occurs once and has a value of the form that its field asks
for. It is *decoded* if that holds but for nulls, which may stand wherever values are replaced. On
decoded field sets merging is associative (`FieldSet.merge_assoc`), and it has the scope without
fields as its unit; the order of keys, sections and flags is part of this.

So a list of field sets has one merge, and this can be taken field by field: a field that is
replaced comes from the last field set that has it (`FieldSet.get?_mergeAll_of_replace`), a list has
the items of all of them in order (`FieldSet.items_mergeAll`).
-/

namespace CabalManifest

/-! ### The form of values -/

mutual

/-- Whether a value has a form. Flags and bodies have distinct names, and each flag knows its own. -/
def FieldValue.HasForm (form : Form) : FieldValue → Prop
  | .null => form = .text true ∨ form = .texts true
  | .text _ => (∃ nullable, form = .text nullable) ∨ form = .version ∨ ∃ words, form = .keyword words
  | .bool _ => form = .bool
  | .texts _ => (∃ nullable, form = .texts nullable) ∨ form = .globs
  | .dependencies _ => form = .dependencies
  | .conditionals _ => form = .conditionals
  | .verbatim _ => form = .verbatim
  | .flags entries =>
    form = .flags ∧ (Entries.keys entries).Nodup ∧ ∀ entry ∈ entries, entry.2.name = entry.1
  | .body fields => (∃ kind, form = .body kind) ∧ fields.IsFormed
  | .bodies named =>
    (∃ kind, form = .bodies kind) ∧ (Entries.keys named).Nodup ∧ FieldSet.AllFormed named

/-- Whether every key of a field set occurs once and has a value of its form. -/
def FieldSet.IsFormed : FieldSet → Prop
  | ⟨entries⟩ => (Entries.keys entries).Nodup ∧ FieldSet.EntriesFormed entries

/-- Whether every key among some fields has a value of its form. -/
def FieldSet.EntriesFormed : List (String × FieldValue) → Prop
  | [] => True
  | (key, value) :: rest =>
    (∃ field ∈ Registry.find? Field.all key, value.HasForm field.form) ∧
      FieldSet.EntriesFormed rest

/-- Whether all of some named bodies are formed. -/
def FieldSet.AllFormed : List (String × FieldSet) → Prop
  | [] => True
  | (_, body) :: rest => body.IsFormed ∧ FieldSet.AllFormed rest

end

namespace FieldSet

theorem entriesFormed_iff {entries : List (String × FieldValue)} :
    EntriesFormed entries ↔
      ∀ entry ∈ entries, ∃ field ∈ Registry.find? Field.all entry.1, entry.2.HasForm field.form := by
  induction entries with
  | nil => simp [EntriesFormed]
  | cons entry rest ih =>
    obtain ⟨key, value⟩ := entry
    rw [EntriesFormed, ih, List.forall_mem_cons]

theorem allFormed_iff {named : List (String × FieldSet)} :
    AllFormed named ↔ ∀ entry ∈ named, entry.2.IsFormed := by
  induction named with
  | nil => simp [AllFormed]
  | cons entry rest ih =>
    obtain ⟨name, body⟩ := entry
    rw [AllFormed, ih, List.forall_mem_cons]

theorem isFormed_empty : empty.IsFormed := by
  rw [empty, IsFormed, EntriesFormed]
  exact ⟨List.nodup_nil, trivial⟩

/-- A scope is formed if no key occurs twice and each value has the form of its field. -/
theorem isFormed_iff {fields : FieldSet} :
    fields.IsFormed ↔
      (Entries.keys fields.entries).Nodup ∧
        ∀ entry ∈ fields.entries,
          ∃ field ∈ Registry.find? Field.all entry.1, entry.2.HasForm field.form := by
  obtain ⟨entries⟩ := fields
  rw [IsFormed, entriesFormed_iff]

theorem IsFormed.nodup {fields : FieldSet} (h : fields.IsFormed) :
    (Entries.keys fields.entries).Nodup :=
  (isFormed_iff.1 h).1

/-- Every value of a formed field set has the form of its key. -/
theorem IsFormed.exists_field {fields : FieldSet} (h : fields.IsFormed) (key : String)
    (value : FieldValue) (hvalue : value ∈ fields.get? key) :
    ∃ field ∈ Registry.find? Field.all key, value.HasForm field.form :=
  (isFormed_iff.1 h).2 _ (Entries.mem_of_get?_eq_some hvalue)

/-- A field set is formed if what is under each of its keys has the form of the key. -/
theorem isFormed_of_get? {fields : FieldSet} (hnodup : (Entries.keys fields.entries).Nodup)
    (h : ∀ key, ∀ value ∈ fields.get? key,
      ∃ field ∈ Registry.find? Field.all key, value.HasForm field.form) : fields.IsFormed :=
  isFormed_iff.2 ⟨hnodup, fun entry hentry ↦
    h entry.1 entry.2 (Entries.get?_eq_some_of_mem hnodup hentry)⟩

end FieldSet

/-- Bodies are formed if the one under each name is. -/
theorem FieldSet.allFormed_of_get? {named : List (String × FieldSet)}
    (hnodup : (Entries.keys named).Nodup)
    (h : ∀ name, ∀ body ∈ Entries.get? named name, body.IsFormed) : FieldSet.AllFormed named :=
  FieldSet.allFormed_iff.2 fun entry hentry ↦
    h entry.1 entry.2 (Entries.get?_eq_some_of_mem hnodup hentry)

theorem FieldSet.isFormed_of_mem_get? {named : List (String × FieldSet)}
    (h : FieldSet.AllFormed named) (name : String) (body : FieldSet)
    (hbody : body ∈ Entries.get? named name) : body.IsFormed :=
  FieldSet.allFormed_iff.1 h _ (Entries.mem_of_get?_eq_some hbody)

/-! ### Merging, entry by entry -/

/-- Merging field sets is merging their entries. -/
theorem FieldSet.mergeEntries_eq (lower higher : List (String × FieldValue)) :
    FieldSet.mergeEntries lower higher =
      Entries.mergeWith (fun key ↦ FieldValue.merge (Field.mergingOf key)) lower higher := by
  induction higher generalizing lower with
  | nil => rw [FieldSet.mergeEntries, Entries.mergeWith]
  | cons entry higher ih =>
    obtain ⟨key, value⟩ := entry
    rw [FieldSet.mergeEntries, Entries.mergeWith, ih]
    cases Entries.get? lower key <;> rfl

/-- Named scopes are merged name by name. -/
theorem FieldSet.mergeNamed_eq (lower higher : List (String × FieldSet)) :
    FieldSet.mergeNamed lower higher =
      Entries.mergeWith (fun _ ↦ FieldSet.merge) lower higher := by
  induction higher generalizing lower with
  | nil => rw [FieldSet.mergeNamed, Entries.mergeWith]
  | cons entry higher ih =>
    obtain ⟨name, body⟩ := entry
    rw [FieldSet.mergeNamed, Entries.mergeWith, ih]
    cases Entries.get? lower name <;> rfl

/-- Inserting all entries in turn is merging by replacing. -/
theorem foldl_insert_eq {α : Type*} (lower higher : Entries α) :
    higher.foldl (fun entries entry ↦ Entries.insert entries entry.1 entry.2) lower =
      Entries.mergeWith (fun _ _ value ↦ value) lower higher := by
  induction higher generalizing lower with
  | nil => rfl
  | cons entry higher ih =>
    obtain ⟨name, value⟩ := entry
    rw [List.foldl_cons, Entries.mergeWith, ih]
    cases Entries.get? lower name <;> rfl

namespace FieldValue

/-- Of two values the higher one counts. -/
theorem merge_replace (lower higher : FieldValue) : merge .replace lower higher = higher := by
  cases higher <;> simp [merge]

/-- Lists are put one behind the other, the lower one first. -/
theorem merge_concat (lower higher : FieldValue) :
    merge .concat lower higher = lower.append higher := by
  cases higher <;> simp [merge, append]

/-- Flags are merged name by name, and of two the higher one counts. -/
theorem merge_flags (lower higher : List (String × Flag)) :
    merge .keyed (.flags lower) (.flags higher) =
      .flags (Entries.mergeWith (fun _ _ flag ↦ flag) lower higher) := by
  rw [merge, update, foldl_insert_eq] <;> simp

theorem merge_body (lower higher : FieldSet) :
    merge .fieldSet (.body lower) (.body higher) = .body (lower.merge higher) := by
  rw [merge]

/-- Named bodies are merged name by name, and of two their fields. -/
theorem merge_bodies (lower higher : List (String × FieldSet)) :
    merge .fieldSets (.bodies lower) (.bodies higher) =
      .bodies (Entries.mergeWith (fun _ ↦ FieldSet.merge) lower higher) := by
  rw [merge, FieldSet.mergeNamed_eq]

end FieldValue

/-! ### Values that merge -/

/-- Two lists of the same form, which are concatenated. -/
inductive FieldValue.SameList : FieldValue → FieldValue → Prop
  | texts (lower higher : List String) : SameList (.texts lower) (.texts higher)
  | dependencies (lower higher : List Dependency) :
    SameList (.dependencies lower) (.dependencies higher)
  | conditionals (lower higher : List Conditional) :
    SameList (.conditionals lower) (.conditionals higher)
  | verbatim (lower higher : List Verbatim) : SameList (.verbatim lower) (.verbatim higher)

/-- Two values that are made for the way in which they merge. -/
inductive FieldValue.Merges : Merging → FieldValue → FieldValue → Prop
  | replace (lower higher : FieldValue) : Merges .replace lower higher
  | concat {lower higher : FieldValue} (h : SameList lower higher) : Merges .concat lower higher
  | keyed (lower higher : List (String × Flag)) : Merges .keyed (.flags lower) (.flags higher)
  | fieldSet (lower higher : FieldSet) : Merges .fieldSet (.body lower) (.body higher)
  | fieldSets (lower higher : List (String × FieldSet)) :
    Merges .fieldSets (.bodies lower) (.bodies higher)

/-- Whether values of a form can merge in some way. -/
def Merging.suits : Merging → Form → Bool
  | .replace, _ => true
  | .concat, .texts nullable => !nullable
  | .concat, .globs | .concat, .dependencies | .concat, .conditionals | .concat, .verbatim => true
  | .keyed, .flags | .fieldSet, .body _ | .fieldSets, .bodies _ => true
  | _, _ => false

/-- Every field merges in a way that suits its form. -/
theorem Field.suits_of_mem : ∀ field ∈ Field.all, field.merging.suits field.form := by
  decide

/-- Whether a value can stand under a field with a form that merges in some way: it is a null only
if values are replaced, and else it has the form. Nothing is said of the bodies in it. -/
def FieldValue.Belongs (merging : Merging) (form : Form) : FieldValue → Prop
  | .null => merging = .replace
  | .flags entries => form = .flags ∧ (Entries.keys entries).Nodup
  | .body _ => ∃ kind, form = .body kind
  | .bodies named => (∃ kind, form = .bodies kind) ∧ (Entries.keys named).Nodup
  | value => value.HasForm form

/-- Where a null is allowed, values are replaced. -/
theorem FieldValue.HasForm.belongs {merging : Merging} {form : Form} (h : merging.suits form)
    {value : FieldValue} (hvalue : value.HasForm form) : value.Belongs merging form := by
  cases value with
  | null =>
    rw [FieldValue.HasForm] at hvalue
    rcases hvalue with rfl | rfl <;> cases merging <;> first | rfl | simp [Merging.suits] at h
  | flags entries =>
    rw [FieldValue.HasForm] at hvalue
    exact ⟨hvalue.1, hvalue.2.1⟩
  | body fields =>
    rw [FieldValue.HasForm] at hvalue
    exact hvalue.1
  | bodies named =>
    rw [FieldValue.HasForm] at hvalue
    exact ⟨hvalue.1, hvalue.2.1⟩
  | _ => exact hvalue

/-- Values that belong to a field are made for the way in which it merges. -/
theorem FieldValue.Belongs.merges {merging : Merging} {form : Form} (h : merging.suits form)
    {lower higher : FieldValue} (hlower : lower.Belongs merging form)
    (hhigher : higher.Belongs merging form) : FieldValue.Merges merging lower higher := by
  cases merging with
  | replace => exact .replace _ _
  | concat =>
    refine .concat ?_
    cases form <;> simp only [Merging.suits, Bool.false_eq_true] at h <;>
      cases lower <;> simp [FieldValue.Belongs, FieldValue.HasForm] at hlower <;>
      cases higher <;> simp [FieldValue.Belongs, FieldValue.HasForm] at hhigher <;> constructor
  | keyed =>
    cases form <;> simp only [Merging.suits, Bool.false_eq_true] at h
    cases lower <;> simp [FieldValue.Belongs, FieldValue.HasForm] at hlower
    cases higher <;> simp [FieldValue.Belongs, FieldValue.HasForm] at hhigher
    exact .keyed _ _
  | fieldSet =>
    cases form <;> simp only [Merging.suits, Bool.false_eq_true] at h
    cases lower <;> simp [FieldValue.Belongs, FieldValue.HasForm] at hlower
    cases higher <;> simp [FieldValue.Belongs, FieldValue.HasForm] at hhigher
    exact .fieldSet _ _
  | fieldSets =>
    cases form <;> simp only [Merging.suits, Bool.false_eq_true] at h
    cases lower <;> simp [FieldValue.Belongs, FieldValue.HasForm] at hlower
    cases higher <;> simp [FieldValue.Belongs, FieldValue.HasForm] at hhigher
    exact .fieldSets _ _

/-- Values of the form of a field are made for the way in which it merges. -/
theorem FieldValue.HasForm.merges {merging : Merging} {form : Form} (h : merging.suits form)
    {lower higher : FieldValue} (hlower : lower.HasForm form) (hhigher : higher.HasForm form) :
    FieldValue.Merges merging lower higher :=
  (hlower.belongs h).merges h (hhigher.belongs h)

/-! ### Formed field sets -/

/-- How a key merges is said by the one field of this key. -/
theorem Field.mergingOf_eq {key : String} {field : Field}
    (h : field ∈ Registry.find? Field.all key) : Field.mergingOf key = field.merging := by
  rw [Field.mergingOf, h]
  rfl

theorem Field.mem_all_of_find? {key : String} {field : Field}
    (h : field ∈ Registry.find? Field.all key) : field ∈ Field.all :=
  List.mem_of_find?_eq_some h

/-- Merging values of a field gives a value of the field, if merging the bodies in it does. -/
theorem FieldValue.HasForm.merge {field : Field} (hfield : field ∈ Field.all)
    {lower higher : FieldValue} (hlower : lower.HasForm field.form)
    (hhigher : higher.HasForm field.form)
    (ih : ∀ body : FieldSet, sizeOf body < sizeOf higher → body.IsFormed →
      ∀ below : FieldSet, below.IsFormed → (below.merge body).IsFormed) :
    (FieldValue.merge field.merging lower higher).HasForm field.form := by
  have hmerges := hlower.merges (Field.suits_of_mem field hfield) hhigher
  generalize field.merging = merging at hmerges
  generalize field.form = form at hlower hhigher
  cases hmerges with
  | replace => rwa [FieldValue.merge_replace]
  | concat h =>
    rw [FieldValue.merge_concat]
    cases h <;> simpa [FieldValue.append, FieldValue.HasForm] using hlower
  | keyed lower higher =>
    rw [FieldValue.HasForm] at hlower hhigher
    obtain ⟨hform, hlowerNames, hlowerFlags⟩ := hlower
    obtain ⟨-, hhigherNames, hhigherFlags⟩ := hhigher
    have hnodup : (Entries.keys (Entries.mergeWith (fun _ _ flag ↦ flag) lower higher)).Nodup :=
      Entries.nodup_keys_mergeWith hlowerNames hhigherNames
    rw [FieldValue.merge_flags, FieldValue.HasForm]
    refine ⟨hform, hnodup, fun entry hentry ↦ ?_⟩
    refine Entries.forall_get?_mergeWith hhigherNames (p := fun name flag ↦ flag.name = name)
      (fun _ _ hflag ↦ hlowerFlags _ (Entries.mem_of_get?_eq_some hflag))
      (fun _ _ hflag ↦ hhigherFlags _ (Entries.mem_of_get?_eq_some hflag))
      (fun _ _ _ _ hflag ↦ hhigherFlags _ (Entries.mem_of_get?_eq_some hflag)) entry.1 entry.2 ?_
    exact Entries.get?_eq_some_of_mem hnodup hentry
  | fieldSet lower higher =>
    rw [FieldValue.HasForm] at hlower hhigher
    rw [FieldValue.merge_body, FieldValue.HasForm]
    exact ⟨hlower.1, ih higher (by simp) hhigher.2 lower hlower.2⟩
  | fieldSets lower higher =>
    rw [FieldValue.HasForm] at hlower hhigher
    obtain ⟨hkind, hlowerNames, hlowerBodies⟩ := hlower
    obtain ⟨-, hhigherNames, hhigherBodies⟩ := hhigher
    rw [FieldValue.merge_bodies, FieldValue.HasForm]
    refine ⟨hkind, Entries.nodup_keys_mergeWith hlowerNames hhigherNames, ?_⟩
    refine FieldSet.allFormed_of_get? (Entries.nodup_keys_mergeWith hlowerNames hhigherNames) ?_
    refine Entries.forall_get?_mergeWith hhigherNames (FieldSet.isFormed_of_mem_get? hlowerBodies)
      (FieldSet.isFormed_of_mem_get? hhigherBodies) fun name body hbody above habove ↦ ?_
    have hsize := Entries.sizeOf_lt_of_get? habove
    exact ih above (by simp; omega) (FieldSet.isFormed_of_mem_get? hhigherBodies _ _ habove) body
      (FieldSet.isFormed_of_mem_get? hlowerBodies _ _ hbody)

namespace FieldSet

/-- Scopes are merged key by key. -/
theorem merge_eq (lower higher : FieldSet) :
    lower.merge higher =
      ⟨Entries.mergeWith (fun key ↦ FieldValue.merge (Field.mergingOf key)) lower.entries
        higher.entries⟩ := by
  obtain ⟨entries⟩ := higher
  rw [merge, mergeEntries_eq]

/-- Merged field sets are formed. -/
theorem IsFormed.merge {lower higher : FieldSet} (hlower : lower.IsFormed)
    (hhigher : higher.IsFormed) : (lower.merge higher).IsFormed := by
  refine isFormed_of_get? ?_ ?_
  · rw [merge_eq]
    exact Entries.nodup_keys_mergeWith hlower.nodup hhigher.nodup
  · rw [merge_eq]
    refine Entries.forall_get?_mergeWith hhigher.nodup hlower.exists_field hhigher.exists_field
      fun key x hx y hy ↦ ?_
    obtain ⟨field, hfield, hform⟩ := hlower.exists_field key x hx
    obtain ⟨field', hfield', hform'⟩ := hhigher.exists_field key y hy
    cases hfield.symm.trans hfield'
    refine ⟨field, hfield, ?_⟩
    rw [Field.mergingOf_eq hfield]
    refine hform.merge (Field.mem_all_of_find? hfield) hform' fun body hsize hbody below hbelow ↦ ?_
    have hvalue := Entries.sizeOf_lt_of_get? hy
    exact hbelow.merge hbody
termination_by sizeOf higher
decreasing_by
  obtain ⟨entries⟩ := higher
  simp only [FieldSet.mk.sizeOf_spec] at hvalue ⊢
  omega

end FieldSet

/-! ### Decoded field sets -/

/-- The bodies that are merged when a value is. -/
def FieldValue.inner : FieldValue → List FieldSet
  | .body fields => [fields]
  | .bodies named => named.map (·.2)
  | _ => []

/-- A field set as it is read, at every level: each key occurs once and has a value that can stand
under it. This allows a null wherever values are replaced. -/
inductive FieldSet.IsDecoded : FieldSet → Prop
  | intro {fields : FieldSet} (hnodup : (Entries.keys fields.entries).Nodup)
    (hvalue : ∀ entry ∈ fields.entries,
      ∃ field ∈ Registry.find? Field.all entry.1, entry.2.Belongs field.merging field.form)
    (hinner : ∀ entry ∈ fields.entries, ∀ body ∈ entry.2.inner, body.IsDecoded) : fields.IsDecoded

theorem FieldSet.isDecoded_empty : empty.IsDecoded :=
  .intro List.nodup_nil (List.forall_mem_nil _) (List.forall_mem_nil _)

/-- Another key can be put in front of a decoded field set. -/
theorem FieldSet.IsDecoded.cons {rest : List (String × FieldValue)} (h : IsDecoded ⟨rest⟩)
    {key : String} (hkey : key ∉ Entries.keys rest) {value : FieldValue}
    (hvalue : ∃ field ∈ Registry.find? Field.all key, value.Belongs field.merging field.form)
    (hinner : ∀ body ∈ value.inner, body.IsDecoded) : IsDecoded ⟨(key, value) :: rest⟩ := by
  obtain ⟨hnodup, hvalues, hinners⟩ := h
  exact .intro (List.nodup_cons.2 ⟨hkey, hnodup⟩)
    (List.forall_mem_cons.2 ⟨hvalue, hvalues⟩)
    (List.forall_mem_cons.2 ⟨hinner, hinners⟩)

/-- Formed field sets are decoded ones that have nulls only where they are allowed. -/
theorem FieldSet.IsFormed.isDecoded {fields : FieldSet} (h : fields.IsFormed) :
    fields.IsDecoded := by
  refine .intro h.nodup (fun entry hentry ↦ ?_) fun entry hentry body hbody ↦ ?_
  · obtain ⟨field, hfield, hform⟩ := (FieldSet.isFormed_iff.1 h).2 entry hentry
    exact ⟨field, hfield,
      hform.belongs (Field.suits_of_mem field (Field.mem_all_of_find? hfield))⟩
  · obtain ⟨field, -, hform⟩ := (FieldSet.isFormed_iff.1 h).2 entry hentry
    have hsize := List.sizeOf_lt_of_mem hentry
    obtain ⟨key, value⟩ := entry
    cases value with
    | body inner =>
      obtain rfl := List.mem_singleton.1 hbody
      rw [FieldValue.HasForm] at hform
      exact hform.2.isDecoded
    | bodies named =>
      obtain ⟨⟨name, inner⟩, hmem, rfl⟩ := List.mem_map.1 hbody
      rw [FieldValue.HasForm] at hform
      have hlt := List.sizeOf_lt_of_mem hmem
      exact (FieldSet.allFormed_iff.1 hform.2.2 _ hmem).isDecoded
    | _ => cases hbody
termination_by sizeOf fields
decreasing_by
  all_goals
    obtain ⟨entries⟩ := fields
    simp only [FieldSet.mk.sizeOf_spec, FieldValue.body.sizeOf_spec, FieldValue.bodies.sizeOf_spec,
      Prod.mk.sizeOf_spec] at *
    omega

/-! ### Laws of merging -/

/-- Lists of one form are concatenated associatively. -/
theorem FieldValue.SameList.append_assoc {lower middle higher : FieldValue}
    (h : SameList lower middle) (h' : SameList middle higher) :
    (lower.append middle).append higher = lower.append (middle.append higher) := by
  cases h <;> cases h' <;> simp only [append, List.append_assoc]

/-- Merging values of a field is associative, if merging the bodies in them is. -/
theorem FieldValue.Belongs.merge_assoc {merging : Merging} {form : Form} (h : merging.suits form)
    {lower middle higher : FieldValue} (hlower : lower.Belongs merging form)
    (hmiddle : middle.Belongs merging form) (hhigher : higher.Belongs merging form)
    (ih : ∀ above ∈ higher.inner, ∀ below ∈ lower.inner, ∀ body ∈ middle.inner,
      (below.merge body).merge above = below.merge (body.merge above)) :
    FieldValue.merge merging (FieldValue.merge merging lower middle) higher =
      FieldValue.merge merging lower (FieldValue.merge merging middle higher) := by
  have hfirst := hlower.merges h hmiddle
  have hsecond := hmiddle.merges h hhigher
  cases hsecond with
  | replace => simp only [FieldValue.merge_replace]
  | concat hsame =>
    obtain _ | hsame' := hfirst
    simpa only [FieldValue.merge_concat] using hsame'.append_assoc hsame
  | keyed middle higher =>
    obtain _ | _ | lower := hfirst
    simp only [FieldValue.merge_flags]
    rw [Entries.mergeWith_assoc hlower.2 hmiddle.2 hhigher.2]
    simp
  | fieldSet middle higher =>
    obtain _ | _ | _ | lower := hfirst
    simp only [FieldValue.merge_body]
    rw [ih higher List.mem_cons_self lower List.mem_cons_self middle List.mem_cons_self]
  | fieldSets middle higher =>
    obtain _ | _ | _ | _ | lower := hfirst
    simp only [FieldValue.merge_bodies]
    rw [Entries.mergeWith_assoc hlower.2 hmiddle.2 hhigher.2]
    intro name below hbelow body hbody above habove
    have hinner : ∀ {named : List (String × FieldSet)} {fields : FieldSet},
        fields ∈ Entries.get? named name → fields ∈ (FieldValue.bodies named).inner :=
      fun hget ↦ List.mem_map.2 ⟨_, Entries.mem_of_get?_eq_some hget, rfl⟩
    exact ih above (hinner habove) below (hinner hbelow) body (hinner hbody)

namespace FieldSet

/-- Merging decoded field sets is associative. -/
theorem merge_assoc {lower middle higher : FieldSet} (hlower : lower.IsDecoded)
    (hmiddle : middle.IsDecoded) (hhigher : higher.IsDecoded) :
    (lower.merge middle).merge higher = lower.merge (middle.merge higher) := by
  induction hhigher generalizing lower middle with
  | @intro higher hnodup hvalue _ ih =>
    obtain ⟨hlowerNodup, hlowerValue, hlowerInner⟩ := hlower
    obtain ⟨hmiddleNodup, hmiddleValue, hmiddleInner⟩ := hmiddle
    simp only [merge_eq, FieldSet.mk.injEq]
    refine Entries.mergeWith_assoc hlowerNodup hmiddleNodup hnodup ?_
    intro key x hx y hy z hz
    have hx := Entries.mem_of_get?_eq_some hx
    have hy := Entries.mem_of_get?_eq_some hy
    have hz := Entries.mem_of_get?_eq_some hz
    obtain ⟨field, hfield, hlower⟩ := hlowerValue _ hx
    obtain ⟨field₁, hfield₁, hmiddle⟩ := hmiddleValue _ hy
    obtain ⟨field₂, hfield₂, hhigher⟩ := hvalue _ hz
    cases hfield.symm.trans hfield₁
    cases hfield.symm.trans hfield₂
    rw [Field.mergingOf_eq hfield]
    refine hlower.merge_assoc (Field.suits_of_mem field (Field.mem_all_of_find? hfield)) hmiddle
      hhigher fun above habove below hbelow body hbody ↦ ?_
    exact ih _ hz above habove (hlowerInner _ hx below hbelow) (hmiddleInner _ hy body hbody)

/-- Nothing is merged into the scope without fields. -/
theorem empty_merge {fields : FieldSet} (h : (Entries.keys fields.entries).Nodup) :
    empty.merge fields = fields := by
  obtain ⟨entries⟩ := fields
  rw [merge_eq, empty, Entries.nil_mergeWith h]

/-- Nothing is changed by an empty scope above. -/
theorem merge_empty (fields : FieldSet) : fields.merge empty = fields := by
  obtain ⟨entries⟩ := fields
  rw [empty, merge, mergeEntries]

/-- Decoded field sets are a monoid: they can be merged in any grouping, and the scope without
fields changes none of them on either side. -/
theorem monoid_laws_merge {lower middle higher : FieldSet} (hlower : lower.IsDecoded)
    (hmiddle : middle.IsDecoded) (hhigher : higher.IsDecoded) :
    (lower.merge middle).merge higher = lower.merge (middle.merge higher) ∧
      empty.merge lower = lower ∧ lower.merge empty = lower := by
  have hassoc := merge_assoc hlower hmiddle hhigher
  obtain ⟨hnodup, -, -⟩ := hlower
  exact ⟨hassoc, empty_merge hnodup, merge_empty lower⟩

/-- A flag, an executable without a main file, and a library. -/
def lowerScope : FieldSet :=
  ⟨[("flags", .flags [("dev", ⟨"dev", true, false, none⟩)]),
    ("executables", .bodies [("foo", ⟨[("main", .null)]⟩)]),
    ("library", .body ⟨[("ghc-options", .texts ["-Wall"])]⟩)]⟩

/-- A setup, options for the library and the executable, and another executable. -/
def middleScope : FieldSet :=
  ⟨[("custom-setup", .body ⟨[("dependencies", .dependencies [])]⟩),
    ("library", .body ⟨[("buildable", .null), ("ghc-options", .texts ["-O2"])]⟩),
    ("executables", .bodies [("bar", ⟨[]⟩), ("foo", ⟨[("ghc-options", .texts ["-O2"])]⟩)])]⟩

/-- Another flag in front of the first one, and a main file. -/
def higherScope : FieldSet :=
  ⟨[("flags", .flags [("slow", ⟨"slow", false, false, none⟩), ("dev", ⟨"dev", false, true, none⟩)]),
    ("synopsis", .null), ("executables", .bodies [("foo", ⟨[("main", .text "Main.hs")]⟩)])]⟩

theorem isDecoded_options (options : List String) :
    IsDecoded ⟨[("ghc-options", .texts options)]⟩ :=
  isDecoded_empty.cons List.not_mem_nil ⟨_, rfl, .inl ⟨_, rfl⟩⟩ (List.forall_mem_nil _)

theorem isDecoded_lowerScope : lowerScope.IsDecoded := by
  have hmain : IsDecoded ⟨[("main", .null)]⟩ :=
    isDecoded_empty.cons List.not_mem_nil ⟨_, rfl, rfl⟩ (List.forall_mem_nil _)
  have hlibrary : IsDecoded ⟨[("library", .body ⟨[("ghc-options", .texts ["-Wall"])]⟩)]⟩ :=
    isDecoded_empty.cons List.not_mem_nil ⟨_, rfl, _, rfl⟩
      (List.forall_mem_singleton.2 (isDecoded_options _))
  refine (hlibrary.cons (by decide) ?_ ?_).cons (by decide) ?_ (List.forall_mem_nil _)
  · exact ⟨_, rfl, ⟨_, rfl⟩, by decide⟩
  · exact List.forall_mem_singleton.2 hmain
  · exact ⟨_, rfl, rfl, by decide⟩

theorem isDecoded_middleScope : middleScope.IsDecoded := by
  have hsetup : IsDecoded ⟨[("dependencies", .dependencies [])]⟩ :=
    isDecoded_empty.cons List.not_mem_nil ⟨_, rfl, rfl⟩ (List.forall_mem_nil _)
  have hlibrary : IsDecoded ⟨[("buildable", .null), ("ghc-options", .texts ["-O2"])]⟩ :=
    (isDecoded_options _).cons (by decide) ⟨_, rfl, rfl⟩ (List.forall_mem_nil _)
  have hexecutables : IsDecoded ⟨[("executables",
      .bodies [("bar", ⟨[]⟩), ("foo", ⟨[("ghc-options", .texts ["-O2"])]⟩)])]⟩ :=
    isDecoded_empty.cons List.not_mem_nil ⟨_, rfl, ⟨_, rfl⟩, by decide⟩ (List.forall_mem_cons.2
      ⟨isDecoded_empty, List.forall_mem_singleton.2 (isDecoded_options _)⟩)
  refine (hexecutables.cons (by decide) ?_ ?_).cons (by decide) ?_ ?_
  · exact ⟨_, rfl, _, rfl⟩
  · exact List.forall_mem_singleton.2 hlibrary
  · exact ⟨_, rfl, _, rfl⟩
  · exact List.forall_mem_singleton.2 hsetup

theorem isDecoded_higherScope : higherScope.IsDecoded := by
  have hmain : IsDecoded ⟨[("main", .text "Main.hs")]⟩ :=
    isDecoded_empty.cons List.not_mem_nil ⟨_, rfl, .inl ⟨_, rfl⟩⟩ (List.forall_mem_nil _)
  have hexecutables : IsDecoded ⟨[("executables",
      .bodies [("foo", ⟨[("main", .text "Main.hs")]⟩)])]⟩ :=
    isDecoded_empty.cons List.not_mem_nil ⟨_, rfl, ⟨_, rfl⟩, by decide⟩
      (List.forall_mem_singleton.2 hmain)
  refine (hexecutables.cons (by decide) ?_ ?_).cons (by decide) ?_ (List.forall_mem_nil _)
  · exact ⟨_, rfl, rfl⟩
  · exact List.forall_mem_nil _
  · exact ⟨_, rfl, rfl, by decide⟩

/-- Flags, executables and keys of these scopes come in one order, however they are merged. -/
theorem monoid_laws_merge_nested :
    lowerScope.IsDecoded ∧ middleScope.IsDecoded ∧ higherScope.IsDecoded ∧
      (lowerScope.merge middleScope).merge higherScope =
        lowerScope.merge (middleScope.merge higherScope) ∧
      empty.merge lowerScope = lowerScope ∧ lowerScope.merge empty = lowerScope :=
  ⟨isDecoded_lowerScope, isDecoded_middleScope, isDecoded_higherScope,
    monoid_laws_merge isDecoded_lowerScope isDecoded_middleScope isDecoded_higherScope⟩

/-- The value of a key is merged from the values of the key. -/
theorem get?_merge {lower higher : FieldSet} (h : higher.IsFormed) (key : String) :
    (lower.merge higher).get? key =
      (lower.get? key).merge (FieldValue.merge (Field.mergingOf key)) (higher.get? key) := by
  rw [get?, merge_eq, Entries.get?_mergeWith h.nodup]
  rfl

end FieldSet

/-! ### Items -/

/-- An item of a list. -/
inductive Item where
  | text (s : String)
  | dependency (dependency : Dependency)
  | conditional (conditional : Conditional)
  | verbatim (verbatim : Verbatim)

/-- The items of a value; none unless it is a list. -/
def FieldValue.items : FieldValue → List Item
  | .texts items => items.map .text
  | .dependencies items => items.map .dependency
  | .conditionals items => items.map .conditional
  | .verbatim entries => entries.map .verbatim
  | _ => []

/-- Lists of the same kind are put together item by item. -/
theorem FieldValue.SameList.items_append {lower higher : FieldValue} (h : SameList lower higher) :
    (lower.append higher).items = lower.items ++ higher.items := by
  cases h <;> simp only [append, items, List.map_append]

namespace FieldSet

/-- The items under a key. -/
def items (fields : FieldSet) (key : String) : List Item :=
  (fields.get? key).elim [] FieldValue.items

/-! ### Merging in order of precedence -/

/-- The merge of several field sets, each of which has precedence over those before it. -/
def mergeAll (layers : List FieldSet) : FieldSet := layers.foldl merge empty

/-- The last layer is merged over all that are before it. -/
theorem mergeAll_concat (layers : List FieldSet) (layer : FieldSet) :
    mergeAll (layers ++ [layer]) = (mergeAll layers).merge layer := by
  rw [mergeAll, List.foldl_append]
  rfl

/-- Layers that are formed are merged to a formed scope. -/
theorem isFormed_mergeAll {layers : List FieldSet} (h : ∀ layer ∈ layers, layer.IsFormed) :
    (mergeAll layers).IsFormed := by
  induction layers using List.reverseRecOn with
  | nil => exact isFormed_empty
  | append_singleton layers layer ih =>
    rw [List.forall_mem_append, List.forall_mem_singleton] at h
    rw [mergeAll_concat]
    exact (ih h.1).merge h.2

/-- Merging can be done in parts. -/
theorem mergeAll_append {layers layers' : List FieldSet} (h : ∀ layer ∈ layers, layer.IsFormed)
    (h' : ∀ layer ∈ layers', layer.IsFormed) :
    mergeAll (layers ++ layers') = (mergeAll layers).merge (mergeAll layers') := by
  induction layers' using List.reverseRecOn with
  | nil => rw [List.append_nil, mergeAll, mergeAll, List.foldl_nil, merge_empty]
  | append_singleton layers' layer ih =>
    rw [List.forall_mem_append, List.forall_mem_singleton] at h'
    rw [← List.append_assoc, mergeAll_concat, mergeAll_concat, ih h'.1,
      merge_assoc (isFormed_mergeAll h).isDecoded (isFormed_mergeAll h'.1).isDecoded h'.2.isDecoded]

/-- A field that is replaced has the value of the last field set that sets it. -/
theorem get?_mergeAll_of_replace {layers : List FieldSet} (h : ∀ layer ∈ layers, layer.IsFormed)
    {key : String} (hkey : Field.mergingOf key = .replace) :
    (mergeAll layers).get? key = (layers.filterMap (·.get? key)).getLast? := by
  induction layers using List.reverseRecOn with
  | nil => rfl
  | append_singleton layers layer ih =>
    rw [List.forall_mem_append, List.forall_mem_singleton] at h
    rw [mergeAll_concat, get?_merge h.2, ih h.1, hkey, List.filterMap_append]
    cases hlayer : layer.get? key with
    | none => simp [hlayer]
    | some value =>
      have hlast : [layer].filterMap (·.get? key) = [value] := by simp [hlayer]
      rw [hlast, List.getLast?_concat]
      cases (layers.filterMap (·.get? key)).getLast? with
      | none => rfl
      | some present => rw [Option.merge_some_some, FieldValue.merge_replace]

/-- A field is there if some field set has it. -/
theorem has_mergeAll {layers : List FieldSet} (h : ∀ layer ∈ layers, layer.IsFormed) (key : String) :
    (mergeAll layers).has key = layers.any (·.has key) := by
  induction layers using List.reverseRecOn with
  | nil => rfl
  | append_singleton layers layer ih =>
    rw [List.forall_mem_append, List.forall_mem_singleton] at h
    rw [mergeAll_concat, List.any_append, ← ih h.1]
    have hget := @get?_merge (mergeAll layers) layer h.2 key
    simp only [get?] at hget
    simp only [List.any_cons, List.any_nil, Bool.or_false, has, Entries.has_eq_isSome, hget]
    cases Entries.get? (mergeAll layers).entries key <;>
      cases Entries.get? layer.entries key <;> rfl

/-- A list has the items of all field sets, in their order. -/
theorem items_mergeAll {layers : List FieldSet} (h : ∀ layer ∈ layers, layer.IsFormed)
    {key : String} (hkey : Field.mergingOf key = .concat) :
    (mergeAll layers).items key = layers.flatMap (·.items key) := by
  induction layers using List.reverseRecOn with
  | nil => rfl
  | append_singleton layers layer ih =>
    rw [List.forall_mem_append, List.forall_mem_singleton] at h
    rw [mergeAll_concat, List.flatMap_append, ← ih h.1, List.flatMap_singleton, items, items, items,
      get?_merge h.2]
    cases hlower : (mergeAll layers).get? key with
    | none => simp
    | some lower =>
      cases hlayer : layer.get? key with
      | none => simp
      | some higher =>
        -- Both values have the form of the key, so that they are lists of one form.
        obtain ⟨field, hfield, hform⟩ := (isFormed_mergeAll h.1).exists_field key lower hlower
        obtain ⟨field', hfield', hform'⟩ := h.2.exists_field key higher hlayer
        cases hfield.symm.trans hfield'
        have hmerges := hform.merges (Field.suits_of_mem field (Field.mem_all_of_find? hfield)) hform'
        rw [← Field.mergingOf_eq hfield, hkey] at hmerges
        obtain _ | hsame := hmerges
        rw [Option.merge_some_some, hkey, FieldValue.merge_concat]
        exact hsame.items_append

end FieldSet

end CabalManifest
