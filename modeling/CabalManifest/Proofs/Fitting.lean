import CabalManifest.Manifest.Scope
import CabalManifest.Proofs.ReadingValues

/-!
# Field sets that fit their scope

A field set *fits* the registries of a scope if the scope knows all its keys, and every value is what
is read for its key: a value of the form of the field, a list of conditionals whose branches fit in
turn, or bodies of sections that fit theirs. Merging keeps this, whatever the way in which a key is
merged (`FieldSet.Fits.merge`).
-/

namespace CabalManifest

mutual

/-- Whether a value is what is read for a field of a form, given what the branches of conditionals
know. If it has to be writable, so are its scalars. -/
inductive FieldValue.Fits (writable : Prop) : Registry → Form → FieldValue → Prop
  | leaf {branches : Registry} {form : Form} {value : FieldValue} (hleaf : form.isLeaf)
    (hflags : form ≠ .flags) (hform : value.HasForm form) (hwritable : writable → value.HoldsWritable) :
    FieldValue.Fits writable branches form value
  | flags (branches : Registry) (entries : List (String × Flag)) :
    FieldValue.Fits writable branches .flags (.flags entries)
  | conditionals {branches : Registry} {items : List Conditional}
    (h : ∀ item ∈ items, ∀ branch ∈ item.branches,
      FieldSet.Fits writable ⟨branches, branches⟩ branch) :
    FieldValue.Fits writable branches .conditionals (.conditionals items)
  | body {branches : Registry} {kind : SectionKind} {fields : FieldSet}
    (h : FieldSet.Fits writable (.ofSection kind) fields) :
    FieldValue.Fits writable branches (.body kind) (.body fields)
  | bodies {branches : Registry} {kind : SectionKind} {named : List (String × FieldSet)}
    (h : ∀ entry ∈ named, FieldSet.Fits writable (.ofSection kind) entry.2) :
    FieldValue.Fits writable branches (.bodies kind) (.bodies named)

/-- Whether every key of a field set is known in a scope and has a value that is read for it. -/
inductive FieldSet.Fits (writable : Prop) : Registries → FieldSet → Prop
  | mk {registries : Registries} {entries : List (String × FieldValue)}
    (hknown : ∀ entry ∈ entries, (registries.own.find? entry.1).isSome)
    (h : ∀ entry ∈ entries, ∀ field, registries.own.find? entry.1 = some field →
      FieldValue.Fits writable registries.branches field.form entry.2) :
    FieldSet.Fits writable registries ⟨entries⟩

end

variable {writable : Prop} {registries : Registries} {branches : Registry} {form : Form}

/-! ### Fields of a field set that fits -/

namespace FieldSet

theorem fits_empty : empty.Fits writable registries := .mk (List.forall_mem_nil _) nofun

theorem fits_iff {fields : FieldSet} :
    fields.Fits writable registries ↔
      (∀ entry ∈ fields.entries, (registries.own.find? entry.1).isSome) ∧
        ∀ entry ∈ fields.entries, ∀ field, registries.own.find? entry.1 = some field →
          entry.2.Fits writable registries.branches field.form := by
  obtain ⟨entries⟩ := fields
  exact ⟨fun ⟨hknown, h⟩ ↦ ⟨hknown, h⟩, fun ⟨hknown, h⟩ ↦ .mk hknown h⟩

namespace Fits

variable {fields : FieldSet}

theorem exists_field (h : fields.Fits writable registries) {key : String} {value : FieldValue}
    (hvalue : fields.get? key = some value) :
    ∃ field, registries.own.find? key = some field ∧
      value.Fits writable registries.branches field.form := by
  obtain ⟨hknown, h⟩ := fits_iff.1 h
  have hmem := Entries.mem_of_get?_eq_some hvalue
  obtain ⟨field, hfield⟩ := Option.isSome_iff_exists.1 (hknown _ hmem)
  exact ⟨field, hfield, h _ hmem field hfield⟩

/-- A field that the scope does not know is not there. -/
theorem get?_eq_none (h : fields.Fits writable registries) {key : String}
    (hkey : registries.own.find? key = none) : fields.get? key = none := by
  cases hvalue : fields.get? key with
  | none => rfl
  | some value =>
    obtain ⟨field, hfield, -⟩ := h.exists_field hvalue
    cases hkey.symm.trans hfield

end Fits

end FieldSet

/-! ### Merging -/

namespace Entries

/-- What holds of all entries on both sides, and of what two of them merge into, holds of all
entries afterwards. -/
theorem forall_mergeWith {α : Type*} {f : String → α → α → α} {lower higher : Entries α}
    {p : String → α → Prop} (hlower : ∀ entry ∈ lower, p entry.1 entry.2)
    (hhigher : ∀ entry ∈ higher, p entry.1 entry.2)
    (hboth : ∀ entry ∈ higher, ∀ x, p entry.1 x → p entry.1 (f entry.1 x entry.2)) :
    ∀ entry ∈ mergeWith f lower higher, p entry.1 entry.2 := by
  induction higher generalizing lower with
  | nil => exact hlower
  | cons entry higher ih =>
    obtain ⟨key, value⟩ := entry
    rw [List.forall_mem_cons] at hhigher hboth
    refine ih (fun other hother ↦ ?_) hhigher.2 hboth.2
    rcases mem_insert hother with rfl | hother
    · cases hpresent : get? lower key with
      | none => exact hhigher.1
      | some present => exact hboth.1 present (hlower _ (mem_of_get?_eq_some hpresent))
    · exact hlower other hother

end Entries

namespace FieldValue

/-- Concatenated lists fit where both lists do. -/
theorem Fits.append {lower higher : FieldValue} (hlower : lower.Fits writable branches form)
    (hhigher : higher.Fits writable branches form) :
    (lower.append higher).Fits writable branches form := by
  cases hhigher with
  | leaf hleaf hflags hform hwritable =>
    cases hlower with
    | leaf _ _ hform' hwritable' =>
      rw [append.eq_def]
      split
      · exact .leaf hleaf hflags hform fun _ ↦ trivial
      · exact .leaf hleaf hflags hform fun _ ↦ trivial
      · rw [HasForm] at hform
        rw [hform] at hleaf
        cases hleaf
      · exact .leaf hleaf hflags hform fun hw ↦
          List.forall_mem_append.2 ⟨hwritable' hw, hwritable hw⟩
      · exact .leaf hleaf hflags hform hwritable
    | flags => exact absurd rfl hflags
    | conditionals | body | bodies => cases hleaf
  | flags entries =>
    cases hlower with
    | leaf _ hflags => exact absurd rfl hflags
    | flags => exact .flags _ _
  | conditionals h =>
    cases hlower with
    | leaf hleaf => cases hleaf
    | conditionals h' => exact .conditionals (List.forall_mem_append.2 ⟨h', h⟩)
  | body h =>
    cases hlower with
    | leaf hleaf => cases hleaf
    | body => exact .body h
  | bodies h =>
    cases hlower with
    | leaf hleaf => cases hleaf
    | bodies => exact .bodies h

theorem Fits.update {lower higher : FieldValue} (hhigher : higher.Fits writable branches form) :
    (lower.update higher).Fits writable branches form := by
  rw [FieldValue.update.eq_def]
  split
  · cases hhigher with
    | leaf _ hflags hform => exact absurd hform.1 hflags
    | flags => exact .flags _ _
  · exact hhigher

/-- A merged value fits where both values do, if the merged bodies in it fit. -/
theorem Fits.merge (merging : Merging) {lower higher : FieldValue}
    (hlower : lower.Fits writable branches form) (hhigher : higher.Fits writable branches form)
    (ih : ∀ above : FieldSet, sizeOf above < sizeOf higher → ∀ registries : Registries,
      above.Fits writable registries → ∀ below : FieldSet, below.Fits writable registries →
        (below.merge above).Fits writable registries) :
    (FieldValue.merge merging lower higher).Fits writable branches form := by
  rw [FieldValue.merge.eq_def]
  -- Bodies merge with bodies of the same kind; whatever else is on top is no field set.
  split
  · next above =>
    split
    · next below =>
      cases hhigher with
      | leaf hleaf _ hform =>
        obtain ⟨⟨kind, rfl⟩, -⟩ := hform
        cases hleaf
      | body habove =>
        cases hlower with
        | leaf hleaf => cases hleaf
        | body hbelow => exact .body (ih above (by simp) _ habove below hbelow)
    · exact hhigher
  · next above =>
    split
    · next below =>
      cases hhigher with
      | leaf hleaf _ hform =>
        obtain ⟨⟨kind, rfl⟩, -⟩ := hform
        cases hleaf
      | bodies habove =>
        cases hlower with
        | leaf hleaf => cases hleaf
        | bodies hbelow =>
          rw [FieldSet.mergeNamed_eq]
          refine .bodies (Entries.forall_mergeWith
            (p := fun _ (body : FieldSet) ↦ body.Fits writable (.ofSection _)) hbelow habove
            fun entry hentry body hbody ↦ ?_)
          have hsize := List.sizeOf_lt_of_mem hentry
          refine ih _ ?_ _ (habove entry hentry) body hbody
          obtain ⟨name, above⟩ := entry
          simp at hsize ⊢
          omega
    · exact hhigher
  · split
    · exact hlower.append hhigher
    · exact hhigher.update
    · exact hhigher

end FieldValue

/-- Merged field sets fit where both do. -/
theorem FieldSet.Fits.merge {registries : Registries} {lower higher : FieldSet}
    (hlower : lower.Fits writable registries) (hhigher : higher.Fits writable registries) :
    (lower.merge higher).Fits writable registries := by
  rw [FieldSet.merge_eq]
  obtain ⟨hlowerKnown, hlowerFit⟩ := fits_iff.1 hlower
  obtain ⟨hhigherKnown, hhigherFit⟩ := fits_iff.1 hhigher
  refine .mk (Entries.forall_mergeWith (p := fun key _ ↦ (registries.own.find? key).isSome)
    hlowerKnown hhigherKnown fun _ _ _ ↦ id) ?_
  refine Entries.forall_mergeWith (p := fun key (value : FieldValue) ↦ ∀ field,
    registries.own.find? key = some field → value.Fits writable registries.branches field.form)
    hlowerFit hhigherFit fun entry hentry x hx field hfield ↦ ?_
  -- The bodies in a value on top are smaller than the field set that holds it.
  have hsize := List.sizeOf_lt_of_mem hentry
  refine (hx field hfield).merge _ (hhigherFit entry hentry field hfield) ?_
  intro above habove registries hfits below hbelow
  exact hbelow.merge hfits
termination_by sizeOf higher
decreasing_by
  obtain ⟨key, value⟩ := entry
  obtain ⟨entries⟩ := higher
  simp only [FieldSet.mk.sizeOf_spec, Prod.mk.sizeOf_spec] at hsize habove ⊢
  omega

end CabalManifest
