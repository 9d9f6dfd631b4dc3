import CabalManifest.Proofs.ReadingScopes

/-!
# Equations of reading

The functions that read manifests go by the shapes of values, and read an object by the keys that it
has. Each case has an equation of its own, so that a proof about reading need not open the functions.
What the objects of conditionals, flags and references say depends on the keys that are known there.
-/

namespace CabalManifest

variable {σ : Type}

/-! ### Shapes -/

namespace Value

theorem shape_scalar_ne_array (s : Scalar) : (scalar s).shape ≠ .array := by
  cases s <;> nofun

theorem shape_scalar_ne_object (s : Scalar) : (scalar s).shape ≠ .object := by
  cases s <;> nofun

theorem exists_of_shape_object {value : Value} (h : value.shape = .object) :
    ∃ entries, value = .object entries := by
  cases value with
  | object entries => exact ⟨entries, rfl⟩
  | scalar s => exact absurd h (shape_scalar_ne_object s)
  | array => cases h

end Value

/-! ### Registries -/

/-- Whether the fields of a scope, and of the branches in it, have the forms that they have
everywhere. -/
structure Registries.AreUsual (registries : Registries) : Prop where
  own : registries.own.IsUsual
  branches : registries.branches.IsUsual

namespace Registries

theorem areUsual_package : package.AreUsual := ⟨isUsual_own_package, by decide⟩

theorem areUsual_ofSection (kind : SectionKind) : (ofSection kind).AreUsual :=
  ⟨isUsual_own_ofSection kind, by cases kind <;> decide⟩

theorem AreUsual.branch {registries : Registries} (h : registries.AreUsual) :
    registries.branch.AreUsual :=
  ⟨h.branches, h.branches⟩

theorem IsScope.areUsual {registries : Registries} (h : registries.IsScope) :
    registries.AreUsual := by
  obtain rfl | ⟨kind, rfl⟩ := h
  · exact areUsual_package
  · exact areUsual_ofSection kind

end Registries

/-! ### Objects with certain keys -/

theorem Reference.ofEntries_congr {source : String} {place : Place}
    {entries entries' : List (String × Value)}
    (h : ∀ key ∈ Reference.keys, Entries.get? entries' key = Entries.get? entries key) :
    Reference.ofEntries source place entries' = Reference.ofEntries source place entries := by
  have hrepository : Reference.ofRepositoryEntries source place entries' =
      Reference.ofRepositoryEntries source place entries := by
    funext names
    simp only [Reference.ofRepositoryEntries.eq_def, h "ref" (by decide), h "path" (by decide)]
  rw [Reference.ofEntries, Reference.ofEntries, h "github" (by decide), h "local" (by decide),
    hrepository]

namespace Context

section

variable {context : Context σ}

/-- What is unknown depends on the keys alone. -/
theorem unknownKeys_congr {entries entries' : List (String × Value)}
    (h : Entries.keys entries' = Entries.keys entries) (keys : List String) (place : Place) :
    context.unknownKeys keys place entries' = context.unknownKeys keys place entries := by
  have hmap : ∀ entries : List (String × Value), context.unknownKeys keys place entries =
      ((Entries.keys entries).filter fun key ↦ !keys.contains key && !isPrivate key).map
        fun key ↦ .unrecognized context.source (place.key key) := by
    intro entries
    rw [Entries.keys, List.filter_map, List.map_map]
    rfl
  rw [hmap, hmap, h]

/-- What a flag says depends on the keys of flags alone. -/
theorem flagOf_congr {entries entries' : List (String × Value)}
    (h : ∀ key ∈ flagKeys, Entries.get? entries' key = Entries.get? entries key) (name : String)
    (place : Place) : context.flagOf name place entries' = context.flagOf name place entries := by
  rw [flagOf, flagOf, h "manual" (by decide), h "default" (by decide), h "description" (by decide)]

theorem condition_congr {place : Place} {entries entries' : List (String × Value)}
    (h : Entries.get? entries' "condition" = Entries.get? entries "condition") :
    context.condition place entries' = context.condition place entries := by
  rw [condition.eq_def, condition.eq_def, h]

end

/-! ### References -/

/-- Reads the references of a scope. -/
def listReferences (context : Context σ) (place : Place) (value : Value) :
    Decode σ (List Reference) := do
  let (warnings, references) := Reference.listOf context.source place value
  Decode.warnAll warnings
  let references ← Decode.ofExcept references
  if context.services.resolve?.isNone then throw .noResolver
  return references

theorem defaults_eq (read : ReadDocument σ) (context : Context σ) (registries : Registries)
    (place : Place) (value : Value) :
    context.defaults read registries place value =
      context.listReferences place value >>= context.inherit read registries .empty := by
  rw [defaults, listReferences]
  simp only [bind_assoc]
  congr 1
  funext _
  congr 1
  funext references
  split
  · rfl
  · rfl

/-! ### Entries of scopes -/

/-- Reads an entry of a scope. -/
def entry (read : ReadDocument σ) (context : Context σ) (registries : Registries)
    (skip : String → Bool) (place : Place) (key : String) (value : Value) :
    Decode σ (Option (String × FieldValue)) :=
  if isPrivate key || skip key then pure none
  else match registries.own.find? key with
    | none => do
      Decode.warn (.unrecognized context.source (place.key key))
      pure none
    | some field =>
      if field.form = .defaults then pure none
      else do
        let value ← fieldValue read context registries field (place.key key) value
        pure (some (key, value))

theorem fields_cons (read : ReadDocument σ) (context : Context σ) (registries : Registries)
    (skip : String → Bool) (place : Place) (key : String) (value : Value)
    (rest : List (String × Value)) :
    fields read context registries skip place ((key, value) :: rest) = do
      let found ← entry read context registries skip place key value
      return found.toList ++ (← fields read context registries skip place rest) := by
  rw [fields, entry]
  split
  · rw [pure_bind]
  · cases registries.own.find? key with
    | none => simp only [bind_assoc]
    | some field =>
      simp only
      split
      · rfl
      · simp only [bind_assoc]

section

variable {context : Context σ} {read : ReadDocument σ} {registries : Registries} {field : Field}
  {place : Place}

/-- To read a private key is to read the other entries. -/
theorem fields_of_isPrivate {skip : String → Bool} {key : String} (h : isPrivate key) (value : Value)
    (entries : List (String × Value)) :
    fields read context registries skip place ((key, value) :: entries) =
      fields read context registries skip place entries := by
  rw [fields_cons, entry, h]
  simp

/-- To read an unknown key is to warn of it before reading the other entries. -/
theorem fields_of_unknown {skip : String → Bool} {key : String}
    (hprivate : isPrivate key = false) (hskip : skip key = false)
    (hfield : registries.own.find? key = none) (value : Value) (entries : List (String × Value)) :
    fields read context registries skip place ((key, value) :: entries) =
      Decode.warn (.unrecognized context.source (place.key key)) >>= fun _ ↦
        fields read context registries skip place entries := by
  rw [fields_cons, entry, hprivate, hskip, hfield]
  simp

/-- To leave out a key is to read the other entries. -/
theorem fields_skip (key : String) (entries : List (String × Value)) :
    fields read context registries (· == key) place entries =
      fields read context registries (fun _ ↦ false) place (entries.filter (·.1 != key)) := by
  induction entries with
  | nil => rw [List.filter_nil, fields, fields]
  | cons entry entries ih =>
    obtain ⟨name, value⟩ := entry
    rw [fields, ih]
    by_cases hname : name = key
    · subst hname
      simp
    · rw [List.filter_cons_of_pos (by simpa using hname), fields]
      simp only [beq_eq_false_iff_ne.2 hname]

/-! ### Conditionals -/

theorem conditionals_singleton (position : Nat) (value : Value) :
    conditionals read context registries place position [value] = do
      return [← conditional read context registries (place.index position) value] := by
  rw [conditionals, conditionals]
  simp only [pure_bind]

/-- A conditional is read by the keys that it has. -/
theorem conditional_object (entries : List (String × Value)) :
    conditional read context registries place (.object entries) = do
      let condition ← Decode.ofExcept (context.condition place entries)
      match Entries.get? entries "then", Entries.get? entries "else" with
      | none, none => do
        let own ← fields read context registries (· == "condition") place entries
        return ⟨condition, ⟨own⟩, none⟩
      | none, some _ => do
        Decode.warnAll (context.unknownKeys branchKeys place entries)
        Decode.ofExcept (context.fault place (.missingKey "then"))
      | some thenValue, none => do
        Decode.warnAll (context.unknownKeys branchKeys place entries)
        return ⟨condition, ← branch read context registries (place.key "then") thenValue, none⟩
      | some thenValue, some elseValue => do
        Decode.warnAll (context.unknownKeys branchKeys place entries)
        let thenFields ← branch read context registries (place.key "then") thenValue
        let elseFields ← branch read context registries (place.key "else") elseValue
        return ⟨condition, thenFields, some elseFields⟩ := by
  rw [conditional]
  congr 1
  funext condition
  split <;> simp_all only

/-! ### Values of fields -/

theorem fieldValue_of_ne_array (hform : field.form = .conditionals) {value : Value}
    (hvalue : value.shape ≠ .array) : fieldValue read context registries field place value = do
      return .conditionals [← conditional read context registries.branch place value] := by
  rw [fieldValue.eq_def]
  simp only [hform]
  split
  · exact absurd rfl hvalue
  · rfl

theorem fieldValue_array (hform : field.form = .conditionals) (values : List Value) :
    fieldValue read context registries field place (.array values) = do
      return .conditionals (← conditionals read context registries.branch place 0 values) := by
  rw [fieldValue.eq_def]
  simp only [hform]

theorem fieldValue_body {kind : SectionKind} (hform : field.form = .body kind) (value : Value) :
    fieldValue read context registries field place value = do
      return .body (← body read context kind place value) := by
  rw [fieldValue.eq_def]
  simp only [hform]

theorem fieldValue_bodies {kind : SectionKind} (hform : field.form = .bodies kind)
    (entries : List (String × Value)) :
    fieldValue read context registries field place (.object entries) = do
      return .bodies (← bodies read context kind place entries) := by
  rw [fieldValue.eq_def]
  simp only [hform]

theorem fieldValue_bodies_of_ne_object {kind : SectionKind} (hform : field.form = .bodies kind)
    {value : Value} (hvalue : value.shape ≠ .object) :
    fieldValue read context registries field place value =
      Decode.ofExcept (context.mismatch place "Object" value) := by
  rw [fieldValue.eq_def]
  simp only [hform]
  split
  · exact absurd rfl hvalue
  · rfl

theorem fieldValue_leaf (hleaf : field.form.isLeaf) (value : Value) :
    fieldValue read context registries field place value = context.value field place value := by
  rw [fieldValue.eq_def]
  cases hform : field.form with
  | conditionals | body | bodies => rw [hform] at hleaf; cases hleaf
  | _ => rfl

end

end Context

end CabalManifest
