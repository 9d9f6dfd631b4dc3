import CabalManifest.Manifest.FieldValue

/-!
# Reading scopes

A scope is a whole document, the body of a section or a branch of a conditional. Its known keys are
read in the order in which they stand; unknown ones are warned about, and private ones passed over.

A document or the body of a section may refer to further documents, whose fields it takes over. They
are read when the scope's own fields have been, in the order of the references and each with its own
references first; a later one has precedence over an earlier one, and the scope over all of them.

A scope is read however deep its conditionals are nested: the stack of an interpreter, which bounds the
documents that can be parsed (`Yaml.Parse.depthLimit`), is not part of reading, and neither of merging,
inference and rendering.
-/

namespace CabalManifest

variable {σ : Type}

/-- The registries of a scope: for its own fields, and for the branches of its conditionals. -/
structure Registries where
  own : Registry
  branches : Registry

namespace Registries

/-- The registries of a whole manifest. -/
def package : Registries := ⟨Field.topLevel ++ Field.scope, Field.common⟩

/-- The registries of the body of a section. -/
def ofSection (kind : SectionKind) : Registries := ⟨kind.fields ++ Field.scope, kind.fields⟩

/-- The registries of a branch. -/
def branch (registries : Registries) : Registries := ⟨registries.branches, registries.branches⟩

end Registries

/-- Reads a document that a scope refers to, with the registries of the scope. -/
abbrev ReadDocument (σ : Type) := Context σ → Registries → Document → Decode σ FieldSet

namespace Context

/-! ### Defaults -/

/-- Reads the documents of some references and merges them in their order. -/
def inherit (read : ReadDocument σ) (context : Context σ) (registries : Registries) :
    FieldSet → List Reference → Decode σ FieldSet
  | inherited, [] => return inherited
  | inherited, reference :: rest => do
    let document ← context.resolve reference
    let fields ← read context registries document
    inherit read context registries (inherited.merge fields) rest

/-- Reads the documents that a value refers to. -/
def defaults (read : ReadDocument σ) (context : Context σ) (registries : Registries)
    (place : Place) (value : Value) : Decode σ FieldSet := do
  let (warnings, references) := Reference.listOf context.source place value
  Decode.warnAll warnings
  let references ← Decode.ofExcept references
  if context.services.resolve?.isNone then throw .noResolver
  context.inherit read registries .empty references

/-! ### Conditions -/

/-- Reads the condition of a conditional. -/
def condition (context : Context σ) (place : Place) (entries : List (String × Value)) :
    Except Failure String :=
  match Entries.get? entries "condition" with
  | none => context.fault place (.missingKey "condition")
  | some (.text s) => .ok s
  | some (.bool b) => .ok (Scalar.bool b).plain
  | some value => context.mismatch (place.key "condition") "Boolean or String" value

/-- The keys of a conditional with branches. -/
def branchKeys : List String := ["condition", "then", "else"]

/-! ### Scopes -/

mutual

/-- Reads the value of a field. -/
def fieldValue (read : ReadDocument σ) (context : Context σ) (registries : Registries)
    (field : Field) (place : Place) (value : Value) : Decode σ FieldValue :=
  match field.form with
  | .conditionals =>
    match value with
    | .array values => do
      return .conditionals (← conditionals read context registries.branch place 0 values)
    | value => do
      return .conditionals [← conditional read context registries.branch place value]
  | .body kind => do return .body (← body read context kind place value)
  | .bodies kind =>
    match value with
    | .object entries => do return .bodies (← bodies read context kind place entries)
    | value => Decode.ofExcept (context.mismatch place "Object" value)
  | _ => context.value field place value
termination_by (sizeOf value, 2)

/-- Reads the known fields of a scope, apart from those that `skip` leaves out. -/
def fields (read : ReadDocument σ) (context : Context σ) (registries : Registries)
    (skip : String → Bool) (place : Place) (entries : List (String × Value)) :
    Decode σ (List (String × FieldValue)) :=
  match entries with
  | [] => return []
  | (key, value) :: rest => do
    let found ←
      if isPrivate key || skip key then pure none
      else match registries.own.find? key with
        | none => do
          Decode.warn (.unrecognized context.source (place.key key))
          pure none
        | some field =>
          if field.form = .defaults then pure none
          else do
            let value ← fieldValue read context registries field (place.key key) value
            pure (some (key, value))
    return found.toList ++ (← fields read context registries skip place rest)
termination_by (sizeOf entries, 0)

/-- Reads a whole document or the body of a section, with what it refers to. -/
def scope (read : ReadDocument σ) (context : Context σ) (registries : Registries)
    (place : Place) (entries : List (String × Value)) : Decode σ FieldSet := do
  let own ← fields read context registries (fun _ ↦ false) place entries
  match Entries.get? entries "defaults", registries.own.find? "defaults" with
  | some value, some _ => do
    let inherited ← context.defaults read registries (place.key "defaults") value
    return inherited.merge ⟨own⟩
  | _, _ => return ⟨own⟩
termination_by (sizeOf entries, 1)

/-- Reads the body of a section; a null is an empty one. -/
def body (read : ReadDocument σ) (context : Context σ) (kind : SectionKind) (place : Place)
    (value : Value) : Decode σ FieldSet :=
  match value with
  | .null => return .empty
  | .object entries => scope read context (.ofSection kind) place entries
  | value => Decode.ofExcept (context.mismatch place "Object" value)
termination_by (sizeOf value, 1)

/-- Reads the bodies of named sections. -/
def bodies (read : ReadDocument σ) (context : Context σ) (kind : SectionKind) (place : Place)
    (entries : List (String × Value)) : Decode σ (List (String × FieldSet)) :=
  match entries with
  | [] => return []
  | (name, value) :: rest => do
    let fields ← body read context kind (place.key name) value
    return (name, fields) :: (← bodies read context kind place rest)
termination_by (sizeOf entries, 0)

/-- Reads a branch of a conditional. -/
def branch (read : ReadDocument σ) (context : Context σ) (registries : Registries)
    (place : Place) (value : Value) : Decode σ FieldSet :=
  match value with
  | .object entries => do
    return ⟨← fields read context registries (fun _ ↦ false) place entries⟩
  | value => Decode.ofExcept (context.mismatch place "Object" value)
termination_by (sizeOf value, 0)

/-- Reads a conditional: its condition together with its fields, or with one or two branches. -/
def conditional (read : ReadDocument σ) (context : Context σ) (registries : Registries)
    (place : Place) (value : Value) : Decode σ Conditional :=
  match value with
  | .object entries => do
    let condition ← Decode.ofExcept (context.condition place entries)
    match _ht : Entries.get? entries "then", _he : Entries.get? entries "else" with
    | none, none => do
      let own ← fields read context registries (· == "condition") place entries
      return ⟨condition, ⟨own⟩, none⟩
    | none, some _ => do
      Decode.warnAll (context.unknownKeys branchKeys place entries)
      Decode.ofExcept (context.fault place (.missingKey "then"))
    | some thenValue, none => do
      Decode.warnAll (context.unknownKeys branchKeys place entries)
      return ⟨condition, ← branch read context registries (place.key "then") thenValue, none⟩
    | some thenValue, some elseValue => do
      Decode.warnAll (context.unknownKeys branchKeys place entries)
      let thenFields ← branch read context registries (place.key "then") thenValue
      let elseFields ← branch read context registries (place.key "else") elseValue
      return ⟨condition, thenFields, some elseFields⟩
  | value => Decode.ofExcept (context.mismatch place "Object" value)
termination_by (sizeOf value, 1)
decreasing_by
  · simp; omega
  · have := Entries.sizeOf_lt_of_get? _ht
    simp; omega
  · have := Entries.sizeOf_lt_of_get? _ht
    simp; omega
  · have := Entries.sizeOf_lt_of_get? _he
    simp; omega

/-- Reads the items of a list of conditionals, the first of which has the given position. -/
def conditionals (read : ReadDocument σ) (context : Context σ) (registries : Registries)
    (place : Place) (position : Nat) (values : List Value) : Decode σ (List Conditional) :=
  match values with
  | [] => return []
  | value :: rest => do
    let conditional ← conditional read context registries (place.index position) value
    return conditional :: (← conditionals read context registries place (position + 1) rest)
termination_by (sizeOf values, 0)

end

/-! ### Documents -/

/-- Reads a document that a scope refers to, the bound being the number of documents that a chain
can still have. Every document of a chain is another one, so that a longer chain has a cycle. -/
def document (bound : Nat) : ReadDocument σ := fun context registries document ↦
  match bound with
  | 0 => throw (.cyclicDefaults context.visited)
  | bound + 1 =>
    scope (Context.document bound) (context.enter document) registries Place.top document.value

/-- Reads a manifest, the bound being the number of documents there can be. No stack bounds the depth
of the manifest. -/
def package (context : Context σ) (bound : Nat) (value : Value) : Decode σ FieldSet :=
  match value with
  | .object entries => scope (document bound) context .package Place.top entries
  | value => Decode.ofExcept (context.mismatch Place.top "Object" value)

end Context

end CabalManifest
