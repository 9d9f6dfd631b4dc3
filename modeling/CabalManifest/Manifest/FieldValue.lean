import CabalManifest.Manifest.Context

/-!
# Reading the values of fields

One function for each form of field that holds no further fields: texts and lists of texts, file
patterns, dependencies, overrides and flags.
-/

namespace CabalManifest.Context

variable {σ : Type}

/-- Reads a text. -/
def text (context : Context σ) (nullable : Bool) (place : Place) :
    Value → Except Failure FieldValue
  | .text s => .ok (.text s)
  | value =>
    if nullable && value.shape = .null then .ok .null else context.mismatch place "String" value

/-- Reads a version, which may look like a number. -/
def version (context : Context σ) (place : Place) (value : Value) : Except Failure FieldValue :=
  match value with
  | .text s => .ok (.text s)
  | .int n =>
    if Decimal.isWritable n then .ok (.text (Scalar.int n).plain) else .error (.longInteger none)
  | .float x => .ok (.text (Scalar.float x).plain)
  | value => context.mismatch place "Number or String" value

/-- Reads a truth value. -/
def bool (context : Context σ) (place : Place) : Value → Except Failure Bool
  | .bool b => .ok b
  | value => context.mismatch place "Boolean" value

/-- Reads one of a few words. -/
def keyword (context : Context σ) (accepted : List String) (place : Place) :
    Value → Except Failure FieldValue
  | .text s => if accepted.contains s then .ok (.text s) else context.fault place (.notOneOf accepted)
  | _ => context.fault place (.notOneOf accepted)

/-! ### Lists -/

/-- Reads the items of a list of texts, the first of which has the given position. -/
def items (context : Context σ) (place : Place) : Nat → List Value → Except Failure (List String)
  | _, [] => .ok []
  | position, .text s :: rest => do return s :: (← items context place (position + 1) rest)
  | position, value :: _ => context.mismatch (place.index position) "String" value

/-- Reads a text or a list of texts. -/
def texts (context : Context σ) (place : Place) : Value → Except Failure (List String)
  | .text s => .ok [s]
  | .array values => context.items place 0 values
  | value => context.mismatch place "Array or String" value

/-- Reads a text or a list of texts, or a null. -/
def textsOrNull (context : Context σ) (nullable : Bool) (place : Place) (value : Value) :
    Except Failure FieldValue :=
  if nullable && value.shape = .null then .ok .null
  else (context.texts place value).map .texts

/-- Finds the files of some patterns, each file once. -/
def files (context : Context σ) (field : String) (patterns : List String) :
    Decode σ (List String) := do
  let found ← patterns.mapM fun pattern ↦ do
    let found ← context.glob pattern
    if found.isEmpty then Decode.warn (.unmatched pattern field)
    return found
  return found.flatten.eraseDups

/-! ### Overrides -/

/-- Reads the values of an override. -/
def overrideEntries (context : Context σ) (place : Place) :
    List (String × Value) → Except Failure (List (String × Scalar))
  | [] => .ok []
  | (key, .scalar value) :: rest => do
    return (key, value) :: (← overrideEntries context place rest)
  | (key, value) :: _ =>
    context.mismatch (place.key key) "Null, Boolean, Number, or String" value

/-- Reads one override. -/
def overrideOf (context : Context σ) (place : Place) : Value → Except Failure Verbatim
  | .text s => .ok (.raw s)
  | .object entries => (context.overrideEntries place entries).map .fields
  | value => context.mismatch place "Object or String" value

/-- Reads the items of a list of overrides, the first of which has the given position. -/
def overrideItems (context : Context σ) (place : Place) :
    Nat → List Value → Except Failure (List Verbatim)
  | _, [] => .ok []
  | position, value :: rest => do
    let entry ← context.overrideOf (place.index position) value
    return entry :: (← overrideItems context place (position + 1) rest)

/-- Reads an override or a list of overrides. -/
def verbatim (context : Context σ) (place : Place) : Value → Except Failure (List Verbatim)
  | .array values => context.overrideItems place 0 values
  | value => (context.overrideOf place value).map ([·])

/-! ### Flags -/

/-- The keys of a flag. -/
def flagKeys : List String := ["description", "manual", "default"]

/-- What is unknown in an object with certain keys. -/
def unknownKeys (context : Context σ) (keys : List String) (place : Place)
    (entries : List (String × Value)) : List Warning :=
  (entries.filter fun (key, _) ↦ !keys.contains key && !isPrivate key).map
    fun (key, _) ↦ .unrecognized context.source (place.key key)

/-- Reads a flag whose keys are known. -/
def flagOf (context : Context σ) (name : String) (place : Place)
    (entries : List (String × Value)) : Except Failure Flag := do
  match Entries.get? entries "manual", Entries.get? entries "default" with
  | none, _ => context.fault place (.missingKey "manual")
  | some _, none => context.fault place (.missingKey "default")
  | some manual, some default =>
    let description ← match Entries.get? entries "description" with
      | none | some .null => pure none
      | some (.text s) => pure (some s)
      | some value => context.mismatch (place.key "description") "String" value
    let manual ← context.bool (place.key "manual") manual
    let default ← context.bool (place.key "default") default
    return ⟨name, manual, default, description⟩

/-- Reads the flags of a package. -/
def flags (context : Context σ) (place : Place) :
    List (String × Value) → Decode σ (List (String × Flag))
  | [] => return []
  | (name, .object entries) :: rest => do
    let flagPlace := place.key name
    Decode.warnAll (context.unknownKeys flagKeys flagPlace entries)
    let flag ← Decode.ofExcept (context.flagOf name flagPlace entries)
    return (name, flag) :: (← flags context place rest)
  | (name, value) :: _ => Decode.ofExcept (context.mismatch (place.key name) "Object" value)

/-! ### All forms -/

/-- Reads the value of a field that holds no further fields. -/
def value (context : Context σ) (field : Field) (place : Place) (value : Value) :
    Decode σ FieldValue :=
  match field.form with
  | .text nullable => Decode.ofExcept (context.text nullable place value)
  | .version => Decode.ofExcept (context.version place value)
  | .bool => Decode.ofExcept ((context.bool place value).map .bool)
  | .keyword accepted => Decode.ofExcept (context.keyword accepted place value)
  | .texts nullable => Decode.ofExcept (context.textsOrNull nullable place value)
  | .globs => do
    let patterns ← Decode.ofExcept (context.texts place value)
    return .texts (← context.files field.key patterns)
  | .dependencies =>
    Decode.ofExcept ((Dependency.listOf context.source place value).map .dependencies)
  | .verbatim => Decode.ofExcept ((context.verbatim place value).map .verbatim)
  | .flags =>
    match value with
    | .object entries => do return .flags (← context.flags place entries)
    | value => Decode.ofExcept (context.mismatch place "Object" value)
  | .conditionals | .defaults | .body _ | .bodies _ => return .null

end CabalManifest.Context
