import CabalManifest.FieldSet

/-!
# Merging field sets

Two field sets merge into one, the second of which has precedence. What that means for a field is a
matter of its key: lists are concatenated, flags merge by name, bodies of sections merge in turn, and
everything else is replaced. A null on either side is replaced, whatever the key.
-/

namespace CabalManifest

/-- Concatenates two lists of one form; of two forms the higher wins. -/
def FieldValue.append : FieldValue → FieldValue → FieldValue
  | .texts lower, .texts higher => .texts (lower ++ higher)
  | .dependencies lower, .dependencies higher => .dependencies (lower ++ higher)
  | .conditionals lower, .conditionals higher => .conditionals (lower ++ higher)
  | .verbatim lower, .verbatim higher => .verbatim (lower ++ higher)
  | _, higher => higher

/-- Replaces the entries of the same name and appends the others. -/
def FieldValue.update : FieldValue → FieldValue → FieldValue
  | .flags lower, .flags higher =>
    .flags (higher.foldl (fun flags entry ↦ Entries.insert flags entry.1 entry.2) lower)
  | _, higher => higher

mutual

/-- Merges a value of higher precedence into the value of the same key. -/
def FieldValue.merge (merging : Merging) (lower : FieldValue) : FieldValue → FieldValue
  | .body higher =>
    match merging, lower with
    | .fieldSet, .body lower => .body (lower.merge higher)
    | _, _ => .body higher
  | .bodies higher =>
    match merging, lower with
    | .fieldSets, .bodies lower => .bodies (FieldSet.mergeNamed lower higher)
    | _, _ => .bodies higher
  | higher =>
    match merging with
    | .concat => lower.append higher
    | .keyed => lower.update higher
    | _ => higher

/-- Merges a field set of higher precedence into another one. -/
def FieldSet.merge (lower : FieldSet) : FieldSet → FieldSet
  | ⟨higher⟩ => ⟨FieldSet.mergeEntries lower.entries higher⟩

/-- Merges the fields of higher precedence, in their order. -/
def FieldSet.mergeEntries (lower : List (String × FieldValue)) :
    List (String × FieldValue) → List (String × FieldValue)
  | [] => lower
  | (key, value) :: higher =>
    let merged := match Entries.get? lower key with
      | some present => FieldValue.merge (Field.mergingOf key) present value
      | none => value
    FieldSet.mergeEntries (Entries.insert lower key merged) higher

/-- Merges named bodies of higher precedence, in their order. -/
def FieldSet.mergeNamed (lower : List (String × FieldSet)) :
    List (String × FieldSet) → List (String × FieldSet)
  | [] => lower
  | (name, body) :: higher =>
    let merged := match Entries.get? lower name with
      | some present => present.merge body
      | none => body
    FieldSet.mergeNamed (Entries.insert lower name merged) higher

end

/-- Merges the common fields at the top of a manifest into the fields of a section. Conditionals and
overrides take no part. -/
def FieldSet.mergeSection (globals body : FieldSet) : FieldSet :=
  let lower := globals.filterKeys fun key ↦
    (Registry.find? Field.common key).isSome && key != "when"
  lower.merge (body.filterKeys fun key ↦ key != "when" && key != "verbatim")

end CabalManifest
