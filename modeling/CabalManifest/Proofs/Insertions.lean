import CabalManifest.Proofs.ChangedDocuments
import CabalManifest.Proofs.Tours

/-!
# Insertions

A key is inserted into an object of a manifest, or of a document that it refers to
(`Insertion.alter`). Which values can have such objects inside depends on what they are read as
(`ValueKind`). What an object gives under the keys that are known stays as it is
(`Insertion.get?_entries_of_ignored`), and what is unknown in it only grows by the key
(`Insertion.woven_unknownKeys`).
-/

namespace CabalManifest

/-! ### Kinds of values -/

/-- What a value of a document is read as, as far as it can have objects inside into which a key is
inserted. -/
inductive ValueKind where
  /-- A whole document, or the body of a section. -/
  | scope
  /-- A branch of a conditional. -/
  | branch
  /-- A conditional. -/
  | node
  /-- A conditional or an array of them. -/
  | conditionals
  /-- An object of bodies of sections. -/
  | bodies
  /-- An object of flags. -/
  | flags
  | flag
  | reference
  /-- A reference or an array of them. -/
  | references
  | other
  deriving DecidableEq, Repr

namespace ValueKind

/-- What the value of a field is read as. -/
def ofForm : Form → ValueKind
  | .conditionals => .conditionals
  | .body _ => .scope
  | .bodies _ => .bodies
  | .flags => .flags
  | .defaults => .references
  | _ => .other

/-- What the value under a key of a scope, a branch or a conditional is read as. -/
def ofKey (key : String) : ValueKind :=
  match Registry.find? Field.all key with
  | some field => ofForm field.form
  | none => if key = "then" ∨ key = "else" then .branch else .other

/-- What a value is read as where it can stand in for the array of it. -/
def settle : ValueKind → Value → ValueKind
  | .conditionals, .array _ => .conditionals
  | .conditionals, _ => .node
  | .references, .array _ => .references
  | .references, _ => .reference
  | kind, _ => kind

/-- What a part of a value is read as. -/
def part : ValueKind → Step → ValueKind
  | .scope, .key key | .branch, .key key | .node, .key key => ofKey key
  | .conditionals, .index _ => .node
  | .references, .index _ => .reference
  | .bodies, .key _ => .scope
  | .flags, .key _ => .flag
  | _, _ => .other

/-- Whether a key can be inserted into an object. All scopes know the key of their references, and
all conditionals those of their condition and their branches. -/
def admits : ValueKind → String → Bool
  | .scope, key => key != "defaults"
  | .node, key => !Context.branchKeys.contains key
  | .branch, _ | .flag, _ | .reference, _ => true
  | _, _ => false

end ValueKind

/-! ### Inserting -/

/-- Maps the parts of a value, each of which is given with the step that leads to it. -/
def Value.mapParts (f : Step → Value → Value) : Value → Value
  | .object entries => .object (entries.map fun (key, value) ↦ (key, f (.key key) value))
  | .array items => .array (items.mapIdx fun position value ↦ f (.index position) value)
  | value => value

/-- A key with a value, and where it is inserted: in which document, in which object and at which of
its positions. -/
structure Insertion where
  /-- The absolute path of the document. A manifest itself has none. -/
  document : Option String
  /-- The steps that lead to the object. -/
  steps : List Step
  position : Nat
  key : String
  value : Value

namespace Insertion

variable (insertion : Insertion)

/-- Inserts the key into the object to which steps lead from a value. -/
def inside : List Step → ValueKind → Value → Value
  | [], kind, .object entries =>
    if (kind.settle (.object entries)).admits insertion.key then
      .object (entries.insertIdx insertion.position (insertion.key, insertion.value))
    else .object entries
  | [], _, value => value
  | step :: steps, kind, value =>
    value.mapParts fun first part ↦
      if first = step then inside steps ((kind.settle value).part step) part else part

/-- The steps that lead from a place of a document to the object, if it is below. -/
def rest? (document : Option String) (place : Place) : Option (List Step) :=
  if document = insertion.document then place.steps.isPrefixOf? insertion.steps else none

/-- A value at a place of a document, with the key inserted if it is the value with the object. -/
def alter (document : Option String) (place : Place) (kind : ValueKind) (value : Value) : Value :=
  match insertion.rest? document place with
  | some steps => insertion.inside steps kind value
  | none => value

/-- Whether a spot is where the key is inserted. -/
def isAt (spot : Spot) : Bool :=
  spot.document = insertion.document && spot.place.steps = insertion.steps &&
    spot.position = insertion.position

/-- Whether nobody reads the key, if a spot is where it is inserted. -/
def IsIgnoredAt (spot : Spot) : Prop :=
  insertion.isAt spot → isPrivate insertion.key ∨ spot.knows insertion.key = false

/-- The warnings about the key at some spots: one at each that is where it is inserted, and none if
it is private. -/
def messages (spots : List Spot) : List Warning :=
  if isPrivate insertion.key then []
  else (spots.filter insertion.isAt).map fun spot ↦
    .unrecognized spot.source (spot.place.key insertion.key)

/-! ### Messages among warnings -/

/-- The messages at some spots and at others are told in this order. -/
theorem messages_append (spots spots' : List Spot) :
    insertion.messages (spots ++ spots') =
      insertion.messages spots ++ insertion.messages spots' := by
  rw [messages, messages, messages]
  split
  · rfl
  · rw [List.filter_append, List.map_append]

theorem messages_nil : insertion.messages [] = [] := by
  rw [messages]
  split <;> rfl

variable {insertion}

theorem messages_cons (spot : Spot) (spots : List Spot) :
    insertion.messages (spot :: spots) = insertion.messages [spot] ++ insertion.messages spots :=
  insertion.messages_append [spot] spots

/-- At any other spot there is no message. -/
theorem messages_of_not_isAt {spot : Spot} (hat : ¬insertion.isAt spot) :
    insertion.messages [spot] = [] := by
  rw [messages, List.filter_cons_of_neg hat]
  split <;> rfl

/-- At the spot of the key there is one message, if the key is not private. -/
theorem messages_of_isAt {spot : Spot} (hat : insertion.isAt spot) : insertion.messages [spot] =
    if isPrivate insertion.key then []
    else [.unrecognized spot.source (spot.place.key insertion.key)] := by
  rw [messages, List.filter_cons_of_pos hat]
  rfl

end Insertion

/-- Whether a list is made of two others, each of which keeps its order. -/
inductive Woven {α : Type} : List α → List α → List α → Prop
  | nil : Woven [] [] []
  | left (a : α) {first second both : List α} (h : Woven first second both) :
    Woven (a :: first) second (a :: both)
  | right (a : α) {first second both : List α} (h : Woven first second both) :
    Woven first (a :: second) (a :: both)

namespace Woven

variable {α : Type} {first second both first' second' both' : List α}

/-- What is woven in turn from parts is woven from the whole. -/
theorem append (h : Woven first second both) (h' : Woven first' second' both') :
    Woven (first ++ first') (second ++ second') (both ++ both') := by
  induction h with
  | nil => exact h'
  | left a _ ih => exact ih.left a
  | right a _ ih => exact ih.right a

/-- With nothing in the first list, the second one is all there is. -/
theorem onlyRight (items : List α) : Woven [] items items := by
  induction items with
  | nil => exact .nil
  | cons a items ih => exact ih.right a

/-- With nothing in the second list, the first one is all there is. -/
theorem onlyLeft (items : List α) : Woven items [] items := by
  induction items with
  | nil => exact .nil
  | cons a items ih => exact ih.left a

/-- Nothing is lost, and nothing else is there. -/
theorem perm (h : Woven first second both) : both.Perm (first ++ second) := by
  induction h with
  | nil => exact .nil
  | left a _ ih => exact ih.cons a
  | right a _ ih => exact (ih.cons a).trans List.perm_middle.symm

end Woven

namespace Insertion

variable (insertion : Insertion) (document : Option String) (place : Place) (kind : ValueKind)

/-! ### Where the key is inserted -/

/-- The steps that lead on from a part of a value. -/
def restAfter (step : Step) : List Step → Option (List Step)
  | first :: rest => if first = step then some rest else none
  | [] => none

/-- A longer beginning is one if the shorter one is, and the next step follows. -/
theorem isPrefixOf?_append_singleton (steps : List Step) (step : Step) (whole : List Step) :
    (steps ++ [step]).isPrefixOf? whole = (steps.isPrefixOf? whole).bind (restAfter step) := by
  induction steps generalizing whole with
  | nil =>
    cases whole with
    | nil => rfl
    | cons first rest =>
      simp only [List.nil_append, List.isPrefixOf?, Option.bind_some, restAfter, beq_iff_eq]
      split
      · next h => rw [if_pos h.symm]
      · next h => rw [if_neg (Ne.symm h)]
  | cons first steps ih =>
    cases whole with
    | nil => rfl
    | cons head rest =>
      simp only [List.cons_append, List.isPrefixOf?]
      split
      · exact ih rest
      · rfl

/-- Below a key there is left to go what is left behind this key. -/
theorem rest?_key (key : String) : insertion.rest? document (place.key key) =
    (insertion.rest? document place).bind (restAfter (.key key)) := by
  rw [rest?, rest?, Place.key]
  split
  · exact isPrefixOf?_append_singleton _ _ _
  · rfl

/-- Below an index there is left to go what is left behind this index. -/
theorem rest?_index (position : Nat) : insertion.rest? document (place.index position) =
    (insertion.rest? document place).bind (restAfter (.index position)) := by
  rw [rest?, rest?, Place.index]
  split
  · exact isPrefixOf?_append_singleton _ _ _
  · rfl

/-- Nothing is left to go exactly at the place of the object that gets the key. -/
theorem rest?_eq_some_nil_iff : insertion.rest? document place = some [] ↔
    document = insertion.document ∧ place.steps = insertion.steps := by
  rw [rest?]
  split
  · next h => rw [List.isPrefixOf?_eq_some_iff_append_eq]; simp [h]
  · next h => simp [h]

/-! ### Altered values -/

theorem alter_eq_inside {steps : List Step} (h : insertion.rest? document place = some steps)
    (value : Value) :
    insertion.alter document place kind value = insertion.inside steps kind value := by
  rw [alter, h]

/-- Off the way to the object nothing is altered. -/
theorem alter_of_none (h : insertion.rest? document place = none) (value : Value) :
    insertion.alter document place kind value = value := by
  rw [alter, h]

/-- A scalar has no object in it. -/
theorem alter_scalar (s : Scalar) :
    insertion.alter document place kind (.scalar s) = .scalar s := by
  rw [alter]
  split
  · next steps _ => cases steps <;> rfl
  · rfl

theorem shape_inside (steps : List Step) (value : Value) :
    (insertion.inside steps kind value).shape = value.shape := by
  cases steps with
  | nil =>
    cases value with
    | object entries =>
      rw [inside]
      split <;> rfl
    | scalar | array => rfl
  | cons step steps => cases value <;> rfl

/-- A value keeps its shape. -/
theorem shape_alter (value : Value) :
    (insertion.alter document place kind value).shape = value.shape := by
  rw [alter]
  split
  · exact insertion.shape_inside kind _ value
  · rfl

theorem mapParts_eq_self {f : Step → Value → Value} (h : ∀ step part, f step part = part)
    (value : Value) : value.mapParts f = value := by
  obtain rfl : f = fun _ part ↦ part := funext₂ h
  cases value with
  | scalar => rfl
  | array items =>
    rw [Value.mapParts, List.mapIdx_eq_zipIdx_map]
    simp
  | object entries => rw [Value.mapParts, List.map_id']

/-- Nothing is inserted into a value that nobody reads. -/
theorem alter_other (value : Value) : insertion.alter document place .other value = value := by
  have hinside : ∀ (steps : List Step) (value : Value),
      insertion.inside steps .other value = value := by
    intro steps
    induction steps with
    | nil =>
      intro value
      cases value <;> rfl
    | cons step steps ih =>
      intro value
      have hkind : (ValueKind.other.settle value).part step = .other := by cases value <;> rfl
      rw [inside, hkind]
      exact mapParts_eq_self (fun first part ↦ by rw [ih, ite_self]) value
  rw [alter]
  split
  · exact hinside _ value
  · rfl

/-- The items of an array from a position on, with the key inserted. -/
def items : Nat → List Value → List Value
  | _, [] => []
  | position, value :: rest =>
    insertion.alter document (place.index position) (kind.part (.index position)) value ::
      items (position + 1) rest

/-- The key, at the position of an object where it is inserted. -/
def here (position : Nat) : List (String × Value) :=
  if insertion.rest? document place = some [] ∧ position = insertion.position ∧
      kind.admits insertion.key then
    [(insertion.key, insertion.value)]
  else []

/-- The entries of an object from a position on, with the key inserted. -/
def entries : Nat → List (String × Value) → List (String × Value)
  | position, [] => insertion.here document place kind position
  | position, (key, value) :: rest =>
    insertion.here document place kind position ++
      (key, insertion.alter document (place.key key) (kind.part (.key key)) value) ::
        entries (position + 1) rest

section

variable {document : Option String} {place : Place}

/-- Anywhere but in the object nothing is inserted. -/
theorem here_eq_nil (h : insertion.rest? document place ≠ some []) (position : Nat) :
    insertion.here document place kind position = [] := by
  rw [here, if_neg fun hhere ↦ h hhere.1]

/-- Off the way the entries stay as they are. -/
theorem entries_of_none (h : insertion.rest? document place = none) (position : Nat)
    (whole : List (String × Value)) :
    insertion.entries document place kind position whole = whole := by
  have hne : insertion.rest? document place ≠ some [] := by simp [h]
  have hhere := insertion.here_eq_nil kind hne
  induction whole generalizing position with
  | nil => exact hhere position
  | cons entry rest ih =>
    have hpart : insertion.rest? document (place.key entry.1) = none := by rw [rest?_key, h]; rfl
    rw [entries, hhere, ih, alter_of_none _ _ _ _ hpart]
    rfl

/-- In the object itself the key is put at its position, if the object admits it there. -/
theorem entries_of_nil (h : insertion.rest? document place = some []) (position : Nat)
    (whole : List (String × Value)) : insertion.entries document place kind position whole =
      if kind.admits insertion.key ∧ position ≤ insertion.position then
        whole.insertIdx (insertion.position - position) (insertion.key, insertion.value)
      else whole := by
  have hhere : ∀ position, insertion.here document place kind position =
      if position = insertion.position ∧ kind.admits insertion.key then
        [(insertion.key, insertion.value)] else [] := fun position ↦ by
    rw [here]
    simp only [h, true_and]
  -- By where the position is: still to come, here, or behind. What is behind stays as it is.
  induction whole generalizing position with
  | nil =>
    rw [entries, hhere]
    rcases Nat.lt_trichotomy position insertion.position with hlt | rfl | hgt
    · obtain ⟨gap, hgap⟩ := Nat.exists_eq_add_of_lt hlt
      rw [if_neg (by omega), show insertion.position - position = gap + 1 by omega,
        List.insertIdx_succ_nil, ite_self]
    · simp
    · rw [if_neg (by omega), if_neg (by omega)]
  | cons entry rest ih =>
    have hpart : insertion.rest? document (place.key entry.1) = none := by rw [rest?_key, h]; rfl
    rw [entries, ih, alter_of_none _ _ _ _ hpart, hhere]
    rcases Nat.lt_trichotomy position insertion.position with hlt | rfl | hgt
    · obtain ⟨gap, hgap⟩ := Nat.exists_eq_add_of_lt hlt
      rw [if_neg (by omega), show insertion.position - position = gap + 1 by omega,
        show insertion.position - (position + 1) = gap by omega, List.insertIdx_succ_cons]
      by_cases hadmits : kind.admits insertion.key
      · rw [if_pos ⟨hadmits, by omega⟩, if_pos ⟨hadmits, by omega⟩]
        rfl
      · rw [if_neg (by simp [hadmits]), if_neg (by simp [hadmits])]
        rfl
    · by_cases hadmits : kind.admits insertion.key <;> simp [hadmits]
    · rw [if_neg (by omega), if_neg (by omega), if_neg (by omega)]
      rfl

/-- On the way to the object only the entry of the next step is altered. -/
theorem entries_of_cons {step : Step} {steps : List Step}
    (h : insertion.rest? document place = some (step :: steps)) (position : Nat)
    (whole : List (String × Value)) : insertion.entries document place kind position whole =
      whole.map fun (key, value) ↦ (key,
        if .key key = step then insertion.inside steps (kind.part step) value else value) := by
  have hne : insertion.rest? document place ≠ some [] := by simp [h]
  have hhere := insertion.here_eq_nil kind hne
  induction whole generalizing position with
  | nil => exact hhere position
  | cons entry rest ih =>
    obtain ⟨key, value⟩ := entry
    have hpart := insertion.rest?_key document place key
    rw [h, Option.bind_some, restAfter] at hpart
    rw [entries, hhere, ih, List.map_cons, List.nil_append]
    by_cases hstep : step = .key key
    · rw [if_pos hstep] at hpart
      subst hstep
      simp only [alter_eq_inside _ _ _ _ hpart, if_true]
    · rw [if_neg hstep] at hpart
      simp only [alter_of_none _ _ _ _ hpart, if_neg (Ne.symm hstep)]

theorem items_eq_self (h : ∀ index, insertion.rest? document (place.index index) = none)
    (position : Nat) (whole : List Value) :
    insertion.items document place kind position whole = whole := by
  induction whole generalizing position with
  | nil => rfl
  | cons value rest ih => rw [items, ih, alter_of_none _ _ _ _ (h position)]

/-- On the way to the object only the item of the next step is altered. -/
theorem items_of_cons {step : Step} {steps : List Step}
    (h : insertion.rest? document place = some (step :: steps)) (position : Nat)
    (whole : List Value) : insertion.items document place kind position whole =
      whole.mapIdx fun index value ↦ if .index (position + index) = step then
        insertion.inside steps (kind.part step) value else value := by
  induction whole generalizing position with
  | nil => rfl
  | cons value rest ih =>
    have hpart := insertion.rest?_index document place position
    rw [h, Option.bind_some, restAfter] at hpart
    rw [items, ih, List.mapIdx_cons]
    simp only [Nat.add_zero, Nat.add_assoc, Nat.add_comm 1]
    by_cases hstep : step = .index position
    · rw [if_pos hstep] at hpart
      rw [alter_eq_inside _ _ _ _ hpart, if_pos hstep.symm, hstep]
    · rw [if_neg hstep] at hpart
      rw [alter_of_none _ _ _ _ hpart, if_neg (Ne.symm hstep)]

end

/-- An object is altered entry by entry. -/
theorem alter_object (whole : List (String × Value)) :
    insertion.alter document place kind (.object whole) =
      .object (insertion.entries document place (kind.settle (.object whole)) 0 whole) := by
  cases h : insertion.rest? document place with
  | none => rw [alter_of_none _ _ _ _ h, entries_of_none _ _ h]
  | some steps =>
    rw [alter_eq_inside _ _ _ _ h]
    cases steps with
    | nil =>
      rw [inside, entries_of_nil _ _ h]
      simp only [Nat.zero_le, and_true, Nat.sub_zero]
      split <;> rfl
    | cons step steps =>
      rw [inside, entries_of_cons _ _ h]
      rfl

/-- A list is altered item by item. -/
theorem alter_array (whole : List Value) :
    insertion.alter document place kind (.array whole) =
      .array (insertion.items document place (kind.settle (.array whole)) 0 whole) := by
  cases h : insertion.rest? document place with
  | none =>
    rw [alter_of_none _ _ _ _ h, items_eq_self _ _ fun index ↦ by rw [rest?_index, h]; rfl]
  | some steps =>
    rw [alter_eq_inside _ _ _ _ h]
    cases steps with
    | nil =>
      rw [inside, items_eq_self _ _ fun index ↦ by rw [rest?_index, h]; rfl]
      exact fun _ heq ↦ by cases heq
    | cons step steps =>
      rw [inside, items_of_cons _ _ h]
      simp only [Nat.zero_add]
      rfl

/-! ### What stays as it is -/

/-- What stands in for the array of it is read as a conditional. -/
theorem alter_conditionals {value : Value} (h : value.shape ≠ .array) :
    insertion.alter document place .conditionals value =
      insertion.alter document place .node value := by
  cases value with
  | scalar s => rw [alter_scalar, alter_scalar]
  | array => exact absurd rfl h
  | object => rw [alter_object, alter_object]; rfl

/-- Nothing is inserted into the items of an array that nobody reads. -/
theorem items_of_part (h : ∀ index, kind.part (.index index) = .other) (position : Nat)
    (whole : List Value) : insertion.items document place kind position whole = whole := by
  induction whole generalizing position with
  | nil => rfl
  | cons value rest ih => rw [items, ih, h, alter_other]

/-- In place of a scope, nothing but an object changes. -/
theorem alter_scope_eq_self {value : Value} (h : value.shape ≠ .object) :
    insertion.alter document place .scope value = value := by
  cases value with
  | scalar s => exact insertion.alter_scalar _ _ _ s
  | array items =>
    have hitems : insertion.items document place .scope 0 items = items :=
      insertion.items_of_part _ _ _ (fun _ ↦ rfl) 0 items
    rw [alter_array]
    exact congrArg Value.array hitems
  | object => exact absurd rfl h

variable {insertion document place kind}

/-- What an object gives under another key than the one that is inserted. -/
theorem get?_entries_of_forall {name : String} {position : Nat} {whole : List (String × Value)}
    (h : insertion.key = name → ∀ index, position ≤ index → index ≤ position + whole.length →
      insertion.here document place kind index = []) :
    Entries.get? (insertion.entries document place kind position whole) name =
      (Entries.get? whole name).map
        (insertion.alter document (place.key name) (kind.part (.key name))) := by
  -- Only the same key could hide the value, and it is not inserted.
  have hskip : ∀ index rest,
      (insertion.key = name → insertion.here document place kind index = []) →
        Entries.get? (insertion.here document place kind index ++ rest) name =
          Entries.get? rest name := by
    intro index rest hhere
    by_cases hname : insertion.key = name
    · rw [hhere hname, List.nil_append]
    · rw [here]
      split
      · exact (Entries.get?_cons _ _ _ _).trans (if_neg hname)
      · rfl
  have hfirst := fun hname ↦ h hname position le_rfl (Nat.le_add_right _ _)
  induction whole generalizing position with
  | nil =>
    have hnil := hskip position [] hfirst
    rwa [List.append_nil] at hnil
  | cons entry rest ih =>
    obtain ⟨key, value⟩ := entry
    have hrest : insertion.key = name → ∀ index, position + 1 ≤ index →
        index ≤ position + 1 + rest.length → insertion.here document place kind index = [] :=
      fun hname index hle hlt ↦ h hname index (by omega) (by rw [List.length_cons]; omega)
    rw [entries, hskip _ _ hfirst, Entries.get?_cons, Entries.get?_cons]
    split
    · next hkey =>
      subst hkey
      rfl
    · exact ih hrest fun hname ↦ hrest hname _ le_rfl (Nat.le_add_right _ _)

/-- A key that an object does not admit is not inserted. -/
theorem get?_entries_of_admits {name : String} (h : kind.admits name = false) (position : Nat)
    (whole : List (String × Value)) :
    Entries.get? (insertion.entries document place kind position whole) name =
      (Entries.get? whole name).map
        (insertion.alter document (place.key name) (kind.part (.key name))) := by
  refine get?_entries_of_forall fun hname index _ _ ↦ ?_
  rw [here, if_neg]
  rintro ⟨-, -, hadmits⟩
  rw [hname, h] at hadmits
  exact Bool.false_ne_true hadmits

section

variable {σ : Type} {context : Context σ} {knows : String → Bool}

/-- A spot is the one of the key if nothing is left to go, and the position is right. -/
theorem isAt_spot_iff {position : Nat} : insertion.isAt (context.spot knows place position) ↔
    insertion.rest? context.document? place = some [] ∧ position = insertion.position := by
  rw [rest?_eq_some_nil_iff, isAt, Context.spot]
  simp only [Bool.and_eq_true, decide_eq_true_eq]

/-- Where the key is ignored, an object gives the same under the keys that are known. -/
theorem get?_entries_of_ignored {name : String} {position : Nat} {whole : List (String × Value)}
    (h : ∀ spot ∈ context.spots knows place position whole, insertion.IsIgnoredAt spot)
    (hname : knows name = true) (hprivate : isPrivate name = false) :
    Entries.get? (insertion.entries context.document? place kind position whole) name =
      (Entries.get? whole name).map
        (insertion.alter context.document? (place.key name) (kind.part (.key name))) := by
  refine get?_entries_of_forall fun hsame index hle hlt ↦ ?_
  rw [here, if_neg]
  rintro ⟨hrest, hposition, -⟩
  rcases h _ (Context.mem_spots hle hlt) (isAt_spot_iff.2 ⟨hrest, hposition⟩) with hkey | hkey
  · rw [hsame, hprivate] at hkey
    cases hkey
  · rw [hsame] at hkey
    cases hname.symm.trans hkey

/-- At its own spot the key is inserted, because it is admitted where it is not known. -/
theorem here_of_isAt {position : Nat}
    (hadmits : isPrivate insertion.key ∨ knows insertion.key = false → kind.admits insertion.key)
    (h : insertion.IsIgnoredAt (context.spot knows place position))
    (hat : insertion.isAt (context.spot knows place position)) :
    insertion.here context.document? place kind position = [(insertion.key, insertion.value)] := by
  obtain ⟨hrest, hposition⟩ := isAt_spot_iff.1 hat
  rw [here, if_pos ⟨hrest, hposition, hadmits (h hat)⟩]

theorem here_of_not_isAt {position : Nat}
    (hat : ¬insertion.isAt (context.spot knows place position)) :
    insertion.here context.document? place kind position = [] := by
  rw [here, if_neg fun h ↦ hat (isAt_spot_iff.2 ⟨h.1, h.2.1⟩)]

/-- What is unknown in an object, with the key inserted. -/
theorem woven_unknownKeys {keys : List String}
    (hadmits : isPrivate insertion.key ∨ keys.contains insertion.key = false →
      kind.admits insertion.key) {position : Nat} {whole : List (String × Value)}
    (h : ∀ spot ∈ context.spots keys.contains place position whole, insertion.IsIgnoredAt spot) :
    Woven (insertion.messages (context.spots keys.contains place position whole))
      (context.unknownKeys keys place whole) (context.unknownKeys keys place
        (insertion.entries context.document? place kind position whole)) := by
  have happend : ∀ entries entries', context.unknownKeys keys place (entries ++ entries') =
      context.unknownKeys keys place entries ++ context.unknownKeys keys place entries' := by
    intro entries entries'
    rw [Context.unknownKeys, List.filter_append, List.map_append]
    rfl
  have hhere : ∀ position, insertion.IsIgnoredAt (context.spot keys.contains place position) →
      context.unknownKeys keys place (insertion.here context.document? place kind position) =
        insertion.messages [context.spot keys.contains place position] := by
    intro position hignored
    by_cases hat : insertion.isAt (context.spot keys.contains place position)
    · rw [here_of_isAt hadmits hignored hat, messages_of_isAt hat, Context.unknownKeys]
      rcases hignored hat with hprivate | hunknown
      · simp [hprivate]
      · have hkey : insertion.key ∉ keys := by simpa [Context.spot] using hunknown
        simp only [List.filter_cons, List.filter_nil]
        split <;> simp_all [Context.spot]
    · rw [here_of_not_isAt hat, messages_of_not_isAt hat]
      rfl
  induction whole generalizing position with
  | nil =>
    rw [Context.spots, entries, hhere _ (h _ (List.mem_singleton_self _))]
    exact .onlyLeft _
  | cons entry rest ih =>
    obtain ⟨key, value⟩ := entry
    obtain ⟨hfirst, hrest⟩ := List.forall_mem_cons.1 h
    have hsame : ∀ value', context.unknownKeys keys place [(key, value')] =
        context.unknownKeys keys place [(key, value)] := fun _ ↦ by
      simp only [Context.unknownKeys, List.filter_cons]
      split <;> rfl
    rw [Context.spots, messages_cons, entries, happend, hhere _ hfirst]
    -- The message comes first, then what was unknown before, then the rest.
    refine (Woven.onlyLeft _).append ?_
    change Woven _ (context.unknownKeys keys place ([(key, value)] ++ rest))
      (context.unknownKeys keys place ([(key, _)] ++ _))
    rw [happend, happend, hsame (insertion.alter _ _ _ value)]
    exact (Woven.onlyRight _).append (ih hrest)

end

end Insertion

end CabalManifest
