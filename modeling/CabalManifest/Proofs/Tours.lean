import CabalManifest.Proofs.ReadingEquations

/-!
# Tours

Reading goes through the entries of objects: through those of a scope one by one, with all that an
entry leads to before the next one, and through those of a conditional with branches, a flag or a
reference at once. A *tour* lists the positions that a computation comes to on its way, until it
ends or fails (`Tour`), and which keys are known there. It says how often an object is read, and how
far.

Tours follow the functions that read manifests one by one (`Context.packageTour`); where a function
goes on after reading something, so does its tour (`Tour.followed`).
-/

namespace CabalManifest

/-- A position among the entries of an object, to which reading comes. -/
structure Spot where
  /-- The absolute path of the document. A manifest itself has none. -/
  document : Option String
  /-- The name of the document in messages. -/
  source : String
  /-- The place of the object. -/
  place : Place
  position : Nat
  /-- Which keys are known in the object. -/
  knows : String → Bool

/-- The spots that a computation comes to, in order, depending on what was done before. -/
abbrev Tour (σ : Type) := Progress σ → List Spot

variable {σ α : Type}

namespace Tour

/-- The tour through certain spots, whatever was done before. -/
def through (spots : List Spot) : Tour σ := fun _ ↦ spots

/-- The tour of a computation and of what comes after it, unless it fails. -/
def followed (tour : Tour σ) (m : Decode σ α) (next : α → Tour σ) : Tour σ := fun s ↦
  tour s ++ match m.run s with
    | (.ok a, t) => next a t
    | (.error _, _) => []

/-- The tour that comes to a spot first. -/
def after (spot : Spot) (tour : Tour σ) : Tour σ := fun s ↦ spot :: tour s

theorem followed_of_ok {tour : Tour σ} {m : Decode σ α} {next : α → Tour σ} {s t : Progress σ}
    {a : α} (h : m.run s = (.ok a, t)) : tour.followed m next s = tour s ++ next a t := by
  rw [followed, h]

theorem followed_of_error {tour : Tour σ} {m : Decode σ α} {next : α → Tour σ} {s t : Progress σ}
    {failure : Failure} (h : m.run s = (.error failure, t)) : tour.followed m next s = tour s := by
  rw [followed, h]
  exact List.append_nil _

/-- Where nothing comes after a computation, nothing is added to its tour. -/
theorem followed_through_nil (tour : Tour σ) (m : Decode σ α) :
    (tour.followed m fun _ ↦ through []) = tour := by
  funext s
  rcases h : m.run s with ⟨failure | a, t⟩
  · exact followed_of_error h
  · exact (followed_of_ok h).trans (List.append_nil _)

end Tour

/-! ### Objects that are read at once -/

namespace Context

/-- The document in which a context is, by its absolute path. -/
def document? (context : Context σ) : Option String := context.visited.getLast?

/-- A position among the entries of an object. -/
def spot (context : Context σ) (knows : String → Bool) (place : Place) (position : Nat) : Spot :=
  ⟨context.document?, context.source, place, position, knows⟩

/-- All positions among the entries of an object, the first one being given. -/
def spots (context : Context σ) (knows : String → Bool) (place : Place) :
    Nat → List (String × Value) → List Spot
  | position, [] => [context.spot knows place position]
  | position, _ :: rest =>
    context.spot knows place position :: spots context knows place (position + 1) rest

theorem mem_spots {context : Context σ} {knows : String → Bool} {place : Place}
    {position index : Nat} {whole : List (String × Value)}
    (hle : position ≤ index) (hlt : index ≤ position + whole.length) :
    context.spot knows place index ∈ context.spots knows place position whole := by
  induction whole generalizing position with
  | nil =>
    obtain rfl : index = position := le_antisymm hlt hle
    exact List.mem_singleton_self _
  | cons entry rest ih =>
    rw [spots]
    rw [List.length_cons] at hlt
    rcases Nat.eq_or_lt_of_le hle with rfl | hnext
    · exact List.mem_cons_self
    · exact List.mem_cons_of_mem _ (ih hnext (by omega))

/-- The spots of flags. -/
def flagSpots (context : Context σ) (place : Place) : List (String × Value) → List Spot
  | (name, .object entries) :: rest =>
    context.spots flagKeys.contains (place.key name) 0 entries ++
      match context.flagOf name (place.key name) entries with
      | .ok _ => flagSpots context place rest
      | .error _ => []
  | _ => []

/-- The spots of a value that holds no further fields. -/
def valueSpots (context : Context σ) (field : Field) (place : Place) (value : Value) : List Spot :=
  match field.form, value with
  | .flags, .object entries => context.flagSpots place entries
  | _, _ => []

/-- The spots of a reference. -/
def referenceSpots (context : Context σ) (place : Place) : Value → List Spot
  | .object entries => context.spots Reference.keys.contains place 0 entries
  | _ => []

/-- The spots of the items of a list of references, the first of which has the given position. -/
def referenceItemSpots (context : Context σ) (place : Place) : Nat → List Value → List Spot
  | _, [] => []
  | position, item :: items =>
    context.referenceSpots (place.index position) item ++
      match (Reference.ofValue context.source (place.index position) item).2 with
      | .ok _ => referenceItemSpots context place (position + 1) items
      | .error _ => []

/-- The spots of a reference or a list of them. -/
def referenceListSpots (context : Context σ) (place : Place) : Value → List Spot
  | .array items => context.referenceItemSpots place 0 items
  | value => context.referenceSpots place value

/-! ### Documents that are referred to -/

/-- The tour of reading a document that a scope refers to. -/
abbrev TourDocument (σ : Type) := Context σ → Registries → Document → Tour σ

/-- The tour through the documents of some references. -/
def inheritTour (read : ReadDocument σ) (tour : TourDocument σ) (context : Context σ)
    (registries : Registries) : List Reference → Tour σ
  | [] => .through []
  | reference :: rest =>
    (Tour.through []).followed (context.resolve reference) fun document ↦
      (tour context registries document).followed (read context registries document) fun _ ↦
        inheritTour read tour context registries rest

/-- The tour through the documents that a value refers to. -/
def defaultsTour (read : ReadDocument σ) (tour : TourDocument σ) (context : Context σ)
    (registries : Registries) (place : Place) (value : Value) : Tour σ :=
  (Tour.through (context.referenceListSpots place value)).followed
    (context.listReferences place value) (context.inheritTour read tour registries)

/-! ### Scopes -/

/-- Whether a key has a field in a scope. -/
def knowsField (registries : Registries) (key : String) : Bool :=
  (registries.own.find? key).isSome

/-- Whether a key is known in a conditional, the branches of which are read by some registries. -/
def knowsPart (registries : Registries) (key : String) : Bool :=
  branchKeys.contains key || knowsField registries key

mutual

/-- The tour through the value of a field. -/
def fieldTour (read : ReadDocument σ) (tour : TourDocument σ) (context : Context σ)
    (registries : Registries) (field : Field) (place : Place) (value : Value) : Tour σ :=
  match field.form with
  | .conditionals =>
    match value with
    | .array values => conditionalsTour read tour context registries.branch place 0 values
    | value => conditionalTour read tour context registries.branch place value
  | .body kind => bodyTour read tour context kind place value
  | .bodies kind =>
    match value with
    | .object entries => bodiesTour read tour context kind place entries
    | _ => .through []
  | _ => .through (context.valueSpots field place value)
termination_by (sizeOf value, 2)

/-- The tour through the entries of a scope, the position of the first one being given. -/
def fieldsTour (read : ReadDocument σ) (tour : TourDocument σ) (context : Context σ)
    (registries : Registries) (skip knows : String → Bool) (place : Place) (position : Nat)
    (entries : List (String × Value)) : Tour σ :=
  match entries with
  | [] => .through [context.spot knows place position]
  | (key, value) :: rest =>
    .after (context.spot knows place position) <| Tour.followed
      (if isPrivate key || skip key then .through []
      else match registries.own.find? key with
        | none => .through []
        | some field =>
          if field.form = .defaults then .through []
          else fieldTour read tour context registries field (place.key key) value)
      (entry read context registries skip place key value) fun _ ↦
        fieldsTour read tour context registries skip knows place (position + 1) rest
termination_by (sizeOf entries, 0)

/-- The tour through a whole document or the body of a section, and what it refers to. -/
def scopeTour (read : ReadDocument σ) (tour : TourDocument σ) (context : Context σ)
    (registries : Registries) (place : Place) (entries : List (String × Value)) : Tour σ :=
  Tour.followed
    (fieldsTour read tour context registries (fun _ ↦ false) (knowsField registries) place 0
      entries)
    (fields read context registries (fun _ ↦ false) place entries) fun _ ↦
      match Entries.get? entries "defaults", registries.own.find? "defaults" with
      | some value, some _ =>
        context.defaultsTour read tour registries (place.key "defaults") value
      | _, _ => .through []
termination_by (sizeOf entries, 1)

/-- The tour through the body of a section. -/
def bodyTour (read : ReadDocument σ) (tour : TourDocument σ) (context : Context σ)
    (kind : SectionKind) (place : Place) (value : Value) : Tour σ :=
  match value with
  | .object entries => scopeTour read tour context (.ofSection kind) place entries
  | _ => .through []
termination_by (sizeOf value, 1)

/-- The tour through the bodies of named sections. -/
def bodiesTour (read : ReadDocument σ) (tour : TourDocument σ) (context : Context σ)
    (kind : SectionKind) (place : Place) (entries : List (String × Value)) : Tour σ :=
  match entries with
  | [] => .through []
  | (name, value) :: rest =>
    (bodyTour read tour context kind (place.key name) value).followed
      (body read context kind (place.key name) value) fun _ ↦
        bodiesTour read tour context kind place rest
termination_by (sizeOf entries, 0)

/-- The tour through a branch of a conditional. -/
def branchTour (read : ReadDocument σ) (tour : TourDocument σ) (context : Context σ)
    (registries : Registries) (place : Place) (value : Value) : Tour σ :=
  match value with
  | .object entries =>
    fieldsTour read tour context registries (fun _ ↦ false) (knowsField registries) place 0 entries
  | _ => .through []
termination_by (sizeOf value, 0)

/-- The tour through a conditional, provided that its condition can be read. -/
def conditionalTour (read : ReadDocument σ) (tour : TourDocument σ) (context : Context σ)
    (registries : Registries) (place : Place) (value : Value) : Tour σ :=
  match value with
  | .object entries =>
    (Tour.through []).followed (Decode.ofExcept (context.condition place entries)) fun _ ↦
      match _ht : Entries.get? entries "then", _he : Entries.get? entries "else" with
      | none, none =>
        fieldsTour read tour context registries (· == "condition") (knowsPart registries) place 0
          entries
      | none, some _ => .through (context.spots branchKeys.contains place 0 entries)
      | some thenValue, none =>
        (Tour.through (context.spots branchKeys.contains place 0 entries)).followed
          (Decode.warnAll (context.unknownKeys branchKeys place entries)) fun _ ↦
            branchTour read tour context registries (place.key "then") thenValue
      | some thenValue, some elseValue =>
        (Tour.through (context.spots branchKeys.contains place 0 entries)).followed
          (Decode.warnAll (context.unknownKeys branchKeys place entries)) fun _ ↦
            (branchTour read tour context registries (place.key "then") thenValue).followed
              (branch read context registries (place.key "then") thenValue) fun _ ↦
                branchTour read tour context registries (place.key "else") elseValue
  | _ => .through []
termination_by (sizeOf value, 1)
decreasing_by
  · simp; omega
  · have := Entries.sizeOf_lt_of_get? _ht
    simp; omega
  · have := Entries.sizeOf_lt_of_get? _ht
    simp; omega
  · have := Entries.sizeOf_lt_of_get? _he
    simp; omega

/-- The tour through the items of a list of conditionals, the first of which has the given
position. -/
def conditionalsTour (read : ReadDocument σ) (tour : TourDocument σ) (context : Context σ)
    (registries : Registries) (place : Place) (position : Nat) (values : List Value) : Tour σ :=
  match values with
  | [] => .through []
  | value :: rest =>
    (conditionalTour read tour context registries (place.index position) value).followed
      (conditional read context registries (place.index position) value) fun _ ↦
        conditionalsTour read tour context registries place (position + 1) rest
termination_by (sizeOf values, 0)

end

/-! ### Documents and manifests -/

/-- The tour through a document that a scope refers to. -/
def documentTour (bound : Nat) : TourDocument σ := fun context registries document ↦
  match bound with
  | 0 => .through []
  | bound + 1 =>
    scopeTour (Context.document bound) (documentTour bound) (context.enter document) registries
      Place.top document.value

/-- The tour through a manifest. -/
def packageTour (context : Context σ) (bound : Nat) (value : Value) : Tour σ :=
  match value with
  | .object entries =>
    scopeTour (document bound) (documentTour bound) context .package Place.top entries
  | _ => .through []

end Context

end CabalManifest
