import CabalManifest.Proofs.PlacedValues
import CabalManifest.Proofs.ReadingEquations

/-!
# Surface forms

A manifest can say the same in several forms: a conditional with its fields beside its condition, or
with them in a branch; a single item of a list by itself, or in an array. What a value can be written
as depends on its *role* in the document (`Value.Rewrites`), and the relation reaches through all of
a document, to any depth.

All forms of a document are read alike: both give the same fields, or fail in the same way, and differ
in the places that they report alone (`Context.paired_package`).
-/

namespace CabalManifest

/-! ### Roles -/

/-- What a value is for in its document. -/
inductive Role where
  /-- Its entries are fields. -/
  | scope
  /-- It is a conditional. -/
  | node
  /-- It is the value of a field. -/
  | field (form : Form)
  /-- It is the condition of a conditional. -/
  | condition
  /-- Nobody reads it. -/
  | unread

/-- The role of the value under a key, in scopes and conditionals. -/
def Role.of (key : String) : Role :=
  match Registry.find? Field.all key with
  | some known => .field known.form
  | none =>
    if key = "condition" then .condition
    else if key = "then" ∨ key = "else" then .scope
    else .unread

/-- Whether a text alone stands for the list of it. -/
def Form.takesText : Form → Bool
  | .texts _ | .globs | .dependencies => true
  | _ => false

/-- Whether any item alone stands for the list of it. -/
def Form.takesItem : Form → Bool
  | .verbatim | .defaults => true
  | _ => false

/-- Whether a value of a form has parts with roles of their own. -/
def Form.isNested : Form → Bool
  | .conditionals | .body _ | .bodies _ => true
  | _ => false

/-! ### Other forms -/

namespace Value

mutual

/-- Whether a value can be written as another one where it has a role. -/
inductive Rewrites : Role → Value → Value → Prop
  | unread (value value' : Value) : Rewrites .unread value value'
  | condition (value : Value) : Rewrites .condition value value
  /-- A value without roles inside. -/
  | plain {form : Form} (value : Value) (h : form.isNested = false) : Rewrites (.field form) value value
  | loneText {form : Form} (s : String) (h : form.takesText) :
    Rewrites (.field form) (.text s) (.array [.text s])
  | loneItem {form : Form} {value : Value} (h : form.takesItem) (hvalue : value.shape ≠ .array) :
    Rewrites (.field form) value (.array [value])
  /-- The value of a field that is a conditional. -/
  | conditional {value value' : Value} (hvalue : value.shape ≠ .array) (h : Rewrites .node value value') :
    Rewrites (.field .conditionals) value value'
  | loneConditional {value value' : Value} (hvalue : value.shape ≠ .array)
    (h : Rewrites .node value value') : Rewrites (.field .conditionals) value (.array [value'])
  | conditionals {items items' : List Value} (h : List.Forall₂ (Rewrites .node) items items') :
    Rewrites (.field .conditionals) (.array items) (.array items')
  | body (kind : SectionKind) {value value' : Value} (h : Rewrites .scope value value') :
    Rewrites (.field (.body kind)) value value'
  | bodies (kind : SectionKind) {entries entries' : List (String × Value)}
    (h : EntriesRewrite (fun _ ↦ .scope) entries entries') :
    Rewrites (.field (.bodies kind)) (.object entries) (.object entries')
  | noBodies (kind : SectionKind) {value : Value} (h : value.shape ≠ .object) :
    Rewrites (.field (.bodies kind)) value value
  | scope {entries entries' : List (String × Value)} (h : EntriesRewrite Role.of entries entries') :
    Rewrites .scope (.object entries) (.object entries')
  | noScope {value : Value} (h : value.shape ≠ .object) : Rewrites .scope value value
  | node {entries entries' : List (String × Value)} (h : EntriesRewrite Role.of entries entries') :
    Rewrites .node (.object entries) (.object entries')
  | noNode {value : Value} (h : value.shape ≠ .object) : Rewrites .node value value
  /-- The fields beside a condition are put into a branch. -/
  | branch {entries fields : List (String × Value)} {condition : Value}
    (hcondition : Entries.get? entries "condition" = some condition)
    (hthen : Entries.get? entries "then" = none)
    (helse : Entries.get? entries "else" = none)
    (h : EntriesRewrite Role.of (entries.filter (·.1 != "condition")) fields) :
    Rewrites .node (.object entries) (.object [("condition", condition), ("then", .object fields)])

/-- Whether entries can be written as other ones with the same keys, where the values have roles. -/
inductive EntriesRewrite : (String → Role) → List (String × Value) → List (String × Value) → Prop
  | nil {roles : String → Role} : EntriesRewrite roles [] []
  | cons {roles : String → Role} {key : String} {value value' : Value}
    {entries entries' : List (String × Value)} (h : Rewrites (roles key) value value')
    (hrest : EntriesRewrite roles entries entries') :
    EntriesRewrite roles ((key, value) :: entries) ((key, value') :: entries')

end

namespace Rewrites

/-- Nothing is an array unless it was one or stands for a list of items. -/
theorem node_shape {value value' : Value} (h : Rewrites .node value value') :
    value'.shape = value.shape := by
  cases h with
  | node | branch | noNode => rfl

/-- The entries of rewritten scopes are rewritten one by one. -/
theorem entries {entries entries' : List (String × Value)}
    (h : Rewrites .scope (.object entries) (.object entries')) :
    EntriesRewrite Role.of entries entries' := by
  generalize hvalue : Value.object entries' = value' at h
  cases h with
  | scope h =>
    cases hvalue
    exact h
  | noScope h => exact absurd rfl h

end Rewrites

namespace EntriesRewrite

variable {roles : String → Role} {entries entries' : List (String × Value)}

/-- Rewriting keeps the keys and their order. -/
theorem keys_eq (h : EntriesRewrite roles entries entries') :
    Entries.keys entries' = Entries.keys entries := by
  induction entries generalizing entries' with
  | nil => cases h; rfl
  | cons entry entries ih =>
    cases h with
    | cons h hrest => exact congrArg (_ :: ·) (ih hrest)

/-- The values under a key. -/
theorem get? (h : EntriesRewrite roles entries entries') (key : String) :
    Option.Rel (Rewrites (roles key)) (Entries.get? entries key) (Entries.get? entries' key) := by
  induction entries generalizing entries' with
  | nil => cases h; exact .none
  | cons entry entries ih =>
    cases h with
    | cons h hrest =>
      rw [Entries.get?_cons, Entries.get?_cons]
      split
      · next hkey =>
        subst hkey
        exact .some h
      · exact ih hrest

/-- A condition has no other form. -/
theorem condition_eq (h : EntriesRewrite Role.of entries entries') :
    Entries.get? entries' "condition" = Entries.get? entries "condition" := by
  have hrel := h.get? "condition"
  generalize Entries.get? entries "condition" = first at hrel ⊢
  generalize Entries.get? entries' "condition" = second at hrel ⊢
  cases hrel with
  | none => rfl
  | some hrewrites => cases hrewrites; rfl

end EntriesRewrite

end Value

/-! ### Every value can stay as it is -/

namespace Value

mutual

/-- A value may stay as it is. -/
theorem Rewrites.refl (role : Role) (value : Value) : Rewrites role value value := by
  match role, value with
  | .unread, _ => exact .unread _ _
  | .condition, _ => exact .condition _
  | .scope, .object entries => exact .scope (.refl Role.of entries)
  | .scope, .scalar s => exact .noScope (shape_scalar_ne_object s)
  | .scope, .array _ => exact .noScope nofun
  | .node, .object entries => exact .node (.refl Role.of entries)
  | .node, .scalar s => exact .noNode (shape_scalar_ne_object s)
  | .node, .array _ => exact .noNode nofun
  | .field .conditionals, .array items => exact .conditionals (Rewrites.forall₂_refl items)
  | .field .conditionals, .scalar s =>
    exact .conditional (shape_scalar_ne_array s) (.noNode (shape_scalar_ne_object s))
  | .field .conditionals, .object entries =>
    exact .conditional nofun (.node (.refl Role.of entries))
  | .field (.body kind), .object entries => exact .body kind (.scope (.refl Role.of entries))
  | .field (.body kind), .scalar s => exact .body kind (.noScope (shape_scalar_ne_object s))
  | .field (.body kind), .array _ => exact .body kind (.noScope nofun)
  | .field (.bodies kind), .object entries => exact .bodies kind (.refl _ entries)
  | .field (.bodies kind), .scalar s => exact .noBodies kind (shape_scalar_ne_object s)
  | .field (.bodies kind), .array _ => exact .noBodies kind nofun
  | .field (.text _), _ | .field .version, _ | .field .bool, _ | .field (.keyword _), _
  | .field (.texts _), _ | .field .globs, _ | .field .dependencies, _ | .field .verbatim, _
  | .field .defaults, _ | .field .flags, _ => exact .plain _ rfl
termination_by sizeOf value

/-- So may each item of a list. -/
theorem Rewrites.forall₂_refl (items : List Value) : List.Forall₂ (Rewrites .node) items items := by
  match items with
  | [] => exact .nil
  | item :: rest => exact .cons (Rewrites.refl .node item) (Rewrites.forall₂_refl rest)
termination_by sizeOf items

/-- So may each entry of an object. -/
theorem EntriesRewrite.refl (roles : String → Role) (entries : List (String × Value)) :
    EntriesRewrite roles entries entries := by
  match entries with
  | [] => exact .nil
  | (key, value) :: rest => exact .cons (Rewrites.refl (roles key) value) (.refl roles rest)
termination_by sizeOf entries

end

end Value

/-! ### Registries -/

/-- A usual field says what the value under its key is for. -/
theorem Registry.IsUsual.role_of {registry : Registry} (h : registry.IsUsual) {key : String}
    {field : Field} (hfield : registry.find? key = some field) : Role.of key = .field field.form := by
  obtain ⟨known, hknown, hform⟩ := h.exists_field hfield
  rw [Role.of, Option.mem_def.1 hknown]
  exact congrArg Role.field hform

/-! ### Reading values -/

namespace Context

variable {σ : Type} {context : Context σ} {placing : Placing} {ties : σ → σ → Prop}
  {place place' : Place} {value value' : Value}

/-- A value is read like the other forms of it. -/
theorem paired_leaf (hglob : context.services.GlobsAlike ties placing.Blames) {field : Field}
    (hleaf : field.form.isLeaf) (h : value.Rewrites (.field field.form) value')
    (hplace : placing.relates context.source place place' value) :
    (context.value field place value).Paired (placing.pairing ties) Eq
      (context.value field place' value') := by
  generalize hform : field.form = form at h hleaf
  cases h with
  | plain => exact paired_value hglob field hplace
  | loneText s hlist =>
    rw [Context.value.eq_def, Context.value.eq_def, hform]
    cases form with
    | texts nullable => exact .ofExcept (matches_textsOrNull_lone nullable s)
    | globs => exact (paired_files hglob field.key [s]).bind_eq fun _ ↦ .pure rfl
    | dependencies => exact .ofExcept ((Dependency.matches_listOf_lone hplace).map_eq _)
    | _ => cases hlist
  | loneItem hitem hvalue =>
    rw [Context.value.eq_def, Context.value.eq_def, hform]
    cases form with
    | verbatim => exact .ofExcept ((matches_verbatim_lone hplace hvalue).map_eq _)
    | defaults => cases hleaf
    | _ => cases hitem
  | conditional | loneConditional | conditionals | body | bodies | noBodies => cases hleaf

end Context

/-! ### Documents and services -/

/-- Documents that are the same but for the form in which they are written. References of theirs start
in a proper directory. -/
structure Document.Pairs (placing : Placing) (IsProper : PosixPath → Prop)
    (document document' : Document) : Prop where
  source_eq : document'.source = document.source
  canonical_eq : document'.canonical = document.canonical
  directory_eq : document'.directory = document.directory
  rewrites : Value.Rewrites .scope (.object document.value) (.object document'.value)
  relates : placing.relates document.source Place.top Place.top (.object document.value)
  isProper : IsProper document.directory

/-- Whether services in states that are tied find the same files and documents, or fail in ways that
belong together. -/
structure Services.Pairs {σ : Type} (services : Services σ) (placing : Placing) (ties : σ → σ → Prop)
    (IsProper : PosixPath → Prop) : Prop where
  glob : services.GlobsAlike ties placing.Blames
  resolve : ∀ resolve ∈ services.resolve?, ∀ reference visited base s t, IsProper base → ties s t →
    ties (resolve reference visited base s).2 (resolve reference visited base t).2 ∧
      Matches placing.Blames (Document.Pairs placing IsProper) (resolve reference visited base s).1
        (resolve reference visited base t).1

namespace Context

variable {σ : Type} {context : Context σ} {placing : Placing} {ties : σ → σ → Prop}
  {IsProper : PosixPath → Prop}

/-- Paired services resolve a reference to paired documents. -/
theorem paired_resolve (h : context.services.Pairs placing ties IsProper)
    (hdirectory : IsProper context.directory) (reference : Reference) :
    (context.resolve reference).Paired (placing.pairing ties) (Document.Pairs placing IsProper)
      (context.resolve reference) := by
  intro s t hst
  cases hresolve : context.services.resolve? with
  | none =>
    rw [context.run_resolve_of_none hresolve, context.run_resolve_of_none hresolve]
    exact ⟨hst, .error placing.blames_noResolver⟩
  | some resolve =>
    rw [context.run_resolve hresolve, context.run_resolve hresolve]
    obtain ⟨hties, hmatches⟩ := h.resolve resolve hresolve reference context.visited
      context.directory s.state t.state hdirectory hst.ties
    exact ⟨⟨hties, hst.warnings⟩, hmatches⟩

/-- Whether documents are read alike, however they are written. -/
def ReadsPaired (placing : Placing) (ties : σ → σ → Prop) (IsProper : PosixPath → Prop)
    (context : Context σ) (read : ReadDocument σ) : Prop :=
  ∀ (registries : Registries) (document document' : Document), registries.AreUsual →
    document.Pairs placing IsProper document' →
      (read context registries document).Paired (placing.pairing ties) Eq
        (read context registries document')

/-- Inheriting from documents in turn is paired if reading each of them is. -/
theorem paired_inherit (h : context.services.Pairs placing ties IsProper)
    (hdirectory : IsProper context.directory) {read : ReadDocument σ}
    (hread : context.ReadsPaired placing ties IsProper read) {registries : Registries}
    (husual : registries.AreUsual) (inherited : FieldSet) (references : List Reference) :
    (inherit read context registries inherited references).Paired (placing.pairing ties) Eq
      (inherit read context registries inherited references) := by
  induction references generalizing inherited with
  | nil => exact .pure rfl
  | cons reference rest ih =>
    rw [inherit]
    refine (paired_resolve h hdirectory reference).bind fun document document' hpairs ↦ ?_
    exact (hread registries document document' husual hpairs).bind_eq fun fields ↦ ih _

/-- Whether all that scopes refer to is read alike. -/
def DefaultsPaired (placing : Placing) (ties : σ → σ → Prop) (context : Context σ)
    (read : ReadDocument σ) : Prop :=
  ∀ (registries : Registries) (place place' : Place) (value value' : Value), registries.AreUsual →
    value.Rewrites (.field .defaults) value' →
    placing.relates context.source place place' value →
      (context.defaults read registries place value).Paired (placing.pairing ties) Eq
        (context.defaults read registries place' value')

/-- The references of a rewritten value are the same, at tied places. -/
theorem tallies_listOf_rewrites {source : String} {place place' : Place} {value value' : Value}
    (h : value.Rewrites (.field .defaults) value') (hplace : placing.relates source place place' value) :
    Reference.Tallies placing (Reference.listOf source place value)
      (Reference.listOf source place' value') := by
  cases h with
  | plain => exact Reference.tallies_listOf hplace
  | loneItem _ hvalue => exact Reference.tallies_listOf_lone hplace hvalue
  | loneText _ hlist => cases hlist

/-- So inheriting from them is paired. -/
theorem defaultsPaired (h : context.services.Pairs placing ties IsProper)
    (hdirectory : IsProper context.directory) {read : ReadDocument σ}
    (hread : context.ReadsPaired placing ties IsProper read) :
    context.DefaultsPaired placing ties read := by
  intro registries place place' value value' husual hrewrites hplace
  have htallies := tallies_listOf_rewrites hrewrites hplace
  rw [defaults, defaults]
  generalize Reference.listOf context.source place value = first at htallies ⊢
  generalize Reference.listOf context.source place' value' = first' at htallies ⊢
  obtain ⟨warnings, result⟩ := first
  obtain ⟨warnings', result'⟩ := first'
  obtain ⟨hwarnings, hmatches⟩ := htallies
  refine (Decode.Paired.warnAll hwarnings).bind fun _ _ _ ↦ ?_
  refine (Decode.Paired.ofExcept hmatches).bind_eq fun references ↦ ?_
  split
  · exact (PairedRun.throw (p := Eq) placing.blames_noResolver).bind_eq fun _ ↦
      paired_inherit h hdirectory hread husual .empty references
  · exact paired_inherit h hdirectory hread husual .empty references

/-! ### Reading scopes -/

/-- A condition that is kept is found in both. -/
theorem matches_condition {place place' : Place} {entries entries' : List (String × Value)}
    (h : Entries.get? entries' "condition" = Entries.get? entries "condition")
    (hplace : placing.relates context.source place place' (.object entries)) :
    Matches placing.Blames Eq (context.condition place entries)
      (context.condition place' entries') := by
  rw [condition.eq_def, condition.eq_def, h]
  split
  · exact Placing.matches_fault hplace (by simp)
  · exact .ok rfl
  · exact .ok rfl
  · next hcondition => exact matches_mismatch ((Placing.covers hplace).of_get? hcondition) _

/-- A conditional whose only branch holds its fields. -/
theorem conditional_branch {read : ReadDocument σ} {registries : Registries} {place : Place}
    (condition : Value) (entries : List (String × Value)) :
    conditional read context registries place
        (.object [("condition", condition), ("then", .object entries)]) = do
      let condition ← Decode.ofExcept
        (context.condition place [("condition", condition), ("then", .object entries)])
      let own ← fields read context registries (fun _ ↦ false) (place.key "then") entries
      return ⟨condition, ⟨own⟩, none⟩ := by
  have hnone : context.unknownKeys branchKeys place
      [("condition", condition), ("then", .object entries)] = [] := rfl
  have hwarn : (Decode.warnAll [] : Decode σ Unit) = pure () := by
    funext s
    simp only [Decode.warnAll, List.append_nil]
    rfl
  have hthen : Entries.get? [("condition", condition), ("then", .object entries)] "then" =
      some (.object entries) := rfl
  have helse : Entries.get? [("condition", condition), ("then", .object entries)] "else" = none := rfl
  rw [conditional_object, hnone, hwarn, hthen, helse]
  simp only [branch, pure_bind, bind_assoc]

/-- A filtered list is not larger. -/
theorem sizeOf_filter_le (p : String × Value → Bool) (entries : List (String × Value)) :
    sizeOf (entries.filter p) ≤ sizeOf entries := by
  induction entries with
  | nil => exact le_rfl
  | cons entry entries ih =>
    rw [List.filter_cons]
    split
    · simp only [List.cons.sizeOf_spec]
      omega
    · simp only [List.cons.sizeOf_spec]
      omega

section

variable {read : ReadDocument σ}

mutual

theorem paired_fieldValue (hglob : context.services.GlobsAlike ties placing.Blames)
    (hdefaults : context.DefaultsPaired placing ties read)
    {registries : Registries} (husual : registries.AreUsual) {field : Field}
    (hfield : field.form ≠ .defaults) {place place' : Place} {value value' : Value}
    (h : value.Rewrites (.field field.form) value')
    (hplace : placing.relates context.source place place' value) :
    (fieldValue read context registries field place value).Paired (placing.pairing ties) Eq
      (fieldValue read context registries field place' value') := by
  cases hform : field.form with
  | conditionals =>
    rw [hform] at h
    cases h with
    | plain _ hform | loneText _ hform | loneItem hform => cases hform
    | conditional hvalue h =>
      rw [fieldValue_of_ne_array hform hvalue, fieldValue_of_ne_array hform (h.node_shape ▸ hvalue)]
      exact (paired_conditional hglob hdefaults husual.branch h hplace).bind_eq fun _ ↦ .pure rfl
    | loneConditional hvalue h =>
      rw [fieldValue_of_ne_array hform hvalue, fieldValue_array hform, conditionals_singleton]
      simp only [bind_assoc, pure_bind]
      exact (paired_conditional hglob hdefaults husual.branch h (placing.lone hplace)).bind_eq
          fun _ ↦ .pure rfl
    | conditionals h =>
      rw [fieldValue_array hform, fieldValue_array hform]
      have hcovers := Placing.coversFrom hplace
      exact (paired_conditionals hglob hdefaults husual.branch h hcovers).bind_eq fun _ ↦ .pure rfl
  | body kind =>
    rw [hform] at h
    rw [fieldValue_body hform, fieldValue_body hform]
    cases h with
    | plain _ hform | loneText _ hform | loneItem hform => cases hform
    | body _ h => exact (paired_body hglob hdefaults kind h hplace).bind_eq fun _ ↦ .pure rfl
  | bodies kind =>
    rw [hform] at h
    cases h with
    | plain _ hform | loneText _ hform | loneItem hform => cases hform
    | bodies _ h =>
      rw [fieldValue_bodies hform, fieldValue_bodies hform]
      exact (paired_bodies hglob hdefaults kind h (Placing.covers hplace)).bind_eq fun _ ↦ .pure rfl
    | noBodies _ hvalue =>
      rw [fieldValue_bodies_of_ne_object hform hvalue, fieldValue_bodies_of_ne_object hform hvalue]
      exact .ofExcept (matches_mismatch hplace _)
  | defaults => exact absurd hform hfield
  | _ =>
    have hleaf : field.form.isLeaf := by rw [hform]; rfl
    rw [fieldValue_leaf hleaf, fieldValue_leaf hleaf]
    exact paired_leaf hglob hleaf h hplace
termination_by (sizeOf value, 2)

theorem paired_fields (hglob : context.services.GlobsAlike ties placing.Blames)
    (hdefaults : context.DefaultsPaired placing ties read)
    {registries : Registries} (husual : registries.AreUsual)
    (skip : String → Bool) {place place' : Place} {entries entries' : List (String × Value)}
    (h : Value.EntriesRewrite Role.of entries entries')
    (hcovers : placing.Covers context.source place place' entries) :
    (fields read context registries skip place entries).Paired (placing.pairing ties) Eq
      (fields read context registries skip place' entries') := by
  match entries, h with
  | [], .nil => rw [fields, fields]; exact .pure rfl
  | (key, value) :: rest, .cons h hrest =>
    have hnext : ∀ found : Option (String × FieldValue), Decode.Paired (placing.pairing ties) Eq
        (do return found.toList ++ (← fields read context registries skip place rest))
        (do return found.toList ++ (← fields read context registries skip place' _)) :=
      fun found ↦ (paired_fields hglob hdefaults husual skip hrest hcovers.tail).bind_eq
          fun _ ↦ .pure rfl
    rw [fields, fields]
    split
    · exact hnext none
    · next hread =>
      cases hfound : registries.own.find? key with
      | none =>
        have hprivate : isPrivate key = false := by
          rw [Bool.or_eq_true, not_or] at hread
          exact Bool.eq_false_iff.2 hread.1
        have htells := hcovers.tells List.mem_cons_self hprivate
        exact (Decode.Paired.warn htells).bind fun _ _ _ ↦ hnext none
      | some field =>
        simp only
        split
        · exact hnext none
        · next hfield =>
          rw [husual.own.role_of hfound] at h
          refine (paired_fieldValue hglob hdefaults husual hfield h hcovers.head).bind_eq
              fun result ↦ ?_
          exact hnext (some (key, result))
termination_by (sizeOf entries, 0)

theorem paired_scope (hglob : context.services.GlobsAlike ties placing.Blames)
    (hdefaults : context.DefaultsPaired placing ties read)
    {registries : Registries} (husual : registries.AreUsual)
    {place place' : Place} {entries entries' : List (String × Value)}
    (h : Value.EntriesRewrite Role.of entries entries')
    (hplace : placing.relates context.source place place' (.object entries)) :
    (scope read context registries place entries).Paired (placing.pairing ties) Eq
      (scope read context registries place' entries') := by
  have hcovers := Placing.covers hplace
  rw [scope, scope]
  refine (paired_fields hglob hdefaults husual _ h hcovers).bind_eq fun own ↦ ?_
  have hrel := h.get? "defaults"
  have hvalue : ∀ value, Entries.get? entries "defaults" = some value → placing.relates context.source
      (place.key "defaults") (place'.key "defaults") value := fun _ ↦ hcovers.of_get?
  generalize Entries.get? entries "defaults" = first at hrel hvalue ⊢
  generalize Entries.get? entries' "defaults" = second at hrel ⊢
  cases hrel with
  | none => exact .pure rfl
  | some h =>
    cases registries.own.find? "defaults" with
    | none => exact .pure rfl
    | some _ =>
      have hplace := hvalue _ rfl
      exact (hdefaults _ _ _ _ _ husual h hplace).bind_eq fun _ ↦ .pure rfl
termination_by (sizeOf entries, 1)

theorem paired_body (hglob : context.services.GlobsAlike ties placing.Blames)
    (hdefaults : context.DefaultsPaired placing ties read)
    (kind : SectionKind) {place place' : Place} {value value' : Value}
    (h : value.Rewrites .scope value') (hplace : placing.relates context.source place place' value) :
    (body read context kind place value).Paired (placing.pairing ties) Eq
      (body read context kind place' value') := by
  rw [body.eq_def, body.eq_def]
  cases h with
  | scope h => exact paired_scope hglob hdefaults (Registries.areUsual_ofSection kind) h hplace
  | noScope hvalue =>
    split
    · exact .pure rfl
    · exact absurd rfl hvalue
    · exact .ofExcept (matches_mismatch hplace _)
termination_by (sizeOf value, 1)

theorem paired_bodies (hglob : context.services.GlobsAlike ties placing.Blames)
    (hdefaults : context.DefaultsPaired placing ties read)
    (kind : SectionKind) {place place' : Place}
    {entries entries' : List (String × Value)}
    (h : Value.EntriesRewrite (fun _ ↦ .scope) entries entries')
    (hcovers : placing.Covers context.source place place' entries) :
    (bodies read context kind place entries).Paired (placing.pairing ties) Eq
      (bodies read context kind place' entries') := by
  match entries, h with
  | [], .nil => rw [bodies, bodies]; exact .pure rfl
  | (name, value) :: rest, .cons h hrest =>
    rw [bodies, bodies]
    refine (paired_body hglob hdefaults kind h hcovers.head).bind_eq fun _ ↦ ?_
    exact (paired_bodies hglob hdefaults kind hrest hcovers.tail).bind_eq fun _ ↦ .pure rfl
termination_by (sizeOf entries, 0)

theorem paired_branch (hglob : context.services.GlobsAlike ties placing.Blames)
    (hdefaults : context.DefaultsPaired placing ties read)
    {registries : Registries} (husual : registries.AreUsual)
    {place place' : Place} {value value' : Value} (h : value.Rewrites .scope value')
    (hplace : placing.relates context.source place place' value) :
    (branch read context registries place value).Paired (placing.pairing ties) Eq
      (branch read context registries place' value') := by
  rw [branch.eq_def, branch.eq_def]
  cases h with
  | scope h =>
    exact (paired_fields hglob hdefaults husual _ h (Placing.covers hplace)).bind_eq
      fun _ ↦ .pure rfl
  | noScope hvalue =>
    split
    · exact absurd rfl hvalue
    · exact .ofExcept (matches_mismatch hplace _)
termination_by (sizeOf value, 0)

theorem paired_conditional (hglob : context.services.GlobsAlike ties placing.Blames)
    (hdefaults : context.DefaultsPaired placing ties read)
    {registries : Registries} (husual : registries.AreUsual)
    {place place' : Place} {value value' : Value} (h : value.Rewrites .node value')
    (hplace : placing.relates context.source place place' value) :
    (conditional read context registries place value).Paired (placing.pairing ties) Eq
      (conditional read context registries place' value') := by
  match value, value', h with
  | _, _, .noNode hvalue =>
    rw [conditional.eq_def, conditional.eq_def]
    split
    · exact absurd rfl hvalue
    · exact .ofExcept (matches_mismatch hplace _)
  | .object entries, .object [(_, condition), (_, .object fields)], .branch hcondition hthen helse h =>
    rw [conditional_object, hthen, helse, conditional_branch]
    have hsame : Entries.get? [("condition", condition), ("then", .object fields)] "condition" =
        Entries.get? entries "condition" := hcondition.symm
    refine (Decode.Paired.ofExcept (matches_condition hsame hplace)).bind_eq fun _ ↦ ?_
    rw [fields_skip]
    have hsubset : entries.filter (·.1 != "condition") ⊆ entries := List.filter_subset_self entries
    have hcovers := (Placing.covers hplace).mono hsubset
    have hsize := sizeOf_filter_le (·.1 != "condition") entries
    exact (paired_fields hglob hdefaults husual _ h hcovers.branch).bind_eq fun _ ↦ .pure rfl
  | .object entries, .object entries', .node h =>
    have hcovers := Placing.covers hplace
    have hunknown := hcovers.forall₂_tells branchKeys
    have hkeys : context.unknownKeys branchKeys place' entries' =
        context.unknownKeys branchKeys place' entries := unknownKeys_congr h.keys_eq branchKeys place'
    have hrelThen := h.get? "then"
    have hrelElse := h.get? "else"
    have hpart : ∀ key value, Entries.get? entries key = some value →
        placing.relates context.source (place.key key) (place'.key key) value ∧
          sizeOf value < sizeOf entries := fun _ _ hvalue ↦
      ⟨hcovers.of_get? hvalue, Entries.sizeOf_lt_of_get? hvalue⟩
    have hpartThen := hpart "then"
    have hpartElse := hpart "else"
    rw [conditional_object, conditional_object, hkeys]
    refine (Decode.Paired.ofExcept (matches_condition h.condition_eq hplace)).bind_eq fun condition ↦ ?_
    generalize Entries.get? entries "then" = thenValue? at hrelThen hpartThen ⊢
    generalize Entries.get? entries' "then" = thenValue'? at hrelThen ⊢
    generalize Entries.get? entries "else" = elseValue? at hrelElse hpartElse ⊢
    generalize Entries.get? entries' "else" = elseValue'? at hrelElse ⊢
    have hwarn : (Decode.warnAll (context.unknownKeys branchKeys place entries)).Paired
        (placing.pairing ties) (fun _ _ ↦ True)
          (Decode.warnAll (context.unknownKeys branchKeys place' entries)) := .warnAll hunknown
    cases hrelThen with
    | none =>
      cases hrelElse with
      | none => exact (paired_fields hglob hdefaults husual _ h hcovers).bind_eq fun _ ↦ .pure rfl
      | some =>
        refine hwarn.bind fun _ _ _ ↦ ?_
        exact Decode.Paired.ofExcept (Placing.matches_fault hplace nofun)
    | some hthen =>
      obtain ⟨hplaceThen, hlt⟩ := hpartThen _ rfl
      cases hrelElse with
      | none =>
        refine hwarn.bind fun _ _ _ ↦ ?_
        exact (paired_branch hglob hdefaults husual hthen hplaceThen).bind_eq fun _ ↦ .pure rfl
      | some helse =>
        obtain ⟨hplaceElse, hlt'⟩ := hpartElse _ rfl
        refine hwarn.bind fun _ _ _ ↦ ?_
        refine (paired_branch hglob hdefaults husual hthen hplaceThen).bind_eq fun _ ↦ ?_
        exact (paired_branch hglob hdefaults husual helse hplaceElse).bind_eq fun _ ↦ .pure rfl
termination_by (sizeOf value, 1)
decreasing_by
  all_goals simp only [Value.object.sizeOf_spec, Prod.lex_def]; omega

theorem paired_conditionals (hglob : context.services.GlobsAlike ties placing.Blames)
    (hdefaults : context.DefaultsPaired placing ties read)
    {registries : Registries} (husual : registries.AreUsual)
    {place place' : Place} {position : Nat} {values values' : List Value}
    (h : List.Forall₂ (Value.Rewrites .node) values values')
    (hcovers : placing.CoversFrom context.source place place' position values) :
    (conditionals read context registries place position values).Paired (placing.pairing ties) Eq
      (conditionals read context registries place' position values') := by
  match values, h with
  | [], .nil => rw [conditionals, conditionals]; exact .pure rfl
  | value :: rest, .cons h hrest =>
    rw [conditionals, conditionals]
    refine (paired_conditional hglob hdefaults husual h hcovers.head).bind_eq fun _ ↦ ?_
    exact (paired_conditionals hglob hdefaults husual hrest hcovers.tail).bind_eq fun _ ↦ .pure rfl
termination_by (sizeOf values, 0)

end

end

/-! ### Reading documents and manifests -/

/-- Reading documents is paired, to any depth of references. -/
theorem readsPaired_document (h : context.services.Pairs placing ties IsProper) (bound : Nat) :
    context.ReadsPaired placing ties IsProper (Context.document bound) := by
  induction bound generalizing context with
  | zero =>
    intro registries document document' _ _
    exact .throw (Placing.Blames.other nofun)
  | succ bound ih =>
    intro registries document document' husual hpairs
    have henter : context.enter document' = context.enter document := by
      rw [enter, enter, hpairs.source_eq, hpairs.canonical_eq, hpairs.directory_eq]
    have hservices : (context.enter document).services.Pairs placing ties IsProper := h
    have hdefaults := defaultsPaired hservices hpairs.isProper (ih hservices)
    rw [Context.document, Context.document, henter]
    have hrewrites := hpairs.rewrites.entries
    exact paired_scope hservices.glob hdefaults husual hrewrites hpairs.relates

/-- All forms of a manifest are read alike. -/
theorem paired_package (h : context.services.Pairs placing ties IsProper)
    (hdirectory : IsProper context.directory) (bound : Nat) {value value' : Value}
    (hrewrites : value.Rewrites .scope value')
    (hplace : placing.relates context.source Place.top Place.top value) :
    (context.package bound value).Paired (placing.pairing ties) Eq (context.package bound value') := by
  have hdefaults := defaultsPaired h hdirectory (readsPaired_document h bound)
  rw [package.eq_def, package.eq_def]
  cases hrewrites with
  | scope hrewrites =>
    exact paired_scope h.glob hdefaults Registries.areUsual_package hrewrites hplace
  | noScope hvalue =>
    split
    · exact absurd rfl hvalue
    · exact .ofExcept (matches_mismatch hplace _)

end Context

end CabalManifest
