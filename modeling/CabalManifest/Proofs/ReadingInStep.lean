import CabalManifest.Proofs.ReadingScopes

/-!
# Reading in step

Two computations that ask different services go *in step* if they give the same result and the same
warnings, and end in states that belong together, whenever they start in such states
(`Decode.InStep`). Only those runs of the second one count that come to no harm and do not fail in an
excused way; harm is never undone, so that a run without it has none on the way either.

Reading a manifest asks its services for files and documents only. So services that answer in step
make all of reading go in step (`Context.inStep_package`).
-/

namespace CabalManifest

/-- How the states of two services belong together. -/
structure Bond (σ τ : Type) where
  /-- Which states belong together. -/
  ties : σ → τ → Prop
  /-- Whether the run that ends in a second state came to no harm. -/
  unharmed : τ → Prop
  /-- What holds of every second state. -/
  holds : τ → Prop := fun _ ↦ True
  /-- Which failures of the second run let it count for nothing. -/
  excuses : Failure → Prop := fun _ ↦ False

variable {σ τ α β : Type} {bond : Bond σ τ}

namespace Bond

/-- The contract never to undo a harm. -/
def contract (bond : Bond σ τ) : Contract τ where
  holds := bond.holds
  follows t u := bond.unharmed u → bond.unharmed t
  allows _ _ := True
  refl _ := id
  trans h h' hu := h (h' hu)
  allows_of_not_isCycle _ _ _ := trivial

/-- Whether a second run that ends with a result in a state counts. -/
structure Counts (bond : Bond σ τ) (result : Except Failure α) (t : τ) : Prop where
  unharmed : bond.unharmed t
  not_excused : ∀ failure, result = .error failure → ¬bond.excuses failure

/-- A success counts if it came to no harm. -/
theorem Counts.of_ok {t : τ} (h : bond.unharmed t) (a : α) : bond.Counts (.ok a) t :=
  ⟨h, fun _ hfailure ↦ by cases hfailure⟩

/-- Whether what was done so far belongs together. -/
structure Joins (bond : Bond σ τ) (s : Progress σ) (t : Progress τ) : Prop where
  ties : bond.ties s.state t.state
  holds : bond.holds t.state
  warnings_eq : s.warnings = t.warnings

end Bond

/-! ### Computations in step -/

namespace Decode

/-- Whether two computations go in step; the results of the second one pass a test in any case. -/
structure InStep (bond : Bond σ τ) (p : α → Prop) (m : Decode σ α) (n : Decode τ α) : Prop where
  meets : n.Meets bond.contract p
  run : ∀ s t, bond.Joins s t → bond.Counts (n.run t).1 (n.run t).2.state →
    (m.run s).1 = (n.run t).1 ∧ bond.Joins (m.run s).2 (n.run t).2

namespace InStep

variable {p : α → Prop} {q : β → Prop} {m : Decode σ α} {n : Decode τ α}

theorem pure {a : α} (h : p a) :
    (Pure.pure a : Decode σ α).InStep bond p (Pure.pure a) :=
  ⟨.pure h, fun _ _ hst _ ↦ ⟨rfl, hst⟩⟩

/-- Both fail in the same way. -/
theorem throw (failure : Failure) :
    (MonadExcept.throw failure : Decode σ α).InStep bond p (MonadExcept.throw failure) :=
  ⟨fun _ ht ↦ ⟨ht, id, trivial⟩, fun _ _ hst _ ↦ ⟨rfl, hst⟩⟩

theorem ofExcept (result : Except Failure α) :
    (Decode.ofExcept result : Decode σ α).InStep bond (fun _ ↦ True) (Decode.ofExcept result) := by
  cases result with
  | ok a => exact pure trivial
  | error failure => exact throw failure

theorem warnAll (warnings : List Warning) :
    (Decode.warnAll warnings : Decode σ Unit).InStep bond (fun _ ↦ True)
      (Decode.warnAll warnings) :=
  ⟨.warnAll warnings, fun _ _ hst _ ↦
    ⟨rfl, hst.ties, hst.holds, congrArg (· ++ warnings) hst.warnings_eq⟩⟩

theorem warn (warning : Warning) :
    (Decode.warn warning : Decode σ Unit).InStep bond (fun _ ↦ True) (Decode.warn warning) :=
  warnAll [warning]

/-- Steps that go in step for what the first ones give go in step together; a harm in the second one
is a harm in the whole. -/
theorem bind {k : α → Decode σ β} {l : α → Decode τ β} (h : m.InStep bond p n)
    (hk : ∀ a, p a → (k a).InStep bond q (l a)) : (m >>= k).InStep bond q (n >>= l) := by
  refine ⟨h.meets.bind fun a ha ↦ (hk a ha).meets, fun s t hst hcounts ↦ ?_⟩
  rcases hm : m.run s with ⟨result, s'⟩
  rcases hn : n.run t with ⟨failure | a, t'⟩
  · rw [run_bind_of_error hn] at hcounts ⊢
    obtain ⟨hsame, hst'⟩ := h.run s t hst
      (by rw [hn]; exact ⟨hcounts.unharmed, fun _ hf ↦ hcounts.not_excused _ (by cases hf; rfl)⟩)
    rw [hm, hn] at hsame hst'
    obtain rfl : result = .error failure := hsame
    rw [run_bind_of_error hm]
    exact ⟨rfl, hst'⟩
  · rw [run_bind_of_ok hn] at hcounts ⊢
    have hmeets := h.meets t hst.holds
    rw [hn] at hmeets
    have hstep := hk a hmeets.2.2
    -- The second part undoes no harm, so that there was none in the first one.
    have hbetween : bond.unharmed t'.state := by
      have hnext := hstep.meets t' hmeets.1
      rcases hl : (l a).run t' with ⟨failure | b, u⟩ <;> rw [hl] at hnext hcounts
      · exact hnext.2.1 hcounts.unharmed
      · exact hnext.2.1 hcounts.unharmed
    obtain ⟨hsame, hst'⟩ := h.run s t hst (by rw [hn]; exact .of_ok hbetween a)
    rw [hm, hn] at hsame hst'
    obtain rfl : result = .ok a := hsame
    rw [run_bind_of_ok hm]
    exact hstep.run s' t' hst' hcounts

/-- Items that are read in step make up lists that are. -/
theorem mapM {f : β → Decode σ α} {g : β → Decode τ α} {items : List β}
    (h : ∀ item ∈ items, (f item).InStep bond p (g item)) :
    (items.mapM f).InStep bond (fun _ ↦ True) (items.mapM g) := by
  induction items with
  | nil => exact pure trivial
  | cons item items ih =>
    rw [List.forall_mem_cons] at h
    rw [List.mapM_cons, List.mapM_cons]
    exact h.1.bind fun a _ ↦ (ih h.2).bind fun rest _ ↦ pure trivial

end InStep

end Decode

/-! ### Services in step -/

/-- Whether services answer in step. References start in proper directories only; so they are those
of the documents that are given. -/
structure Services.InStep (bond : Bond σ τ) (IsProper : PosixPath → Prop) (services : Services σ)
    (services' : Services τ) : Prop where
  glob : ∀ pattern s t, bond.ties s t → services.glob pattern s = services'.glob pattern t
  isNone_eq : services.resolve?.isNone = services'.resolve?.isNone
  /-- Resolving undoes no harm. -/
  keeps : ∀ resolve' ∈ services'.resolve?, ∀ reference visited base t, IsProper base →
    bond.holds t → bond.holds (resolve' reference visited base t).2 ∧
      (bond.unharmed (resolve' reference visited base t).2 → bond.unharmed t)
  isProper : ∀ resolve' ∈ services'.resolve?, ∀ reference visited base t document, IsProper base →
    (resolve' reference visited base t).1 = .ok document → IsProper document.directory
  resolve : ∀ resolve ∈ services.resolve?, ∀ resolve' ∈ services'.resolve?,
    ∀ reference visited base s t, IsProper base → bond.ties s t → bond.holds t →
      bond.Counts (resolve' reference visited base t).1 (resolve' reference visited base t).2 →
        (resolve reference visited base s).1 = (resolve' reference visited base t).1 ∧
          bond.ties (resolve reference visited base s).2 (resolve' reference visited base t).2

namespace Context

/-- The context with other services. -/
def withServices (context : Context σ) (services' : Services τ) : Context τ :=
  ⟨services', context.source, context.directory, context.visited⟩

variable {IsProper : PosixPath → Prop} {context : Context σ} {services' : Services τ}

/-- References resolve to the same, and to documents in directories that are proper again. -/
theorem inStep_resolve (h : context.services.InStep bond IsProper services')
    (hdirectory : IsProper context.directory) (reference : Reference) :
    (context.resolve reference).InStep bond (fun document ↦ IsProper document.directory)
      ((context.withServices services').resolve reference) := by
  have hnone := h.isNone_eq
  cases hresolve : context.services.resolve? with
  | none =>
    have hresolve' : services'.resolve? = none := by
      rwa [hresolve, Option.isNone_none, eq_comm, Option.isNone_iff_eq_none] at hnone
    refine ⟨fun t ht ↦ ?_, fun s t hst _ ↦ ?_⟩
    · rw [(context.withServices services').run_resolve_of_none hresolve']
      exact ⟨ht, id, trivial⟩
    · rw [context.run_resolve_of_none hresolve,
        (context.withServices services').run_resolve_of_none hresolve']
      exact ⟨rfl, hst⟩
  | some resolve =>
    obtain ⟨resolve', hresolve'⟩ : ∃ resolve', services'.resolve? = some resolve' := by
      rw [hresolve] at hnone
      exact Option.isSome_iff_exists.1 (by simpa using hnone)
    refine ⟨fun t ht ↦ ?_, fun s t hst hcounts ↦ ?_⟩
    · obtain ⟨hholds, hreflects⟩ := h.keeps resolve' hresolve' reference context.visited
        context.directory t.state hdirectory ht
      have hproper := h.isProper resolve' hresolve' reference context.visited context.directory
        t.state
      rw [(context.withServices services').run_resolve hresolve']
      show Decode.Outcome.IsRight _ _ _ ((resolve' reference context.visited context.directory
        t.state).1, { t with state := (resolve' reference context.visited context.directory
          t.state).2 })
      generalize resolve' reference context.visited context.directory t.state = result
        at hholds hreflects hproper ⊢
      obtain ⟨failure | document, u⟩ := result
      · exact ⟨hholds, hreflects, trivial⟩
      · exact ⟨hholds, hreflects, hproper document hdirectory rfl⟩
    · obtain ⟨hholds, -⟩ := h.keeps resolve' hresolve' reference context.visited
        context.directory t.state hdirectory hst.holds
      rw [(context.withServices services').run_resolve hresolve'] at hcounts ⊢
      rw [context.run_resolve hresolve]
      obtain ⟨hsame, hties⟩ := h.resolve resolve hresolve resolve' hresolve' reference
        context.visited context.directory s.state t.state hdirectory hst.ties hst.holds hcounts
      exact ⟨hsame, hties, hholds, hst.warnings_eq⟩

/-! ### Reading values in step -/

section

variable (context : Context σ) (services' : Services τ)

/-- The services do not matter for the items of a list. -/
theorem items_withServices (place : Place) (position : Nat) (values : List Value) :
    (context.withServices services').items place position values =
      context.items place position values := by
  induction values generalizing position with
  | nil => rfl
  | cons value values ih =>
    rw [items.eq_def, items.eq_def]
    split
    · rfl
    · next heq =>
      cases heq
      rw [ih]
    · rfl

theorem texts_withServices (place : Place) (value : Value) :
    (context.withServices services').texts place value = context.texts place value := by
  rw [texts.eq_def, texts.eq_def]
  split
  · rfl
  · exact context.items_withServices services' place 0 _
  · rfl

theorem overrideEntries_withServices (place : Place) (entries : List (String × Value)) :
    (context.withServices services').overrideEntries place entries =
      context.overrideEntries place entries := by
  induction entries with
  | nil => rfl
  | cons entry entries ih =>
    rw [overrideEntries.eq_def, overrideEntries.eq_def]
    split
    · rfl
    · next heq =>
      cases heq
      rw [ih]
    · rfl

theorem overrideOf_withServices (place : Place) (value : Value) :
    (context.withServices services').overrideOf place value = context.overrideOf place value := by
  rw [overrideOf.eq_def, overrideOf.eq_def]
  split
  · rfl
  · rw [overrideEntries_withServices]
  · rfl

theorem overrideItems_withServices (place : Place) (position : Nat) (values : List Value) :
    (context.withServices services').overrideItems place position values =
      context.overrideItems place position values := by
  induction values generalizing position with
  | nil => rfl
  | cons value values ih => rw [overrideItems, overrideItems, overrideOf_withServices, ih]

/-- The services do not matter for overrides. -/
theorem verbatim_withServices (place : Place) (value : Value) :
    (context.withServices services').verbatim place value = context.verbatim place value := by
  rw [verbatim.eq_def, verbatim.eq_def]
  split
  · exact context.overrideItems_withServices services' place 0 _
  · rw [overrideOf_withServices]

end

/-- Patterns match the same files on both sides. -/
theorem inStep_glob (h : context.services.InStep bond IsProper services') (pattern : String) :
    (context.glob pattern).InStep bond (fun _ ↦ True)
      ((context.withServices services').glob pattern) := by
  have hrun : ∀ t, ((context.withServices services').glob pattern).run t =
      (Decode.ofExcept (services'.glob pattern t.state) : Decode τ _).run t := fun _ ↦ rfl
  refine ⟨fun t ht ↦ ?_, fun s t hst hcounts ↦ ?_⟩
  · have hstep : (Decode.ofExcept (services'.glob pattern t.state) : Decode σ _).InStep bond
        (fun _ ↦ True) (Decode.ofExcept (services'.glob pattern t.state)) := .ofExcept _
    rw [hrun]
    exact hstep.meets t ht
  · rw [hrun, ← h.glob pattern s.state t.state hst.ties] at hcounts ⊢
    exact (Decode.InStep.ofExcept _).run s t hst hcounts

theorem inStep_files (h : context.services.InStep bond IsProper services') (field : String)
    (patterns : List String) : (context.files field patterns).InStep bond (fun _ ↦ True)
      ((context.withServices services').files field patterns) := by
  refine Decode.InStep.bind (Decode.InStep.mapM (p := fun _ ↦ True) fun pattern _ ↦ ?_)
    fun found _ ↦ .pure trivial
  refine (inStep_glob h pattern).bind fun found _ ↦ ?_
  split
  · exact (Decode.InStep.warn _).bind fun _ _ ↦ .pure trivial
  · exact .pure trivial

theorem inStep_flags (place : Place) (entries : List (String × Value)) :
    (context.flags place entries).InStep bond (fun _ ↦ True)
      ((context.withServices services').flags place entries) := by
  induction entries with
  | nil => exact .pure trivial
  | cons entry entries ih =>
    rw [flags.eq_def, flags.eq_def]
    split
    · next heq => cases heq
    · next heq =>
      cases heq
      refine (Decode.InStep.warnAll _).bind fun _ _ ↦ ?_
      refine (Decode.InStep.ofExcept _).bind fun flag _ ↦ ?_
      exact ih.bind fun _ _ ↦ .pure trivial
    · exact .throw _

/-- Values without scopes in them are read in step. -/
theorem inStep_value (h : context.services.InStep bond IsProper services') (field : Field)
    (place : Place) (value : Value) :
    (context.value field place value).InStep bond (fun _ ↦ True)
      ((context.withServices services').value field place value) := by
  rw [Context.value.eq_def, Context.value.eq_def]
  -- Only the services are different, so that all but the patterns is read from the value alone.
  cases field.form with
  | text nullable => exact .ofExcept _
  | version => exact .ofExcept _
  | bool => exact .ofExcept _
  | keyword words => exact .ofExcept _
  | texts nullable =>
    simp only [textsOrNull, texts_withServices]
    exact .ofExcept _
  | globs =>
    simp only [texts_withServices]
    refine (Decode.InStep.ofExcept _).bind fun patterns _ ↦ ?_
    exact (inStep_files h field.key patterns).bind fun _ _ ↦ .pure trivial
  | dependencies => exact .ofExcept _
  | verbatim =>
    simp only [verbatim_withServices]
    exact .ofExcept _
  | flags =>
    cases value with
    | object entries => exact (inStep_flags place entries).bind fun _ _ ↦ .pure trivial
    | scalar | array => exact .throw _
  | conditionals | defaults | body | bodies => exact .pure trivial

/-! ### Reading scopes in step -/

/-- Whether all that scopes refer to is read in step. -/
def DefaultsInStep (bond : Bond σ τ) (context : Context σ) (services' : Services τ)
    (read : ReadDocument σ) (read' : ReadDocument τ) : Prop :=
  ∀ registries place value, (context.defaults read registries place value).InStep bond
    (fun _ ↦ True) ((context.withServices services').defaults read' registries place value)

section

variable {read : ReadDocument σ} {read' : ReadDocument τ}

/-- Documents are inherited in step, one after another. -/
theorem inStep_inherit (h : context.services.InStep bond IsProper services')
    (hdirectory : IsProper context.directory) {registries : Registries}
    (hread : ∀ document : Document, IsProper document.directory →
      (read context registries document).InStep bond (fun _ ↦ True)
        (read' (context.withServices services') registries document))
    (inherited : FieldSet) (references : List Reference) :
    (inherit read context registries inherited references).InStep bond (fun _ ↦ True)
      (inherit read' (context.withServices services') registries inherited references) := by
  induction references generalizing inherited with
  | nil => exact .pure trivial
  | cons reference rest ih =>
    rw [inherit, inherit]
    refine (inStep_resolve h hdirectory reference).bind fun document hproper ↦ ?_
    exact (hread document hproper).bind fun fields _ ↦ ih _

/-- What a scope refers to is read in step. -/
theorem inStep_defaults (h : context.services.InStep bond IsProper services')
    (hdirectory : IsProper context.directory)
    (hread : ∀ registries, ∀ document : Document, IsProper document.directory →
      (read context registries document).InStep bond (fun _ ↦ True)
        (read' (context.withServices services') registries document)) :
    context.DefaultsInStep bond services' read read' := by
  intro registries place value
  rw [defaults, defaults]
  rcases hlist : Reference.listOf context.source place value with ⟨warnings, result⟩
  have hlist' : Reference.listOf (context.withServices services').source place value =
      (warnings, result) := hlist
  rw [hlist']
  simp only
  refine (Decode.InStep.warnAll warnings).bind fun _ _ ↦ ?_
  refine (Decode.InStep.ofExcept _).bind fun references _ ↦ ?_
  have hnone : (context.withServices services').services.resolve?.isNone =
      context.services.resolve?.isNone := h.isNone_eq.symm
  rw [hnone]
  split
  · exact (Decode.InStep.throw (p := fun _ ↦ True) _).bind fun _ _ ↦
      inStep_inherit h hdirectory (hread registries) .empty references
  · exact inStep_inherit h hdirectory (hread registries) .empty references

mutual

/-- The value of a field is read in step, whatever form it has. -/
theorem inStep_fieldValue (h : context.services.InStep bond IsProper services')
    (hdefaults : context.DefaultsInStep bond services' read read')
    (registries : Registries) (field : Field) (place : Place) (value : Value) :
    (fieldValue read context registries field place value).InStep bond (fun _ ↦ True)
      (fieldValue read' (context.withServices services') registries field place value) := by
  rw [fieldValue.eq_def, fieldValue.eq_def]
  split
  · split
    · next values =>
      exact (inStep_conditionals h hdefaults registries.branch place 0 values).bind
          fun _ _ ↦ .pure trivial
    · exact (inStep_conditional h hdefaults registries.branch place value).bind
          fun _ _ ↦ .pure trivial
  · next kind _ => exact (inStep_body h hdefaults kind place value).bind fun _ _ ↦ .pure trivial
  · next kind _ =>
    cases value with
    | object entries =>
      exact (inStep_bodies h hdefaults kind place entries).bind fun _ _ ↦ .pure trivial
    | scalar | array => exact .throw _
  · exact inStep_value h field place value
termination_by (sizeOf value, 2)

/-- The entries of a scope are read in step. -/
theorem inStep_fields (h : context.services.InStep bond IsProper services')
    (hdefaults : context.DefaultsInStep bond services' read read')
    (registries : Registries) (skip : String → Bool) (place : Place)
    (entries : List (String × Value)) :
    (fields read context registries skip place entries).InStep bond (fun _ ↦ True)
      (fields read' (context.withServices services') registries skip place entries) := by
  rw [fields.eq_def, fields.eq_def]
  match entries with
  | [] => exact .pure trivial
  | (key, value) :: rest =>
    have hrest : ∀ found : Option (String × FieldValue),
        Decode.InStep bond (fun _ ↦ True)
          (do return found.toList ++ (← fields read context registries skip place rest))
          (do return found.toList ++
            (← fields read' (context.withServices services') registries skip place rest)) :=
      fun found ↦ (inStep_fields h hdefaults registries skip place rest).bind
          fun _ _ ↦ .pure trivial
    simp only
    split
    · exact hrest none
    · split
      · exact (Decode.InStep.warn _).bind fun _ _ ↦ hrest none
      · next field _ =>
        split
        · exact hrest none
        · refine (inStep_fieldValue h hdefaults registries field (place.key key) value).bind
              fun result _ ↦ ?_
          exact hrest (some (key, result))
termination_by (sizeOf entries, 0)

/-- A scope is read in step: its own entries first, then what it inherits. -/
theorem inStep_scope (h : context.services.InStep bond IsProper services')
    (hdefaults : context.DefaultsInStep bond services' read read')
    (registries : Registries) (place : Place) (entries : List (String × Value)) :
    (scope read context registries place entries).InStep bond (fun _ ↦ True)
      (scope read' (context.withServices services') registries place entries) := by
  rw [scope.eq_def, scope.eq_def]
  refine (inStep_fields h hdefaults registries _ place entries).bind fun own _ ↦ ?_
  split
  · exact (hdefaults registries _ _).bind fun _ _ ↦ .pure trivial
  · exact .pure trivial
termination_by (sizeOf entries, 1)

/-- The body of a section is read in step. -/
theorem inStep_body (h : context.services.InStep bond IsProper services')
    (hdefaults : context.DefaultsInStep bond services' read read')
    (kind : SectionKind) (place : Place) (value : Value) :
    (body read context kind place value).InStep bond (fun _ ↦ True)
      (body read' (context.withServices services') kind place value) := by
  rw [body.eq_def, body.eq_def]
  split
  · exact .pure trivial
  · next entries => exact inStep_scope h hdefaults (.ofSection kind) place entries
  · exact .throw _
termination_by (sizeOf value, 1)

/-- Named bodies are read in step. -/
theorem inStep_bodies (h : context.services.InStep bond IsProper services')
    (hdefaults : context.DefaultsInStep bond services' read read')
    (kind : SectionKind) (place : Place) (entries : List (String × Value)) :
    (bodies read context kind place entries).InStep bond (fun _ ↦ True)
      (bodies read' (context.withServices services') kind place entries) := by
  rw [bodies.eq_def, bodies.eq_def]
  match entries with
  | [] => exact .pure trivial
  | (name, value) :: rest =>
    refine (inStep_body h hdefaults kind (place.key name) value).bind fun _ _ ↦ ?_
    exact (inStep_bodies h hdefaults kind place rest).bind fun _ _ ↦ .pure trivial
termination_by (sizeOf entries, 0)

/-- A branch is read in step. -/
theorem inStep_branch (h : context.services.InStep bond IsProper services')
    (hdefaults : context.DefaultsInStep bond services' read read')
    (registries : Registries) (place : Place) (value : Value) :
    (branch read context registries place value).InStep bond (fun _ ↦ True)
      (branch read' (context.withServices services') registries place value) := by
  rw [branch.eq_def, branch.eq_def]
  split
  · next entries =>
      exact (inStep_fields h hdefaults registries _ place entries).bind fun _ _ ↦ .pure trivial
  · exact .throw _
termination_by (sizeOf value, 0)

/-- A conditional is read in step, be it with branches or short for a field. -/
theorem inStep_conditional (h : context.services.InStep bond IsProper services')
    (hdefaults : context.DefaultsInStep bond services' read read')
    (registries : Registries) (place : Place) (value : Value) :
    (conditional read context registries place value).InStep bond (fun _ ↦ True)
      (conditional read' (context.withServices services') registries place value) := by
  rw [conditional.eq_def, conditional.eq_def]
  match value with
  | .scalar _ | .array _ => exact .throw _
  | .object entries =>
    refine (Decode.InStep.ofExcept _).bind fun condition _ ↦ ?_
    split
    · exact (inStep_fields h hdefaults registries _ place entries).bind fun _ _ ↦ .pure trivial
    · exact (Decode.InStep.warnAll _).bind fun _ _ ↦ .throw _
    · next thenValue hthen helse =>
      have hsize := Entries.sizeOf_lt_of_get? hthen
      refine (Decode.InStep.warnAll _).bind fun _ _ ↦ ?_
      exact (inStep_branch h hdefaults registries _ thenValue).bind fun _ _ ↦ .pure trivial
    · next thenValue elseValue hthen helse =>
      have hsize := Entries.sizeOf_lt_of_get? hthen
      have hsize' := Entries.sizeOf_lt_of_get? helse
      refine (Decode.InStep.warnAll _).bind fun _ _ ↦ ?_
      refine (inStep_branch h hdefaults registries _ thenValue).bind fun _ _ ↦ ?_
      exact (inStep_branch h hdefaults registries _ elseValue).bind fun _ _ ↦ .pure trivial
termination_by (sizeOf value, 1)
decreasing_by
  all_goals simp only [Value.object.sizeOf_spec, Prod.lex_def]; omega

/-- A list of conditionals is read in step. -/
theorem inStep_conditionals (h : context.services.InStep bond IsProper services')
    (hdefaults : context.DefaultsInStep bond services' read read')
    (registries : Registries) (place : Place) (position : Nat)
    (values : List Value) :
    (conditionals read context registries place position values).InStep bond (fun _ ↦ True)
      (conditionals read' (context.withServices services') registries place position values) := by
  rw [conditionals.eq_def, conditionals.eq_def]
  match values with
  | [] => exact .pure trivial
  | value :: rest =>
    refine (inStep_conditional h hdefaults registries _ value).bind fun _ _ ↦ ?_
    exact (inStep_conditionals h hdefaults registries place _ rest).bind fun _ _ ↦ .pure trivial
termination_by (sizeOf values, 0)

end

end

/-! ### Reading documents in step -/

/-- By induction on the length of the chain of documents, each one is read in step. -/
theorem inStep_document (h : context.services.InStep bond IsProper services') (bound : Nat)
    (registries : Registries) (document : Document) (hdocument : IsProper document.directory) :
    (Context.document bound context registries document).InStep bond (fun _ ↦ True)
      (Context.document bound (context.withServices services') registries document) := by
  induction bound generalizing context registries document with
  | zero => exact .throw _
  | succ bound ih =>
    have henter : (context.enter document).services.InStep bond IsProper services' := h
    have hdefaults := inStep_defaults henter hdocument fun registries document hproper ↦
      ih henter registries document hproper
    exact inStep_scope henter hdefaults registries Place.top document.value

/-- A manifest is read in step with services that answer in step. -/
theorem inStep_package (h : context.services.InStep bond IsProper services')
    (hdirectory : IsProper context.directory) (bound : Nat) (value : Value) :
    (context.package bound value).InStep bond (fun _ ↦ True)
      ((context.withServices services').package bound value) := by
  have hdefaults := inStep_defaults h hdirectory fun registries document hproper ↦
    inStep_document h bound registries document hproper
  cases value with
  | object entries => exact inStep_scope h hdefaults .package Place.top entries
  | scalar | array => exact .throw _

end Context

end CabalManifest
