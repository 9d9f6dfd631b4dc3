import CabalManifest.Proofs.Fitting
import CabalManifest.Proofs.ReadingScopes

/-!
# Scopes are read to fit

What is read of a scope fits its registries, if the documents do that it refers to
(`Context.gives_scope`). Where a scope refers to no document, reading it fails for nothing but faults
of the scope and of finding files.
-/

namespace CabalManifest

/-! ### Parts of a writable value -/

namespace Value

theorem writableItems_iff {items : List Value} :
    writableItems items ↔ ∀ item ∈ items, item.isWritable := by
  induction items with
  | nil => simp [writableItems]
  | cons item items ih => rw [writableItems, Bool.and_eq_true_iff, ih, List.forall_mem_cons]

theorem writableEntries_iff {entries : List (String × Value)} :
    writableEntries entries ↔ ∀ entry ∈ entries, entry.2.isWritable := by
  induction entries with
  | nil => simp [writableEntries]
  | cons entry entries ih => rw [writableEntries, Bool.and_eq_true_iff, ih, List.forall_mem_cons]

theorem isWritable_of_get? {entries : List (String × Value)} (h : writableEntries entries)
    {key : String} {value : Value} (hvalue : Entries.get? entries key = some value) :
    value.isWritable :=
  writableEntries_iff.1 h _ (Entries.mem_of_get?_eq_some hvalue)

end Value

/-! ### Fields that were read -/

namespace FieldSet.Fits

variable {writable : Prop} {registries : Registries} {own own' : List (String × FieldValue)}

theorem append (h : Fits writable registries ⟨own⟩) (h' : Fits writable registries ⟨own'⟩) :
    Fits writable registries ⟨own ++ own'⟩ := by
  obtain ⟨hknown, hfit⟩ := fits_iff.1 h
  obtain ⟨hknown', hfit'⟩ := fits_iff.1 h'
  exact .mk (List.forall_mem_append.2 ⟨hknown, hknown'⟩) (List.forall_mem_append.2 ⟨hfit, hfit'⟩)

theorem singleton {key : String} {field : Field} (hfield : registries.own.find? key = some field)
    {value : FieldValue} (h : value.Fits writable registries.branches field.form) :
    Fits writable registries ⟨[(key, value)]⟩ := by
  refine .mk (List.forall_mem_singleton.2 (by simp [hfield])) (List.forall_mem_singleton.2 ?_)
  intro known hknown
  cases hfield.symm.trans hknown
  exact h

end FieldSet.Fits

namespace Context

variable {σ : Type} {context : Context σ} {allowed : Failure → Prop} {writable : Bool}
  {read : ReadDocument σ}

/-- Whether the documents of a value are read to fit. -/
def DefaultsFit (read : ReadDocument σ) (context : Context σ) (allowed : Failure → Prop)
    (writable : Bool) (registries : Registries) (value : Value) : Prop :=
  ∀ place, (context.defaults read registries place value).Gives allowed
    (·.Fits writable registries)

mutual

theorem gives_fieldValue (hglob : context.services.CanGlob allowed)
    (hfault : ∀ failure, failure.IsFaultOf writable → allowed failure)
    {registries : Registries} (hflat : registries.branches.IsFlat)
    {field : Field} (hfield : field.form ≠ .defaults) (place : Place) (value : Value)
    (hwritable : writable → value.isWritable)
    (h : ForSections (context.DefaultsFit read allowed writable) field.form value) :
    (fieldValue read context registries field place value).Gives allowed
      (·.Fits writable registries.branches field.form) := by
  rw [fieldValue.eq_def]
  split
  · next hform =>
    rw [hform]
    split
    · next values =>
      refine (gives_conditionals hglob hfault registries.branch hflat hflat place 0 values
          fun hw ↦ ?_).bind
        fun items hitems ↦ .pure (.conditionals hitems)
      exact Value.writableItems_iff.1 (hwritable hw)
    · refine (gives_conditional hglob hfault registries.branch hflat hflat place value
          hwritable).bind
        fun item hitem ↦ .pure (.conditionals ?_)
      exact List.forall_mem_singleton.2 hitem
  · next kind hform =>
    rw [hform] at h ⊢
    refine (gives_body hglob hfault kind place value hwritable fun entries hentries ↦ ?_).bind
      fun body hbody ↦ .pure (.body hbody)
    subst hentries
    exact h kind entries (.single kind entries)
  · next kind hform =>
    rw [hform] at h ⊢
    cases value with
    | object entries =>
      refine (gives_bodies hglob hfault kind place entries (fun hw ↦ ?_)
          fun name body hbody ↦ ?_).bind
        fun named hnamed ↦ .pure (.bodies hnamed)
      · exact Value.writableEntries_iff.1 (hwritable hw)
      · exact h kind body (.named kind hbody)
    | scalar | array => exact .throw (hfault _ trivial)
  · next hconditionals hbody hbodies =>
    have hleaf : field.form.isLeaf := by
      cases hform : field.form <;> simp_all [Form.isLeaf]
    have hvalue : ∀ failure, failure.IsFaultOf value.isWritable → allowed failure :=
      fun failure hfailure ↦ hfault failure (hfailure.imp hwritable)
    refine (context.reads_value hglob hleaf place value hvalue).gives.imp fun result hresult ↦ ?_
    by_cases hform : field.form = .flags
    · obtain ⟨flags, rfl, -⟩ := hresult.2.1 hform
      exact hform ▸ .flags _ _
    · exact .leaf hleaf hform (hresult.1 hform) fun hw ↦ hresult.2.2 (hwritable hw)
termination_by (sizeOf value, 2)

theorem gives_fields (hglob : context.services.CanGlob allowed)
    (hfault : ∀ failure, failure.IsFaultOf writable → allowed failure)
    {registries : Registries} (hflat : registries.branches.IsFlat)
    (skip : String → Bool) (place : Place) (entries : List (String × Value))
    (hwritable : writable → ∀ entry ∈ entries, entry.2.isWritable)
    (h : ForFields (context.DefaultsFit read allowed writable) registries entries) :
    (fields read context registries skip place entries).Gives allowed
      fun own ↦ FieldSet.Fits writable registries ⟨own⟩ := by
  rw [fields.eq_def]
  match entries, hwritable, h with
  | [], _, _ => exact .pure FieldSet.fits_empty
  | (key, value) :: rest, hwritable, h =>
    have hfirst : writable → value.isWritable := fun hw ↦ hwritable hw _ List.mem_cons_self
    have htail : writable → ∀ entry ∈ rest, entry.2.isWritable := fun hw entry hentry ↦
      hwritable hw entry (List.mem_cons_of_mem _ hentry)
    -- Whatever becomes of the first entry, the others are read in the same way.
    have hrest : ∀ found : Option (String × FieldValue),
        FieldSet.Fits writable registries ⟨found.toList⟩ →
          Decode.Gives allowed (fun own ↦ FieldSet.Fits writable registries ⟨own⟩)
            (do return found.toList ++ (← fields read context registries skip place rest)) :=
      fun found hfound ↦ (gives_fields hglob hfault hflat skip place rest htail h.tail).bind
          fun own hown ↦
        .pure (hfound.append hown)
    have hnone := hrest none FieldSet.fits_empty
    simp only
    split
    · exact hnone
    · next hskip =>
      have hkey : isPrivate key = false := by simp_all
      split
      · exact (Decode.Reads.warn _).gives.bind fun _ _ ↦ hnone
      · next field hfield =>
        split
        · exact hnone
        · next hform =>
          have hsections := h key value List.mem_cons_self hkey field hfield
          refine (gives_fieldValue hglob hfault hflat hform (place.key key) value hfirst
              hsections).bind
            fun result hresult ↦ ?_
          exact hrest (some (key, result)) (.singleton hfield hresult)
termination_by (sizeOf entries, 0)

/-- A scope is read to fit its registries. -/
theorem gives_scope (hglob : context.services.CanGlob allowed)
    (hfault : ∀ failure, failure.IsFaultOf writable → allowed failure)
    {registries : Registries} (hflat : registries.branches.IsFlat)
    (place : Place) (entries : List (String × Value))
    (hwritable : writable → ∀ entry ∈ entries, entry.2.isWritable)
    (h : ∀ inner target, Refers registries entries inner target →
      context.DefaultsFit read allowed writable inner target) :
    (scope read context registries place entries).Gives allowed (·.Fits writable registries) := by
  rw [scope.eq_def]
  refine (gives_fields hglob hfault hflat _ place entries hwritable (.of_refers h)).bind
      fun own hown ↦ ?_
  split
  · next value field hvalue hfield =>
    have hreads := h registries value (.own hvalue (by simp [hfield])) (place.key "defaults")
    exact hreads.bind fun inherited hinherited ↦ .pure (hinherited.merge hown)
  · exact .pure hown
termination_by (sizeOf entries, 1)

theorem gives_body (hglob : context.services.CanGlob allowed)
    (hfault : ∀ failure, failure.IsFaultOf writable → allowed failure)
    (kind : SectionKind) (place : Place) (value : Value)
    (hwritable : writable → value.isWritable)
    (h : ∀ entries, value = .object entries → ∀ inner target,
      Refers (.ofSection kind) entries inner target →
        context.DefaultsFit read allowed writable inner target) :
    (body read context kind place value).Gives allowed (·.Fits writable (.ofSection kind)) := by
  rw [body.eq_def]
  split
  · exact .pure FieldSet.fits_empty
  · next entries =>
    have hflat := Registries.isFlat_branches_ofSection kind
    refine gives_scope hglob hfault hflat place entries (fun hw ↦ ?_) (h entries rfl)
    exact Value.writableEntries_iff.1 (hwritable hw)
  · exact .throw (hfault _ trivial)
termination_by (sizeOf value, 1)

theorem gives_bodies (hglob : context.services.CanGlob allowed)
    (hfault : ∀ failure, failure.IsFaultOf writable → allowed failure)
    (kind : SectionKind) (place : Place) (entries : List (String × Value))
    (hwritable : writable → ∀ entry ∈ entries, entry.2.isWritable)
    (h : ∀ name body, (name, .object body) ∈ entries → ∀ inner target,
      Refers (.ofSection kind) body inner target →
        context.DefaultsFit read allowed writable inner target) :
    (bodies read context kind place entries).Gives allowed
      fun named ↦ ∀ entry ∈ named, entry.2.Fits writable (.ofSection kind) := by
  rw [bodies.eq_def]
  match entries, hwritable, h with
  | [], _, _ => exact .pure (List.forall_mem_nil _)
  | (name, value) :: rest, hwritable, h =>
    have hfirst : writable → value.isWritable := fun hw ↦ hwritable hw _ List.mem_cons_self
    have htail : writable → ∀ entry ∈ rest, entry.2.isWritable := fun hw entry hentry ↦
      hwritable hw entry (List.mem_cons_of_mem _ hentry)
    refine (gives_body hglob hfault kind (place.key name) value hfirst fun body hbody ↦ ?_).bind
      fun body hbody ↦ ?_
    · subst hbody
      exact h name body List.mem_cons_self
    · refine (gives_bodies hglob hfault kind place rest htail fun name body hmem ↦ ?_).bind
        fun named hnamed ↦ .pure (List.forall_mem_cons.2 ⟨hbody, hnamed⟩)
      exact h name body (List.mem_cons_of_mem _ hmem)
termination_by (sizeOf entries, 0)

theorem gives_branch (hglob : context.services.CanGlob allowed)
    (hfault : ∀ failure, failure.IsFaultOf writable → allowed failure)
    (registries : Registries) (hown : registries.own.IsFlat)
    (hflat : registries.branches.IsFlat) (place : Place) (value : Value)
    (hwritable : writable → value.isWritable) :
    (branch read context registries place value).Gives allowed (·.Fits writable registries) := by
  rw [branch.eq_def]
  split
  · next entries =>
    refine (gives_fields hglob hfault hflat _ place entries (fun hw ↦ ?_) (.of_isFlat hown
        entries)).bind
      fun own hfits ↦ .pure hfits
    exact Value.writableEntries_iff.1 (hwritable hw)
  · exact .throw (hfault _ trivial)
termination_by (sizeOf value, 0)

/-- The branches of a conditional are read to fit. -/
theorem gives_conditional (hglob : context.services.CanGlob allowed)
    (hfault : ∀ failure, failure.IsFaultOf writable → allowed failure)
    (registries : Registries) (hown : registries.own.IsFlat)
    (hflat : registries.branches.IsFlat) (place : Place) (value : Value)
    (hwritable : writable → value.isWritable) :
    (conditional read context registries place value).Gives allowed
      fun item ↦ ∀ branch ∈ item.branches, branch.Fits writable registries := by
  rw [conditional.eq_def]
  match value, hwritable with
  | .scalar _, _ | .array _, _ => exact .throw (hfault _ trivial)
  | .object entries, hwritable =>
    have hcondition := (context.yields_condition place entries).allow fun failure hfailure ↦
      hfault failure (hfailure.imp fun _ ↦ rfl)
    refine (Decode.Reads.ofExcept hcondition).gives.bind fun condition _ ↦ ?_
    split
    · refine (gives_fields hglob hfault hflat _ place entries (fun hw ↦ ?_) (.of_isFlat hown
          entries)).bind
        fun own hfits ↦ .pure (List.forall_mem_singleton.2 hfits)
      exact Value.writableEntries_iff.1 (hwritable hw)
    · exact (Decode.Reads.warnAll _).gives.bind fun _ _ ↦ .throw (hfault _ trivial)
    · next thenValue hthen helse =>
      have hsize := Entries.sizeOf_lt_of_get? hthen
      have hwritableThen : writable → thenValue.isWritable := fun hw ↦
        Value.isWritable_of_get? (hwritable hw) hthen
      refine (Decode.Reads.warnAll _).gives.bind fun _ _ ↦ ?_
      exact (gives_branch hglob hfault registries hown hflat _ thenValue hwritableThen).bind
        fun thenFields hfits ↦ .pure (List.forall_mem_singleton.2 hfits)
    · next thenValue elseValue hthen helse =>
      -- Both branches stand under keys of the conditional, so that they are smaller.
      have hsize := Entries.sizeOf_lt_of_get? hthen
      have hsize' := Entries.sizeOf_lt_of_get? helse
      have hwritableThen : writable → thenValue.isWritable := fun hw ↦
        Value.isWritable_of_get? (hwritable hw) hthen
      have hwritableElse : writable → elseValue.isWritable := fun hw ↦
        Value.isWritable_of_get? (hwritable hw) helse
      refine (Decode.Reads.warnAll _).gives.bind fun _ _ ↦ ?_
      refine (gives_branch hglob hfault registries hown hflat _ thenValue hwritableThen).bind
        fun thenFields hfits ↦ ?_
      refine (gives_branch hglob hfault registries hown hflat _ elseValue hwritableElse).bind
        fun elseFields hfits' ↦ .pure ?_
      exact List.forall_mem_cons.2 ⟨hfits, List.forall_mem_singleton.2 hfits'⟩
termination_by (sizeOf value, 1)
decreasing_by
  all_goals simp only [Value.object.sizeOf_spec, Prod.lex_def]; omega

theorem gives_conditionals (hglob : context.services.CanGlob allowed)
    (hfault : ∀ failure, failure.IsFaultOf writable → allowed failure)
    (registries : Registries) (hown : registries.own.IsFlat)
    (hflat : registries.branches.IsFlat) (place : Place) (position : Nat) (values : List Value)
    (hwritable : writable → ∀ value ∈ values, value.isWritable) :
    (conditionals read context registries place position values).Gives allowed
      fun items ↦ ∀ item ∈ items, ∀ branch ∈ item.branches, branch.Fits writable registries := by
  rw [conditionals.eq_def]
  match values, hwritable with
  | [], _ => exact .pure (List.forall_mem_nil _)
  | value :: rest, hwritable =>
    refine (gives_conditional hglob hfault registries hown hflat _ value fun hw ↦ ?_).bind
        fun item hitem ↦ ?_
    · exact hwritable hw _ List.mem_cons_self
    · refine (gives_conditionals hglob hfault registries hown hflat place _ rest
          fun hw item hmem ↦ ?_).bind
        fun items hitems ↦ .pure (List.forall_mem_cons.2 ⟨hitem, hitems⟩)
      exact hwritable hw item (List.mem_cons_of_mem _ hmem)
termination_by (sizeOf values, 0)

end

/-- A manifest is read to fit if the documents are that it refers to. -/
theorem gives_package (hglob : context.services.CanGlob allowed)
    (hfault : ∀ failure, failure.IsFaultOf writable → allowed failure) {bound : Nat} {value : Value}
    (hwritable : writable → value.isWritable)
    (h : ∀ entries, value = .object entries → ∀ inner target,
      Refers .package entries inner target →
        context.DefaultsFit (document bound) allowed writable inner target) :
    (context.package bound value).Gives allowed (·.Fits writable .package) := by
  rw [package.eq_def]
  split
  · next entries =>
    refine gives_scope hglob hfault Registries.isFlat_branches_package Place.top entries
      (fun hw ↦ ?_) (h entries rfl)
    exact Value.writableEntries_iff.1 (hwritable hw)
  · exact .throw (hfault _ trivial)

/-! ### Documents -/

/-- What a scope inherits fits it, if the documents do that it inherits from. -/
theorem gives_inherit {registries : Registries} (hread : ∀ document,
      (read context registries document).Gives (fun _ ↦ True) (·.Fits writable registries))
    {inherited : FieldSet} (hinherited : inherited.Fits writable registries)
    (references : List Reference) :
    (inherit read context registries inherited references).Gives (fun _ ↦ True)
      (·.Fits writable registries) := by
  induction references generalizing inherited with
  | nil => exact .pure hinherited
  | cons reference rest ih =>
    rw [inherit]
    have hresolve : (context.resolve reference).Gives (fun _ ↦ True) fun _ ↦ True := fun s ↦ by
      cases ((context.resolve reference).run s).1 with
      | error failure => exact .error trivial
      | ok document => exact .ok trivial
    refine hresolve.bind fun document _ ↦ ?_
    exact (hread document).bind fun fields hfields ↦ ih (hinherited.merge hfields)

theorem defaultsFit_of_read {registries : Registries} (hread : ∀ document,
      (read context registries document).Gives (fun _ ↦ True) (·.Fits writable registries))
    (value : Value) : context.DefaultsFit read (fun _ ↦ True) writable registries value := by
  intro place
  rw [defaults]
  rcases Reference.listOf context.source place value with ⟨warnings, result⟩
  refine (Decode.Reads.warnAll warnings).gives.bind fun _ _ ↦ ?_
  cases result with
  | error failure =>
    exact Decode.Gives.bind (p := fun _ ↦ False) (.throw trivial) fun _ h ↦ h.elim
  | ok references =>
    refine Decode.Gives.bind (p := fun _ ↦ True) (.pure trivial) fun references _ ↦ ?_
    split
    · exact Decode.Gives.bind (p := fun _ ↦ False) (.throw trivial) fun _ h ↦ h.elim
    · exact gives_inherit hread FieldSet.fits_empty references

/-- Every document is read to fit the scope that refers to it. -/
theorem gives_document (bound : Nat) {registries : Registries} (hscope : registries.IsScope)
    (context : Context σ) (document : Document) :
    (Context.document bound context registries document).Gives (fun _ ↦ True)
      (·.Fits (false = true) registries) := by
  induction bound generalizing registries context document with
  | zero => exact .throw trivial
  | succ bound ih =>
    refine gives_scope (fun _ _ _ _ ↦ trivial) (fun _ _ ↦ trivial) hscope.isFlat Place.top
      document.value nofun fun inner target hrefers ↦ ?_
    exact defaultsFit_of_read (ih (hrefers.isScope hscope) _) target

/-- Every manifest is read to fit. -/
theorem fits_of_run_package {bound : Nat} {value : Value} {top : FieldSet} {s t : Progress σ}
    (h : (context.package bound value).run s = (.ok top, t)) : top.Fits False .package := by
  have hgives : (context.package bound value).Gives (fun _ ↦ True)
      (·.Fits (false = true) .package) := by
    refine gives_package (fun _ _ _ _ ↦ trivial) (fun _ _ ↦ trivial) nofun
      fun entries _ inner target hrefers ↦ ?_
    exact defaultsFit_of_read (gives_document bound (hrefers.isScope (.inl rfl)) _) target
  exact Bool.false_eq_true ▸ hgives.of_run h

end Context

end CabalManifest
