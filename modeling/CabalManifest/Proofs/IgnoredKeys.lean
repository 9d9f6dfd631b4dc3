import CabalManifest.Proofs.Insertions

/-!
# Ignored keys

A key that nobody reads can be inserted into any object of a manifest, or of a document that it
refers to: what is read stays the same, and so does every failure. The warnings only grow by one
message each time that reading comes to the key, and by none if the key is private
(`Context.package_insertion`). How often reading comes there is what the tour tells
(`Context.packageTour`).
-/

namespace CabalManifest

variable {σ α β γ δ : Type}

theorem Matches.eq {result result' : Except Failure α} (h : Matches Eq Eq result result') :
    result = result' := by
  cases h with
  | ok h => exact congrArg _ h
  | error h => exact congrArg _ h

/-! ### Computations that a key leaves alone -/

namespace Decode

/-- Whether two computations go alike but for messages about a key that is inserted: one message at
each spot of the tour where the key is. -/
def Unmoved (insertion : Insertion) (ties : σ → σ → Prop) (p : α → β → Prop) (tour : Tour σ)
    (m : Decode σ α) (n : Decode σ β) : Prop :=
  ∀ s t, ties s.state t.state → (∀ spot ∈ tour s, insertion.IsIgnoredAt spot) →
    ties (m.run s).2.state (n.run t).2.state ∧ Matches Eq p (m.run s).1 (n.run t).1 ∧
      ∃ warnings warnings', (m.run s).2.warnings = s.warnings ++ warnings ∧
        (n.run t).2.warnings = t.warnings ++ warnings' ∧
          Woven (insertion.messages (tour s)) warnings warnings'

namespace Unmoved

variable {insertion : Insertion} {ties : σ → σ → Prop} {p : α → β → Prop} {q : γ → δ → Prop}
  {tour : Tour σ} {m : Decode σ α} {n : Decode σ β}

/-- Computations that tell nothing and come to no object. -/
theorem silent (h : ∀ s t, ties s.state t.state → ties (m.run s).2.state (n.run t).2.state ∧
      Matches Eq p (m.run s).1 (n.run t).1 ∧ (m.run s).2.warnings = s.warnings ∧
        (n.run t).2.warnings = t.warnings) :
    m.Unmoved insertion ties p (.through []) n := by
  intro s t hties _
  obtain ⟨hafter, hmatches, hsame, hsame'⟩ := h s t hties
  have hmessages : insertion.messages (Tour.through [] s) = [] := insertion.messages_nil
  exact ⟨hafter, hmatches, [], [], hsame.trans (List.append_nil _).symm,
    hsame'.trans (List.append_nil _).symm, hmessages ▸ .nil⟩

/-- A result that is the same with the key and without it comes to no spot. -/
theorem ofExcept {result : Except Failure α} {result' : Except Failure β}
    (h : Matches Eq p result result') :
    (Decode.ofExcept result : Decode σ α).Unmoved insertion ties p (.through [])
      (Decode.ofExcept result') := by
  refine silent fun s t hties ↦ ?_
  cases h with
  | ok h => exact ⟨hties, .ok h, rfl, rfl⟩
  | error h => exact ⟨hties, .error h, rfl, rfl⟩

theorem pure {a : α} {b : β} (h : p a b) :
    (Pure.pure a : Decode σ α).Unmoved insertion ties p (.through []) (Pure.pure b) :=
  ofExcept (.ok h)

/-- A result that is the same. -/
theorem same (result : Except Failure α) : (Decode.ofExcept result : Decode σ α).Unmoved insertion
    ties Eq (.through []) (Decode.ofExcept result) :=
  ofExcept (.refl (fun _ ↦ rfl) (fun _ ↦ rfl) result)

/-- Warnings that grow by the messages about a key. -/
theorem warnAll {spots : List Spot} {warnings warnings' : List Warning}
    (h : (∀ spot ∈ spots, insertion.IsIgnoredAt spot) →
      Woven (insertion.messages spots) warnings warnings') :
    (Decode.warnAll warnings : Decode σ Unit).Unmoved insertion ties Eq (.through spots)
      (Decode.warnAll warnings') :=
  fun _ _ hties hignored ↦ ⟨hties, .ok rfl, warnings, warnings', rfl, rfl, h hignored⟩

theorem warn (warning : Warning) : (Decode.warn warning : Decode σ Unit).Unmoved insertion ties Eq
    (.through []) (Decode.warn warning) := by
  have hwoven : Woven (insertion.messages []) [warning] [warning] :=
    insertion.messages_nil ▸ .onlyRight _
  exact warnAll fun _ ↦ hwoven

/-- One computation after another comes to the spots of both, and tells of the key in this order. -/
theorem bind {next : α → Tour σ} {k : α → Decode σ γ} {l : β → Decode σ δ}
    (h : m.Unmoved insertion ties p tour n)
    (hk : ∀ a b, p a b → (k a).Unmoved insertion ties q (next a) (l b)) :
    (m >>= k).Unmoved insertion ties q (tour.followed m next) (n >>= l) := by
  intro s t hties hignored
  -- A failure ends the tour. Otherwise the tour goes on, and so do the warnings.
  rcases hm : m.run s with ⟨failure | a, s'⟩
  · rw [Tour.followed_of_error hm] at hignored ⊢
    obtain ⟨hafter, hmatches, hwarnings⟩ := h s t hties hignored
    rcases hn : n.run t with ⟨result, t'⟩
    rw [hm, hn] at hafter hmatches hwarnings
    cases hmatches with
    | error hfailure =>
      rw [run_bind_of_error hm, run_bind_of_error hn]
      exact ⟨hafter, .error hfailure, hwarnings⟩
  · rw [Tour.followed_of_ok hm] at hignored ⊢
    rw [List.forall_mem_append] at hignored
    obtain ⟨hafter, hmatches, first, first', hfirst, hfirst', hwoven⟩ := h s t hties hignored.1
    rcases hn : n.run t with ⟨result, t'⟩
    rw [hm, hn] at hafter hmatches
    rw [hm] at hfirst
    rw [hn] at hfirst'
    cases hmatches with
    | ok hab =>
      rw [run_bind_of_ok hm, run_bind_of_ok hn, insertion.messages_append]
      obtain ⟨hend, hresults, rest, rest', hrest, hrest', hwoven'⟩ :=
        hk _ _ hab s' t' hafter hignored.2
      refine ⟨hend, hresults, first ++ rest, first' ++ rest', ?_, ?_, hwoven.append hwoven'⟩
      · rw [hrest, hfirst, List.append_assoc]
      · rw [hrest', hfirst', List.append_assoc]

/-- Computations with equal results go on with the same result. -/
theorem bind_eq {n : Decode σ α} {next : α → Tour σ} {k : α → Decode σ γ} {l : α → Decode σ δ}
    (h : m.Unmoved insertion ties Eq tour n)
    (hk : ∀ a, (k a).Unmoved insertion ties q (next a) (l a)) :
    (m >>= k).Unmoved insertion ties q (tour.followed m next) (n >>= l) :=
  h.bind fun a _ hab ↦ hab ▸ hk a

/-- What is made of equal results is no further stop. -/
theorem map {n : Decode σ α} (h : m.Unmoved insertion ties Eq tour n) (f : α → γ) :
    (m >>= fun a ↦ Pure.pure (f a)).Unmoved insertion ties Eq tour
      (n >>= fun a ↦ Pure.pure (f a)) := by
  have hbind := h.bind_eq fun a ↦ (pure rfl : Unmoved insertion ties Eq (.through [])
    (Pure.pure (f a) : Decode σ γ) (Pure.pure (f a)))
  rwa [tour.followed_through_nil] at hbind

/-- The key is ignored at the spots of the tour, so that this can be taken for granted. -/
theorem of_ignored {spots : List Spot} (hspots : ∀ s, spots ⊆ tour s)
    (h : (∀ spot ∈ spots, insertion.IsIgnoredAt spot) → m.Unmoved insertion ties p tour n) :
    m.Unmoved insertion ties p tour n := fun s t hties hignored ↦
  h (fun _ hspot ↦ hignored _ (hspots s hspot)) s t hties hignored

/-- Nothing but the spots of a tour counts. -/
theorem of_tour_eq {tour' : Tour σ} (h : m.Unmoved insertion ties p tour n)
    (htour : ∀ s, tour' s = tour s) : m.Unmoved insertion ties p tour' n :=
  (funext htour : tour' = tour) ▸ h

/-- Computations that come to no spot come to none for the items of a list, one after another. -/
theorem mapM {f : α → Decode σ β} (items : List α)
    (h : ∀ item, (f item).Unmoved insertion ties Eq (.through []) (f item)) :
    (items.mapM f).Unmoved insertion ties Eq (.through []) (items.mapM f) := by
  induction items with
  | nil => exact pure rfl
  | cons item items ih =>
    rw [List.mapM_cons]
    have hbind := (h item).bind_eq fun a ↦ ih.map fun rest ↦ a :: rest
    rwa [Tour.followed_through_nil] at hbind

end Unmoved

end Decode

/-! ### Services and documents -/

/-- Documents into which a key is inserted. -/
def Insertion.change (insertion : Insertion) : Change where
  relates canonical value value' := value' = insertion.alter (some canonical) Place.top .scope value
  object_or_eq := by
    rintro canonical value _ rfl
    cases value with
    | object entries => exact .inl ⟨entries, _, rfl, insertion.alter_object _ _ _ entries⟩
    | scalar s => exact .inr (insertion.alter_scalar _ _ _ s)
    | array => exact .inr (insertion.alter_scope_eq_self _ _ (by simp [Value.shape]))

/-- Where a key is inserted into the manifest, documents stay as they are. -/
theorem Insertion.relates_self {insertion : Insertion} (h : insertion.document = none)
    (canonical : String) (value : Value) : insertion.change.relates canonical value value := by
  have hrest : insertion.rest? (some canonical) Place.top = none := by
    rw [rest?, h, if_neg (Option.some_ne_none canonical)]
  exact (alter_of_none _ _ _ _ hrest value).symm

/-- Whether services in states that are tied find the same files and give the same documents, but
for the key that is inserted. -/
structure Services.Insert (services : Services σ) (insertion : Insertion) (ties : σ → σ → Prop) :
    Prop where
  glob : ∀ pattern s t, ties s t → services.glob pattern t = services.glob pattern s
  resolve : ∀ resolve ∈ services.resolve?, ∀ reference visited base s t, ties s t →
    ties (resolve reference visited base s).2 (resolve reference visited base t).2 ∧
      Matches Eq (Document.Changes insertion.change) (resolve reference visited base s).1
        (resolve reference visited base t).1

namespace Context

variable {insertion : Insertion} {ties : σ → σ → Prop} {context : Context σ}

/-- A reference resolves to the same document, but for the key that is inserted into it. -/
theorem unmoved_resolve (h : context.services.Insert insertion ties) (reference : Reference) :
    (context.resolve reference).Unmoved insertion ties (Document.Changes insertion.change)
      (.through []) (context.resolve reference) := by
  refine .silent fun s t hties ↦ ?_
  cases hresolve : context.services.resolve? with
  | none =>
    rw [context.run_resolve_of_none hresolve, context.run_resolve_of_none hresolve]
    exact ⟨hties, .error rfl, rfl, rfl⟩
  | some resolve =>
    rw [context.run_resolve hresolve, context.run_resolve hresolve]
    obtain ⟨hafter, hmatches⟩ := h.resolve resolve hresolve reference context.visited
      context.directory s.state t.state hties
    exact ⟨hafter, hmatches, rfl, rfl⟩

/-! ### Values -/

/-- Files are found by patterns, and no document tells a pattern what to find. -/
theorem unmoved_glob (h : context.services.Insert insertion ties) (pattern : String) :
    (context.glob pattern).Unmoved insertion ties Eq (.through []) (context.glob pattern) := by
  refine .silent fun s t hties ↦ ?_
  have hrun : ∀ u, (context.glob pattern).run u =
      (Decode.ofExcept (context.services.glob pattern u.state) : Decode σ _).run u := fun _ ↦ rfl
  rw [hrun, hrun, h.glob pattern s.state t.state hties]
  cases context.services.glob pattern s.state with
  | ok found => exact ⟨hties, .ok rfl, rfl, rfl⟩
  | error failure => exact ⟨hties, .error rfl, rfl, rfl⟩

theorem unmoved_files (h : context.services.Insert insertion ties) (field : String)
    (patterns : List String) : (context.files field patterns).Unmoved insertion ties Eq
      (.through []) (context.files field patterns) := by
  refine (Decode.Unmoved.mapM patterns fun pattern ↦ ?_).map fun found ↦ found.flatten.eraseDups
  have hfound : ∀ found : List String, (do
      if found.isEmpty then Decode.warn (.unmatched pattern field)
      return found : Decode σ (List String)).Unmoved insertion ties Eq (.through []) (do
      if found.isEmpty then Decode.warn (.unmatched pattern field)
      return found) := by
    intro found
    split
    · exact (Decode.Unmoved.warn _).map fun _ ↦ found
    · exact .pure rfl
  have hbind := (unmoved_glob h pattern).bind_eq hfound
  rwa [Tour.followed_through_nil] at hbind

/-- What is known in an object stands in it as before: the key that is inserted is not known. -/
theorem get?_known {knows : String → Bool} {place : Place} {kind : ValueKind}
    {entries : List (String × Value)} {name : String}
    (h : ∀ spot ∈ context.spots knows place 0 entries, insertion.IsIgnoredAt spot)
    (hname : knows name = true) (hprivate : isPrivate name = false)
    (hpart : kind.part (.key name) = .other) :
    Entries.get? (insertion.entries context.document? place kind 0 entries) name =
      Entries.get? entries name := by
  rw [Insertion.get?_entries_of_ignored h hname hprivate, hpart]
  cases Entries.get? entries name with
  | none => rfl
  | some value => exact congrArg some (insertion.alter_other _ _ value)

/-- What is unknown in an object that is read at once. -/
theorem unmoved_unknownKeys (context : Context σ) (keys : List String) (place : Place)
    (kind : ValueKind) (entries : List (String × Value)) (hadmits : isPrivate insertion.key ∨
      keys.contains insertion.key = false → kind.admits insertion.key) :
    (Decode.warnAll (context.unknownKeys keys place entries)).Unmoved insertion ties Eq
      (.through (context.spots keys.contains place 0 entries))
      (Decode.warnAll (context.unknownKeys keys place
        (insertion.entries context.document? place kind 0 entries))) :=
  .warnAll fun hignored ↦ Insertion.woven_unknownKeys hadmits hignored

theorem isPrivate_of_mem_flagKeys : ∀ key ∈ flagKeys, isPrivate key = false := by
  decide

/-- The flags of a package are read as before, with a warning for the key in one of them. -/
theorem unmoved_flags (place : Place) (position : Nat) (entries : List (String × Value)) :
    (context.flags place entries).Unmoved insertion ties Eq
      (.through (context.flagSpots place entries))
      (context.flags place
        (insertion.entries context.document? place .flags position entries)) := by
  have hhere : ∀ position, insertion.here context.document? place .flags position = [] := by
    intro position
    rw [Insertion.here, if_neg]
    rintro ⟨-, -, ⟨⟩⟩
  induction entries generalizing position with
  | nil =>
    rw [Insertion.entries, hhere]
    exact .pure rfl
  | cons entry rest ih =>
    obtain ⟨name, value⟩ := entry
    rw [Insertion.entries, hhere, List.nil_append]
    cases value with
    | scalar s =>
      rw [Insertion.alter_scalar]
      exact .same _
    | array items =>
      rw [Insertion.alter_array]
      exact .same _
    | object body =>
      rw [Insertion.alter_object]
      refine .of_ignored (fun _ ↦ List.subset_append_left _ _) fun hignored ↦ ?_
      have hflag : context.flagOf name (place.key name)
          (insertion.entries context.document? (place.key name) .flag 0 body) =
            context.flagOf name (place.key name) body :=
        flagOf_congr (fun key hkey ↦ get?_known hignored (List.contains_iff_mem.2 hkey)
          (isPrivate_of_mem_flagKeys key hkey) rfl) name _
      have hkind : (ValueKind.flags.part (.key name)).settle (.object body) = .flag := rfl
      have hwarn : Decode.Unmoved insertion ties Eq (.through _) (Decode.warnAll _) _ :=
        context.unmoved_unknownKeys flagKeys (place.key name) .flag body fun _ ↦ rfl
      have hbind := hwarn.bind_eq fun _ ↦
        (Decode.Unmoved.same (context.flagOf name (place.key name) body)).bind_eq fun flag ↦
          (ih (position + 1)).map fun rest ↦ (name, flag) :: rest
      rw [flags, flags, hkind, hflag]
      refine hbind.of_tour_eq fun s ↦ ?_
      rw [Tour.through, flagSpots]
      cases context.flagOf name (place.key name) body <;> rfl

/-- A value without scopes in it is read as before. -/
theorem unmoved_value (h : context.services.Insert insertion ties) (field : Field) (place : Place)
    (value : Value) : (context.value field place value).Unmoved insertion ties Eq
      (.through (context.valueSpots field place value)) (context.value field place
        (insertion.alter context.document? place (.ofForm field.form) value)) := by
  rw [valueSpots.eq_def, Context.value.eq_def, Context.value.eq_def]
  cases field.form with
  | flags =>
    cases value with
    | object entries =>
      rw [Insertion.alter_object]
      exact (unmoved_flags place 0 entries).map _
    | scalar s =>
      rw [Insertion.alter_scalar]
      exact .same _
    | array items =>
      rw [Insertion.alter_array]
      exact .same _
  | globs =>
    have hsame : insertion.alter context.document? place (ValueKind.ofForm .globs) value = value :=
      insertion.alter_other _ _ value
    rw [hsame]
    have hbind := (Decode.Unmoved.same (context.texts place value)).bind_eq fun patterns ↦
      (unmoved_files h field.key patterns).map FieldValue.texts
    rwa [Tour.followed_through_nil] at hbind
  | body | bodies | conditionals | defaults => exact .pure rfl
  | _ =>
    have hsame : insertion.alter context.document? place .other value = value :=
      insertion.alter_other _ _ value
    simp only [ValueKind.ofForm, hsame]
    exact .same _

/-! ### References -/

theorem isPrivate_of_mem_keys : ∀ key ∈ Reference.keys, isPrivate key = false := by
  decide

/-- Whether what is read with warnings stays the same, but for messages about the key. -/
def Spares (insertion : Insertion) (spots : List Spot) (warned warned' : Warned α) : Prop :=
  (∀ spot ∈ spots, insertion.IsIgnoredAt spot) →
    Woven (insertion.messages spots) warned.1 warned'.1 ∧ warned'.2 = warned.2

/-- A reference is read as before: its keys are known, and the key is none of them. -/
theorem spares_ofValue (place : Place) (value : Value) :
    Spares insertion (context.referenceSpots place value)
      (Reference.ofValue context.source place value) (Reference.ofValue context.source place
        (insertion.alter context.document? place .reference value)) := by
  intro hignored
  have hnil : Woven (insertion.messages []) [] [] := insertion.messages_nil ▸ .nil
  cases value with
  | object entries =>
    have hkind : ValueKind.reference.settle (.object entries) = .reference := rfl
    have hwoven : Woven _ (context.unknownKeys Reference.keys place entries)
        (context.unknownKeys Reference.keys place
          (insertion.entries context.document? place .reference 0 entries)) :=
      Insertion.woven_unknownKeys (fun _ ↦ rfl) hignored
    rw [Insertion.alter_object, hkind]
    refine ⟨hwoven, Reference.ofEntries_congr fun key hkey ↦ ?_⟩
    exact get?_known hignored (List.contains_iff_mem.2 hkey) (isPrivate_of_mem_keys key hkey) rfl
  | scalar s =>
    have hwarnings : (Reference.ofValue context.source place (.scalar s)).1 = [] := by
      rw [Reference.ofValue.eq_def]
      split
      · split <;> rfl
      · next heq => cases heq
      · rfl
    rw [Insertion.alter_scalar, hwarnings]
    exact ⟨hnil, rfl⟩
  | array items =>
    rw [Insertion.alter_array]
    exact ⟨hnil, rfl⟩

/-- A list of references is read as before, item by item. -/
theorem spares_ofItems (place : Place) (position : Nat) (items : List Value) :
    Spares insertion (context.referenceItemSpots place position items)
      (Reference.ofItems context.source place position items)
      (Reference.ofItems context.source place position
        (insertion.items context.document? place .references position items)) := by
  induction items generalizing position with
  | nil => exact fun _ ↦ ⟨insertion.messages_nil ▸ .nil, rfl⟩
  | cons item items ih =>
    intro hignored
    have hkind : ValueKind.references.part (.index position) = .reference := rfl
    rw [referenceItemSpots, List.forall_mem_append] at hignored
    obtain ⟨hwoven, hresult⟩ := spares_ofValue (place.index position) item hignored.1
    have hrest := ih (position + 1)
    rw [referenceItemSpots, Insertion.items, hkind, Reference.ofItems, Reference.ofItems,
      insertion.messages_append]
    generalize Reference.ofValue context.source (place.index position) item = first
      at hignored hwoven hresult ⊢
    generalize Reference.ofValue context.source (place.index position) _ = first'
      at hwoven hresult ⊢
    obtain ⟨warnings, result⟩ := first
    obtain ⟨warnings', result'⟩ := first'
    obtain rfl : result' = result := hresult
    cases result' with
    | error failure =>
      rw [insertion.messages_nil, List.append_nil]
      exact ⟨hwoven, rfl⟩
    | ok reference =>
      obtain ⟨hwoven', hsame⟩ := hrest hignored.2
      exact ⟨hwoven.append hwoven', congrArg (Except.map (reference :: ·)) hsame⟩

/-- One reference or a list of them is read as before. -/
theorem spares_listOf (place : Place) (value : Value) :
    Spares insertion (context.referenceListSpots place value)
      (Reference.listOf context.source place value) (Reference.listOf context.source place
        (insertion.alter context.document? place .references value)) := by
  -- What stands in for the array of it is read as a reference.
  have hlone : Spares insertion (context.referenceSpots place value) _ _ :=
    spares_ofValue place value
  cases value with
  | array items =>
    rw [Insertion.alter_array]
    exact spares_ofItems place 0 items
  | scalar s =>
    rw [Insertion.alter_scalar] at hlone ⊢
    exact fun hignored ↦ ⟨(hlone hignored).1, congrArg (Except.map ([·])) (hlone hignored).2⟩
  | object entries =>
    rw [Insertion.alter_object] at hlone ⊢
    exact fun hignored ↦ ⟨(hlone hignored).1, congrArg (Except.map ([·])) (hlone hignored).2⟩

theorem unmoved_listReferences (place : Place) (value : Value) :
    (context.listReferences place value).Unmoved insertion ties Eq
      (.through (context.referenceListSpots place value)) (context.listReferences place
        (insertion.alter context.document? place .references value)) := by
  have hspares : Spares insertion (context.referenceListSpots place value) _ _ :=
    spares_listOf place value
  rw [listReferences, listReferences]
  generalize Reference.listOf context.source place value = first at hspares ⊢
  generalize Reference.listOf context.source place _ = first' at hspares ⊢
  obtain ⟨warnings, result⟩ := first
  obtain ⟨warnings', result'⟩ := first'
  refine .of_ignored (fun _ ↦ List.Subset.refl _) fun hignored ↦ ?_
  obtain ⟨hwoven, hsame⟩ := hspares hignored
  obtain rfl : result' = result := hsame
  have hwarn : Decode.Unmoved insertion ties Eq (.through _) (Decode.warnAll warnings) _ :=
    .warnAll fun _ ↦ hwoven
  have hcheck : ∀ references : List Reference, (do
      if context.services.resolve?.isNone then throw .noResolver
      return references : Decode σ (List Reference)).Unmoved insertion ties Eq (.through []) (do
      if context.services.resolve?.isNone then throw .noResolver
      return references) := by
    intro references
    split
    · exact .same (.error .noResolver)
    · exact .pure rfl
  have hresult := (Decode.Unmoved.same result').bind_eq hcheck
  rw [Tour.followed_through_nil] at hresult
  have hbind := hwarn.bind_eq fun _ ↦ hresult
  rwa [Tour.followed_through_nil] at hbind

/-! ### Documents that are referred to -/

/-- Whether documents are read to the same, but for messages about the key. -/
def ReadsUnmoved (insertion : Insertion) (ties : σ → σ → Prop) (context : Context σ)
    (read : ReadDocument σ) (tour : TourDocument σ) : Prop :=
  ∀ (registries : Registries) (document document' : Document), registries.IsScope →
    document.Changes insertion.change document' →
      (read context registries document).Unmoved insertion ties Eq
        (tour context registries document) (read context registries document')

/-- What is inherited is the same, document by document, and the key is told in the documents. -/
theorem unmoved_inherit (h : context.services.Insert insertion ties) {read : ReadDocument σ}
    {tour : TourDocument σ} (hread : context.ReadsUnmoved insertion ties read tour)
    {registries : Registries} (hscope : registries.IsScope) (inherited : FieldSet)
    (references : List Reference) :
    (context.inherit read registries inherited references).Unmoved insertion ties Eq
      (context.inheritTour read tour registries references)
      (context.inherit read registries inherited references) := by
  induction references generalizing inherited with
  | nil => exact .pure rfl
  | cons reference rest ih =>
    rw [inherit, inheritTour]
    refine (unmoved_resolve h reference).bind fun document document' hchanges ↦ ?_
    exact (hread registries document document' hscope hchanges).bind_eq fun fields ↦ ih _

/-- Whether all that scopes refer to is read to the same, but for messages about the key. -/
def DefaultsUnmoved (insertion : Insertion) (ties : σ → σ → Prop) (context : Context σ)
    (read : ReadDocument σ) (tour : TourDocument σ) : Prop :=
  ∀ (registries : Registries) (place : Place) (value : Value), registries.IsScope →
    (context.defaults read registries place value).Unmoved insertion ties Eq
      (context.defaultsTour read tour registries place value)
      (context.defaults read registries place
        (insertion.alter context.document? place .references value))

/-- What a scope inherits by its references is the same if the documents are read so. -/
theorem defaultsUnmoved (h : context.services.Insert insertion ties) {read : ReadDocument σ}
    {tour : TourDocument σ} (hread : context.ReadsUnmoved insertion ties read tour) :
    context.DefaultsUnmoved insertion ties read tour := by
  intro registries place value hscope
  rw [defaults_eq, defaults_eq, defaultsTour]
  exact (unmoved_listReferences place value).bind_eq (unmoved_inherit h hread hscope .empty)

/-! ### Scopes -/

/-- Whether an object of a kind is read with certain registries: what is unknown in it is admitted,
and nobody reads it. -/
structure Fits (kind : ValueKind) (registries : Registries) (skip knows : String → Bool) :
    Prop where
  part : ∀ key, kind.part (.key key) = .ofKey key
  admits : ∀ key, isPrivate key ∨ knows key = false → kind.admits key
  unread : ∀ key, knows key = false → skip key = false ∧ registries.own.find? key = none

/-- In a branch all keys of its registry are known, and the key is put where the branch admits it.
-/
theorem fits_branch (registries : Registries) :
    Fits .branch registries (fun _ ↦ false) (knowsField registries) where
  part _ := rfl
  admits _ _ := rfl
  unread _ h := ⟨rfl, Option.isNone_iff_eq_none.1 (by simpa [knowsField] using h)⟩

theorem knowsField_defaults {registries : Registries} (h : registries.IsScope) :
    knowsField registries "defaults" := by
  obtain rfl | ⟨kind, rfl⟩ := h
  · decide
  · cases kind <;> decide

/-- In a scope all keys of its registry are known, `defaults` among them. -/
theorem fits_scope {registries : Registries} (h : registries.IsScope) :
    Fits .scope registries (fun _ ↦ false) (knowsField registries) where
  part _ := rfl
  admits key hkey := by
    rw [ValueKind.admits, bne_iff_ne]
    rintro rfl
    rcases hkey with hkey | hkey
    · exact absurd hkey (by decide)
    · cases (knowsField_defaults h).symm.trans hkey
  unread := (fits_branch registries).unread

theorem isPrivate_of_mem_branchKeys : ∀ key ∈ branchKeys, isPrivate key = false := by
  decide

/-- A conditional admits every key that is private or none of its own three. -/
theorem admits_node {key : String} (h : isPrivate key ∨ branchKeys.contains key = false) :
    ValueKind.node.admits key := by
  rw [ValueKind.admits, Bool.not_eq_true']
  rcases h with h | h
  · rw [Bool.eq_false_iff]
    intro hmem
    cases h.symm.trans (isPrivate_of_mem_branchKeys key (List.contains_iff_mem.1 hmem))
  · exact h

/-- In a conditional its own keys are known, and those of the field that it can be short for. -/
theorem fits_node (registries : Registries) :
    Fits .node registries (· == "condition") (knowsPart registries) where
  part _ := rfl
  admits key hkey := admits_node (hkey.imp_right fun h ↦ (Bool.or_eq_false_iff.1 h).1)
  unread key hkey := by
    obtain ⟨hbranch, hfield⟩ := Bool.or_eq_false_iff.1 hkey
    refine ⟨?_, ((fits_branch registries).unread key hfield).2⟩
    rw [beq_eq_false_iff_ne]
    rintro rfl
    exact absurd hbranch (by decide)

/-- A key is what the usual field under it is read as. -/
theorem ofKey_of_find? {registries : Registries} (h : registries.own.IsUsual) {key : String}
    {field : Field} (hfield : registries.own.find? key = some field) :
    ValueKind.ofKey key = .ofForm field.form := by
  obtain ⟨known, hknown, hform⟩ := h.exists_field hfield
  rw [ValueKind.ofKey, Option.mem_def.1 hknown]
  exact congrArg ValueKind.ofForm hform

/-- The parts of a conditional stay where they are, since no such key is inserted into it. -/
theorem get?_entries_of_mem_branchKeys (insertion : Insertion) (document : Option String)
    (place : Place) {key : String} (hkey : key ∈ branchKeys) (entries : List (String × Value)) :
    Entries.get? (insertion.entries document place .node 0 entries) key =
      (Entries.get? entries key).map
        (insertion.alter document (place.key key) (.ofKey key)) := by
  have hadmits : ValueKind.node.admits key = false := by
    rw [ValueKind.admits, List.contains_iff_mem.2 hkey]
    rfl
  exact Insertion.get?_entries_of_admits hadmits 0 entries

/-- The condition of a conditional stays as it is. -/
theorem condition_entries {document : Option String} (place : Place)
    (entries : List (String × Value)) :
    context.condition place (insertion.entries document place .node 0 entries) =
      context.condition place entries := by
  have hother : ValueKind.ofKey "condition" = .other := by decide
  refine condition_congr ?_
  rw [get?_entries_of_mem_branchKeys insertion document place (by decide), hother]
  cases Entries.get? entries "condition" with
  | none => rfl
  | some value => exact congrArg some (insertion.alter_other _ _ value)

section

variable {read : ReadDocument σ} {tour : TourDocument σ}

/-- Where reading comes to the key, it warns of it and goes on. -/
theorem unmoved_here {registries : Registries} {skip knows : String → Bool} {kind : ValueKind}
    (hfits : Fits kind registries skip knows) {place : Place} {position : Nat}
    {entries : List (String × Value)} {next : Tour σ}
    {m : Decode σ (List (String × FieldValue))}
    (h : m.Unmoved insertion ties Eq next (fields read context registries skip place entries)) :
    m.Unmoved insertion ties Eq (.after (context.spot knows place position) next)
      (fields read context registries skip place
        (insertion.here context.document? place kind position ++ entries)) := by
  intro s t hties hignored
  obtain ⟨hspot, hrest⟩ := List.forall_mem_cons.1 hignored
  rw [Tour.after, Insertion.messages_cons]
  by_cases hat : insertion.isAt (context.spot knows place position)
  · rw [Insertion.here_of_isAt (hfits.admits _) hspot hat, Insertion.messages_of_isAt hat]
    by_cases hprivate : isPrivate insertion.key
    · rw [List.singleton_append, fields_of_isPrivate hprivate, if_pos hprivate]
      exact h s t hties hrest
    · have hpublic := Bool.eq_false_iff.2 hprivate
      -- The rest is read with one warning more before it, which the tour tells first.
      obtain ⟨hskip, hfield⟩ := hfits.unread _ ((hspot hat).resolve_left hprivate)
      rw [List.singleton_append, fields_of_unknown hpublic hskip hfield, if_neg hprivate]
      obtain ⟨hafter, hmatches, warnings, warnings', hwarnings, hwarnings', hwoven⟩ :=
        h s { t with warnings := t.warnings ++
          [.unrecognized context.source (place.key insertion.key)] } hties hrest
      refine ⟨hafter, hmatches, warnings, _ :: warnings', hwarnings, ?_, hwoven.left _⟩
      exact hwarnings'.trans (List.append_assoc _ _ _)
  · rw [Insertion.here_of_not_isAt hat, Insertion.messages_of_not_isAt hat]
    exact h s t hties hrest

/-- A tour through a conditional goes by the keys that it has. -/
theorem conditionalTour_object {registries : Registries} (place : Place)
    (entries : List (String × Value)) :
    conditionalTour read tour context registries place (.object entries) =
      (Tour.through []).followed (Decode.ofExcept (context.condition place entries)) fun _ ↦
        match Entries.get? entries "then", Entries.get? entries "else" with
        | none, none =>
          fieldsTour read tour context registries (· == "condition") (knowsPart registries) place 0
            entries
        | none, some _ => .through (context.spots branchKeys.contains place 0 entries)
        | some thenValue, none =>
          (Tour.through (context.spots branchKeys.contains place 0 entries)).followed
            (Decode.warnAll (context.unknownKeys branchKeys place entries)) fun _ ↦
              branchTour read tour context registries (place.key "then") thenValue
        | some thenValue, some elseValue =>
          (Tour.through (context.spots branchKeys.contains place 0 entries)).followed
            (Decode.warnAll (context.unknownKeys branchKeys place entries)) fun _ ↦
              (branchTour read tour context registries (place.key "then") thenValue).followed
                (branch read context registries (place.key "then") thenValue) fun _ ↦
                  branchTour read tour context registries (place.key "else") elseValue := by
  rw [conditionalTour]
  congr 1
  funext _
  split <;> simp_all only

end

section

variable {read : ReadDocument σ} {tour : TourDocument σ}

mutual

/-- The value of a field is read as before, whatever form it has. -/
theorem unmoved_fieldValue (hservices : context.services.Insert insertion ties)
    (hdefaults : context.DefaultsUnmoved insertion ties read tour)
    {registries : Registries} (husual : registries.AreUsual) (field : Field)
    (hfield : field.form ≠ .defaults) (place : Place) (value : Value) :
    (fieldValue read context registries field place value).Unmoved insertion ties Eq
      (fieldTour read tour context registries field place value)
      (fieldValue read context registries field place
        (insertion.alter context.document? place (.ofForm field.form) value)) := by
  rw [fieldTour.eq_def]
  cases hform : field.form with
  | conditionals =>
    cases value with
    | array items =>
      have hkind : (ValueKind.ofForm .conditionals).settle (.array items) = .conditionals := rfl
      rw [Insertion.alter_array, fieldValue_array hform, fieldValue_array hform, hkind]
      exact (unmoved_conditionals hservices hdefaults husual.branch place 0 items).map _
    | scalar s =>
      have hshape := Value.shape_scalar_ne_array s
      have hlone := unmoved_conditional hservices hdefaults husual.branch place (.scalar s)
      rw [Insertion.alter_scalar] at hlone ⊢
      rw [fieldValue_of_ne_array hform hshape]
      exact hlone.map _
    | object entries =>
      have hshape : (Value.object entries).shape ≠ .array := by simp [Value.shape]
      have hlone := unmoved_conditional hservices hdefaults husual.branch place (.object entries)
      rw [← Insertion.alter_conditionals _ _ _ hshape] at hlone
      rw [fieldValue_of_ne_array hform hshape, fieldValue_of_ne_array hform
        (by rwa [Insertion.shape_alter])]
      exact hlone.map _
  | body kind =>
    rw [fieldValue_body hform, fieldValue_body hform]
    exact (unmoved_body hservices hdefaults kind place value).map _
  | bodies kind =>
    cases value with
    | object entries =>
      have hkind : (ValueKind.ofForm (.bodies kind)).settle (.object entries) = .bodies := rfl
      rw [Insertion.alter_object, fieldValue_bodies hform, fieldValue_bodies hform, hkind]
      exact (unmoved_bodies hservices hdefaults kind place 0 entries).map _
    | scalar s =>
      rw [Insertion.alter_scalar,
        fieldValue_bodies_of_ne_object hform (Value.shape_scalar_ne_object s)]
      exact .same _
    | array items =>
      have hshape : ∀ items, (Value.array items).shape ≠ .object := by simp [Value.shape]
      rw [Insertion.alter_array, fieldValue_bodies_of_ne_object hform (hshape _),
        fieldValue_bodies_of_ne_object hform (hshape _)]
      exact .same _
  | defaults => exact absurd hform hfield
  | _ =>
    have hleaf : field.form.isLeaf := by rw [hform]; rfl
    have hvalue := unmoved_value hservices field place value
    rw [hform] at hvalue
    rw [fieldValue_leaf hleaf, fieldValue_leaf hleaf]
    exact hvalue
termination_by (sizeOf value, 2)

/-- The entries of an object are read as before. The spot in front of each one, and the one behind
the last, may be where the key is. -/
theorem unmoved_fields (hservices : context.services.Insert insertion ties)
    (hdefaults : context.DefaultsUnmoved insertion ties read tour)
    {registries : Registries} (husual : registries.AreUsual)
    {skip knows : String → Bool} {kind : ValueKind} (hfits : Fits kind registries skip knows)
    (place : Place) (position : Nat) (entries : List (String × Value)) :
    (fields read context registries skip place entries).Unmoved insertion ties Eq
      (fieldsTour read tour context registries skip knows place position entries)
      (fields read context registries skip place
        (insertion.entries context.document? place kind position entries)) := by
  match entries with
  | [] =>
    have hnil : (fields read context registries skip place []).Unmoved insertion ties Eq
        (.through []) (fields read context registries skip place []) := by
      rw [fields]
      exact .pure rfl
    have hhere : Decode.Unmoved insertion ties Eq
        (.after (context.spot knows place position) (.through [])) _ _ := unmoved_here hfits hnil
    rw [List.append_nil] at hhere
    rw [fieldsTour]
    exact hhere
  | (key, value) :: rest =>
    have hrest : ∀ found : Option (String × FieldValue), Decode.Unmoved insertion ties Eq
        (fieldsTour read tour context registries skip knows place (position + 1) rest)
        (do return found.toList ++ (← fields read context registries skip place rest))
        (do return found.toList ++ (← fields read context registries skip place
          (insertion.entries context.document? place kind (position + 1) rest))) :=
      fun found ↦ (unmoved_fields hservices hdefaults husual hfits place (position + 1) rest).map
          (found.toList ++ ·)
    rw [fieldsTour, Insertion.entries, hfits.part]
    refine unmoved_here hfits ?_
    rw [fields_cons, fields_cons]
    refine Decode.Unmoved.bind_eq ?_ hrest
    rw [entry, entry]
    split
    · exact .pure rfl
    · cases hfound : registries.own.find? key with
      | none => exact (Decode.Unmoved.warn _).map fun _ ↦ none
      | some field =>
        simp only
        split
        · exact .pure rfl
        · next hfield =>
          rw [ofKey_of_find? husual.own hfound]
          exact (unmoved_fieldValue hservices hdefaults husual field hfield (place.key key)
              value).map _
termination_by (sizeOf entries, 0)

/-- A scope is read as before: its own entries first, then what it inherits. -/
theorem unmoved_scope (hservices : context.services.Insert insertion ties)
    (hdefaults : context.DefaultsUnmoved insertion ties read tour)
    {registries : Registries} (hscope : registries.IsScope) (place : Place)
    (entries : List (String × Value)) :
    (scope read context registries place entries).Unmoved insertion ties Eq
      (scopeTour read tour context registries place entries)
      (scope read context registries place
        (insertion.entries context.document? place .scope 0 entries)) := by
  have hadmits : ValueKind.scope.admits "defaults" = false := rfl
  have hkind : ValueKind.scope.part (.key "defaults") = .references := by decide
  -- A scope admits no further references, so that those that it has are read.
  rw [scope, scope, scopeTour, Insertion.get?_entries_of_admits hadmits, hkind]
  refine (unmoved_fields hservices hdefaults hscope.areUsual (fits_scope hscope) place 0
      entries).bind_eq
    fun own ↦ ?_
  cases Entries.get? entries "defaults" with
  | none => exact .pure rfl
  | some value =>
    cases registries.own.find? "defaults" with
    | none => exact .pure rfl
    | some _ => exact (hdefaults registries (place.key "defaults") value hscope).map _
termination_by (sizeOf entries, 1)

/-- The body of a section is read as before. -/
theorem unmoved_body (hservices : context.services.Insert insertion ties)
    (hdefaults : context.DefaultsUnmoved insertion ties read tour)
    (kind : SectionKind) (place : Place) (value : Value) :
    (body read context kind place value).Unmoved insertion ties Eq
      (bodyTour read tour context kind place value)
      (body read context kind place
        (insertion.alter context.document? place .scope value)) := by
  by_cases hvalue : value.shape = .object
  · obtain ⟨entries, rfl⟩ := Value.exists_of_shape_object hvalue
    have hkind : ValueKind.scope.settle (.object entries) = .scope := rfl
    rw [Insertion.alter_object, hkind, body, body, bodyTour]
    exact unmoved_scope hservices hdefaults (.inr ⟨kind, rfl⟩) place entries
  · rw [Insertion.alter_scope_eq_self _ _ _ hvalue, body.eq_def, bodyTour.eq_def]
    split
    · exact absurd rfl hvalue
    · split
      · exact .pure rfl
      · exact absurd rfl hvalue
      · exact .same _
termination_by (sizeOf value, 1)

/-- Named bodies are read as before. No key is inserted among their names. -/
theorem unmoved_bodies (hservices : context.services.Insert insertion ties)
    (hdefaults : context.DefaultsUnmoved insertion ties read tour)
    (kind : SectionKind) (place : Place) (position : Nat)
    (entries : List (String × Value)) :
    (bodies read context kind place entries).Unmoved insertion ties Eq
      (bodiesTour read tour context kind place entries)
      (bodies read context kind place
        (insertion.entries context.document? place .bodies position entries)) := by
  have hhere : insertion.here context.document? place .bodies position = [] := by
    rw [Insertion.here, if_neg]
    rintro ⟨-, -, ⟨⟩⟩
  match entries with
  | [] =>
    rw [Insertion.entries, hhere, bodies, bodiesTour]
    exact .pure rfl
  | (name, value) :: rest =>
    have hkind : ValueKind.bodies.part (.key name) = .scope := rfl
    rw [Insertion.entries, hhere, hkind, List.nil_append, bodies, bodies, bodiesTour]
    refine (unmoved_body hservices hdefaults kind (place.key name) value).bind_eq fun fields ↦ ?_
    exact (unmoved_bodies hservices hdefaults kind place (position + 1) rest).map _
termination_by (sizeOf entries, 0)

/-- A branch is read as before. -/
theorem unmoved_branch (hservices : context.services.Insert insertion ties)
    (hdefaults : context.DefaultsUnmoved insertion ties read tour)
    {registries : Registries} (husual : registries.AreUsual) (place : Place)
    (value : Value) :
    (branch read context registries place value).Unmoved insertion ties Eq
      (branchTour read tour context registries place value)
      (branch read context registries place
        (insertion.alter context.document? place .branch value)) := by
  cases value with
  | object entries =>
    have hkind : ValueKind.branch.settle (.object entries) = .branch := rfl
    rw [Insertion.alter_object, hkind, branch, branch, branchTour]
    exact (unmoved_fields hservices hdefaults husual (fits_branch registries) place 0 entries).map _
  | scalar s =>
    rw [Insertion.alter_scalar, branch.eq_def, branchTour.eq_def]
    exact .same _
  | array items =>
    rw [Insertion.alter_array, branch.eq_def, branch.eq_def, branchTour.eq_def]
    exact .same _
termination_by (sizeOf value, 0)

/-- A conditional is read as before, be it with branches or short for a field. -/
theorem unmoved_conditional (hservices : context.services.Insert insertion ties)
    (hdefaults : context.DefaultsUnmoved insertion ties read tour)
    {registries : Registries} (husual : registries.AreUsual) (place : Place)
    (value : Value) :
    (conditional read context registries place value).Unmoved insertion ties Eq
      (conditionalTour read tour context registries place value)
      (conditional read context registries place
        (insertion.alter context.document? place .node value)) := by
  cases value with
  | object entries =>
    have hkind : ValueKind.node.settle (.object entries) = .node := rfl
    have hwarn : Decode.Unmoved insertion ties Eq (.through _) (Decode.warnAll _) _ :=
      context.unmoved_unknownKeys branchKeys place .node entries admits_node
    have hthen := get?_entries_of_mem_branchKeys insertion context.document? place
      (by decide : "then" ∈ branchKeys) entries
    have helse := get?_entries_of_mem_branchKeys insertion context.document? place
      (by decide : "else" ∈ branchKeys) entries
    have hsize : ∀ key value, Entries.get? entries key = some value →
        sizeOf value < sizeOf entries := fun _ _ ↦ Entries.sizeOf_lt_of_get?
    have hsizeThen := hsize "then"
    have hsizeElse := hsize "else"
    have hkindThen : ValueKind.ofKey "then" = .branch := by decide
    have hkindElse : ValueKind.ofKey "else" = .branch := by decide
    rw [hkindThen] at hthen
    rw [hkindElse] at helse
    rw [Insertion.alter_object, hkind, conditional_object, conditional_object,
      conditionalTour_object, condition_entries, hthen, helse]
    refine (Decode.Unmoved.same _).bind_eq fun condition ↦ ?_
    -- Which keys there are decides how a conditional is read, and a node admits none of these keys.
    generalize Entries.get? entries "then" = thenValue? at hsizeThen ⊢
    generalize Entries.get? entries "else" = elseValue? at hsizeElse ⊢
    cases thenValue? with
    | none =>
      cases elseValue? with
      | none =>
        exact (unmoved_fields hservices hdefaults husual (fits_node registries) place 0
          entries).map _
      | some elseValue =>
        have hfault : Decode.Unmoved insertion ties Eq (.through [])
            (Decode.ofExcept (context.fault place (.missingKey "then")) : Decode σ Conditional) _ :=
          .same _
        have hbind := hwarn.bind_eq fun _ ↦ hfault
        rwa [Tour.followed_through_nil] at hbind
    | some thenValue =>
      have hlt := hsizeThen _ rfl
      cases elseValue? with
      | none =>
        exact hwarn.bind_eq fun _ ↦ (unmoved_branch hservices hdefaults husual _ thenValue).map _
      | some elseValue =>
        have hlt' := hsizeElse _ rfl
        refine hwarn.bind_eq fun _ ↦ (unmoved_branch hservices hdefaults husual _
            thenValue).bind_eq fun _ ↦ ?_
        exact (unmoved_branch hservices hdefaults husual _ elseValue).map _
  | scalar s =>
    rw [Insertion.alter_scalar, conditional.eq_def, conditionalTour.eq_def]
    exact .same _
  | array items =>
    rw [Insertion.alter_array, conditional.eq_def, conditional.eq_def, conditionalTour.eq_def]
    exact .same _
termination_by (sizeOf value, 1)
decreasing_by
  all_goals simp only [Value.object.sizeOf_spec, Prod.lex_def]; omega

/-- A list of conditionals is read as before. -/
theorem unmoved_conditionals (hservices : context.services.Insert insertion ties)
    (hdefaults : context.DefaultsUnmoved insertion ties read tour)
    {registries : Registries} (husual : registries.AreUsual)
    (place : Place) (position : Nat) (values : List Value) :
    (conditionals read context registries place position values).Unmoved insertion ties Eq
      (conditionalsTour read tour context registries place position values)
      (conditionals read context registries place position
        (insertion.items context.document? place .conditionals position values)) := by
  match values with
  | [] =>
    rw [Insertion.items, conditionals, conditionalsTour]
    exact .pure rfl
  | value :: rest =>
    have hkind : ValueKind.conditionals.part (.index position) = .node := rfl
    rw [Insertion.items, hkind, conditionals, conditionals, conditionalsTour]
    refine (unmoved_conditional hservices hdefaults husual (place.index position) value).bind_eq
        fun _ ↦ ?_
    exact (unmoved_conditionals hservices hdefaults husual place (position + 1) rest).map _
termination_by (sizeOf values, 0)

end

end

/-! ### Documents and manifests -/

/-- The document of a context that was entered. -/
theorem document?_enter (context : Context σ) (document : Document) :
    (context.enter document).document? = some document.canonical :=
  List.getLast?_concat

/-- By induction on the length of the chain of documents, every document is read as before. -/
theorem readsUnmoved_document (h : context.services.Insert insertion ties) (bound : Nat) :
    context.ReadsUnmoved insertion ties (Context.document bound) (documentTour bound) := by
  induction bound generalizing context with
  | zero => exact fun _ _ _ _ _ ↦ .same (.error (.cyclicDefaults context.visited))
  | succ bound ih =>
    intro registries document document' hscope hchanges
    have henter : context.enter document' = context.enter document := by
      rw [enter, enter, hchanges.source_eq, hchanges.canonical_eq, hchanges.directory_eq]
    have hservices : (context.enter document).services.Insert insertion ties := h
    have hvalue : document'.value = insertion.entries (context.enter document).document? Place.top
        .scope 0 document.value := by
      have hrelates : Value.object document'.value = insertion.alter (some document.canonical)
          Place.top .scope (.object document.value) := hchanges.relates
      rw [Insertion.alter_object] at hrelates
      rw [document?_enter]
      exact Value.object.inj hrelates
    rw [Context.document, Context.document, documentTour, henter, hvalue]
    exact unmoved_scope hservices (defaultsUnmoved hservices (ih hservices)) hscope
      Place.top document.value

/-- A whole manifest is read as before, the key being in it or in one of its documents. -/
theorem unmoved_package (h : context.services.Insert insertion ties) (bound : Nat) (value : Value) :
    (context.package bound value).Unmoved insertion ties Eq (context.packageTour bound value)
      (context.package bound (insertion.alter context.document? Place.top .scope value)) := by
  cases value with
  | object entries =>
    have hkind : ValueKind.scope.settle (.object entries) = .scope := rfl
    have hdefaults := defaultsUnmoved h (readsUnmoved_document h bound)
    rw [Insertion.alter_object, hkind, package, package, packageTour]
    exact unmoved_scope h hdefaults (.inl rfl) Place.top entries
  | scalar s =>
    rw [Insertion.alter_scalar, package.eq_def, packageTour.eq_def]
    exact .same _
  | array items =>
    rw [Insertion.alter_scope_eq_self _ _ _ (by simp [Value.shape]), package.eq_def,
      packageTour.eq_def]
    exact .same _

end Context

/-- The services of a package give the same documents, but for the key that is inserted. -/
theorem Services.insert_ofPackage (insertion : Insertion) (directory : PosixPath)
    (resolver : Resolver) :
    (Services.ofPackage directory (some resolver)).Insert insertion
      (insertion.change.Ties resolver.store) where
  glob pattern _ _ h := Services.glob_changes h pattern
  resolve _ hresolve reference visited base _ _ h :=
    Services.resolve_changes hresolve h reference visited base

/-- A key can be inserted into a manifest or a document that it refers to, into any object and at
any of its positions, if it is private, or not known wherever reading comes to it. Then the same
fields are read, or reading fails in the same way, and the warnings are the same but for one message
at each of these spots, or for none if the key is private. The worlds after it are the same but for
the key. -/
theorem Context.package_insertion (insertion : Insertion) {resolver : Resolver}
    {world world' : World} (hworld : world.Changes insertion.change resolver.store world')
    (source : String) (directory : PosixPath) (bound : Nat) (value : Value) :
    let context := Context.ofPackage source directory (some resolver)
    let value' := insertion.alter none Place.top .scope value
    let spots := context.packageTour bound value ⟨[], [], world⟩
    let ((warnings, fields), after) := (context.package bound value).inWorld.run world
    let ((warnings', fields'), after') := (context.package bound value').inWorld.run world'
    (∀ spot ∈ spots, insertion.IsIgnoredAt spot) →
      fields' = fields ∧ Woven (insertion.messages spots) warnings warnings' ∧
        after.Changes insertion.change resolver.store after' := by
  intro context value' spots
  have hservices : context.services.Insert insertion (insertion.change.Ties resolver.store) :=
    Services.insert_ofPackage insertion directory resolver
  have hunmoved := Context.unmoved_package hservices bound value
  rw [Decode.run_inWorld, Decode.run_inWorld]
  intro hignored
  obtain ⟨hties, hmatches, warnings, warnings', hwarnings, hwarnings', hwoven⟩ :=
    hunmoved ⟨[], [], world⟩ ⟨[], [], world'⟩ ⟨.nil, hworld⟩ hignored
  rw [List.nil_append] at hwarnings hwarnings'
  exact ⟨hmatches.eq.symm, hwarnings ▸ hwarnings' ▸ hwoven, hties.world⟩

/-! ### A manifest that cannot be read -/

/-- A world with nothing in it. -/
def emptyWorld : World := ⟨FileTree.empty, [], ⟨.slash, []⟩, [], [], [], .silent, []⟩

/-- A manifest whose only field has the wrong shape. -/
def misreadManifest : Value := .object [("name", .int 5)]

/-- A key that nobody knows, at a position of a manifest. -/
def strayKey (position : Nat) : Insertion := ⟨none, [], position, "zzz", .null⟩

section

variable (context : Context (Cache × World))

/-- The name of the manifest is a number and cannot be read. -/
theorem entry_misreadManifest (read : ReadDocument (Cache × World)) :
    Context.entry read context .package (fun _ ↦ false) Place.top "name" (.int 5) = Decode.ofExcept
      (.error (.invalid context.source (Place.top.key "name") (.expected "String" .number))) := by
  have hread : (isPrivate "name" || false) = false := by decide
  have hfield : Registries.package.own.find? "name" = some (Field.plain "name" (.text false)) := rfl
  have hvalue : ∀ value, Context.fieldValue read context .package (Field.plain "name" (.text false))
      (Place.top.key "name") value =
        context.value (Field.plain "name" (.text false)) (Place.top.key "name") value :=
    Context.fieldValue_leaf rfl
  rw [Context.entry, hread, hfield]
  simp only [hvalue]
  rfl

/-- Reading ends at the entry that cannot be read. -/
theorem fields_misreadManifest (read : ReadDocument (Cache × World))
    (rest : List (String × Value)) :
    Context.fields read context .package (fun _ ↦ false) Place.top (("name", .int 5) :: rest) =
      Decode.ofExcept (.error
        (.invalid context.source (Place.top.key "name") (.expected "String" .number))) := by
  rw [Context.fields_cons, entry_misreadManifest]
  rfl

/-- Reading comes to one spot only, the one in front of the name. -/
theorem packageTour_misreadManifest (bound : Nat) (s : Progress (Cache × World)) :
    context.packageTour bound misreadManifest s =
      [context.spot (Context.knowsField .package) Place.top 0] := by
  have hread : (isPrivate "name" || false) = false := by decide
  have hfield : Registries.package.own.find? "name" = some (Field.plain "name" (.text false)) := rfl
  have hentry := entry_misreadManifest context (Context.document bound)
  have hfields : (Context.fields (Context.document bound) context .package (fun _ ↦ false) Place.top
      [("name", .int 5)]).run s = (.error (.invalid context.source (Place.top.key "name")
        (.expected "String" .number)), s) := by
    rw [fields_misreadManifest]
    rfl
  rw [misreadManifest, Context.packageTour, Context.scopeTour, Tour.followed_of_error hfields,
    Context.fieldsTour, hentry, hread, hfield]
  simp only [Context.fieldTour.eq_def]
  rfl

/-- What stands behind the name is not looked at, so that nothing is told of it. -/
theorem warnings_misreadManifest (rest : List (String × Value)) :
    ((context.package 1 (.object (("name", .int 5) :: rest))).inWorld.run emptyWorld).1.1 = [] := by
  rw [Decode.run_inWorld, Context.package, Context.scope, fields_misreadManifest]
  rfl

theorem warnings_strayKey (hsource : context.source = "package.yaml") :
    ((context.package 1 (.object [("zzz", .null), ("name", .int 5)])).inWorld.run emptyWorld).1.1 =
      [.unrecognized "package.yaml" (Place.top.key "zzz")] := by
  have hprivate : isPrivate "zzz" = false := by decide
  have hfield : Registries.package.own.find? "zzz" = none := by decide
  rw [Decode.run_inWorld, Context.package, Context.scope,
    Context.fields_of_unknown hprivate rfl hfield, fields_misreadManifest, hsource]
  rfl

end

theorem package_insertion_strayKey :
    let resolver : Resolver := ⟨⟨.slash, ["store"]⟩, none⟩
    let context := Context.ofPackage "package.yaml" ⟨.slash, []⟩ (some resolver)
    let inserted := (strayKey 0).alter none Place.top .scope misreadManifest
    let ((warnings, fields), _) := (context.package 1 misreadManifest).inWorld.run emptyWorld
    let ((warnings', fields'), _) := (context.package 1 inserted).inWorld.run emptyWorld
    emptyWorld.Changes (strayKey 0).change resolver.store emptyWorld ∧
      (∀ spot ∈ context.packageTour 1 misreadManifest ⟨[], [], emptyWorld⟩,
        (strayKey 0).IsIgnoredAt spot) ∧
      fields' = fields ∧
        Woven [.unrecognized "package.yaml" (Place.top.key "zzz")] warnings warnings' := by
  intro resolver context inserted
  have hworld : emptyWorld.Changes (strayKey 0).change resolver.store emptyWorld :=
    .refl (show emptyWorld.IsPlaced from rfl) (Insertion.relates_self rfl) _
  have hignored : ∀ spot ∈ context.packageTour 1 misreadManifest ⟨[], [], emptyWorld⟩,
      (strayKey 0).IsIgnoredAt spot := by
    intro spot hspot _
    rw [packageTour_misreadManifest, List.mem_singleton] at hspot
    subst hspot
    exact .inr (show Context.knowsField .package "zzz" = false by decide)
  obtain ⟨hfields, hwoven, -⟩ := Context.package_insertion (strayKey 0) hworld "package.yaml"
    ⟨.slash, []⟩ 1 misreadManifest hignored
  rw [packageTour_misreadManifest] at hwoven
  exact ⟨hworld, hignored, hfields, hwoven⟩

/-- Reading can stop before it comes to a key, also in the object that has the key. So how often the
key is told depends on its position, and not on the object alone. -/
theorem not_told_by_count :
    let context := Context.ofPackage "package.yaml" ⟨.slash, []⟩ none
    let warningsOf (value : Value) := ((context.package 1 value).inWorld.run emptyWorld).1.1
    ¬∃ count, ∀ position ≤ 1,
      Woven (List.replicate count (.unrecognized "package.yaml" (Place.top.key "zzz")))
        (warningsOf misreadManifest)
        (warningsOf ((strayKey position).alter none Place.top .scope misreadManifest)) := by
  rintro context warningsOf ⟨count, h⟩
  -- The key is told if it is before the entry that cannot be read, and not told if it is behind it.
  have hbefore : warningsOf misreadManifest = [] := warnings_misreadManifest context []
  have hfirst : warningsOf ((strayKey 0).alter none Place.top .scope misreadManifest) =
      [.unrecognized "package.yaml" (Place.top.key "zzz")] := warnings_strayKey context rfl
  have hsecond : warningsOf ((strayKey 1).alter none Place.top .scope misreadManifest) = [] :=
    warnings_misreadManifest context [("zzz", .null)]
  have hone := (h 0 (by decide)).perm.length_eq
  have hnone := (h 1 (by decide)).perm.length_eq
  rw [hbefore, hfirst] at hone
  rw [hbefore, hsecond] at hnone
  simp only [List.append_nil, List.length_replicate, List.length_singleton, List.length_nil]
    at hone hnone
  omega

end CabalManifest
