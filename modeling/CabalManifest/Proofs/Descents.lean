import CabalManifest.Proofs.Trails

/-!
# Successful reading

Where a scope is read with success, so is every document that it refers to, however deep in its
sections the reference stands (`Context.ranBefore_of_refers`). So if no cycle is reported there is
none: no trail from the scope comes to a document twice (`Library.nodup_of_trail`).
-/

namespace CabalManifest

namespace Decode

variable {σ α β : Type} {contract : Contract σ} {m : Decode σ α}

/-- Whether a computation gave a result before a state was reached. -/
def RanBefore (contract : Contract σ) (m : Decode σ α) (state : σ) : Prop :=
  ∃ (s t : Progress σ) (a : α), contract.holds s.state ∧ m.run s = (.ok a, t) ∧
    contract.follows t.state state

theorem RanBefore.trans {s t : σ} (h : m.RanBefore contract s) (h' : contract.follows s t) :
    m.RanBefore contract t := by
  obtain ⟨start, last, a, hs, hrun, hfollows⟩ := h
  exact ⟨start, last, a, hs, hrun, contract.trans hfollows h'⟩

/-- What runs in a computation runs before its end. -/
theorem RanBefore.inside {n : Decode σ β} {state : σ} (h : m.RanBefore contract state)
    (hinside : ∀ (s t : Progress σ) (a : α), contract.holds s.state → m.run s = (.ok a, t) →
      n.RanBefore contract t.state) : n.RanBefore contract state := by
  obtain ⟨s, t, a, hs, hrun, hfollows⟩ := h
  exact (hinside s t a hs hrun).trans hfollows

/-- A computation in two steps that gives a result ran the first step, and then the second one. -/
theorem Meets.ran_of_bind {p : α → Prop} {q : β → Prop} {k : α → Decode σ β}
    (hm : m.Meets contract p) (hk : ∀ a, p a → (k a).Meets contract q) {s u : Progress σ}
    (hs : contract.holds s.state) {b : β} (hrun : (m >>= k).run s = (.ok b, u)) :
    m.RanBefore contract u.state ∧
      ∃ a t, p a ∧ contract.holds t.state ∧ (k a).run t = (.ok b, u) := by
  obtain ⟨a, t, hfirst, hsecond⟩ := exists_of_run_bind hrun
  obtain ⟨ht, -, ha⟩ := hm.of_run hs hfirst
  obtain ⟨-, hfollows, -⟩ := (hk a ha).of_run ht hsecond
  exact ⟨⟨s, t, a, hs, hfirst, hfollows⟩, a, t, ha, ht, hsecond⟩

end Decode

namespace Context

variable {σ : Type} {contract : Contract σ} {read : ReadDocument σ} {context : Context σ}
  {registries : Registries} {s t : Progress σ}

/-! ### References -/

theorem ranBefore_of_inherit {references : List Reference}
    (h : ∀ reference ∈ references, context.ReadAlike contract False read read registries reference)
    {reference : Reference} (hmem : reference ∈ references) {inherited result : FieldSet}
    (hs : contract.holds s.state)
    (hrun : (inherit read context registries inherited references).run s = (.ok result, t)) :
    (context.resolve reference >>= read context registries).RanBefore contract t.state := by
  induction references generalizing inherited s with
  | nil => cases hmem
  | cons first rest ih =>
    rw [List.forall_mem_cons] at h
    rw [inherit, ← bind_assoc] at hrun
    have hrest : ∀ fields, (False → fields.IsFormed) →
        (inherit read context registries (inherited.merge fields) rest).Meets contract
          fun fields ↦ False → fields.IsFormed :=
      fun _ _ ↦ (alike_inherit h.2 False.elim).1
    obtain ⟨hran, fields, u, -, hu, hrun⟩ := h.1.1.ran_of_bind hrest hs hrun
    rcases List.mem_cons.1 hmem with rfl | hmem
    · exact hran
    · exact ih h.2 hmem hu hrun

/-- The documents that a value names are read where its defaults are. -/
theorem ranBefore_of_defaults {value : Value}
    (h : ∀ reference, value.Names reference →
      context.ReadAlike contract False read read registries reference)
    {reference : Reference} (hnames : value.Names reference) {place : Place} {result : FieldSet}
    (hs : contract.holds s.state)
    (hrun : (context.defaults read registries place value).run s = (.ok result, t)) :
    (context.resolve reference >>= read context registries).RanBefore contract t.state := by
  rw [defaults] at hrun
  rcases hlist : Reference.listOf context.source place value with ⟨warnings, references?⟩
  rw [hlist] at hrun
  obtain ⟨_, u, hwarn, hrun⟩ := exists_of_run_bind hrun
  obtain ⟨hu, -, -⟩ := (Decode.Meets.warnAll warnings).of_run hs hwarn
  obtain ⟨references, v, hlisted, hrun⟩ := exists_of_run_bind hrun
  cases references? with
  | error => cases hlisted
  | ok references =>
    cases hlisted
    have hlisted : (Reference.listOf context.source place value).2 = .ok references := by rw [hlist]
    split at hrun
    · cases hrun
    · refine ranBefore_of_inherit (fun other hother ↦ ?_) ((Value.names_iff hlisted).1 hnames) hu hrun
      exact h other ((Value.names_iff hlisted).2 hother)

/-! ### Fields -/

variable (hglob : context.services.CanGlob contract.Tolerates)
include hglob

theorem ranBefore_of_fields (hflat : registries.branches.IsFlat) {skip : String → Bool} {place : Place}
    {entries : List (String × Value)}
    (h : ForFields (context.ReadsAlike contract False read read) registries entries) {key : String}
    {value : Value} {field : Field} (hentry : (key, value) ∈ entries)
    (hskip : (isPrivate key || skip key) = false) (hfield : registries.own.find? key = some field)
    (hform : field.form ≠ .defaults) {own : List (String × FieldValue)}
    (hs : contract.holds s.state)
    (hrun : (fields read context registries skip place entries).run s = (.ok own, t)) :
    (fieldValue read context registries field (place.key key) value).RanBefore contract t.state := by
  induction entries generalizing own s with
  | nil => cases hentry
  | cons entry rest ih =>
    have hrest := (alike_fields _ hglob hflat skip place rest h.tail).1
    have htail : ∀ (found : List (String × FieldValue)) (u : Progress σ), contract.holds u.state →
        (do return found ++ (← fields read context registries skip place rest)).run u =
          (.ok own, t) → (key, value) ∈ rest →
            (fieldValue read context registries field (place.key key) value).RanBefore contract
              t.state := by
      intro found u hu hfound hmem
      obtain ⟨own', v, hown, happend⟩ := exists_of_run_bind hfound
      cases happend
      exact ih h.tail hmem hu hown
    obtain ⟨first, firstValue⟩ := entry
    rw [fields.eq_def] at hrun
    simp only at hrun
    rcases List.mem_cons.1 hentry with heq | hmem
    · cases heq
      have hsections := h key value List.mem_cons_self (by simp_all) field hfield
      have hvalue := (alike_fieldValue _ hglob hflat hform (place.key key) value hsections).1
      simp only [hskip, hfield, hform, Bool.false_eq_true, if_false, pure_bind] at hrun
      exact (hvalue.ran_of_bind (q := fun _ ↦ True) (fun _ _ ↦ hrest.bind fun _ _ ↦ .pure trivial)
        hs hrun).1
    · split at hrun
      · exact htail _ s hs hrun hmem
      · next hfirst =>
        split at hrun
        · obtain ⟨_, u, hwarn, hrun⟩ := exists_of_run_bind hrun
          obtain ⟨hu, -, -⟩ := (Decode.Meets.warn _).of_run hs hwarn
          exact htail _ u hu hrun hmem
        · next found hfound =>
          split at hrun
          · exact htail _ s hs hrun hmem
          · next hfirstForm =>
            have hsections := h first firstValue List.mem_cons_self (by simp_all) found hfound
            have hvalue :=
              (alike_fieldValue _ hglob hflat hfirstForm (place.key first) firstValue hsections).1
            obtain ⟨result, u, hresult, hrun⟩ := exists_of_run_bind hrun
            obtain ⟨hu, -, -⟩ := hvalue.of_run hs hresult
            exact htail _ u hu hrun hmem

/-! ### Sections -/

theorem ranBefore_of_bodies {kind : SectionKind} {place : Place} {entries : List (String × Value)}
    (h : ∀ name body, (name, .object body) ∈ entries → ∀ inner value,
      Refers (.ofSection kind) body inner value →
        context.ReadsAlike contract False read read inner value) {name : String}
    {body : List (String × Value)} (hmem : (name, .object body) ∈ entries)
    {named : List (String × FieldSet)} (hs : contract.holds s.state)
    (hrun : (bodies read context kind place entries).run s = (.ok named, t)) :
    (scope read context (.ofSection kind) (place.key name) body).RanBefore contract t.state := by
  induction entries generalizing named s with
  | nil => cases hmem
  | cons entry rest ih =>
    obtain ⟨first, value⟩ := entry
    have htail := fun name body hmem ↦ h name body (List.mem_cons_of_mem _ hmem)
    have hrest := (alike_bodies _ hglob kind place rest htail).1
    have hfirst := (alike_body _ hglob kind (place.key first) value fun body hbody ↦
      h first body (hbody ▸ List.mem_cons_self)).1
    rw [bodies] at hrun
    obtain ⟨hran, fields, u, -, hu, hrun⟩ := hfirst.ran_of_bind (q := fun _ ↦ True)
      (fun _ _ ↦ hrest.bind fun _ _ ↦ .pure trivial) hs hrun
    rcases List.mem_cons.1 hmem with heq | hmem
    · cases heq
      rwa [Context.body.eq_def] at hran
    · obtain ⟨named', v, hnamed, hcons⟩ := exists_of_run_bind hrun
      cases hcons
      exact ih htail hmem hu hnamed

/-- The sections in the value of a field are read where the value is. -/
theorem ranBefore_of_fieldValue {field : Field} {place : Place} {value : Value} {kind : SectionKind}
    {body : List (String × Value)} (hbody : BodyOf field.form value kind body)
    (h : ForSections (context.ReadsAlike contract False read read) field.form value) {result : FieldValue}
    (hs : contract.holds s.state)
    (hrun : (fieldValue read context registries field place value).run s = (.ok result, t)) :
    ∃ inside, (scope read context (.ofSection kind) inside body).RanBefore contract t.state := by
  rw [fieldValue.eq_def] at hrun
  generalize hform : field.form = form at hbody h hrun
  cases hbody with
  | single =>
    obtain ⟨fields, u, hfields, hpure⟩ := exists_of_run_bind hrun
    cases hpure
    rw [Context.body.eq_def] at hfields
    exact ⟨place, s, t, fields, hs, hfields, contract.refl _⟩
  | named _ hmem =>
    obtain ⟨named, u, hnamed, hpure⟩ := exists_of_run_bind hrun
    cases hpure
    exact ⟨_, ranBefore_of_bodies hglob (fun name body hmem ↦ h kind body (.named kind hmem)) hmem hs
      hnamed⟩

/-! ### Scopes -/

section

variable (hflat : registries.branches.IsFlat) {entries : List (String × Value)}
  (h : ∀ inner value, Refers registries entries inner value →
    context.ReadsAlike contract False read read inner value)
  {place : Place} {result : FieldSet} (hs : contract.holds s.state)
  (hrun : (scope read context registries place entries).run s = (.ok result, t))
include hflat h hs hrun

theorem ran_of_scope :
    (fields read context registries (fun _ ↦ false) place entries).RanBefore contract t.state ∧
      ∀ value, Entries.get? entries "defaults" = some value →
        (registries.own.find? "defaults").isSome →
          (context.defaults read registries (place.key "defaults") value).RanBefore contract
            t.state := by
  have hfields := (alike_fields _ hglob hflat (fun _ ↦ false) place entries (.of_refers h)).1
  rw [scope] at hrun
  obtain ⟨hran, own, u, -, hu, hrun⟩ := hfields.ran_of_bind (q := fun _ ↦ True) (fun own _ ↦ by
    split
    · next value field hvalue hfield =>
      have hdefaults := h registries value (.own hvalue (by simp [hfield])) (place.key "defaults")
      exact hdefaults.1.bind fun _ _ ↦ .pure trivial
    · exact .pure trivial) hs hrun
  refine ⟨hran, fun value hvalue hknown ↦ ?_⟩
  obtain ⟨field, hfield⟩ := Option.isSome_iff_exists.1 hknown
  simp only [hvalue, hfield] at hrun
  obtain ⟨inherited, v, hinherited, hpure⟩ := exists_of_run_bind hrun
  cases hpure
  exact ⟨u, t, inherited, hu, hinherited, contract.refl _⟩

end

/-- Where a scope is read, so is every document that it refers to. -/
theorem ranBefore_of_refers {registries inner : Registries} {entries : List (String × Value)}
    {value : Value} (hrefers : Refers registries entries inner value) (hscope : registries.IsScope)
    (h : ∀ inner value, Refers registries entries inner value → ∀ reference, value.Names reference →
      context.ReadAlike contract False read read inner reference)
    {reference : Reference} (hnames : value.Names reference) {place : Place} {result : FieldSet}
    (hs : contract.holds s.state)
    (hrun : (scope read context registries place entries).run s = (.ok result, t)) :
    (context.resolve reference >>= read context inner).RanBefore contract t.state := by
  induction hrefers generalizing place result s t with
  | own hvalue hknown =>
    have hreads := fun inner value hrefers ↦ ReadsAlike.of_names (h inner value hrefers)
    have hran := (ran_of_scope hglob hscope.isFlat hreads hs hrun).2 _ hvalue hknown
    refine hran.inside fun s t result hs hrun ↦ ?_
    exact ranBefore_of_defaults (h _ _ (.own hvalue hknown)) hnames hs hrun
  | @within registries entries key value field kind body inner target hentry hkey hfield hbody
      hrefers ih =>
    have hreads := fun inner value hrefers ↦ ReadsAlike.of_names (h inner value hrefers)
    have hform : field.form ≠ .defaults := by
      intro hform
      rw [hform] at hbody
      cases hbody
    -- From the scope to the field, from the field to the section, and on from there.
    refine (ran_of_scope hglob hscope.isFlat hreads hs hrun).1.inside fun s t own hs hrun ↦ ?_
    have hfields := ForFields.of_refers hreads
    refine (ranBefore_of_fields hglob hscope.isFlat hfields hentry (by simp [hkey]) hfield hform hs
      hrun).inside fun s t result hs hrun ↦ ?_
    have hsections := hfields key value hentry hkey field hfield
    obtain ⟨inside, hran⟩ := ranBefore_of_fieldValue hglob hbody hsections hs hrun
    refine hran.inside fun s t result hs hrun ↦ ?_
    refine ih (.inr ⟨kind, rfl⟩) (fun inner target hrefers ↦ ?_) hnames hs hrun
    exact h inner target (.within hentry hkey hfield hbody hrefers)

end Context

namespace Library

variable {σ : Type} {library : Library σ} {root site last : Site} {base : σ} {context : Context σ}
  {documents : Documents} {paths : List String}

/-- Where a scope is read, every document that it refers to is found and read. -/
theorem Stands.exists_of_refers (hstands : library.Stands root base context site)
    (hserves : library.Serves context.services) (hscope : site.registries.IsScope) {bound : Nat}
    (hbound : library.paths.length ≤ context.visited.length + bound) {place : Place}
    {s t : Progress σ} {result : FieldSet} (hs : (library.contract root base).holds s.state)
    (hrun : (Context.scope (Context.document bound) context site.registries place
      site.entries).run s = (.ok result, t))
    {inner : Registries} {value : Value} {reference : Reference}
    (hrefers : Refers site.registries site.entries inner value) (hnames : value.Names reference) :
    ∃ document u v fields, library.Finds site.directory reference context.visited u.state document ∧
      library.Stands root u.state (context.enter document)
        ⟨inner, document.value, document.directory⟩ ∧
      library.holds u.state ∧ Grow (library.known u.state) (library.known t.state) ∧
      (Context.document bound context inner document).run u = (.ok fields, v) ∧
      Grow (library.known v.state) (library.known t.state) := by
  have hread : ∀ inner value, Refers site.registries site.entries inner value →
      ∀ reference, value.Names reference →
        context.ReadAlike (library.contract root base) False (Context.document bound)
          (Context.document bound) inner reference :=
    fun inner value hrefers reference hnames ↦
      readAlike_of_enter hserves hstands hrefers hnames fun t document henter ↦
        alike_document hserves (hrefers.isScope hscope) henter hbound hbound
  obtain ⟨s', v, fields, hs', hrun', hlater⟩ :=
    Context.ranBefore_of_refers (canGlob_contract hserves) hrefers hscope hread hnames hs hrun
  obtain ⟨document, u, hresolve, hdocument⟩ := exists_of_run_bind hrun'
  obtain ⟨hholds, -, hfinds, henter⟩ := hstands.enter hserves hrefers hnames hs' hresolve
  have hmeets := (alike_document hserves (hrefers.isScope hscope) henter hbound hbound).1
  obtain ⟨-, hgrow, -⟩ := hmeets.of_run ⟨hholds, .refl _⟩ hdocument
  exact ⟨document, u, v, fields, hfinds, henter, hholds, hgrow.trans hlater, hdocument, hlater⟩

/-- Where a scope is read, a trail from it comes to no document of its chain and to none twice, and
every document is found to which the end of the trail refers. -/
theorem Stands.of_trail (hstands : library.Stands root base context site)
    (hserves : library.Serves context.services) (hscope : site.registries.IsScope) {bound : Nat}
    (hbound : library.paths.length ≤ context.visited.length + bound) {place : Place}
    {s t : Progress σ} {result : FieldSet} (hs : (library.contract root base).holds s.state)
    (hrun : (Context.scope (Context.document bound) context site.registries place
      site.entries).run s = (.ok result, t))
    (hdocuments : Grow (library.known t.state) documents)
    (htrail : library.Trail documents site paths last) :
    (∀ path ∈ paths, path ∉ context.visited) ∧ paths.Nodup ∧
      ∀ inner value reference, Refers last.registries last.entries inner value →
        value.Names reference →
          (documents (library.target last.directory reference)).isSome := by
  induction htrail generalizing base context bound place s t result with
  | nil site =>
    refine ⟨List.forall_mem_nil _, List.nodup_nil, fun inner value reference hrefers hnames ↦ ?_⟩
    obtain ⟨document, u, v, fields, hfinds, -, -, hgrow, -⟩ :=
      hstands.exists_of_refers hserves hscope hbound hs hrun hrefers hnames
    rw [← hfinds.canonical_eq, hdocuments _ _ (hgrow _ _ hfinds.known_eq)]
    rfl
  | @cons site next last path paths hleads htrail ih =>
    obtain @⟨inner, value, reference, entries, hrefers, hnames, hknown⟩ := hleads
    obtain ⟨document, u, v, fields, hfinds, henter, hholds, hgrow, hdocument, hlater⟩ :=
      hstands.exists_of_refers hserves hscope hbound hs hrun hrefers hnames
    -- The document that was read is the one that the trail goes through.
    have hfound := hdocuments _ _ (hgrow _ _ hfinds.known_eq)
    rw [hfinds.canonical_eq, hknown] at hfound
    cases hfound
    rw [← hfinds.directory_eq] at ih
    rw [← hfinds.canonical_eq]
    cases bound with
    | zero => cases hdocument
    | succ bound =>
      rw [Context.document] at hdocument
      have hinside : library.Serves (context.enter document).services := hserves
      have hvisited : (context.enter document).visited = context.visited ++ [document.canonical] :=
        rfl
      have hlength : library.paths.length ≤ (context.enter document).visited.length + bound := by
        rw [hvisited, List.length_append, List.length_singleton]
        omega
      obtain ⟨hnew, hnodup, hfound⟩ := ih henter hinside (hrefers.isScope hscope) hlength
        ⟨hholds, .refl _⟩ hdocument (hlater.trans hdocuments)
      rw [hvisited] at hnew
      refine ⟨List.forall_mem_cons.2 ⟨hfinds.not_mem, fun path hpath hvisit ↦ ?_⟩,
        List.nodup_cons.2 ⟨fun hmem ↦ ?_, hnodup⟩, hfound⟩
      · exact hnew path hpath (List.mem_append_left _ hvisit)
      · exact hnew _ hmem (List.mem_append_right _ (List.mem_singleton_self _))

end Library

end CabalManifest
