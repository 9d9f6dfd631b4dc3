import CabalManifest.Build
import CabalManifest.Proofs.FetchedDocuments
import CabalManifest.Proofs.Precedence

/-!
# Stored copies

Reading a manifest changes nothing on disk but for the store: it makes directories, and writes copies
of documents that it has downloaded (`Manifest.addsCopies_compile`). Every copy is of a document that
some value names, and holds what the address of the document answers. A copy stands where nothing was
before, unless the path of the document has a pair of dots in it (`World.Stored`).
-/

namespace CabalManifest

namespace World

/-- Whether some content at a location is the copy of a document that was downloaded from one of the
addresses that were asked. -/
structure IsCopy (start : World) (store : PosixPath) (asked : List String) (location : Location)
    (content : ByteArray) (document : Repository) : Prop where
  isNamed : ∃ value : Value, value.Names (.github document)
  mem_asked : document.url ∈ asked
  answer_eq : Store.outcome start.network document.url = .ok content
  location_eq : location = (start.resolve (document.location store)).names

/-- What storing copies of documents can make of what is at a location. -/
inductive Stored (start : World) (store : PosixPath) (asked : List String) (location : Location) :
    Option Entry → Option Entry → Prop
  | same (entry : Option Entry) : Stored start store asked location entry entry
  | directory : Stored start store asked location none (some .directory)
  | copy {content : ByteArray} {document : Repository}
    (h : start.IsCopy store asked location content document) :
    Stored start store asked location none (some (.file content))
  | overwritten {before content : ByteArray} {document : Repository}
    (h : start.IsCopy store asked location content document)
    (hdots : ".." ∈ (document.location store).names) :
    Stored start store asked location (some (.file before)) (some (.file content))

variable {start world world' : World} {store : PosixPath} {asked more : List String}
  {location : Location} {content : ByteArray} {document : Repository}

/-- A copy stays one when more is asked for. -/
theorem IsCopy.mono (h : start.IsCopy store asked location content document)
    (hmore : asked ⊆ more) : start.IsCopy store more location content document :=
  ⟨h.isNamed, hmore h.mem_asked, h.answer_eq, h.location_eq⟩

/-- A copy of a plain document is strictly below the store. -/
theorem IsCopy.exists_below (h : start.IsCopy store asked location content document)
    (hplain : document.IsPlain) :
    ∃ below, below ≠ [] ∧ location = (start.resolve store).names ++ below :=
  ⟨document.segments, document.segments_ne_nil,
    h.location_eq.trans (Repository.names_resolve_location hplain _ _)⟩

namespace Stored

variable {before between after : Option Entry}

theorem mono (h : start.Stored store asked location before after) (hmore : asked ⊆ more) :
    start.Stored store more location before after := by
  cases h with
  | same => exact .same _
  | directory => exact .directory
  | copy h => exact .copy (h.mono hmore)
  | overwritten h hdots => exact .overwritten (h.mono hmore) hdots

/-- What is stored in two steps is stored in one. -/
theorem trans (h : start.Stored store asked location before between)
    (h' : start.Stored store asked location between after) :
    start.Stored store asked location before after := by
  cases h with
  | same => exact h'
  | directory =>
    cases h'
    exact .directory
  | copy h =>
    cases h' with
    | same => exact .copy h
    | overwritten h' => exact .copy h'
  | overwritten h hdots =>
    cases h' with
    | same => exact .overwritten h hdots
    | overwritten h' hdots' => exact .overwritten h' hdots'

/-- What is at a location is as it was, or it is new: a directory, or the copy of a document, which is
strictly below the store if the document is plain. -/
theorem eq_or_new (h : start.Stored store asked location before after) :
    after = before ∨ (before = none ∧ after = some .directory) ∨
      ∃ content document, after = some (.file content) ∧
        start.IsCopy store asked location content document ∧
        (document.IsPlain → ∃ below, below ≠ [] ∧
          location = (start.resolve store).names ++ below) := by
  cases h with
  | same => exact .inl rfl
  | directory => exact .inr (.inl ⟨rfl, rfl⟩)
  | copy h => exact .inr (.inr ⟨_, _, rfl, h, h.exists_below⟩)
  | overwritten h => exact .inr (.inr ⟨_, _, rfl, h, h.exists_below⟩)

/-- New directories stand where nothing was before. -/
theorem of_addsDirectories {tree tree' : FileTree} (h : tree.AddsDirectories tree')
    (location : Location) :
    start.Stored store asked location (tree.get? location) (tree'.get? location) := by
  rcases h location with hsame | ⟨hnone, hdirectory⟩
  · rw [hsame]
    exact .same _
  · rw [hnone, hdirectory]
    exact .directory

end Stored

/-- Whether a world comes from a first one by asking for documents and storing copies of them. -/
structure AddsCopies (start : World) (store : PosixPath) (world : World) : Prop where
  place_eq : world.place = start.place
  network_eq : world.network = start.network
  isSound : world.IsSound
  exists_asked : ∃ asked, world.requests = start.requests ++ asked ∧
    ∀ location, start.Stored store asked location (start.tree.get? location)
      (world.tree.get? location)

namespace AddsCopies

/-- A world adds no copies to itself. -/
theorem refl (h : start.IsSound) (store : PosixPath) : start.AddsCopies store start :=
  ⟨rfl, rfl, h, [], (List.append_nil _).symm, fun _ ↦ .same _⟩

/-- A further change adds copies if it does at each place. -/
theorem extend (h : start.AddsCopies store world) (hplace : world'.place = world.place)
    (hnetwork : world'.network = world.network) (hsound : world'.IsSound)
    (hrequests : world'.requests = world.requests ++ more)
    (hstored : ∀ location, start.Stored store more location (world.tree.get? location)
      (world'.tree.get? location)) : start.AddsCopies store world' := by
  obtain ⟨asked, hasked, hbefore⟩ := h.exists_asked
  refine ⟨hplace.trans h.place_eq, hnetwork.trans h.network_eq, hsound, asked ++ more, ?_, ?_⟩
  · rw [hrequests, hasked, List.append_assoc]
  · exact fun location ↦ ((hbefore location).mono (List.subset_append_left _ _)).trans
      ((hstored location).mono (List.subset_append_right _ _))

theorem say (h : start.AddsCopies store world) (level : Level) (message : String) :
    start.AddsCopies store (world.say level message) := by
  rw [World.say]
  split
  · exact ⟨h.place_eq, h.network_eq, ⟨h.isSound.tree, h.isSound.place⟩, h.exists_asked⟩
  · exact h

end AddsCopies

/-! ### Fetching -/

/-- Fetching a document adds at most the copy of this document. -/
theorem AddsCopies.fetch (h : start.AddsCopies store world) (hstore : store.IsSpelled)
    (hnamed : ∃ value : Value, value.Names (.github document)) :
    start.AddsCopies store ((Store.fetch store document).run world).2 := by
  have halters := Store.alters hstore document h.isSound
  generalize (Store.fetch store document).run world = outcome at halters ⊢
  obtain ⟨result, world'⟩ := outcome
  change Store.Alters store document world result world' at halters
  cases halters with
  | nothing => exact h
  | directories log hadds hsound =>
    exact h.extend rfl rfl hsound rfl (Stored.of_addsDirectories hadds)
  | @copy content tree location log hanswer hadds hfollow hnot hfree hsound =>
    have hcopy : start.IsCopy store [document.url] location content document := by
      refine ⟨hnamed, List.mem_singleton_self _, h.network_eq ▸ hanswer, ?_⟩
      rw [World.resolve, ← h.place_eq]
      exact (h.isSound.isPlaced.names_resolve_of_follow hfollow).symm
    have hroot : location ≠ [] := by
      rintro rfl
      exact hnot rfl
    refine h.extend rfl rfl hsound rfl fun location' ↦ ?_
    show start.Stored store _ location' _ ((tree.insert location (.file content)).get? location')
    rw [FileTree.get?_insert _ _ _ hroot]
    split
    · next hsame =>
      subst hsame
      rcases hfree with hnone | ⟨⟨before, hbefore⟩, hstray⟩
      · rw [hnone]
        exact .copy hcopy
      · rw [hbefore]
        refine .overwritten hcopy (Decidable.byContradiction fun hdots ↦ hstray ?_)
        exact canFollow_of_notMem (size_le_of_follow hfollow) hdots
    · exact .of_addsDirectories hadds location'

end World

/-! ### What runs maintain -/

namespace Run

variable {α β : Type} {kept : World → Prop} {m : Run α}

/-- Whether a fact about the world still holds after a run, however it ends. -/
def Maintains (kept : World → Prop) (m : Run α) : Prop := ∀ world, kept world → kept (m.run world).2

namespace Maintains

theorem pure (a : α) : (Pure.pure a : Run α).Maintains kept := fun _ h ↦ h

theorem throw (failure : Failure) : (MonadExcept.throw failure : Run α).Maintains kept :=
  fun _ h ↦ h

theorem get : (MonadState.get : Run World).Maintains kept := fun _ h ↦ h

/-- Steps that keep something keep it together. -/
theorem bind {k : α → Run β} (h : m.Maintains kept) (hk : ∀ a, (k a).Maintains kept) :
    (m >>= k).Maintains kept := by
  intro world hworld
  have hm := h world hworld
  rcases hrun : m.run world with ⟨failure | a, world'⟩ <;> rw [hrun] at hm
  · rwa [run_bind_of_error hrun]
  · rw [run_bind_of_ok hrun]
    exact hk a world' hm

theorem map (h : m.Maintains kept) (f : α → β) : (f <$> m).Maintains kept := by
  rw [map_eq_pure_bind]
  exact h.bind fun a ↦ .pure (f a)

/-- Looking at the world keeps everything. -/
theorem reading (read : World → Except Failure α) : (Run.reading read).Maintains kept := by
  intro world hworld
  rwa [run_reading]

theorem say (h : ∀ world level message, kept world → kept (world.say level message))
    (level : Level) (message : String) : (Run.say level message).Maintains kept :=
  fun world hworld ↦ h world level message hworld

theorem lift {m : StateM World α} (h : ∀ world, kept world → kept (m.run world).2) :
    (liftM m : Run α).Maintains kept := h

end Maintains

end Run

/-! ### Resolving -/

variable {start : World} {store : PosixPath}

/-- Whether services keep a property of their state when they resolve what a value names. -/
def Services.Keep {σ : Type} (services : Services σ) (keeps : σ → Prop) : Prop :=
  ∀ resolve ∈ services.resolve?, ∀ reference, (∃ value : Value, value.Names reference) →
    ∀ visited directory s, keeps s → keeps (resolve reference visited directory s).2

/-- Loading a document keeps what fetching one keeps. -/
theorem Resolver.maintains_load {resolver : Resolver} (hstore : resolver.store.IsSpelled)
    (file : PosixPath) (label : String) {reference : Reference}
    (hnamed : ∃ value : Value, value.Names reference) :
    (resolver.load file label reference).Maintains (start.AddsCopies resolver.store) := by
  have hcontent : (resolver.content file label reference).Maintains
      (start.AddsCopies resolver.store) := by
    cases reference with
    | github document => exact fun world hworld ↦ hworld.fetch hstore hnamed
    | onDisk path =>
      refine Run.Maintains.get.bind fun world ↦ ?_
      split
      · exact .pure _
      · exact .throw _
      · exact .throw _
  refine hcontent.bind fun content ↦ (Run.Maintains.reading _).bind fun value ↦ ?_
  split
  · exact .pure _
  · exact .throw _

/-- The services of a package change nothing on disk but for the store. -/
theorem Services.keep_ofPackage {resolver : Resolver} (hstore : resolver.store.IsSpelled)
    (directory : PosixPath) :
    (Services.ofPackage directory (some resolver)).Keep fun s ↦
      start.AddsCopies resolver.store s.2 := by
  intro resolve hresolve reference hnamed visited base s hs
  obtain ⟨outcome, world', hresolves, hrun⟩ :=
    Services.exists_resolves hresolve reference visited base s
  rw [hrun]
  have hload : ∀ label, start.AddsCopies resolver.store
      ((resolver.load (resolver.fileOf base reference) label reference).run s.2).2 := fun label ↦
    Resolver.maintains_load hstore _ label hnamed s.2 hs
  cases hresolves with
  | unnamed | cyclic | known => exact hs
  | @unread label failure _ hrun =>
    have hkept := hload label
    rwa [hrun] at hkept
  | @read label value _ _ _ hrun =>
    have hkept := hload label
    rwa [hrun] at hkept

namespace Context

variable {σ : Type} {context : Context σ} {keeps : σ → Prop}

/-- Resolving a reference keeps what the services keep. -/
theorem meets_resolve_of_keep (h : context.services.Keep keeps) {reference : Reference}
    (hnamed : ∃ value : Value, value.Names reference) :
    (context.resolve reference).Meets (.keeping keeps) fun _ ↦ True := by
  intro s hs
  cases hresolve : context.services.resolve? with
  | none =>
    rw [context.run_resolve_of_none hresolve]
    exact ⟨hs, trivial, trivial⟩
  | some resolve =>
    have hresult := h resolve hresolve reference hnamed context.visited context.directory s.state hs
    rw [context.run_resolve hresolve]
    generalize resolve reference context.visited context.directory s.state = result at hresult ⊢
    obtain ⟨_ | document, t⟩ := result
    · exact ⟨hresult, trivial, trivial⟩
    · exact ⟨hresult, trivial, trivial⟩

/-- Reading a scope keeps what reading documents keeps. -/
theorem meets_scope_of_keep (h : context.services.Keep keeps) {read : ReadDocument σ}
    (hread : ∀ registries : Registries, registries.IsScope → ∀ document,
      (read context registries document).Meets (.keeping keeps) fun _ ↦ True)
    {registries : Registries} (hscope : registries.IsScope) (place : Place)
    (entries : List (String × Value)) :
    (scope read context registries place entries).Meets (.keeping keeps) fun _ ↦ True := by
  -- Nothing is asked of the fields that are read, so that they need not be formed.
  have halike : (scope read context registries place entries).Alike (.keeping keeps)
      (fun result ↦ False → registries.own.IsUsual → Value.areKeyed entries → result.IsFormed)
      (scope read context registries place entries) := by
    refine alike_scope _ canGlob_keeping hscope.isFlat place entries fun inner target hrefers ↦
      .of_names fun reference hnames ↦ .refl ?_
    refine (meets_resolve_of_keep h ⟨target, hnames⟩).bind fun document _ ↦ ?_
    exact (hread inner (hrefers.isScope hscope) document).imp fun _ _ ↦ False.elim
  exact halike.1.imp fun _ _ ↦ trivial

/-- So does reading a document, with all documents that it refers to. -/
theorem meets_document_of_keep (h : context.services.Keep keeps) (bound : Nat)
    {registries : Registries} (hscope : registries.IsScope) (document : Document) :
    (Context.document bound context registries document).Meets (.keeping keeps) fun _ ↦ True := by
  induction bound generalizing context registries document with
  | zero => exact fun _ hs ↦ ⟨hs, trivial, trivial⟩
  | succ bound ih =>
    have henter : (context.enter document).services.Keep keeps := h
    exact meets_scope_of_keep henter (fun _ hinner ↦ ih henter hinner) hscope _ _

/-- Reading a manifest keeps what its services keep. -/
theorem meets_package_of_keep (h : context.services.Keep keeps) (bound : Nat) (value : Value) :
    (context.package bound value).Meets (.keeping keeps) fun _ ↦ True := by
  cases value with
  | object entries =>
    exact meets_scope_of_keep h (fun _ hinner ↦ meets_document_of_keep h bound hinner) (.inl rfl) _ _
  | scalar | array => exact fun _ hs ↦ ⟨hs, trivial, trivial⟩

end Context

/-! ### Compiling -/

theorem Decode.Outcome.IsRight.holds {σ α : Type} {contract : Contract σ} {p : α → Prop} {s : σ}
    {outcome : Decode.Outcome σ α} (h : outcome.IsRight contract p s) :
    contract.holds outcome.2.state := by
  obtain ⟨_ | a, t⟩ := outcome
  · exact h.1
  · exact h.1

namespace Manifest

theorem maintains_load (manifest : PosixPath) {kept : World → Prop} :
    (load manifest).Maintains kept := by
  refine (Run.Maintains.reading _).bind fun text ↦ (Run.Maintains.reading _).bind fun value ↦ ?_
  split
  · exact .pure _
  · exact .throw _

/-- Reading the fields of a manifest adds at most copies of documents. -/
theorem maintains_readFields (manifest : PosixPath) {resolver : Resolver}
    (hstore : resolver.store.IsSpelled) :
    (readFields manifest resolver).Maintains (start.AddsCopies resolver.store) := by
  refine (maintains_load manifest).bind fun entries ↦ Run.Maintains.get.bind fun before ↦ ?_
  refine Run.Maintains.bind (.lift fun world hworld ↦ ?_) fun result ↦
    (Run.Maintains.reading _).bind fun fields ↦ .pure _
  have hmeets : ((Context.ofPackage manifest.name manifest.parent (some resolver)).package
      before.documentBound (.object entries)).Meets
        (.keeping fun s ↦ start.AddsCopies resolver.store s.2) fun _ ↦ True :=
    Context.meets_package_of_keep (Services.keep_ofPackage hstore manifest.parent) _ _
  rw [Decode.run_inWorld]
  exact (hmeets ⟨[], [], world⟩ hworld).holds

/-- Reading a package adds at most copies of documents. -/
theorem maintains_readPackage (manifest : PosixPath) {resolver : Resolver}
    (hstore : resolver.store.IsSpelled) :
    (readPackage manifest resolver).Maintains (start.AddsCopies resolver.store) := by
  have hsay := Run.Maintains.say fun (world : World) level message
    (h : start.AddsCopies resolver.store world) ↦ h.say level message
  refine (maintains_readFields manifest hstore).bind fun result ↦ ?_
  refine (Run.Maintains.reading _).bind fun hasLicense ↦ ?_
  refine (Run.Maintains.reading _).bind fun package ↦ (hsay _ _).bind fun _ ↦ ?_
  exact (Run.Maintains.reading _).bind fun result ↦ (hsay _ _).bind fun _ ↦ .pure _

theorem maintains_previousText (previous : Option String) (target : PosixPath)
    {kept : World → Prop} : (previousText previous target).Maintains kept := by
  cases previous with
  | some text => exact .pure _
  | none =>
    refine (Run.Maintains.reading _).bind fun found ↦ ?_
    split
    · exact (Run.Maintains.reading _).map _
    · exact .pure _

/-- Compiling a manifest changes nothing on disk but for the store. -/
theorem addsCopies_compile (manifest : PosixPath) {store : PosixPath} (hstore : store.IsSpelled)
    (previous : Option String) {world : World} (hsound : world.IsSound) :
    world.AddsCopies store ((compile manifest store previous).run world).2 := by
  have hread : ∀ resolver : Resolver, resolver.store.IsSpelled →
      (readPackage manifest resolver).Maintains (world.AddsCopies resolver.store) :=
    fun _ ↦ maintains_readPackage manifest
  have hcompile : (compile manifest store previous).Maintains (world.AddsCopies store) := by
    refine (hread ⟨store, some manifest.parent⟩ hstore).bind fun result ↦
      (maintains_previousText _ _).bind fun text ↦ ?_
    extract_lets hints finish
    have hfinish : ∀ checked, (finish checked).Maintains (world.AddsCopies store) := fun _ ↦
      (Run.Maintains.say (fun _ level message h ↦ h.say level message) _ _).bind fun _ ↦ .pure _
    split
    · exact hfinish ()
    · exact (Run.Maintains.throw _).bind hfinish
  exact hcompile world (.refl hsound store)

end Manifest

end CabalManifest
