import CabalManifest.Proofs.AcyclicDefaults
import CabalManifest.Proofs.ReloadedDocuments

/-!
# Manifests that are read again

A manifest that was read once is read again in a later world: with the same result and the same
warnings, and without asking for anything or changing the world (`Context.package_again`). For this
the documents that were read must still stand there, the directories must be there, and the patterns
must be matched against the same files both times.

Only a first reading that succeeds counts. Where it fails, a document may be missing that is found
later.
-/

namespace CabalManifest

/-! ### Where documents are found -/

/-- Whether a world comes from another one with all directories left where they are. -/
structure World.KeepsDirectories (world world' : World) : Prop where
  isSound : world'.IsSound
  place_eq : world'.place = world.place
  directories : world.tree.KeepsDirectories world'.tree

section

variable {world world' later : World}

theorem World.KeepsDirectories.refl (h : world.IsSound) : world.KeepsDirectories world :=
  ⟨h, rfl, fun _ ↦ id⟩

/-- A path that leads somewhere leads there as long as the directories are kept. -/
theorem World.KeepsDirectories.follow (h : world.KeepsDirectories world') {path : PosixPath}
    {location : Location} (hfollow : world.follow path = .ok location) :
    world'.follow path = .ok location := by
  have hstart : world'.startOf path = world.startOf path := by
    rw [World.startOf, World.startOf, h.place_eq]
  have hsize := World.size_le_of_follow hfollow
  rw [World.follow, if_neg (Nat.not_lt.2 hsize), hstart]
  exact h.directories.follow (World.tree_follow_of_follow hfollow)

/-- A document that is fetched can be followed to afterwards. -/
theorem Store.fetch_leads {store : PosixPath} {document : Repository} (hworld : world.IsSound)
    (hstore : store.IsSpelled) {result : Except Failure ByteArray}
    (h : (Store.fetch store document).run world = (result, world')) :
    world.KeepsDirectories world' ∧ ∀ content, result = .ok content →
      ∃ location, world'.follow (document.location store) = .ok location := by
  have halters := Store.alters hstore document hworld
  rw [h] at halters
  change Store.Alters store document world result world' at halters
  cases halters with
  | nothing hread =>
    refine ⟨.refl hworld, fun content hcontent ↦ ?_⟩
    obtain ⟨location, hfollow, -⟩ :=
      World.exists_of_find (World.find_of_readBytes (hread content hcontent))
    exact ⟨location, hfollow⟩
  | directories log hadds hsound =>
    exact ⟨⟨hsound, rfl, hadds.grows.keepsDirectories⟩, fun _ h ↦ by cases h⟩
  | @copy content tree location log hanswer hadds hfollow hnot hfree hsound =>
    have hinsert := FileTree.keepsDirectories_insert hnot content
    refine ⟨⟨hsound, rfl, hadds.grows.keepsDirectories.trans hinsert⟩, fun _ _ ↦ ⟨location, ?_⟩⟩
    have hsize := World.size_le_of_follow hfollow
    rw [World.follow, if_neg (Nat.not_lt.2 hsize)]
    exact hinsert.follow (World.tree_follow_of_follow hfollow)

namespace Resolver

variable {resolver : Resolver} {reference : Reference} {base : PosixPath} {label : String}

theorem content_leads (hworld : world.IsSound) (hstore : resolver.store.IsSpelled)
    {result : Except Failure ByteArray}
    (h : (resolver.content (resolver.fileOf base reference) label reference).run world =
      (result, world')) :
    world.KeepsDirectories world' ∧ ∀ content, result = .ok content →
      ∃ location, world'.follow (resolver.fileOf base reference) = .ok location := by
  cases reference with
  | github document => exact Store.fetch_leads hworld hstore h
  | onDisk path =>
    obtain ⟨rfl, hfind⟩ := exists_of_content_onDisk h
    refine ⟨.refl hworld, fun content hcontent ↦ ?_⟩
    obtain ⟨location, hfollow, -⟩ := World.exists_of_find (hfind content hcontent)
    exact ⟨location, hfollow⟩

/-- A document that is loaded can be followed to afterwards. -/
theorem load_leads (hworld : world.IsSound) (hstore : resolver.store.IsSpelled)
    {result : Except Failure (List (String × Value))}
    (h : (resolver.load (resolver.fileOf base reference) label reference).run world =
      (result, world')) :
    world.KeepsDirectories world' ∧ ∀ value, result = .ok value →
      ∃ location, world'.follow (resolver.fileOf base reference) = .ok location := by
  obtain ⟨content?, hcontent, hvalue⟩ := exists_of_load h
  obtain ⟨hkept, hfollow⟩ := content_leads hworld hstore hcontent
  refine ⟨hkept, fun value hresult ↦ ?_⟩
  obtain ⟨content, hok, -⟩ := hvalue value hresult
  exact hfollow content hok

/-! ### Resolving again -/

theorem locate_of_place (hplace : later.place = world.place) (base : PosixPath)
    (reference : Reference) :
    resolver.locate base reference later = resolver.locate base reference world := by
  simp only [locate, World.shorten, World.resolve, hplace]

theorem target_of_place (hplace : later.place = world.place) (base : PosixPath)
    (reference : Reference) :
    resolver.target later base reference = resolver.target world base reference := by
  rw [target, target, World.resolve, World.resolve, hplace]

theorem documentOf_of_place (hplace : later.place = world.place) (base : PosixPath)
    (reference : Reference) (label : String) (value : List (String × Value)) :
    resolver.documentOf later base reference label value =
      resolver.documentOf world base reference label value := by
  rw [documentOf, documentOf, target_of_place hplace]

/-- A document that was loaded and still stands under its path is loaded again. -/
theorem run_load_again (hlater : later.IsSound) (hspelled : later.place.IsSpelled)
    (hstore : resolver.store.IsSpelled) (hbase : base.IsSpelled) (hworld : world.IsSound)
    {value : List (String × Value)}
    (hload : (resolver.load (resolver.fileOf base reference) label reference).run world =
      (.ok value, world')) (hkept : world'.KeepsDirectories later)
    (hcheck : World.checkPath (resolver.fileOf base reference) = .ok ()) {cache : Cache}
    (hcurrent : IsCurrent cache later)
    (hvalue : cache.get? (resolver.target later base reference) = some value) :
    (resolver.load (resolver.fileOf base reference) label reference).run later =
      (.ok value, later) := by
  obtain ⟨-, hleads⟩ := load_leads hworld hstore hload
  obtain ⟨location, hfollow⟩ := hleads value rfl
  have hagain := hkept.follow hfollow
  have hfile := isSpelled_fileOf hstore hbase reference
  obtain ⟨content, hcontent, hread⟩ := hcurrent.hasDocument hspelled hfile hvalue
  rw [hlater.isPlaced.eq_of_follow hagain] at hcontent
  exact run_load_of_find rfl hcheck (World.find_of_follow hagain hcontent) (hread label)

/-- A reference that was resolved resolves to the same document again, with the same documents
remembered. -/
theorem run_resolve_again (hlater : later.IsSound) (hspelled : later.place.IsSpelled)
    (hstore : resolver.store.IsSpelled) (hbase : base.IsSpelled) (hworld : world.IsSound)
    (hplace : later.place = world.place) {visited : List String} {cache : Cache}
    {found : Document × Cache}
    (h : ((resolver.resolve reference visited base).run cache).run world = (.ok found, world'))
    (hkept : world'.tree.KeepsDirectories later.tree) (hcurrent : IsCurrent found.2 later) :
    ((resolver.resolve reference visited base).run cache).run later = (.ok found, later) := by
  rw [run_resolve] at h ⊢
  rw [locate_of_place hplace, target_of_place hplace]
  cases hlocate : resolver.locate base reference world with
  | error failure =>
    rw [hlocate] at h
    cases h
  | ok located =>
    obtain ⟨file, label⟩ := located
    rw [hlocate] at h
    simp only at h ⊢
    split at h
    · cases h
    · next hvisited =>
      rw [if_neg hvisited]
      cases hknown : Entries.get? cache (resolver.target world base reference) with
      | some value =>
        rw [hknown] at h
        cases h
        simp only [documentOf_of_place hplace]
      | none =>
        rw [hknown] at h
        rcases hload : (resolver.load (resolver.fileOf base reference) label reference).run world
          with ⟨failure | value, world₁⟩
        · rw [hload] at h
          cases h
        · rw [hload] at h
          cases h
          obtain ⟨hafter, -⟩ := load_leads hworld hstore hload
          have hvalue : Entries.get? (cache.insert (resolver.target world base reference) value)
              (resolver.target later base reference) = some value := by
            rw [target_of_place hplace, Entries.get?_insert_self]
          have hagain := run_load_again hlater hspelled hstore hbase hworld hload
            ⟨hlater, hplace.trans hafter.place_eq.symm, hkept⟩ (checkPath_of_locate hlocate)
            hcurrent hvalue
          simp only [hagain, documentOf_of_place hplace]

/-- A reading in a later world and the first one remember the same documents, and the later world
stays as it is. The first reading comes to harm if a directory is gone later, or a document that was
read does not stand there. -/
def laterBond (later : World) : Bond (Cache × World) (Cache × World) where
  ties s t := s = (t.1, later)
  unharmed t := t.2.tree.KeepsDirectories later.tree ∧ IsCurrent t.1 later
  holds t := t.2.IsSound ∧ later.place = t.2.place
  excuses _ := True

theorem IsCurrent.of_insert {cache : Cache} {canonical : String} {value : List (String × Value)}
    (h : IsCurrent (cache.insert canonical value) later) (hnew : cache.get? canonical = none) :
    IsCurrent cache later :=
  fun known found hfound ↦ h known found (Entries.get?_insert_of_new hnew hfound)

end Resolver

end

/-! ### Reading again -/

/-- The services of the world to a package, but with patterns that are matched against the files of a
later world. -/
def Services.foreseeing (later : World) (directory : PosixPath) (resolver : Resolver) :
    Services (Cache × World) :=
  { Services.ofPackage directory (some resolver) with
    glob := fun pattern _ ↦ later.glob directory pattern }

/-- The services of a later world answer in step with those that foresee it. -/
theorem Services.inStep_foreseeing {resolver : Resolver} {later : World} (hlater : later.IsSound)
    (hspelled : later.place.IsSpelled) (hstore : resolver.store.IsSpelled)
    (directory : PosixPath) :
    (Services.ofPackage directory (some resolver)).InStep (Resolver.laterBond later)
      PosixPath.IsSpelled (Services.foreseeing later directory resolver) where
  glob := by
    rintro pattern s t rfl
    rfl
  isNone_eq := rfl
  keeps := by
    rintro resolve hresolve reference visited base ⟨cache, world⟩ - ⟨hworld, hplace⟩
    change resolve ∈ (Services.ofPackage directory (some resolver)).resolve? at hresolve
    obtain ⟨outcome, world', hresolves, hsettle⟩ :=
      Services.exists_resolves hresolve reference visited base (cache, world)
    rw [hsettle]
    cases hresolves with
    | unnamed | cyclic | known => exact ⟨⟨hworld, hplace⟩, id⟩
    | unread hload =>
      obtain ⟨hkept, -⟩ := Resolver.load_leads hworld hstore hload
      exact ⟨⟨hkept.isSound, hplace.trans hkept.place_eq.symm⟩, fun hunharmed ↦
        ⟨hkept.directories.trans hunharmed.1, hunharmed.2⟩⟩
    | read _ hnew hload =>
      obtain ⟨hkept, -⟩ := Resolver.load_leads hworld hstore hload
      exact ⟨⟨hkept.isSound, hplace.trans hkept.place_eq.symm⟩, fun hunharmed ↦
        ⟨hkept.directories.trans hunharmed.1, hunharmed.2.of_insert hnew⟩⟩
  isProper := by
    rintro resolve hresolve reference visited base ⟨cache, world⟩ document hbase hdocument
    change resolve ∈ (Services.ofPackage directory (some resolver)).resolve? at hresolve
    obtain ⟨outcome, world', hresolves, hsettle⟩ :=
      Services.exists_resolves hresolve reference visited base (cache, world)
    rw [hsettle] at hdocument
    cases outcome with
    | error failure => cases hdocument
    | ok found =>
      cases hdocument
      exact hresolves.isSpelled_directory hstore hbase
  resolve := by
    rintro resolve hresolve resolve' hresolve' reference visited base _ ⟨cache, world⟩ hbase rfl
      ⟨hworld, hplace⟩ hcounts
    change resolve' ∈ (Services.ofPackage directory (some resolver)).resolve? at hresolve'
    rcases hrun : ((resolver.resolve reference visited base).run cache).run world with
      ⟨failure | found, world'⟩
    · rw [Services.eq_settle hresolve' reference visited base cache world hrun] at hcounts
      exact absurd trivial (hcounts.not_excused failure rfl)
    · rw [Services.eq_settle hresolve' reference visited base cache world hrun] at hcounts ⊢
      obtain ⟨hkept, hcurrent⟩ := hcounts.unharmed
      have hagain := Resolver.run_resolve_again hlater hspelled hstore hbase hworld hplace hrun
        hkept hcurrent
      rw [Services.eq_settle hresolve reference visited base cache later hagain]
      exact ⟨rfl, rfl⟩

namespace Context

/-- Beyond the number of documents that there can be the bound on chains does not matter. -/
theorem run_package_of_le {resolver : Resolver} {start : World}
    {services : Services (Cache × World)} (hserves : (resolver.library start).Serves services)
    {s : Progress (Cache × World)} (hs : (resolver.library start).holds s.state) (source : String)
    (directory : PosixPath) {bound : Nat} (hbound : start.documentBound ≤ bound) (value : Value) :
    ((⟨services, source, directory, []⟩ : Context _).package bound value).run s =
      ((⟨services, source, directory, []⟩ : Context _).package start.documentBound value).run s := by
  cases value with
  | scalar | array => rfl
  | object entries =>
    have hlength : (resolver.library start).paths.length < start.documentBound :=
      start.length_documentPaths_lt resolver.store
    have hstands : (resolver.library start).Stands (.ofManifest entries directory) s.state
        (⟨services, source, directory, []⟩ : Context _) (.ofManifest entries directory) :=
      ⟨rfl, .nil _, List.nodup_nil, List.nil_subset _⟩
    have hchain : ∀ bound, start.documentBound ≤ bound →
        (resolver.library start).paths.length ≤ ([] : List String).length + bound :=
      fun bound hle ↦ by rw [List.length_nil]; omega
    exact (Library.alike_scope_document hserves hstands (.inl rfl) (hchain _ hbound)
      (hchain _ le_rfl) Place.top).2 s ⟨hs, .refl _⟩

/-- A manifest that was read with success is read again in a later world as before, and nothing is
asked or changed. Its patterns were matched against the files of the later world before, too; the
documents that were read stand there, and the directories are all there. -/
theorem package_again {resolver : Resolver} (hstore : resolver.store.IsSpelled)
    {directory : PosixPath} (hdirectory : directory.IsSpelled) {world world' later : World}
    (hworld : world.IsSound) (hlater : later.IsSound) (hspelled : later.place.IsSpelled)
    (hplace : later.place = world.place) (source : String) (value : Value) {fields : FieldSet}
    {warnings : List Warning} {cache : Cache}
    (h : ((⟨.foreseeing later directory resolver, source, directory, []⟩ : Context _).package
      world.documentBound value).run ⟨[], [], world⟩ = (.ok fields, ⟨warnings, cache, world'⟩))
    (hkept : world'.tree.KeepsDirectories later.tree) (hcurrent : Resolver.IsCurrent cache later) :
    ((Context.ofPackage source directory (some resolver)).package later.documentBound value).run
      ⟨[], [], later⟩ = (.ok fields, ⟨warnings, cache, later⟩) := by
  -- Both readings may as well have the larger one of their bounds.
  have hservesLater := resolver.serves_library hlater.isPlaced directory
  have hserves := resolver.serves_library hworld.isPlaced directory
  have hforesees : (resolver.library world).Serves
      (Services.foreseeing later directory resolver) := by
    refine ⟨fun pattern s failure hglob ↦ ?_, hserves.resolve⟩
    exact hserves.glob pattern (s.1, later) failure hglob
  have hstart : ∀ start : World, (resolver.library start).holds ([], start) := fun start ↦
    ⟨World.isLater_self start resolver.store, nofun⟩
  rw [← run_package_of_le hforesees (hstart world) source directory
    (le_max_left world.documentBound later.documentBound)] at h
  rw [ofPackage, ← run_package_of_le hservesLater (hstart later) source directory
    (le_max_right world.documentBound later.documentBound)]
  have hstep : ((Context.ofPackage source directory (some resolver)).package
      (max world.documentBound later.documentBound) value).InStep (Resolver.laterBond later)
        (fun _ ↦ True) ((⟨.foreseeing later directory resolver, source, directory, []⟩ :
          Context _).package (max world.documentBound later.documentBound) value) :=
    inStep_package (Services.inStep_foreseeing hlater hspelled hstore directory) hdirectory _ value
  have hjoins : (Resolver.laterBond later).Joins ⟨[], ([], later)⟩ ⟨[], ([], world)⟩ :=
    ⟨rfl, ⟨hworld, hplace⟩, rfl⟩
  have hunharmed : (Resolver.laterBond later).unharmed (cache, world') := ⟨hkept, hcurrent⟩
  obtain ⟨hresult, hend⟩ := hstep.run _ _ hjoins (by rw [h]; exact .of_ok hunharmed fields)
  rw [h] at hresult hend
  rw [ofPackage] at hresult hend
  refine Prod.ext hresult ?_
  obtain ⟨hties, -, hwarnings⟩ := hend
  exact congrArg₂ Progress.mk hwarnings hties

end Context

end CabalManifest
