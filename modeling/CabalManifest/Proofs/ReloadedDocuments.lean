import CabalManifest.Proofs.ReadingInStep
import CabalManifest.Proofs.StoredCopies

/-!
# Documents that are read again

A run remembers every document under the absolute path of its file, and reads it once. If it
remembered nothing, it would read a document again whenever a reference names it
(`Services.reloading`). Both ways of reading go in step (`Services.inStep_reloading`), so that what is
remembered cannot be told from the outside (`Context.package_reloading`).

This rests on the way in which references are spelled. A remembered document is found under any
spelling of its path; the file is found only if the path can be followed as it is spelled, through
every directory that it names before a pair of dots.
-/

namespace CabalManifest

/-! ### Texts that are documents -/

namespace Value

mutual

/-- Whether two values are the same one, with nothing but texts for scalars. -/
def isSame : Value → Value → Bool
  | .text s, .text t => s == t
  | .array items, .array items' => areSameItems items items'
  | .object entries, .object entries' => areSameEntries entries entries'
  | _, _ => false

/-- Whether the items of two arrays are the same. -/
def areSameItems : List Value → List Value → Bool
  | [], [] => true
  | item :: items, item' :: items' => item.isSame item' && areSameItems items items'
  | _, _ => false

/-- Whether the entries of two objects are the same. -/
def areSameEntries : List (String × Value) → List (String × Value) → Bool
  | [], [] => true
  | (key, value) :: entries, (key', value') :: entries' =>
    key == key' && value.isSame value' && areSameEntries entries entries'
  | _, _ => false

end

mutual

/-- Two values found the same are equal. -/
theorem eq_of_isSame {value value' : Value} (h : value.isSame value') : value = value' := by
  match value, value' with
  | .text s, .text t =>
    rw [isSame, beq_iff_eq] at h
    rw [h]
  | .array items, .array items' =>
    rw [isSame] at h
    rw [eq_of_areSameItems h]
  | .object entries, .object entries' =>
    rw [isSame] at h
    rw [eq_of_areSameEntries h]

/-- Two lists of values found the same are equal. -/
theorem eq_of_areSameItems {items items' : List Value} (h : areSameItems items items') :
    items = items' := by
  match items, items' with
  | [], [] => rfl
  | item :: items, item' :: items' =>
    rw [areSameItems, Bool.and_eq_true] at h
    rw [eq_of_isSame h.1, eq_of_areSameItems h.2]

/-- Two lists of entries found the same are equal. -/
theorem eq_of_areSameEntries {entries entries' : List (String × Value)}
    (h : areSameEntries entries entries') : entries = entries' := by
  match entries, entries' with
  | [], [] => rfl
  | (key, value) :: entries, (key', value') :: entries' =>
    rw [areSameEntries, Bool.and_eq_true, Bool.and_eq_true, beq_iff_eq] at h
    rw [h.1.1, eq_of_isSame h.1.2, eq_of_areSameEntries h.2]

end

end Value

/-- Whether a text is read as a value that has nothing but texts for scalars. -/
def Yaml.parsesAs (text : String) (value : Value) : Bool :=
  match parse text with
  | .ok found => found.isSame value
  | .error _ => false

/-- A text that was checked to stand for a value is parsed as it. -/
theorem Yaml.parse_eq_of_parsesAs {text : String} {value : Value} (h : parsesAs text value) :
    parse text = .ok value := by
  rw [parsesAs] at h
  split at h
  · next hparse => rw [hparse, Value.eq_of_isSame h]
  · cases h

/-! ### Documents on disk -/

namespace World

/-- Whether a document with certain fields stands at a location. -/
def HasDocument (world : World) (location : Location) (value : List (String × Value)) : Prop :=
  ∃ content, world.tree.get? location = some (.file content) ∧
    ∀ source, Yaml.readBytes source content = .ok (.object value)

variable {world world' : World} {location : Location} {value : List (String × Value)}

/-- A document that is there stays there while the tree grows. -/
theorem HasDocument.grow (h : world.HasDocument location value)
    (hgrows : world.tree.Grows world'.tree) : world'.HasDocument location value := by
  obtain ⟨content, hcontent, hread⟩ := h
  exact ⟨content, hgrows _ _ hcontent, hread⟩

/-- How a world stays as it is, but for what is added to it. -/
structure IsKept (world world' : World) : Prop where
  isSound : world'.IsSound
  place_eq : world'.place = world.place
  grows : world.tree.Grows world'.tree

/-- A sound world is kept as it is. -/
theorem IsKept.refl (h : world.IsSound) : world.IsKept world := ⟨h, rfl, .refl _⟩

end World

/-- The name of a document in messages makes no difference to its value. -/
theorem Yaml.readBytes_ok {source : String} {bytes : ByteArray} {value : Value}
    (h : readBytes source bytes = .ok value) (source' : String) :
    readBytes source' bytes = .ok value := by
  obtain ⟨text, htext, h⟩ := exists_of_bind_eq_ok h
  rw [readBytes, htext]
  show readText source' text = .ok value
  rw [readText] at h ⊢
  cases hparse : parse text with
  | error error => rw [hparse] at h; cases h
  | ok found => rw [hparse] at h; exact h

/-- What is written as a text is read as this text. -/
theorem Yaml.readBytes_encode (source text : String) :
    readBytes source (Text.encode text) = readText source text := by
  rw [readBytes, Text.decode_encode]
  rfl

/-! ### Fetching and loading -/

section

variable {world world' : World}

/-- Fetching from a place that can be followed changes no file that is there, and afterwards the
document stands at this place. -/
theorem Store.fetch_keeps {store : PosixPath} {document : Repository} (hworld : world.IsSound)
    (hstore : store.IsSpelled) (hpath : world.CanFollow (document.location store))
    {result : Except Failure ByteArray}
    (h : (Store.fetch store document).run world = (result, world')) :
    world.IsKept world' ∧ ∀ content, result = .ok content →
      world'.tree.get? (world.resolve (document.location store)).names = some (.file content) := by
  have halters := Store.alters hstore document hworld
  rw [h] at halters
  change Store.Alters store document world result world' at halters
  cases halters with
  | nothing hread =>
    exact ⟨.refl hworld, fun content hcontent ↦
      hworld.isPlaced.get?_of_find (World.find_of_readBytes (hread content hcontent))⟩
  | directories log hadds hsound => exact ⟨⟨hsound, rfl, hadds.grows⟩, fun _ h ↦ by cases h⟩
  | @copy content tree location log hanswer hadds hfollow hnot hfree hsound =>
    have hplace := hworld.isPlaced.names_resolve_of_follow hfollow
    have hroot : location ≠ [] := by
      rintro rfl
      exact hnot rfl
    -- Nothing was in this place, so that nothing is lost by writing there.
    have hnew : tree.get? location = none := by
      rcases hfree with hnone | ⟨-, hstray⟩
      · rcases hadds location with hsame | ⟨-, hdirectory⟩
        · exact hsame.trans hnone
        · exact absurd hdirectory hnot
      · exact absurd hpath hstray
    refine ⟨⟨hsound, rfl, hadds.grows.trans (FileTree.grows_insert hnew _)⟩, ?_⟩
    rintro _ ⟨⟩
    show (tree.insert location (.file content)).get? _ = _
    rw [hplace, FileTree.get?_insert _ _ _ hroot, if_pos rfl]

namespace Resolver

variable {resolver : Resolver} {reference : Reference} {base : PosixPath} {label : String}
  {value : List (String × Value)}

/-- The path of a document is spelled as paths are if the two it is made of are. -/
theorem isSpelled_fileOf (hstore : resolver.store.IsSpelled) (hbase : base.IsSpelled)
    (reference : Reference) : (resolver.fileOf base reference).IsSpelled := by
  cases reference with
  | onDisk path => exact hbase.below path
  | github document => exact Repository.isSpelled_location hstore document

/-- The references of a document that was resolved start at a path that is spelled. -/
theorem Resolves.isSpelled_directory (hstore : resolver.store.IsSpelled) (hbase : base.IsSpelled)
    {visited : List String} {found : Document × Cache}
    (h : resolver.Resolves reference visited base cache world (.ok found) world') :
    found.1.directory.IsSpelled := by
  have hparent := (isSpelled_fileOf hstore hbase reference).parent
  cases h with
  | known | read => exact hparent

/-- Only a document at a path that can be asked for is located. -/
theorem checkPath_of_locate {located : PosixPath × String}
    (h : resolver.locate base reference world = .ok located) :
    World.checkPath (resolver.fileOf base reference) = .ok () := by
  obtain ⟨shown, hshown, -⟩ := Yaml.exists_of_bind_eq_ok h
  obtain ⟨_, hcheck, -⟩ := Yaml.exists_of_bind_eq_ok hshown
  exact hcheck

/-- Reading the content of a document on disk changes nothing, and the content is that of its file. -/
theorem exists_of_content_onDisk {file : PosixPath} {path : String}
    {result : Except Failure ByteArray}
    (h : (resolver.content file label (.onDisk path)).run world = (result, world')) :
    world' = world ∧ ∀ content, result = .ok content → world.find file = .ok (.file content) := by
  have hyields := resolver.yields_content_onDisk file label path world
  rw [h] at hyields
  rw [run_content_onDisk] at h
  obtain ⟨-, rfl⟩ := Prod.mk.inj h
  refine ⟨rfl, ?_⟩
  rintro content rfl
  exact hyields.of_ok

/-- The document that is loaded is what its content says. -/
theorem exists_of_load {file : PosixPath} {result : Except Failure (List (String × Value))}
    (h : (resolver.load file label reference).run world = (result, world')) :
    ∃ content?, (resolver.content file label reference).run world = (content?, world') ∧
      ∀ value, result = .ok value → ∃ content, content? = .ok content ∧
        ∀ source, Yaml.readBytes source content = .ok (.object value) := by
  rw [load] at h
  rcases hcontent : (resolver.content file label reference).run world with
    ⟨failure | content, world₁⟩
  · rw [run_bind_of_error hcontent] at h
    cases h
    exact ⟨_, rfl, fun _ h ↦ by cases h⟩
  · rw [run_bind_of_ok hcontent] at h
    cases hvalue : Yaml.readBytes label content with
    | error failure =>
      rw [run_bind_of_error (Run.run_reading_of_eq hvalue)] at h
      cases h
      exact ⟨_, rfl, fun _ h ↦ by cases h⟩
    | ok document =>
      rw [run_bind_of_ok (Run.run_reading_of_eq hvalue)] at h
      cases document with
      | object value =>
        cases h
        refine ⟨_, rfl, ?_⟩
        rintro _ ⟨⟩
        exact ⟨content, rfl, Yaml.readBytes_ok hvalue⟩
      | scalar | array =>
        cases h
        exact ⟨_, rfl, fun _ h ↦ by cases h⟩

/-- Reading the content of a document changes no file that is there. -/
theorem content_keeps (hworld : world.IsSound) (hstore : resolver.store.IsSpelled)
    (hpath : world.CanFollow (resolver.fileOf base reference)) {result : Except Failure ByteArray}
    (h : (resolver.content (resolver.fileOf base reference) label reference).run world =
      (result, world')) :
    world.IsKept world' ∧ ∀ content, result = .ok content →
      world'.tree.get? (world.resolve (resolver.fileOf base reference)).names =
        some (.file content) := by
  cases reference with
  | github document => exact Store.fetch_keeps hworld hstore hpath h
  | onDisk path =>
    obtain ⟨rfl, hfind⟩ := exists_of_content_onDisk h
    exact ⟨.refl hworld, fun content hcontent ↦
      hworld.isPlaced.get?_of_find (hfind content hcontent)⟩

/-- Loading a document changes no file that is there, and the document stands under its path. -/
theorem load_keeps (hworld : world.IsSound) (hstore : resolver.store.IsSpelled)
    (hpath : world.CanFollow (resolver.fileOf base reference))
    {result : Except Failure (List (String × Value))}
    (h : (resolver.load (resolver.fileOf base reference) label reference).run world =
      (result, world')) :
    world.IsKept world' ∧ ∀ value, result = .ok value →
      world'.HasDocument (world.resolve (resolver.fileOf base reference)).names value := by
  obtain ⟨content?, hcontent, hvalue⟩ := exists_of_load h
  obtain ⟨hkept, hfile⟩ := content_keeps hworld hstore hpath hcontent
  refine ⟨hkept, fun value hresult ↦ ?_⟩
  obtain ⟨content, hok, hread⟩ := hvalue value hresult
  exact ⟨content, hfile content hok, hread⟩

/-- A document whose content is known is what this says. -/
theorem run_load_of_content {file : PosixPath} {content : ByteArray}
    (hcontent : (resolver.content file label reference).run world = (.ok content, world'))
    (hvalue : Yaml.readBytes label content = .ok (.object value)) :
    (resolver.load file label reference).run world = (.ok value, world') := by
  rw [load, run_bind_of_ok hcontent, run_bind_of_ok (Run.run_reading_of_eq hvalue)]
  rfl

/-- A document whose file is found is what is loaded for it. -/
theorem run_load_of_find {file : PosixPath} (hfile : file = resolver.fileOf base reference)
    (hcheck : World.checkPath file = .ok ()) {content : ByteArray}
    (hfind : world.find file = .ok (.file content))
    (hvalue : Yaml.readBytes label content = .ok (.object value)) :
    (resolver.load file label reference).run world = (.ok value, world) := by
  have hbytes := World.readBytes_of_find hcheck hfind
  have hloaded : (resolver.content file label reference).run world = (.ok content, world) := by
    cases reference with
    | onDisk path =>
      rw [run_content_onDisk, hbytes]
    | github document =>
      obtain rfl : file = document.location resolver.store := hfile
      have hthere : (Run.reading (·.isFile (document.location resolver.store))).run world =
          (.ok true, world) := Run.run_reading_of_eq (World.isFile_of_find hcheck hfind)
      rw [Resolver.content, Store.fetch, run_bind_of_ok hthere, if_pos rfl]
      exact Run.run_reading_of_eq hbytes
  exact run_load_of_content hloaded hvalue

/-- A document that stands under the path of a reference is what is loaded for it. -/
theorem run_load_of_hasDocument (hworld : world.IsSound)
    (hspelled : (resolver.fileOf base reference).IsSpelled)
    (hcheck : World.checkPath (resolver.fileOf base reference) = .ok ())
    (hpath : world.CanFollow (resolver.fileOf base reference))
    (h : world.HasDocument (world.resolve (resolver.fileOf base reference)).names value)
    (label : String) :
    (resolver.load (resolver.fileOf base reference) label reference).run world =
      (.ok value, world) := by
  obtain ⟨content, hcontent, hvalue⟩ := h
  exact run_load_of_find rfl hcheck (hworld.find_of_get? hspelled.dot_notMem hpath hcontent)
    (hvalue label)

end Resolver

end

/-! ### Reading without remembering -/

/-- A reference that is resolved: what it is seen from, and the world at that time. -/
structure Call where
  reference : Reference
  base : PosixPath
  world : World

/-- Whether the file of the reference can be followed to as it is spelled. -/
def Call.CanFollow (resolver : Resolver) (call : Call) : Prop :=
  call.world.CanFollow (resolver.fileOf call.base call.reference)

/-- The absolute path of the document that the reference names. -/
def Call.target (resolver : Resolver) (call : Call) : String :=
  resolver.target call.world call.base call.reference

/-- The services of the world to a package that remember no document, so that each one is read
whenever a reference names it. They record the references. -/
def Services.reloading (directory : PosixPath) (resolver : Resolver) :
    Services (List Call × World) where
  glob pattern := fun (_, world) ↦ world.glob directory pattern
  resolve? := some fun reference visited base (calls, world) ↦
    let outcome := ((resolver.resolve reference visited base).run []).run world
    (outcome.1.map (·.1), (calls ++ [⟨reference, base, world⟩], outcome.2))

/-- A call of the reloading services is the call of the resolver with no cache. -/
theorem Services.eq_reloading {directory : PosixPath} {resolver : Resolver}
    {resolve : Reference → List String → PosixPath → List Call × World →
      Except Failure Document × (List Call × World)}
    (hresolve : resolve ∈ (Services.reloading directory resolver).resolve?) {reference : Reference}
    {visited : List String} {base : PosixPath} (calls : List Call) {world world' : World}
    {outcome : Except Failure (Document × Cache)}
    (h : ((resolver.resolve reference visited base).run []).run world = (outcome, world')) :
    resolve reference visited base (calls, world) =
      (outcome.map (·.1), (calls ++ [⟨reference, base, world⟩], world')) := by
  obtain rfl := Option.some.inj hresolve
  simp only [h]

/-- The context of a manifest in the directory of its package, with such services. -/
def Context.reloading (source : String) (directory : PosixPath) (resolver : Resolver) :
    Context (List Call × World) :=
  ⟨.reloading directory resolver, source, directory, []⟩

namespace Resolver

variable (resolver : Resolver)

/-- Whether what is remembered is what stands on disk. -/
def IsCurrent (cache : Cache) (world : World) : Prop :=
  ∀ canonical value, cache.get? canonical = some value →
    ∃ location, (PosixPath.ofLocation location).IsSpelled ∧
      canonical = (PosixPath.ofLocation location).text ∧ world.HasDocument location value

/-- Whether each document that is remembered is what some reference resolved to. -/
def IsCalled (cache : Cache) (calls : List Call) : Prop :=
  ∀ canonical value, cache.get? canonical = some value →
    ∃ call ∈ calls, call.target resolver = canonical

/-- With and without remembering, the worlds are the same, and what is remembered was referred to and
is what stands on disk. A run comes to harm at a reference whose file cannot be followed to. -/
def bond : Bond (Cache × World) (List Call × World) where
  ties s t := s.2 = t.2 ∧ s.2.IsSound ∧ s.2.place.IsSpelled ∧ IsCurrent s.1 s.2 ∧
    resolver.IsCalled s.1 t.1
  unharmed t := ∀ call ∈ t.1, call.CanFollow resolver

variable {resolver} {cache : Cache} {world world' : World} {reference : Reference}
  {base : PosixPath} {value : List (String × Value)}

/-- A cache stays current as long as the world is kept. -/
theorem IsCurrent.keep (h : IsCurrent cache world) (hkept : world.IsKept world') :
    IsCurrent cache world' := by
  intro canonical value hvalue
  obtain ⟨location, hspelled, hcanonical, hdocument⟩ := h canonical value hvalue
  exact ⟨location, hspelled, hcanonical, hdocument.grow hkept.grows⟩

/-- What is remembered under the absolute path of a file is the document that stands there. -/
theorem IsCurrent.hasDocument (h : IsCurrent cache world) (hplace : world.place.IsSpelled)
    (hspelled : (resolver.fileOf base reference).IsSpelled)
    (hvalue : cache.get? (resolver.target world base reference) = some value) :
    world.HasDocument (world.resolve (resolver.fileOf base reference)).names value := by
  obtain ⟨location, hlocation, htarget, hdocument⟩ := h _ _ hvalue
  have hnames := PosixPath.IsSpelled.names_eq (hplace.resolve hspelled) hlocation htarget
  have hlocated : (world.resolve (resolver.fileOf base reference)).names = location := hnames
  rw [hlocated]
  exact hdocument

/-- A cache stays current with a document that has just been read. -/
theorem IsCurrent.insert (h : IsCurrent cache world) (hplace : world.place.IsSpelled)
    (hspelled : (resolver.fileOf base reference).IsSpelled) (hkept : world.IsKept world')
    (hdocument : world'.HasDocument (world.resolve (resolver.fileOf base reference)).names value) :
    IsCurrent (cache.insert (resolver.target world base reference) value) world' := by
  intro canonical found hfound
  rw [Entries.get?_insert] at hfound
  split at hfound
  · next hsame =>
    cases hfound
    exact ⟨_, hplace.resolve hspelled, hsame.symm, hdocument⟩
  · exact h.keep hkept canonical found hfound

/-- What was called stays called with one more call. -/
theorem IsCalled.append {calls : List Call} (h : resolver.IsCalled cache calls) (call : Call) :
    resolver.IsCalled cache (calls ++ [call]) := by
  intro canonical value hvalue
  obtain ⟨known, hknown, htarget⟩ := h canonical value hvalue
  exact ⟨known, List.mem_append_left _ hknown, htarget⟩

/-- Resolving a reference adds to what is remembered only what it resolves to. -/
theorem IsCalled.resolve {calls : List Call} (h : resolver.IsCalled cache calls)
    {visited : List String} {found : Document × Cache}
    (hresolves : resolver.Resolves reference visited base cache world (.ok found) world') :
    resolver.IsCalled found.2 (calls ++ [⟨reference, base, world⟩]) := by
  cases hresolves with
  | known => exact h.append _
  | read =>
    intro canonical value hvalue
    rw [Entries.get?_insert] at hvalue
    split at hvalue
    · next hsame => exact ⟨_, List.mem_concat_self, hsame⟩
    · exact h.append _ canonical value hvalue

/-- With and without remembering, a reference resolves to the same. -/
theorem resolve_inStep (hstore : resolver.store.IsSpelled) (hbase : base.IsSpelled)
    (hworld : world.IsSound) (hplace : world.place.IsSpelled) (hcurrent : IsCurrent cache world)
    (hpath : world.CanFollow (resolver.fileOf base reference)) {visited : List String}
    {remembering reloading : Except Failure (Document × Cache) × World}
    (h : ((resolver.resolve reference visited base).run cache).run world = remembering)
    (h' : ((resolver.resolve reference visited base).run []).run world = reloading) :
    remembering.1.map (·.1) = reloading.1.map (·.1) ∧ remembering.2 = reloading.2 ∧
      world.IsKept remembering.2 ∧
        ∀ result, remembering.1 = .ok result → IsCurrent result.2 remembering.2 := by
  have hspelled := isSpelled_fileOf hstore hbase reference
  have hsame : world.IsKept world := .refl hworld
  rw [run_resolve] at h h'
  cases hlocate : resolver.locate base reference world with
  | error failure =>
    rw [hlocate] at h h'
    subst h h'
    exact ⟨rfl, rfl, hsame, fun _ h ↦ by cases h⟩
  | ok located =>
    obtain ⟨file, label⟩ := located
    rw [hlocate] at h h'
    simp only at h h'
    split at h
    · next hvisited =>
      rw [if_pos hvisited] at h'
      subst h h'
      exact ⟨rfl, rfl, hsame, fun _ h ↦ by cases h⟩
    · next hvisited =>
      have hnone : Entries.get? ([] : Cache) (resolver.target world base reference) = none := rfl
      rw [if_neg hvisited, hnone] at h'
      cases hvalue : Entries.get? cache (resolver.target world base reference) with
      | some value =>
        -- The remembered document stands on disk, so that it would be read again as it is.
        have hdocument := hcurrent.hasDocument hplace hspelled hvalue
        have hload := run_load_of_hasDocument hworld hspelled (checkPath_of_locate hlocate) hpath
          hdocument label
        rw [hvalue] at h
        rw [hload] at h'
        subst h h'
        refine ⟨rfl, rfl, hsame, ?_⟩
        rintro _ ⟨⟩
        exact hcurrent
      | none =>
        rw [hvalue] at h
        rcases hload : (resolver.load (resolver.fileOf base reference) label reference).run world
          with ⟨failure | value, world'⟩
        · obtain ⟨hkept, -⟩ := load_keeps hworld hstore hpath hload
          rw [hload] at h h'
          subst h h'
          exact ⟨rfl, rfl, hkept, fun _ h ↦ by cases h⟩
        · obtain ⟨hkept, hdocument⟩ := load_keeps hworld hstore hpath hload
          rw [hload] at h h'
          subst h h'
          refine ⟨rfl, rfl, hkept, ?_⟩
          rintro _ ⟨⟩
          exact hcurrent.insert hplace hspelled hkept (hdocument value rfl)

end Resolver

/-- Services that remember documents and those that do not answer in step. -/
theorem Services.inStep_reloading {resolver : Resolver} (hstore : resolver.store.IsSpelled)
    (directory : PosixPath) :
    (Services.ofPackage directory (some resolver)).InStep resolver.bond PosixPath.IsSpelled
      (Services.reloading directory resolver) where
  glob := by
    rintro pattern ⟨cache, world⟩ ⟨calls, world'⟩ ⟨hworld, -⟩
    cases hworld
    rfl
  isNone_eq := rfl
  keeps := by
    rintro resolve' hresolve' reference visited base ⟨calls, world⟩ - -
    refine ⟨trivial, fun hunharmed call hcall ↦ ?_⟩
    rw [Services.eq_reloading hresolve' calls rfl] at hunharmed
    exact hunharmed call (List.mem_append_left _ hcall)
  isProper := by
    rintro resolve' hresolve' reference visited base ⟨calls, world⟩ document hbase hdocument
    have hresolves := resolver.resolves reference visited base [] world
    rcases hrun : ((resolver.resolve reference visited base).run []).run world with ⟨result, world'⟩
    rw [hrun] at hresolves
    rw [Services.eq_reloading hresolve' calls hrun] at hdocument
    change resolver.Resolves reference visited base [] world result world' at hresolves
    cases result with
    | error failure => cases hdocument
    | ok found =>
      cases hdocument
      exact hresolves.isSpelled_directory hstore hbase
  resolve := by
    rintro resolve hresolve resolve' hresolve' reference visited base ⟨cache, world⟩
      ⟨calls, world'⟩ hbase ⟨hsame, hworld, hplace, hcurrent, hcalled⟩ - hcounts
    obtain rfl : world = world' := hsame
    rcases hrun : ((resolver.resolve reference visited base).run cache).run world with
      ⟨result, world₁⟩
    rcases hrun' : ((resolver.resolve reference visited base).run []).run world with
      ⟨result', world₂⟩
    rw [Services.eq_reloading hresolve' calls hrun'] at hcounts ⊢
    have hpath : world.CanFollow (resolver.fileOf base reference) :=
      hcounts.unharmed ⟨reference, base, world⟩ (by simp)
    obtain ⟨hresult, hafter, hkept, hcurrent'⟩ :=
      Resolver.resolve_inStep hstore hbase hworld hplace hcurrent hpath hrun hrun'
    obtain rfl : world₁ = world₂ := hafter
    have hplace' : world₁.place.IsSpelled := hkept.place_eq ▸ hplace
    have hresolves := resolver.resolves reference visited base cache world
    rw [hrun] at hresolves
    rw [Services.eq_settle hresolve reference visited base cache world hrun, ← hresult]
    cases result with
    | error failure =>
      exact ⟨rfl, rfl, hkept.isSound, hplace', hcurrent.keep hkept, hcalled.append _⟩
    | ok found =>
      exact ⟨rfl, rfl, hkept.isSound, hplace', hcurrent' found rfl, hcalled.resolve hresolves⟩

namespace Context

variable {resolver : Resolver} {directory : PosixPath} {world world' : World} {bound : Nat}
  {value : Value} {result : Except Failure FieldSet} {warnings : List Warning} {calls : List Call}

/-- A manifest is read with and without remembering documents in step, and what is remembered in the
end was referred to, and still stands on disk. -/
theorem exists_run_package (hstore : resolver.store.IsSpelled) (hdirectory : directory.IsSpelled)
    (hworld : world.IsSound) (hplace : world.place.IsSpelled) (source : String)
    (h : ((Context.reloading source directory resolver).package bound value).run
      ⟨[], ([], world)⟩ = (result, ⟨warnings, (calls, world')⟩))
    (hcalls : ∀ call ∈ calls, call.CanFollow resolver) :
    ∃ cache : Cache, ((Context.ofPackage source directory (some resolver)).package bound value).run
        ⟨[], ([], world)⟩ = (result, ⟨warnings, (cache, world')⟩) ∧
      Resolver.IsCurrent cache world' ∧ resolver.IsCalled cache calls := by
  have hstep : ((Context.ofPackage source directory (some resolver)).package bound value).InStep
      resolver.bond (fun _ ↦ True)
      ((Context.reloading source directory resolver).package bound value) :=
    inStep_package (Services.inStep_reloading hstore directory) hdirectory bound value
  have hstart : resolver.bond.Joins ⟨[], ([], world)⟩ ⟨[], ([], world)⟩ :=
    ⟨⟨rfl, hworld, hplace, nofun, nofun⟩, trivial, rfl⟩
  obtain ⟨hresult, hjoins⟩ := hstep.run _ _ hstart (by rw [h]; exact ⟨hcalls, fun _ _ ↦ id⟩)
  rw [h] at hresult hjoins
  obtain ⟨⟨hworld', -, -, hcurrent, hcalled⟩, -, hwarnings⟩ := hjoins
  refine ⟨_, Prod.ext hresult (congrArg₂ Progress.mk hwarnings (Prod.ext rfl hworld')), ?_, hcalled⟩
  rwa [hworld'] at hcurrent

/-- What is remembered cannot be told from the outside: reading a manifest gives the same, with the
same warnings and the same changes of the world, as if every document were read again whenever a
reference names it. The files of the references have to be there as they are spelled. -/
theorem package_reloading {resolver : Resolver} (hstore : resolver.store.IsSpelled)
    {directory : PosixPath} (hdirectory : directory.IsSpelled) {world : World}
    (hworld : world.IsSound) (hplace : world.place.IsSpelled) (source : String) (bound : Nat)
    (value : Value) {result : Except Failure FieldSet} {warnings : List Warning}
    {calls : List Call} {world' : World}
    (h : ((Context.reloading source directory resolver).package bound value).run
      ⟨[], ([], world)⟩ = (result, ⟨warnings, (calls, world')⟩))
    (hcalls : ∀ call ∈ calls, call.CanFollow resolver) :
    ((Context.ofPackage source directory (some resolver)).package bound value).inWorld.run world =
      ((warnings, result), world') := by
  obtain ⟨cache, hrun, -⟩ := exists_run_package hstore hdirectory hworld hplace source h hcalls
  rw [Decode.run_inWorld, hrun]

end Context

/-! ### Documents under several names -/

/-- A document that is kept in a store. -/
def keptDocument : Repository := ⟨"o", "r", "v1", "p"⟩

/-- A world with this document. -/
def keepingWorld : World :=
  ⟨((((((FileTree.empty.insert ["pkg"] .directory).insert ["store"] .directory).insert
      ["store", "o"] .directory).insert ["store", "o", "r"] .directory).insert
        ["store", "o", "r", "v1"] .directory).insert ["store", "o", "r", "v1", "p"]
          (.file (Text.encode "{}"))),
    [], ⟨.slash, ["pkg"]⟩, [], [], [], .silent, []⟩

/-- The sample world is sound. -/
theorem isSound_keepingWorld : keepingWorld.IsSound := by
  refine ⟨?_, rfl⟩
  refine FileTree.IsSound.insert ?_ (by decide) ⟨by decide, rfl⟩ (.inr nofun)
  refine FileTree.IsSound.insert ?_ (by decide) ⟨by decide, rfl⟩ (.inl rfl)
  refine FileTree.IsSound.insert ?_ (by decide) ⟨by decide, rfl⟩ (.inl rfl)
  refine FileTree.IsSound.insert ?_ (by decide) ⟨by decide, rfl⟩ (.inl rfl)
  refine FileTree.IsSound.insert ?_ (by decide) ⟨by decide, rfl⟩ (.inl rfl)
  exact FileTree.isSound_empty.insert (by decide) ⟨by decide, rfl⟩ (.inl rfl)

/-- Its document is the empty one. -/
theorem hasDocument_keepingWorld :
    keepingWorld.HasDocument ["store", "o", "r", "v1", "p"] [] := by
  have hparse : Yaml.parse "{}" = .ok (.object []) := Yaml.parse_eq_of_parsesAs (by decide +kernel)
  refine ⟨Text.encode "{}", rfl, fun source ↦ ?_⟩
  rw [Yaml.readBytes_encode, Yaml.readText, hparse]
  rfl

/-- References to the document: by its file, and by its repository. -/
def twofoldReferences : Value :=
  .array [.object [("local", .text "../store/o/r/v1/p")],
    .object [("github", .text "o/r"), ("ref", .text "v1"), ("path", .text "p")]]

namespace Context

variable {σ : Type} {context : Context σ}

/-- A document without fields adds none. -/
theorem run_document_of_nil (bound : Nat) (registries : Registries) {document : Document}
    (h : document.value = []) (s : Progress σ) :
    (Context.document (bound + 1) context registries document).run s = (.ok .empty, s) := by
  rw [Context.document, h, scope, fields]
  rfl

/-- Reading a manifest with nothing but these references is resolving both in turn, if the documents
have no fields. -/
theorem run_package_twofold
    {resolve : Reference → List String → PosixPath → σ → Except Failure Document × σ}
    (hresolve : context.services.resolve? = some resolve) (bound : Nat) {s : Progress σ} {t u : σ}
    {document : Document} {second : Except Failure Document}
    (hfirst : resolve (.onDisk "../store/o/r/v1/p") context.visited context.directory s.state =
      (.ok document, t))
    (hsecond : resolve (.github keptDocument) context.visited context.directory t = (second, u))
    (hdocument : document.value = []) (hnil : ∀ found, second = .ok found → found.value = []) :
    (context.package (bound + 1) (.object [("defaults", twofoldReferences)])).run s =
      (second.map fun _ ↦ .empty, { s with state := u }) := by
  have hown : (fields (Context.document (bound + 1)) context .package (fun _ ↦ false) Place.top
      [("defaults", twofoldReferences)]).run s = (.ok [], s) := by
    simp only [fields]
    rfl
  have hlist : Reference.listOf context.source (Place.top.key "defaults") twofoldReferences =
      ([], .ok [.onDisk "../store/o/r/v1/p", .github keptDocument]) := rfl
  have hwarn : (Decode.warnAll [] : Decode σ Unit).run s = (.ok (), s) := by
    show (Except.ok (), { s with warnings := s.warnings ++ [] }) = _
    rw [List.append_nil]
  have hmerge : FieldSet.empty.merge .empty = .empty :=
    FieldSet.empty_merge FieldSet.isFormed_empty.nodup
  have hinherit : (inherit (Context.document (bound + 1)) context .package .empty
      [.onDisk "../store/o/r/v1/p", .github keptDocument]).run s =
        (second.map fun _ ↦ .empty, { s with state := u }) := by
    have hresolve₁ := context.run_resolve hresolve (.onDisk "../store/o/r/v1/p") s
    have hresolve₂ := context.run_resolve hresolve (.github keptDocument) { s with state := t }
    rw [hfirst] at hresolve₁
    simp only [hsecond] at hresolve₂
    rw [inherit, run_bind_of_ok hresolve₁, run_bind_of_ok (run_document_of_nil _ _ hdocument _),
      hmerge, inherit]
    cases second with
    | error failure => exact run_bind_of_error hresolve₂ _
    | ok found =>
      rw [run_bind_of_ok hresolve₂, run_bind_of_ok (run_document_of_nil _ _ (hnil found rfl) _),
        hmerge]
      rfl
  rw [package, scope, run_bind_of_ok hown]
  show (context.defaults (Context.document (bound + 1)) .package (Place.top.key "defaults")
    twofoldReferences >>= fun inherited ↦ pure (inherited.merge ⟨[]⟩)).run s = _
  rw [defaults, hlist, hresolve]
  simp only [bind_assoc]
  rw [run_bind_of_ok hwarn]
  cases second with
  | error failure => exact run_bind_of_error hinherit _
  | ok found =>
    refine (run_bind_of_ok hinherit _).trans ?_
    show (pure (FieldSet.empty.merge .empty) : Decode σ FieldSet).run _ = _
    rw [hmerge]
    rfl

end Context

/-! ### Resolving both references -/

/-- A resolver with a store that is spelled in some way. -/
def keepingResolver (store : PosixPath) : Resolver := ⟨store, none⟩

/-- The path by which the document is found next to its package. -/
def siblingPath : PosixPath := ⟨.slash, ["pkg", "..", "store", "o", "r", "v1", "p"]⟩

/-- The path beside the store can be followed. -/
theorem canFollow_siblingPath : keepingWorld.CanFollow siblingPath := by
  refine ⟨by decide, fun before after hnames ↦ ?_⟩
  have hcheck : World.checkPath ⟨.slash, ["pkg"]⟩ = .ok () :=
    World.checkPath_of_notMem (by decide) (by decide)
  have hpackage : keepingWorld.isDirectory ⟨.slash, ["pkg"]⟩ = .ok true := by
    have hfind : keepingWorld.find ⟨.slash, ["pkg"]⟩ = .ok .directory := rfl
    rw [World.isDirectory, World.find?_of_find hcheck hfind]
    rfl
  -- There is one pair of dots, right after the directory of the package.
  rcases before with _ | ⟨first, _ | ⟨second, before⟩⟩
  · exact absurd (List.cons.inj hnames).1 (by decide)
  · obtain rfl := (List.cons.inj hnames).1
    exact hpackage
  · have hmem : ".." ∈ ["store", "o", "r", "v1", "p"] := by
      rw [(List.cons.inj (List.cons.inj hnames).2).2]
      simp
    exact absurd hmem (by decide)

namespace Resolver

/-- A document that stands on disk is resolved to. -/
theorem run_resolve_keepingWorld (resolver : Resolver) (reference : Reference) (label : String)
    (hlocate : resolver.locate ⟨.slash, ["pkg"]⟩ reference keepingWorld =
      .ok (resolver.fileOf ⟨.slash, ["pkg"]⟩ reference, label))
    (hspelled : (resolver.fileOf ⟨.slash, ["pkg"]⟩ reference).IsSpelled)
    (hpath : keepingWorld.CanFollow (resolver.fileOf ⟨.slash, ["pkg"]⟩ reference))
    (hnames : (keepingWorld.resolve (resolver.fileOf ⟨.slash, ["pkg"]⟩ reference)).names =
      ["store", "o", "r", "v1", "p"]) :
    ((resolver.resolve reference [] ⟨.slash, ["pkg"]⟩).run []).run keepingWorld =
      (.ok (resolver.documentOf keepingWorld ⟨.slash, ["pkg"]⟩ reference label [],
        [(resolver.target keepingWorld ⟨.slash, ["pkg"]⟩ reference, [])]), keepingWorld) := by
  have hload := run_load_of_hasDocument isSound_keepingWorld hspelled (checkPath_of_locate hlocate)
    hpath (hnames ▸ hasDocument_keepingWorld) label
  rw [run_resolve, hlocate]
  simp only [List.not_mem_nil, if_false]
  rw [hload]
  rfl

/-- The document is found next to its package, wherever the store is. -/
theorem run_resolve_sibling (store : PosixPath) :
    (((keepingResolver store).resolve (.onDisk "../store/o/r/v1/p") []
      ⟨.slash, ["pkg"]⟩).run []).run keepingWorld =
        (.ok (⟨[], "/store/o/r/v1/p", "/store/o/r/v1/p",
          ⟨.slash, ["pkg", "..", "store", "o", "r", "v1"]⟩⟩, [("/store/o/r/v1/p", [])]),
            keepingWorld) := by
  have hfile : (keepingResolver store).fileOf ⟨.slash, ["pkg"]⟩ (.onDisk "../store/o/r/v1/p") =
      siblingPath := rfl
  have hcheck : World.checkPath siblingPath = .ok () :=
    World.checkPath_of_notMem (by decide) (by decide)
  have hlocate : (keepingResolver store).locate ⟨.slash, ["pkg"]⟩ (.onDisk "../store/o/r/v1/p")
      keepingWorld = .ok (siblingPath, "/store/o/r/v1/p") :=
    locate_of_checkPath rfl hcheck
  have htext : (keepingWorld.resolve siblingPath).text = "/store/o/r/v1/p" := rfl
  have hrun := run_resolve_keepingWorld (keepingResolver store) (.onDisk "../store/o/r/v1/p")
    "/store/o/r/v1/p"
  rw [documentOf, target, hfile, htext] at hrun
  exact hrun hlocate (by decide) canFollow_siblingPath (by decide)

/-- It is found in the store, too. -/
theorem run_resolve_kept :
    (((keepingResolver ⟨.slash, ["store"]⟩).resolve (.github keptDocument) []
      ⟨.slash, ["pkg"]⟩).run []).run keepingWorld =
        (.ok (⟨[], "/store/o/r/v1/p", "/store/o/r/v1/p", ⟨.slash, ["store", "o", "r", "v1"]⟩⟩,
          [("/store/o/r/v1/p", [])]), keepingWorld) := by
  have hfile : (keepingResolver ⟨.slash, ["store"]⟩).fileOf ⟨.slash, ["pkg"]⟩
      (.github keptDocument) = ⟨.slash, ["store", "o", "r", "v1", "p"]⟩ := rfl
  have hlocate : (keepingResolver ⟨.slash, ["store"]⟩).locate ⟨.slash, ["pkg"]⟩
      (.github keptDocument) keepingWorld =
        .ok (⟨.slash, ["store", "o", "r", "v1", "p"]⟩, "/store/o/r/v1/p") :=
    locate_of_checkPath rfl (World.checkPath_of_notMem (by decide) (by decide))
  have htext : (keepingWorld.resolve ⟨.slash, ["store", "o", "r", "v1", "p"]⟩).text =
      "/store/o/r/v1/p" := rfl
  have hrun := run_resolve_keepingWorld (keepingResolver ⟨.slash, ["store"]⟩)
    (.github keptDocument) "/store/o/r/v1/p"
  rw [documentOf, target, hfile, htext] at hrun
  exact hrun hlocate (by decide) (World.canFollow_of_notMem (by decide) (by decide))
    (by decide)

end Resolver

namespace Context

/-- A document that is named by its file and by its repository is the same to a run that remembers
documents and to one that reads it twice. -/
theorem package_reloading_twofold :
    (keepingResolver ⟨.slash, ["store"]⟩).store.IsSpelled ∧ (PosixPath.mk .slash ["pkg"]).IsSpelled ∧
      keepingWorld.IsSound ∧ keepingWorld.place.IsSpelled ∧
      ((Context.ofPackage "package.yaml" ⟨.slash, ["pkg"]⟩
        (some (keepingResolver ⟨.slash, ["store"]⟩))).package 1
          (.object [("defaults", twofoldReferences)])).inWorld.run keepingWorld =
            (([], .ok .empty), keepingWorld) := by
  have hsound := isSound_keepingWorld
  have hsibling := Resolver.run_resolve_sibling ⟨.slash, ["store"]⟩
  obtain ⟨resolve, hresolve⟩ : ∃ resolve, (Context.reloading "package.yaml" ⟨.slash, ["pkg"]⟩
      (keepingResolver ⟨.slash, ["store"]⟩)).services.resolve? = some resolve := ⟨_, rfl⟩
  have hrun := run_package_twofold hresolve 0 (s := ⟨[], ([], keepingWorld)⟩)
    (Services.eq_reloading hresolve [] hsibling)
    (Services.eq_reloading hresolve _ Resolver.run_resolve_kept) rfl (by rintro _ ⟨⟩; rfl)
  refine ⟨by decide, by decide, hsound, by decide, ?_⟩
  refine package_reloading (by decide) (by decide) hsound (by decide) _ _ _ hrun ?_
  refine List.forall_mem_cons.2 ⟨?_, List.forall_mem_singleton.2 ?_⟩
  · exact canFollow_siblingPath
  · exact World.canFollow_of_notMem (by decide) (by decide)

end Context

/-! ### A store that cannot be followed to -/

/-- The store under a name that leads through a directory that is not there. -/
def strayStore : PosixPath := ⟨.slash, ["missing", "..", "store"]⟩

/-- With a store behind a missing directory, so is the document. -/
theorem fileOf_strayStore : (keepingResolver strayStore).fileOf ⟨.slash, ["pkg"]⟩
    (.github keptDocument) = ⟨.slash, ["missing", "..", "store", "o", "r", "v1", "p"]⟩ :=
  rfl

/-- Without asking the world, it has the name of the copy that is there. -/
theorem target_strayStore : (keepingResolver strayStore).target keepingWorld ⟨.slash, ["pkg"]⟩
    (.github keptDocument) = "/store/o/r/v1/p" := by
  rw [Resolver.target, fileOf_strayStore]
  rfl

/-- The document is not found there. -/
theorem isFile_strayStore : keepingWorld.isFile (keptDocument.location strayStore) = .ok false := by
  have hlocation : keptDocument.location strayStore =
      ⟨.slash, ["missing", "..", "store", "o", "r", "v1", "p"]⟩ := fileOf_strayStore
  have hcheck : World.checkPath ⟨.slash, ["missing", "..", "store", "o", "r", "v1", "p"]⟩ =
      .ok () := World.checkPath_of_notMem (by decide) (by decide)
  rw [hlocation]
  refine World.isFile_of_missing hcheck ?_
  rw [World.find, World.follow, if_neg (by decide)]
  rfl

/-- Where there is no network, only what is in a store can be fetched. -/
theorem Store.fetch_ne_ok {store : PosixPath} {document : Repository} {world : World}
    (hfile : world.isFile (document.location store) = .ok false) (hnetwork : world.network = [])
    (content : ByteArray) : ((Store.fetch store document).run world).1 ≠ .ok content := by
  intro hfetched
  have hfetches := Store.fetches store document world
  rcases hrun : (Store.fetch store document).run world with ⟨result, world'⟩
  rw [hrun] at hfetches hfetched
  obtain rfl : result = .ok content := hfetched
  have hanswered : ∀ found, outcome world.network document.url ≠ .ok found := fun found ↦
    hnetwork ▸ outcome_nil_ne_ok document.url found
  generalize hresult : (Except.ok content : Except Failure ByteArray) = result at hfetches
  change Fetches store document world result world' at hfetches
  cases hfetches with
  | unknown | unanswered | unmade | unwritten => cases hresult
  | stored hthere => cases hfile.symm.trans hthere
  | written _ hanswer => exact hanswered _ hanswer

namespace Resolver

/-- If the document is remembered, it does not matter that it would not be found. -/
theorem run_resolve_remembered :
    (((keepingResolver strayStore).resolve (.github keptDocument) [] ⟨.slash, ["pkg"]⟩).run
      [("/store/o/r/v1/p", [])]).run keepingWorld =
        (.ok (⟨[], "/store/o/r/v1/p", "/store/o/r/v1/p",
          ⟨.slash, ["missing", "..", "store", "o", "r", "v1"]⟩⟩, [("/store/o/r/v1/p", [])]),
            keepingWorld) := by
  have hlocate : (keepingResolver strayStore).locate ⟨.slash, ["pkg"]⟩ (.github keptDocument)
      keepingWorld = .ok (⟨.slash, ["missing", "..", "store", "o", "r", "v1", "p"]⟩,
        "/store/o/r/v1/p") :=
    locate_of_checkPath rfl (World.checkPath_of_notMem (by decide) (by decide))
  have hknown : Entries.get? [("/store/o/r/v1/p", ([] : List (String × Value)))]
      "/store/o/r/v1/p" = some [] := rfl
  rw [run_resolve, hlocate, target_strayStore]
  simp only [List.not_mem_nil, if_false]
  rw [hknown]
  simp only [documentOf, target_strayStore, fileOf_strayStore]
  rfl

/-- It cannot be resolved, since the path leads nowhere. -/
theorem resolve_strayStore_ne_ok (found : Document × Cache) :
    ((((keepingResolver strayStore).resolve (.github keptDocument) [] ⟨.slash, ["pkg"]⟩).run
      []).run keepingWorld).1 ≠ .ok found := by
  intro hfound
  have hresolves := (keepingResolver strayStore).resolves (.github keptDocument) []
    ⟨.slash, ["pkg"]⟩ [] keepingWorld
  generalize (((keepingResolver strayStore).resolve (.github keptDocument) []
    ⟨.slash, ["pkg"]⟩).run []).run keepingWorld = outcome at hresolves hfound
  obtain ⟨result, world'⟩ := outcome
  change Resolves _ _ _ _ _ _ result world' at hresolves
  cases hresolves with
  | unnamed | cyclic | unread => cases hfound
  | known _ hvalue => cases hvalue
  | read _ _ hload =>
    rw [load] at hload
    obtain ⟨content, world₁, hcontent, -⟩ := exists_of_run_bind hload
    have hfetch := Store.fetch_ne_ok isFile_strayStore rfl content
    exact hfetch (congrArg Prod.fst hcontent)

end Resolver

namespace Context

/-- The document that is named by its file and by its repository would not be found again in a store
whose name cannot be followed, although the references themselves can. -/
theorem exists_package_reloading_ne :
    keptDocument.IsPlain ∧ keepingWorld.CanFollow ((keepingResolver strayStore).fileOf
        ⟨.slash, ["pkg"]⟩ (.onDisk "../store/o/r/v1/p")) ∧
      (((Context.ofPackage "package.yaml" ⟨.slash, ["pkg"]⟩
        (some (keepingResolver strayStore))).package 1
          (.object [("defaults", twofoldReferences)])).run ⟨[], ([], keepingWorld)⟩).1 =
            .ok .empty ∧
      ∀ fields, (((Context.reloading "package.yaml" ⟨.slash, ["pkg"]⟩
        (keepingResolver strayStore)).package 1 (.object [("defaults", twofoldReferences)])).run
          ⟨[], ([], keepingWorld)⟩).1 ≠ .ok fields := by
  have hsibling := Resolver.run_resolve_sibling strayStore
  refine ⟨by decide, ?_, ?_, ?_⟩
  · exact canFollow_siblingPath
  · obtain ⟨resolve, hresolve⟩ : ∃ resolve, (Context.ofPackage "package.yaml" ⟨.slash, ["pkg"]⟩
        (some (keepingResolver strayStore))).services.resolve? = some resolve := ⟨_, rfl⟩
    have hrun := run_package_twofold hresolve 0 (s := ⟨[], ([], keepingWorld)⟩)
      (Services.eq_settle hresolve _ _ _ _ _ hsibling)
      (Services.eq_settle hresolve _ _ _ _ _ Resolver.run_resolve_remembered) rfl
      (by rintro _ ⟨⟩; rfl)
    rw [hrun]
    rfl
  · obtain ⟨resolve, hresolve⟩ : ∃ resolve, (Context.reloading "package.yaml" ⟨.slash, ["pkg"]⟩
        (keepingResolver strayStore)).services.resolve? = some resolve := ⟨_, rfl⟩
    rcases hagain : (((keepingResolver strayStore).resolve (.github keptDocument) []
      ⟨.slash, ["pkg"]⟩).run []).run keepingWorld with ⟨result, world'⟩
    have hfailed : ∀ found, result ≠ .ok found := by
      have hne := Resolver.resolve_strayStore_ne_ok
      rwa [hagain] at hne
    have hrun := run_package_twofold hresolve 0 (s := ⟨[], ([], keepingWorld)⟩)
      (Services.eq_reloading hresolve [] hsibling) (Services.eq_reloading hresolve _ hagain) rfl ?_
    · rw [hrun]
      cases result with
      | error failure => exact fun _ h ↦ by cases h
      | ok found => exact absurd rfl (hfailed found)
    · cases result with
      | error failure => exact fun _ h ↦ by cases h
      | ok found => exact absurd rfl (hfailed found)

end Context

end CabalManifest
