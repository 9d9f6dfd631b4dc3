import CabalManifest.Proofs.ReloadedDocuments
import CabalManifest.Proofs.SurfaceForms

/-!
# Located reports

Whatever is reported about a value of a manifest tells where the value stands. If reading fails since
it expected another shape than it encountered, then the place that is told leads from the root of the
document that is told to a value of the shape that was encountered; and a warning about a key leads to
an object that has this key (`Context.package_located`).

A run reads its documents from files that are there, or from the network. All that it knows at any time
comes from the world in which it started (`World.Supplies`), so that the documents which are named in
reports are found by looking at this world alone (`World.Offers`).
-/

namespace CabalManifest

/-! ### Walks -/

/-- Whether steps lead from a value to a part of it. -/
inductive Value.Leads (root : Value) : List Step → Value → Prop
  | here : Leads root [] root
  | key {steps : List Step} {entries : List (String × Value)} {name : String} {value : Value}
    (h : Leads root steps (.object entries)) (hmem : (name, value) ∈ entries) :
    Leads root (steps ++ [.key name]) value
  | index {steps : List Step} {items : List Value} {position : Nat} {value : Value}
    (h : Leads root steps (.array items)) (hitem : items[position]? = some value) :
    Leads root (steps ++ [.index position]) value

/-- Whether a value stands at a place in one of the documents of a name, given these documents. -/
def Place.LeadsTo (offered : String → Value → Prop) (source : String) (place : Place)
    (value : Value) : Prop :=
  ∃ root, offered source root ∧ place.root = Place.top.root ∧ root.Leads place.steps value

/-- The placing of values where they stand in their documents. -/
def Placing.located (offered : String → Value → Prop) : Placing where
  relates source place _ := place.LeadsTo offered source
  key := fun ⟨root, hoffered, hroot, hleads⟩ hmem ↦ ⟨root, hoffered, hroot, hleads.key hmem⟩
  index := fun ⟨root, hoffered, hroot, hleads⟩ hitem ↦ ⟨root, hoffered, hroot, hleads.index hitem⟩
  lone := id
  branch := id

/-- The root of a document leads to itself. -/
theorem Place.leadsTo_top {offered : String → Value → Prop} {source : String} {root : Value}
    (h : offered source root) : Place.top.LeadsTo offered source root :=
  ⟨root, h, rfl, .here⟩

/-- A failure of the outside tells no place. -/
theorem Placing.blames_of_isOutside (placing : Placing) {failure : Failure}
    (h : failure.IsOutside) : placing.Blames failure failure := by
  refine .other ?_
  rintro _ _ _ _ rfl
  exact h

/-- A shape that was encountered is that of a value at the place that is told. -/
theorem Placing.Blames.exists_value {offered : String → Value → Prop} {failure : Failure}
    {source : String} {place : Place} {what : String} {found : Shape}
    (h : (Placing.located offered).Blames (.invalid source place (.expected what found)) failure) :
    ∃ part, place.LeadsTo offered source part ∧ part.shape = found := by
  cases h with
  | fault h hfault => exact ⟨_, h, hfault what found rfl⟩
  | other h => exact absurd rfl (h source place what found)

/-- A key that was not recognized is that of an object. -/
theorem Placing.Tells.exists_object {offered : String → Value → Prop} {warning : Warning}
    {source : String} {place : Place}
    (h : (Placing.located offered).Tells (.unrecognized source place) warning) :
    ∃ object key entries, place = Place.key object key ∧
      object.LeadsTo offered source (.object entries) ∧ key ∈ Entries.keys entries ∧
        isPrivate key = false := by
  cases h with
  | unrecognized h hkey hprivate => exact ⟨_, _, _, rfl, h, hkey, hprivate⟩
  | other h => exact absurd rfl (h source place)

/-! ### What a world offers -/

namespace World

/-- Whether the file with a path, or what can be downloaded to it, has some content. -/
def Provides (start : World) (store : PosixPath) (canonical : String) (content : ByteArray) : Prop :=
  (∃ location, (PosixPath.ofLocation location).text = canonical ∧
      start.tree.get? location = some (.file content)) ∨
    ∃ document : Repository, (start.resolve (document.location store)).text = canonical ∧
      Store.outcome start.network document.url = .ok content

/-- Whether a document of a name has some value: the name is that of a path in messages, and the
value is what is written under this path. -/
def Offers (start : World) (resolver : Resolver) (source : String) (root : Value) : Prop :=
  ∃ path content, start.shorten path resolver.displayRoot = .ok source ∧
    start.Provides resolver.store (start.resolve path).text content ∧
      Yaml.readBytes source content = .ok root

/-- Whether a world holds nothing but what another one provides. -/
structure Supplies (start : World) (store : PosixPath) (world : World) : Prop where
  place_eq : world.place = start.place
  network_eq : world.network = start.network
  provides : ∀ location content, world.tree.get? location = some (.file content) →
    start.Provides store (PosixPath.ofLocation location).text content

/-- Whether all documents that are remembered are among those that a world provides. -/
def Remembers (start : World) (store : PosixPath) (cache : Cache) : Prop :=
  ∀ canonical value, cache.get? canonical = some value → ∃ content,
    start.Provides store canonical content ∧
      ∀ source, Yaml.readBytes source content = .ok (.object value)

variable {start world world' : World} {store path : PosixPath} {content : ByteArray}

theorem supplies_self (start : World) (store : PosixPath) : start.Supplies store start :=
  ⟨rfl, rfl, fun location _ h ↦ .inl ⟨location, rfl, h⟩⟩

theorem remembers_nil (start : World) (store : PosixPath) : start.Remembers store [] :=
  fun _ _ h ↦ by cases h

theorem Remembers.insert {cache : Cache} (h : start.Remembers store cache) {canonical : String}
    {value : List (String × Value)} (hcontent : start.Provides store canonical content)
    (hvalue : ∀ source, Yaml.readBytes source content = .ok (.object value)) :
    start.Remembers store (cache.insert canonical value) := by
  intro other found hfound
  rw [Entries.get?_insert] at hfound
  split at hfound
  · next hsame =>
    cases hfound
    exact hsame ▸ ⟨content, hcontent, hvalue⟩
  · exact h other found hfound

namespace Supplies

theorem resolve_eq (h : start.Supplies store world) (path : PosixPath) :
    world.resolve path = start.resolve path := by
  rw [resolve, resolve, h.place_eq]

theorem shorten_eq (h : start.Supplies store world) (path : PosixPath) (root : Option PosixPath) :
    world.shorten path root = start.shorten path root := by
  simp only [shorten, h.resolve_eq]

theorem provides_of_find (h : start.Supplies store world) (hplaced : start.IsPlaced)
    (hfind : world.find path = .ok (.file content)) :
    start.Provides store (start.resolve path).text content := by
  have hplaced' : world.IsPlaced := by rwa [IsPlaced, h.place_eq]
  obtain ⟨location, hfollow, hentry⟩ := exists_of_find hfind
  rw [← h.resolve_eq, hplaced'.eq_of_follow hfollow]
  exact h.provides location content hentry

theorem asked (h : start.Supplies store world) (url : String) :
    start.Supplies store (world.asked url) := by
  obtain ⟨log, hasked⟩ := world.asked_eq url
  exact hasked ▸ ⟨h.place_eq, h.network_eq, h.provides⟩

/-- Making directories makes no file. -/
theorem makeDirectories (h : start.Supplies store world) {result : Except Failure Unit}
    (hmake : world.makeDirectories path = (world', result)) : start.Supplies store world' := by
  obtain ⟨tree, rfl, hadds, -⟩ := exists_of_makeDirectories hmake
  refine ⟨h.place_eq, h.network_eq, fun location content hfile ↦ ?_⟩
  rcases hadds location with hsame | ⟨-, hdirectory⟩
  · exact h.provides location content (hsame.symm.trans hfile)
  · cases hdirectory.symm.trans hfile

/-- What is provided for a path can be written there. -/
theorem writeBytes (h : start.Supplies store world) (hplaced : start.IsPlaced)
    (hcontent : start.Provides store (start.resolve path).text content)
    (hwrite : world.writeBytes path content = .ok world') : start.Supplies store world' := by
  have hplaced' : world.IsPlaced := by rwa [IsPlaced, h.place_eq]
  obtain ⟨-, location, hfollow, hnot, rfl⟩ := exists_of_writeBytes hwrite
  have hroot : location ≠ [] := by
    rintro rfl
    exact hnot rfl
  refine ⟨h.place_eq, h.network_eq, fun other found hfile ↦ ?_⟩
  change (world.tree.insert location (.file content)).get? other = _ at hfile
  rw [FileTree.get?_insert _ _ _ hroot] at hfile
  split at hfile
  · next hsame =>
    cases hfile
    rwa [hsame, ← hplaced'.eq_of_follow hfollow, h.resolve_eq]
  · exact h.provides other found hfile

end Supplies

theorem yields_writeBytes (world : World) (path : PosixPath) (content : ByteArray) :
    Yields Failure.IsOutside (fun _ ↦ True) (world.writeBytes path content) := by
  refine (yields_checkPath path).bind fun _ _ ↦ ?_
  split
  · exact .error (isOutside_strayFailure path _)
  · split
    · exact .error trivial
    · exact .ok trivial

end World

/-! ### Fetching and loading -/

theorem Store.yields_outcome (network : List (String × Answer)) (url : String) :
    Yields Failure.IsOutside (fun _ ↦ True) (outcome network url) := by
  cases h : outcome network url with
  | ok content => exact .ok trivial
  | error failure =>
    obtain ⟨fault, -, rfl⟩ | ⟨-, ⟨rfl, -⟩ | ⟨⟨cause, rfl⟩, -⟩⟩ := outcome_eq_error h <;>
      exact .error trivial

section

variable {start world : World} (hplaced : start.IsPlaced)
include hplaced

/-- What is fetched is provided by the first world. -/
theorem Store.fetch_supplies {store : PosixPath} (h : start.Supplies store world)
    (document : Repository) :
    start.Supplies store ((Store.fetch store document).run world).2 ∧
      Yields Failure.IsOutside (start.Provides store (start.resolve (document.location store)).text)
        ((Store.fetch store document).run world).1 := by
  have hfetches := Store.fetches store document world
  generalize (Store.fetch store document).run world = outcome at hfetches ⊢
  obtain ⟨result, world'⟩ := outcome
  change Store.Fetches store document world result world' at hfetches
  have hisFile := world.yields_isFile (document.location store)
  have houtcome := Store.yields_outcome world.network document.url
  have hanswered : ∀ {content : ByteArray}, Store.outcome world.network document.url = .ok content →
      start.Provides store (start.resolve (document.location store)).text content :=
    fun hanswer ↦ .inr ⟨document, rfl, h.network_eq ▸ hanswer⟩
  cases hfetches with
  | unknown hfile =>
    rw [hfile] at hisFile
    exact ⟨h, .error hisFile.of_error⟩
  | stored =>
    have hread := world.yields_readBytes (document.location store)
    exact ⟨h, hread.imp fun _ ↦ h.provides_of_find hplaced⟩
  | unanswered _ hanswer =>
    rw [hanswer] at houtcome
    exact ⟨h.asked _, .error houtcome.of_error⟩
  | unmade _ _ hmake =>
    have hyields := (world.asked document.url).yields_makeDirectories (document.location store).parent
    rw [hmake] at hyields
    exact ⟨(h.asked _).makeDirectories hmake, .error hyields.of_error⟩
  | @unwritten content failure world' _ _ hmake hwrite =>
    have hyields := world'.yields_writeBytes (document.location store) content
    rw [hwrite] at hyields
    exact ⟨(h.asked _).makeDirectories hmake, .error hyields.of_error⟩
  | written _ hanswer hmake hwrite =>
    have hprovided := hanswered hanswer
    exact ⟨((h.asked _).makeDirectories hmake).writeBytes hplaced hprovided hwrite, .ok hprovided⟩

namespace Resolver

variable {resolver : Resolver}

theorem content_supplies (h : start.Supplies resolver.store world) (base : PosixPath)
    (label : String) (reference : Reference) :
    let run := (resolver.content (resolver.fileOf base reference) label reference).run world
    start.Supplies resolver.store run.2 ∧ Yields Failure.IsOutside
      (start.Provides resolver.store (resolver.target start base reference)) run.1 := by
  cases reference with
  | github document => exact Store.fetch_supplies hplaced h document
  | onDisk path =>
    have hyields := resolver.yields_content_onDisk (resolver.fileOf base (.onDisk path)) label path
      world
    rw [run_content_onDisk] at hyields ⊢
    exact ⟨h, hyields.imp fun _ ↦ h.provides_of_find hplaced⟩

omit hplaced in
/-- A text that is no document fails in words of its own. -/
theorem yields_readBytes_blames (placing : Placing) (source : String) (content : ByteArray) :
    Yields (fun failure ↦ placing.Blames failure failure)
      (fun value ↦ Yaml.readBytes source content = .ok value) (Yaml.readBytes source content) := by
  cases hread : Yaml.readBytes source content with
  | ok value => exact .ok rfl
  | error failure =>
    refine .error (.other ?_)
    rintro _ _ _ _ rfl
    rw [Yaml.readBytes] at hread
    cases htext : Text.decode content with
    | error fault =>
      rw [htext] at hread
      cases hread
    | ok text =>
      rw [htext] at hread
      change Yaml.readText source text = _ at hread
      rw [Yaml.readText] at hread
      cases hparse : Yaml.parse text with
      | ok value =>
        rw [hparse] at hread
        cases hread
      | error error =>
        rw [hparse] at hread
        cases error <;> cases hread

/-- What is loaded is a document that the first world offers. Where this fails, the place that is told
is that of a value in such a document. -/
theorem load_supplies (h : start.Supplies resolver.store world) (base : PosixPath) {label : String}
    (hlabel : start.shorten (resolver.fileOf base reference) resolver.displayRoot = .ok label)
    {offered : String → Value → Prop}
    (hoffered : ∀ source root, start.Offers resolver source root → offered source root) :
    let run := (resolver.load (resolver.fileOf base reference) label reference).run world
    start.Supplies resolver.store run.2 ∧
      Yields (fun failure ↦ (Placing.located offered).Blames failure failure)
        (fun value ↦ ∃ content,
          start.Provides resolver.store (resolver.target start base reference) content ∧
            Yaml.readBytes label content = .ok (.object value)) run.1 := by
  obtain ⟨hsupplies, hyields⟩ := content_supplies hplaced h base label reference
  rw [load]
  rcases hcontent : (resolver.content (resolver.fileOf base reference) label reference).run world
    with ⟨failure | content, world'⟩
  · rw [hcontent] at hsupplies hyields
    rw [run_bind_of_error hcontent]
    exact ⟨hsupplies, .error (Placing.blames_of_isOutside _ hyields.of_error)⟩
  · rw [hcontent] at hsupplies hyields
    rw [run_bind_of_ok hcontent]
    have hblames := yields_readBytes_blames (.located offered) label content
    have hread := Run.run_reading (fun _ ↦ Yaml.readBytes label content) world'
    cases hvalue : Yaml.readBytes label content with
    | error failure =>
      rw [hvalue] at hblames hread
      rw [run_bind_of_error hread]
      exact ⟨hsupplies, .error hblames.of_error⟩
    | ok root =>
      rw [hvalue] at hread
      rw [run_bind_of_ok hread]
      have htop : (Placing.located offered).relates label Place.top Place.top root :=
        Place.leadsTo_top (hoffered _ _ ⟨_, content, hlabel, hyields.of_ok, hvalue⟩)
      cases root with
      | object value => exact ⟨hsupplies, .ok ⟨content, hyields.of_ok, hvalue⟩⟩
      | scalar | array =>
        refine ⟨hsupplies, .error (.fault htop fun _ _ hfault ↦ ?_)⟩
        cases hfault
        rfl

/-- What a reference resolves to is a document that the first world offers. -/
theorem resolve_supplies (h : start.Supplies resolver.store world) {cache : Cache}
    (hcache : start.Remembers resolver.store cache) (reference : Reference) (visited : List String)
    (base : PosixPath) {offered : String → Value → Prop}
    (hoffered : ∀ source root, start.Offers resolver source root → offered source root) :
    let run := ((resolver.resolve reference visited base).run cache).run world
    start.Supplies resolver.store run.2 ∧
      Yields (fun failure ↦ (Placing.located offered).Blames failure failure)
        (fun found ↦ offered found.1.source (.object found.1.value) ∧
          start.Remembers resolver.store found.2) run.1 := by
  have hlocated := resolver.yields_locate base reference world
  have htarget : resolver.target world base reference = resolver.target start base reference := by
    rw [target, target, h.resolve_eq]
  rw [run_resolve]
  cases hlocate : resolver.locate base reference world with
  | error failure =>
    rw [hlocate] at hlocated
    exact ⟨h, .error (Placing.blames_of_isOutside _ hlocated.of_error)⟩
  | ok located =>
    obtain ⟨file, label⟩ := located
    have hlabel : start.shorten (resolver.fileOf base reference) resolver.displayRoot = .ok label := by
      obtain ⟨shown, hshown, hpair⟩ := Yaml.exists_of_bind_eq_ok hlocate
      cases hpair
      rwa [← h.shorten_eq]
    simp only [htarget]
    split
    · exact ⟨h, .error (.other fun _ _ _ _ hfailure ↦ by cases hfailure)⟩
    · cases hknown : Entries.get? cache (resolver.target start base reference) with
      | some value =>
        obtain ⟨content, hcontent, hvalue⟩ := hcache _ _ hknown
        exact ⟨h, .ok ⟨hoffered _ _ ⟨_, content, hlabel, hcontent, hvalue label⟩, hcache⟩⟩
      | none =>
        have hload := load_supplies hplaced h base hlabel hoffered
        simp only
        generalize (resolver.load (resolver.fileOf base reference) label reference).run world = run
          at hload ⊢
        obtain ⟨failure | value, world'⟩ := run
        · exact ⟨hload.1, .error hload.2.of_error⟩
        · obtain ⟨content, hcontent, hvalue⟩ := hload.2.of_ok
          refine ⟨hload.1, .ok ⟨hoffered _ _ ⟨_, content, hlabel, hcontent, hvalue⟩, ?_⟩⟩
          exact hcache.insert hcontent (Yaml.readBytes_ok hvalue)

end Resolver

end

/-! ### Reports of a run -/

/-- Whether a manifest, or a document that its references can lead to, has a name and a value. -/
def World.Offered (world : World) (resolver? : Option Resolver) (source : String) (value : Value)
    (name : String) (root : Value) : Prop :=
  name = source ∧ root = value ∨ ∃ resolver ∈ resolver?, world.Offers resolver name root

/-- A result belongs to itself if its failures tell places of values. -/
theorem Yields.matches_self {α : Type} {fails : Failure → Failure → Prop} {q : α → α → Prop}
    {result : Except Failure α}
    (h : Yields (fun failure ↦ fails failure failure) (fun a ↦ q a a) result) :
    Matches fails q result result := by
  cases h with
  | ok h => exact .ok h
  | error h => exact .error h

/-- The services of a package give documents that the first world offers. -/
theorem Services.pairs_located {start : World} (hplaced : start.IsPlaced) (directory : PosixPath)
    (resolver? : Option Resolver) (source : String) (value : Value) :
    (Services.ofPackage directory resolver?).Pairs
      (.located (start.Offered resolver? source value))
      (fun s t ↦ s = t ∧ ∀ resolver ∈ resolver?,
        start.Supplies resolver.store s.2 ∧ start.Remembers resolver.store s.1)
      fun _ ↦ True where
  glob := by
    rintro pattern s _ ⟨rfl, -⟩
    have hglob := s.2.yields_glob directory pattern
    exact ((hglob.allow fun _ ↦ Placing.blames_of_isOutside _).imp fun _ _ ↦ rfl).matches_self
  resolve := by
    rintro resolve hresolve reference visited base ⟨cache, world⟩ _ - ⟨rfl, hsupplies⟩
    cases resolver? with
    | none => cases hresolve
    | some resolver =>
      obtain ⟨hworld, hcache⟩ := hsupplies resolver rfl
      have hoffered : ∀ name root, start.Offers resolver name root →
          start.Offered (some resolver) source value name root :=
        fun _ _ hoffers ↦ .inr ⟨resolver, rfl, hoffers⟩
      have hsupplied := Resolver.resolve_supplies hplaced hworld hcache reference visited base hoffered
      rcases hrun : ((resolver.resolve reference visited base).run cache).run world with
        ⟨failure | ⟨document, cache'⟩, world'⟩
      · rw [hrun] at hsupplied
        rw [Services.eq_settle hresolve reference visited base cache world hrun]
        refine ⟨⟨rfl, ?_⟩, .error hsupplied.2.of_error⟩
        rintro _ ⟨⟩
        exact ⟨hsupplied.1, hcache⟩
      · rw [hrun] at hsupplied
        rw [Services.eq_settle hresolve reference visited base cache world hrun]
        obtain ⟨hdocument, hcache'⟩ := hsupplied.2.of_ok
        refine ⟨⟨rfl, ?_⟩, .ok ⟨rfl, rfl, rfl, .refl .scope _, Place.leadsTo_top hdocument, trivial⟩⟩
        rintro _ ⟨⟩
        exact ⟨hsupplied.1, hcache'⟩

/-- Reports on a manifest and the documents that it refers to tell where the values stand that they
are about: a shape is said to be encountered only at the place of a value of this shape, in a document
of the name that is told, and a key is said to be unrecognized only where an object has it. -/
theorem Context.package_located {world : World} (hplaced : world.IsPlaced)
    (resolver? : Option Resolver) (source : String) (directory : PosixPath) (bound : Nat)
    (value : Value) :
    let offered := world.Offered resolver? source value
    let context := Context.ofPackage source directory resolver?
    let ((warnings, fields), _) := (context.package bound value).inWorld.run world
    (∀ name place what found, fields = .error (.invalid name place (.expected what found)) →
      ∃ part, place.LeadsTo offered name part ∧ part.shape = found) ∧
    ∀ name place, .unrecognized name place ∈ warnings → ∃ object key entries,
      place = Place.key object key ∧ object.LeadsTo offered name (.object entries) ∧
        key ∈ Entries.keys entries ∧ isPrivate key = false := by
  intro offered context
  have hservices : context.services.Pairs (.located offered) _ _ :=
    Services.pairs_located hplaced directory resolver? source value
  -- A manifest goes alike with itself, so that its reports are located on both sides.
  have hpaired := Context.paired_package hservices trivial bound (.refl .scope value)
    (Place.leadsTo_top (.inl ⟨rfl, rfl⟩))
  obtain ⟨hagrees, hmatches⟩ := hpaired ⟨[], [], world⟩ ⟨[], [], world⟩ ⟨⟨rfl, fun resolver _ ↦
    ⟨world.supplies_self resolver.store, world.remembers_nil resolver.store⟩⟩, .nil⟩
  rw [Decode.run_inWorld]
  have hwarnings := List.forall₂_same.1 hagrees.warnings
  refine ⟨fun name place what found hfailed ↦ ?_, fun name place hwarned ↦ ?_⟩
  · rw [hfailed] at hmatches
    exact hmatches.of_error.exists_value
  · exact (hwarnings _ hwarned).exists_object

/-- A world with a document whose only field has the wrong shape. -/
def misshapenWorld : World :=
  ⟨(FileTree.empty.insert ["pkg"] .directory).insert ["pkg", "d.yaml"]
      (.file (Text.encode "ghc-options: \x7b\x7d")),
    [], ⟨.slash, ["pkg"]⟩, [], [], [], .silent, []⟩

/-- A manifest with a key that nobody knows and a reference to the document. -/
def misspelledManifest : Value :=
  .object [("name", .text "p"), ("categroy", .text "c"),
    ("defaults", .object [("local", .text "d.yaml")])]

theorem package_located_misspelledManifest :
    misshapenWorld.IsPlaced ∧
      let resolver : Resolver := ⟨⟨.slash, ["store"]⟩, some ⟨.slash, ["pkg"]⟩⟩
      let offered := misshapenWorld.Offered (some resolver) "package.yaml" misspelledManifest
      let context := Context.ofPackage "package.yaml" ⟨.slash, ["pkg"]⟩ (some resolver)
      let ((warnings, fields), _) := (context.package misshapenWorld.documentBound
        misspelledManifest).inWorld.run misshapenWorld
      (∀ name place what found, fields = .error (.invalid name place (.expected what found)) →
        ∃ part, place.LeadsTo offered name part ∧ part.shape = found) ∧
      ∀ name place, .unrecognized name place ∈ warnings → ∃ object key entries,
        place = Place.key object key ∧ object.LeadsTo offered name (.object entries) ∧
          key ∈ Entries.keys entries ∧ isPrivate key = false :=
  have hplaced : misshapenWorld.IsPlaced := rfl
  ⟨hplaced, Context.package_located hplaced (some ⟨⟨.slash, ["store"]⟩, some ⟨.slash, ["pkg"]⟩⟩)
    "package.yaml" ⟨.slash, ["pkg"]⟩ misshapenWorld.documentBound misspelledManifest⟩

end CabalManifest
