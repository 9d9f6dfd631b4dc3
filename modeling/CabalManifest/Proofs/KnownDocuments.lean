import CabalManifest.Proofs.Runs
import CabalManifest.Proofs.Trails

/-!
# The documents of a world

A run can come to finitely many documents: each is a file that was there from the start, or was
downloaded from an address of the network and is kept under a path that the address spells
(`World.documentPaths`). So what the references of a package lead to is a library in the sense of
trails (`Resolver.library`), and its services follow it (`Resolver.serves_library`).
-/

namespace CabalManifest

/-! ### Following paths -/

/-- Following names from a location leads where the names spell out. -/
theorem FileTree.eq_foldl_of_follow {tree : FileTree} {location target : Location}
    {names : List String} (h : tree.follow location names = .ok target) :
    target = names.foldl PosixPath.follow location := by
  induction names generalizing location with
  | nil =>
    rw [follow] at h
    exact (Except.ok.inj h).symm
  | cons name names ih =>
    rw [follow] at h
    rw [List.foldl_cons, PosixPath.follow]
    split at h
    · cases h
    · cases h
    · split at h
      · next hdot =>
        rw [if_pos hdot]
        exact ih h
      · next hdot =>
        rw [if_neg hdot]
        split at h
        · next hdots =>
          rw [if_pos hdots]
          exact ih h
        · next hdots =>
          rw [if_neg hdots]
          split at h
          · cases h
          · exact ih h

/-- The absolute path of a location. -/
def PosixPath.ofLocation (location : Location) : PosixPath := ⟨.slash, location⟩

namespace World

/-- Whether the current directory is spelled without dots. -/
def IsPlaced (world : World) : Prop :=
  PosixPath.normalizeNames world.place.names = world.place.names

variable {world : World}

/-- A path that leads somewhere leads to its absolute path. -/
theorem IsPlaced.eq_of_follow (h : world.IsPlaced) {path : PosixPath} {location : Location}
    (hfollow : world.follow path = .ok location) :
    world.resolve path = .ofLocation location := by
  rw [World.follow] at hfollow
  split at hfollow
  · cases hfollow
  · rw [FileTree.eq_foldl_of_follow hfollow, startOf, resolve, PosixPath.resolve,
      PosixPath.normalizeNames, PosixPath.join, PosixPath.ofLocation]
    split
    · rfl
    · rw [List.foldl_append, ← PosixPath.normalizeNames, h]

theorem exists_of_find {path : PosixPath} {entry : Entry} (hfind : world.find path = .ok entry) :
    ∃ location, world.follow path = .ok location ∧ world.tree.get? location = some entry := by
  rw [find] at hfind
  obtain ⟨location, hfollow, hentry⟩ := Yaml.exists_of_bind_eq_ok hfind
  refine ⟨location, hfollow, ?_⟩
  split at hentry
  · next found hfound =>
    cases hentry
    exact hfound
  · cases hentry

theorem IsPlaced.get?_of_find (h : world.IsPlaced) {path : PosixPath} {entry : Entry}
    (hfind : world.find path = .ok entry) :
    world.tree.get? (world.resolve path).names = some entry := by
  obtain ⟨location, hfollow, hentry⟩ := exists_of_find hfind
  rw [h.eq_of_follow hfollow]
  exact hentry

end World

/-! ### What addresses spell -/

namespace Repository

/-- The document that an address spells, given the length of its revision. -/
def ofUrl (url : String) (length : Nat) : Repository :=
  let names := url.toList.drop "https://raw.githubusercontent.com/".length
  let rest := (names.dropWhile (· != '/')).drop 1
  let last := (rest.dropWhile (· != '/')).drop 1
  ⟨String.ofList (names.takeWhile (· != '/')), String.ofList (rest.takeWhile (· != '/')),
    String.ofList (last.take length), String.ofList (last.drop (length + 1))⟩

theorem takeWhile_name {name : String} (h : ∀ c ∈ name.toList, isNameChar c) (rest : List Char) :
    (name.toList ++ '/' :: rest).takeWhile (· != '/') = name.toList ∧
      (name.toList ++ '/' :: rest).dropWhile (· != '/') = '/' :: rest := by
  have hname : ∀ c ∈ name.toList, (c != '/') = true := by
    intro c hc
    rw [bne_iff_ne]
    rintro rfl
    exact absurd (h '/' hc) (by decide)
  rw [List.takeWhile_append_of_pos hname, List.dropWhile_append_of_pos hname]
  simp

theorem url_eq (document : Repository) :
    document.url = "https://raw.githubusercontent.com/" ++ document.owner ++ "/" ++ document.repo ++
      "/" ++ document.ref ++ "/" ++ document.path :=
  rfl

/-- A document is spelled by its address. -/
theorem ofUrl_url {document : Repository} (h : document.IsProper) :
    ofUrl document.url document.ref.length = document := by
  obtain ⟨howner, hrepo⟩ := h
  have hurl : document.url.toList = "https://raw.githubusercontent.com/".toList ++
      (document.owner.toList ++ '/' :: (document.repo.toList ++ '/' ::
        (document.ref.toList ++ '/' :: document.path.toList))) := by
    rw [url_eq]
    generalize "https://raw.githubusercontent.com/" = host
    simp
  have hpath : (document.ref.toList ++ '/' :: document.path.toList).drop
      (document.ref.toList.length + 1) = document.path.toList := by
    rw [List.drop_append, List.drop_of_length_le (Nat.le_succ _)]
    simp
  rw [ofUrl, hurl, ← String.length_toList, List.drop_left]
  simp only [takeWhile_name howner, takeWhile_name hrepo, List.drop_succ_cons, List.drop_zero]
  rw [← String.length_toList, List.take_left, hpath]
  simp

theorem length_ref_le_length_url (document : Repository) :
    document.ref.length ≤ document.url.length := by
  rw [url_eq]
  generalize "https://raw.githubusercontent.com/" = host
  simp only [String.length_append]
  omega

end Repository

namespace World

/-- The absolute paths of the documents that a run can come to: of the files that are there, and of
what can be downloaded, under every path that an address spells. -/
def documentPaths (world : World) (store : PosixPath) : List String :=
  world.tree.entries.map (fun found ↦ (PosixPath.ofLocation found.1).text) ++
    world.network.flatMap fun answer ↦ (List.range (answer.1.length + 1)).map fun length ↦
      (world.resolve ((Repository.ofUrl answer.1 length).location store)).text

/-- There are less documents than the bound on their number. -/
theorem length_documentPaths_lt (world : World) (store : PosixPath) :
    (world.documentPaths store).length < world.documentBound := by
  have hsum : ∀ (network : List (String × Answer)) (bound : Nat),
      network.foldl (fun bound entry ↦ bound + (entry.1.length + 1)) bound =
        bound + (network.map fun entry ↦ entry.1.length + 1).sum := by
    intro network
    induction network with
    | nil => simp
    | cons entry network ih => intro bound; rw [List.foldl_cons, ih]; simp; omega
  rw [documentPaths, documentBound, hsum]
  simp [List.length_flatMap]

/-- What is on the network can be downloaded to one of these paths. -/
theorem mem_documentPaths_of_url {world : World} {store : PosixPath} {document : Repository}
    (hproper : document.IsProper) (h : document.url ∈ world.network.map (·.1)) :
    (world.resolve (document.location store)).text ∈ world.documentPaths store := by
  obtain ⟨answer, hanswer, hurl⟩ := List.mem_map.1 h
  refine List.mem_append_right _ (List.mem_flatMap.2 ⟨answer, hanswer, List.mem_map.2 ?_⟩)
  have hlength := document.length_ref_le_length_url
  refine ⟨document.ref.length, List.mem_range.2 (by rw [hurl]; omega), ?_⟩
  rw [hurl, Repository.ofUrl_url hproper]

/-! ### Later worlds -/

/-- Whether a world can come after another one: all its files have paths of documents. -/
structure IsLater (start : World) (store : PosixPath) (world : World) : Prop where
  place_eq : world.place = start.place
  network_eq : world.network = start.network
  mem_paths : ∀ location content, world.tree.get? location = some (.file content) →
    (PosixPath.ofLocation location).text ∈ start.documentPaths store

variable {start world : World} {store : PosixPath}

theorem isLater_self (start : World) (store : PosixPath) : start.IsLater store start := by
  refine ⟨rfl, rfl, fun location content hfile ↦ List.mem_append_left _ ?_⟩
  rw [FileTree.get?] at hfile
  split at hfile
  · cases hfile
  · obtain ⟨before, after, hentries, -⟩ := List.lookup_eq_some_iff.1 hfile
    exact List.mem_map.2 ⟨(location, .file content), by simp [hentries], rfl⟩

namespace IsLater

theorem resolve_eq (h : start.IsLater store world) (path : PosixPath) :
    world.resolve path = start.resolve path := by
  rw [resolve, resolve, h.place_eq]

theorem mem_of_find (h : start.IsLater store world) (hplaced : start.IsPlaced) {path : PosixPath}
    {content : ByteArray} (hfind : world.find path = .ok (.file content)) :
    (start.resolve path).text ∈ start.documentPaths store := by
  have hplaced' : world.IsPlaced := by rwa [IsPlaced, h.place_eq]
  exact h.resolve_eq path ▸ h.mem_paths _ content (hplaced'.get?_of_find hfind)

theorem say (h : start.IsLater store world) (level : Level) (message : String) :
    start.IsLater store (world.say level message) := by
  rw [World.say]
  split
  · exact ⟨h.place_eq, h.network_eq, h.mem_paths⟩
  · exact h

theorem insert (h : start.IsLater store world) {location : Location} {entry : Entry}
    (hlocation : location ≠ [])
    (hentry : ∀ content, entry = .file content →
      (PosixPath.ofLocation location).text ∈ start.documentPaths store) :
    start.IsLater store { world with tree := world.tree.insert location entry } := by
  refine ⟨h.place_eq, h.network_eq, fun location' content hfile ↦ ?_⟩
  rw [FileTree.get?_insert _ _ _ hlocation] at hfile
  split at hfile
  · next hsame =>
    cases hfile
    exact hsame ▸ hentry content rfl
  · exact h.mem_paths location' content hfile

theorem writeBytes (h : start.IsLater store world) (hplaced : start.IsPlaced) {path : PosixPath}
    (hpath : (start.resolve path).text ∈ start.documentPaths store) (content : ByteArray) :
    Yields Failure.NotCycle (start.IsLater store) (world.writeBytes path content) := by
  have hplaced' : world.IsPlaced := by rwa [IsPlaced, h.place_eq]
  rw [World.writeBytes]
  refine (yields_checkPath path).notCycle.bind fun _ _ ↦ ?_
  split
  · exact .error (isOutside_strayFailure path _).notCycle
  · next location hfollow =>
    split
    · exact .error id
    · next hnew =>
      refine .ok (h.insert (fun hroot ↦ hnew ?_) fun _ _ ↦ ?_)
      · rw [hroot]
        rfl
      · rwa [← hplaced'.eq_of_follow hfollow, h.resolve_eq]

theorem makeDirectory (h : start.IsLater store world) {location : Location} {names : List String}
    {tree : FileTree} (hmade : world.tree.makeDirectory location names = .ok tree) :
    start.IsLater store { world with tree := tree } := by
  rw [FileTree.makeDirectory] at hmade
  split at hmade
  · cases hmade
  · next target hfollow =>
    split at hmade
    · cases hmade
    · next hnew =>
      cases hmade
      refine h.insert (fun hroot ↦ hnew ?_) fun _ ↦ nofun
      rw [hroot, Bool.or_eq_true]
      exact .inr rfl

theorem makeDirectories (h : start.IsLater store world) (location : Location)
    (names : List String) :
    start.IsLater store { world with tree := (world.tree.makeDirectories location names).1 } := by
  induction names generalizing world with
  | nil => exact h
  | cons name around ih =>
    rw [FileTree.makeDirectories]
    simp only
    split
    · next hmade => exact h.makeDirectory hmade
    · have haround := ih h
      split
      · next tree obstacle hfailed =>
        rwa [hfailed] at haround
      · next tree hdone =>
        rw [hdone] at haround
        split
        · next hmade => exact haround.makeDirectory hmade
        · split <;> exact haround
    · split <;> exact h

theorem makeDirectories_fst (h : start.IsLater store world) (path : PosixPath) :
    start.IsLater store (world.makeDirectories path).1 := by
  rw [World.makeDirectories]
  split
  · exact h
  · exact h.makeDirectories _ _

end IsLater

end World

/-! ### Finding documents -/

section

variable {start : World} {store : PosixPath} (hplaced : start.IsPlaced)

/-- Only what is on the network can be downloaded. -/
theorem Store.keeps_download (url : String) :
    (Store.download url).Keeps (start.IsLater store) fun _ ↦ url ∈ start.network.map (·.1) := by
  have hrequest : (modifyGet (·.request url) : Run Answer).Keeps (start.IsLater store) fun answer ↦
      answer = .response 404 .empty ∨ url ∈ start.network.map (·.1) := by
    refine .modifyGet fun world hworld ↦ ⟨?_, hworld.place_eq, hworld.network_eq, hworld.mem_paths⟩
    rw [World.request, hworld.network_eq]
    cases hanswer : start.network.lookup url with
    | none => exact .inl rfl
    | some answer =>
      obtain ⟨before, after, hnetwork, -⟩ := List.lookup_eq_some_iff.1 hanswer
      exact .inr (by simp [hnetwork])
  rw [Store.download]
  refine Run.Keeps.bind (p := fun _ ↦ True)
    (fun world hworld ↦ ⟨hworld.say _ _, .ok trivial⟩) fun _ _ ↦ ?_
  refine hrequest.bind fun answer hanswer ↦ ?_
  cases answer with
  | unreachable cause =>
    dsimp only
    split
    · exact Run.Keeps.bind (p := fun _ ↦ False) (.throw id) fun _ h ↦ h.elim
    · exact .throw id
  | response status content =>
    dsimp only
    split
    · exact Run.Keeps.bind (p := fun _ ↦ False) (.throw id) fun _ h ↦ h.elim
    · split
      · exact .throw id
      · next hstatus =>
        split
        · exact .throw id
        · refine .pure (hanswer.resolve_left ?_)
          rintro ⟨⟩
          exact hstatus rfl

include hplaced

/-- A document that is fetched has one of the paths of documents. -/
theorem Store.keeps_fetch {document : Repository} (hproper : document.IsProper) :
    (Store.fetch store document).Keeps (start.IsLater store) fun _ ↦
      (start.resolve (document.location store)).text ∈ start.documentPaths store := by
  have hisFile := fun world : World ↦ (world.yields_isFile (document.location store)).notCycle
  have hreadBytes := fun world : World ↦ (world.yields_readBytes (document.location store)).notCycle
  have hmake := fun world : World ↦
    (world.yields_makeDirectories (document.location store).parent).notCycle
  rw [Store.fetch]
  have hknown : (Run.reading (·.isFile (document.location store))).Keeps (start.IsLater store)
      fun found ↦ found = true →
        (start.resolve (document.location store)).text ∈ start.documentPaths store := by
    refine .reading hisFile fun world found hworld hfound hfile ↦ ?_
    obtain ⟨_, hfind⟩ := hfound hfile
    exact hworld.mem_of_find hplaced hfind
  refine hknown.bind fun found hfound ↦ ?_
  split
  · next hfile =>
    exact .reading hreadBytes fun world _ hworld hfind ↦ hworld.mem_of_find hplaced hfind
  · refine (Store.keeps_download _).bind fun content hurl ↦ ?_
    have hpath : (start.resolve (document.location store)).text ∈ start.documentPaths store :=
      World.mem_documentPaths_of_url hproper hurl
    have hwrite := fun (world : World) (hworld : start.IsLater store world) ↦
      hworld.writeBytes hplaced hpath content
    refine (Run.Keeps.makeDirectories (fun world hworld ↦ ?_) hmake).bind fun _ _ ↦ ?_
    · exact hworld.makeDirectories_fst _
    · exact (Run.Keeps.changing hwrite).bind fun _ _ ↦ .pure hpath

namespace Resolver

variable (resolver : Resolver)

/-- The content of a document is that of a file, or comes from the network. -/
theorem keeps_content {reference : Reference} (hproper : reference.IsProper) (base : PosixPath)
    (label : String) :
    (resolver.content (resolver.fileOf base reference) label reference).Keeps
      (start.IsLater resolver.store) fun _ ↦
        resolver.target start base reference ∈ start.documentPaths resolver.store := by
  cases reference with
  | github document => exact Store.keeps_fetch hplaced hproper
  | onDisk path =>
    intro world hworld
    have hyields := resolver.yields_content_onDisk (resolver.fileOf base (.onDisk path)) label path
      world
    rw [run_content_onDisk] at hyields ⊢
    exact ⟨hworld, (hyields.imp fun _ ↦ hworld.mem_of_find hplaced).notCycle⟩

omit hplaced in
theorem notCycle_failure (source : String) (error : Yaml.Error) :
    (error.failure source).NotCycle := by
  cases error <;> exact id

omit hplaced in
theorem yields_readBytes (source : String) (bytes : ByteArray) :
    Yields Failure.NotCycle (fun _ ↦ True) (Yaml.readBytes source bytes) := by
  rw [Yaml.readBytes]
  refine Yields.bind (p := fun _ ↦ True) ?_ fun text _ ↦ ?_
  · cases Text.decode bytes with
    | error fault => exact .error id
    | ok text => exact .ok trivial
  · rw [Yaml.readText]
    cases Yaml.parse text with
    | error error => exact .error (notCycle_failure source error)
    | ok value => exact .ok trivial

/-- A document that is loaded has one of the paths of documents. -/
theorem keeps_load {reference : Reference} (hproper : reference.IsProper) (base : PosixPath)
    (label : String) :
    (resolver.load (resolver.fileOf base reference) label reference).Keeps
      (start.IsLater resolver.store) fun _ ↦
        resolver.target start base reference ∈ start.documentPaths resolver.store := by
  rw [load]
  refine (resolver.keeps_content hplaced hproper base label).bind fun content hpath ↦ ?_
  refine (Run.Keeps.reading (p := fun _ ↦ True) (fun _ ↦ yields_readBytes label content)
    fun _ _ _ _ ↦ trivial).bind fun value _ ↦ ?_
  split
  · exact .pure hpath
  · exact .throw id

omit hplaced in
theorem yields_locate (base : PosixPath) (reference : Reference) (world : World) :
    Yields Failure.IsOutside (fun _ ↦ True) (resolver.locate base reference world) := by
  have hshorten := world.yields_shorten (resolver.fileOf base reference) resolver.displayRoot
  rw [locate]
  generalize world.shorten (resolver.fileOf base reference) resolver.displayRoot = shown
    at hshorten ⊢
  cases hshorten with
  | ok => exact .ok trivial
  | error hfailure => exact .error hfailure

/-! ### The library -/

/-- What the references of a package lead to, in the worlds that come after a first one. -/
def library (start : World) : Library (Cache × World) where
  target := resolver.target start
  folder base reference := (resolver.fileOf base reference).parent
  known s := s.1.get?
  holds s := start.IsLater resolver.store s.2 ∧
    ∀ path ∈ s.1.keys, path ∈ start.documentPaths resolver.store
  paths := start.documentPaths resolver.store

/-- The services of a package follow the references to its documents. -/
theorem serves_library (directory : PosixPath) :
    (resolver.library start).Serves (Services.ofPackage directory (some resolver)) := by
  refine ⟨fun pattern s failure hglob ↦ ?_, ?_⟩
  · have hyields := (s.2.yields_glob directory pattern).notCycle
    have hworld : s.2.glob directory pattern = .error failure := hglob
    rw [hworld] at hyields
    exact hyields.of_error
  · intro resolve hresolve reference hproper visited base s hs
    obtain ⟨hlater, hkeys⟩ := hs
    obtain ⟨outcome, world', hresolves, hsettle⟩ :=
      Services.exists_resolves hresolve reference visited base s
    rw [hsettle]
    -- The names of documents depend on the place and the network only, which stay the same.
    have htarget : resolver.target s.2 base reference = resolver.target start base reference := by
      rw [target, target, hlater.resolve_eq]
    have hdocument : ∀ label value, resolver.documentOf s.2 base reference label value =
        resolver.documentOf start base reference label value := fun label value ↦ by
      rw [documentOf, documentOf, htarget]
    cases hresolves with
    | unnamed hlocate =>
      refine ⟨⟨hlater, hkeys⟩, .refl _, ?_⟩
      rintro cycle rfl
      have hyields := (resolver.yields_locate base reference s.2).notCycle
      rw [hlocate] at hyields
      exact (hyields.of_error trivial).elim
    | cyclic hvisited =>
      rw [htarget] at hvisited ⊢
      refine ⟨⟨hlater, hkeys⟩, .refl _, ?_⟩
      rintro cycle ⟨⟩
      exact ⟨hvisited, rfl⟩
    | known hnew hvalue =>
      rw [htarget] at hnew hvalue
      rw [hdocument]
      have hmem := hkeys _ (List.mem_map.2 ⟨_, Entries.mem_of_get?_eq_some hvalue, rfl⟩)
      exact ⟨⟨hlater, hkeys⟩, .refl _, rfl, rfl, hnew, hmem, hvalue⟩
    | @unread label failure world' hload =>
      have hkeeps := resolver.keeps_load hplaced hproper base label s.2 hlater
      rw [hload] at hkeeps
      refine ⟨⟨hkeeps.1, hkeys⟩, .refl _, ?_⟩
      rintro cycle rfl
      exact (hkeeps.2.of_error trivial).elim
    | @read label value world' hnew hvalue hload =>
      have hkeeps := resolver.keeps_load hplaced hproper base label s.2 hlater
      rw [hload] at hkeeps
      rw [htarget] at hnew hvalue ⊢
      rw [hdocument]
      have hmem := hkeeps.2.of_ok
      refine ⟨⟨hkeeps.1, fun path hpath ↦ ?_⟩, fun _ _ ↦ Entries.get?_insert_of_new hvalue, rfl, rfl,
        hnew, hmem, Entries.get?_insert_self ..⟩
      rcases Entries.mem_keys_insert hpath with rfl | hpath
      · exact hmem
      · exact hkeys path hpath

end Resolver

end

end CabalManifest
