import CabalManifest.Proofs.GrownTrees

/-!
# How documents are fetched

A document of a repository is fetched in one of a few ways (`Store.fetches`): it is in the store, or
its address is asked, and then the directories around its place are made and it is written there.
What an address gives depends on the network alone (`Store.outcome`). So all that changes on disk is
that directories are added, and at most one copy (`Store.alters`).

Worlds stay sound (`World.IsSound`) in all of them. In a sound world a path leads to what stands
where it spells out, if the directories are there that it names before a pair of dots
(`World.IsSound.find_of_get?`).
-/

namespace CabalManifest

/-! ### Sound worlds -/

namespace World

/-- Whether the file tree of a world is sound, and its current directory is there. -/
structure IsSound (world : World) : Prop where
  tree : world.tree.IsSound
  place : world.tree.get? world.place.names = some .directory

variable {world world' : World} {path : PosixPath} {location : Location} {content : ByteArray}

/-- A path can be looked up if no half of a pair and no null character is in it. -/
theorem checkPath_of_notMem (hhalf : Text.halfMark ∉ path.text.toList)
    (hnull : '\x00' ∉ path.text.toList) : checkPath path = .ok () := by
  rw [checkPath, Text.firstHalves?_codes_of_notMem hhalf]
  exact if_neg (by simpa using hnull)

/-- A path is followed from the root or from the current directory. -/
theorem tree_follow_of_follow (h : world.follow path = .ok location) :
    world.tree.follow (world.startOf path) path.names = .ok location := by
  rw [follow] at h
  split at h
  · cases h
  · exact h

/-- A path that leads anywhere is not too long. -/
theorem size_le_of_follow (h : world.follow path = .ok location) :
    path.text.utf8ByteSize ≤ pathLimit := by
  rw [follow] at h
  split at h
  · cases h
  · next hlong => exact Nat.not_lt.1 hlong

/-- What is found is what stands at the place that the path leads to. -/
theorem find_of_follow (h : world.follow path = .ok location) {entry : Entry}
    (hentry : world.tree.get? location = some entry) : world.find path = .ok entry := by
  rw [find, bind_of_eq_ok h, hentry]
  rfl

/-- What a path spells out: the names of its absolute path. -/
theorem IsPlaced.names_resolve (h : world.IsPlaced) (path : PosixPath) :
    (world.resolve path).names = path.names.foldl PosixPath.follow (world.startOf path) := by
  rw [startOf, resolve, PosixPath.resolve, PosixPath.normalizeNames, PosixPath.join]
  split
  · rfl
  · rw [List.foldl_append, ← PosixPath.normalizeNames, h]

/-- Whatever the tree is, a path leads where it spells out. -/
theorem IsPlaced.names_resolve_of_follow (h : world.IsPlaced) {tree : FileTree}
    (hfollow : World.follow { world with tree := tree } path = .ok location) :
    (world.resolve path).names = location := by
  have hplaced : IsPlaced { world with tree := tree } := h
  exact congrArg PosixPath.names (hplaced.eq_of_follow hfollow)

theorem find?_of_find (hcheck : checkPath path = .ok ()) {entry : Entry}
    (hfind : world.find path = .ok entry) : world.find? path = .ok (some entry) := by
  rw [find?, hcheck, hfind]

theorem isFile_of_find (hcheck : checkPath path = .ok ())
    (hfind : world.find path = .ok (.file content)) : world.isFile path = .ok true := by
  rw [isFile, find?_of_find hcheck hfind]
  rfl

/-- Where nothing is found there is no file. -/
theorem isFile_of_missing (hcheck : checkPath path = .ok ())
    (hfind : world.find path = .error .missing) : world.isFile path = .ok false := by
  rw [isFile, find?, hcheck, hfind]
  rfl

/-- A file that is found can be read. -/
theorem readBytes_of_find (hcheck : checkPath path = .ok ())
    (hfind : world.find path = .ok (.file content)) : world.readBytes path = .ok content := by
  rw [readBytes, bind_of_eq_ok hcheck, hfind]
  rfl

/-- The path of a directory leads to it. -/
theorem exists_follow_of_isDirectory (h : world.isDirectory path = .ok true) :
    ∃ location, world.follow path = .ok location ∧
      world.tree.get? location = some .directory := by
  rw [isDirectory] at h
  obtain ⟨found, hfound, h⟩ := Yaml.exists_of_bind_eq_ok h
  split at h
  · have hfind := (world.yields_find? path)
    rw [hfound] at hfind
    exact exists_of_find (hfind.of_ok _ rfl)
  · cases h

theorem exists_of_isDirectory (h : world.isDirectory path = .ok true) :
    ∃ location, world.tree.follow (world.startOf path) path.names = .ok location ∧
      world.tree.get? location = some .directory := by
  obtain ⟨location, hfollow, hentry⟩ := exists_follow_of_isDirectory h
  exact ⟨location, tree_follow_of_follow hfollow, hentry⟩

/-- Whether a path can be followed as it is spelled: it is short enough, and the directories are there
that it names before a pair of dots. -/
structure CanFollow (world : World) (path : PosixPath) : Prop where
  size_le : path.text.utf8ByteSize ≤ pathLimit
  isDirectory : ∀ before after, path.names = before ++ ".." :: after →
    world.isDirectory { path with names := before } = .ok true

/-- A path without pairs of dots can be followed if it is not too long. -/
theorem canFollow_of_notMem (hsize : path.text.utf8ByteSize ≤ pathLimit)
    (hdots : ".." ∉ path.names) : world.CanFollow path :=
  ⟨hsize, fun _ _ hnames ↦ absurd (by simp [hnames]) hdots⟩

namespace IsSound

/-- The current directory of a sound world is where its names lead. -/
theorem isPlaced (h : world.IsSound) : world.IsPlaced :=
  PosixPath.foldl_follow_of_proper (fun name hname ↦
    have hproper := h.tree.isProper _ _ h.place name hname
    ⟨hproper.ne_dot, hproper.ne_dots⟩) []

theorem admits_startOf (h : world.IsSound) (path : PosixPath) :
    world.tree.Admits (world.startOf path) := by
  rw [startOf]
  split
  · exact ⟨List.forall_mem_nil _, rfl⟩
  · exact h.tree.admits h.place

/-- A path that can be followed leads to what stands where it spells out. -/
theorem find_of_get? (h : world.IsSound) (hdot : "." ∉ path.names) (hpath : world.CanFollow path)
    {entry : Entry} (hentry : world.tree.get? (world.resolve path).names = some entry) :
    world.find path = .ok entry := by
  rw [h.isPlaced.names_resolve] at hentry
  have hfollow := h.tree.follow_of_directories hdot (fun before after hnames ↦
    exists_of_isDirectory (hpath.isDirectory before after hnames)) hentry
  refine find_of_follow ?_ hentry
  rw [follow, if_neg (Nat.not_lt.2 hpath.size_le)]
  exact hfollow

/-- Where something is written that was no file before, there was nothing, unless its path could not
be followed. -/
theorem free_of_written (h : world.IsSound) (hdot : "." ∉ path.names)
    (hcheck : checkPath path = .ok ()) (hfile : world.isFile path = .ok false) {tree : FileTree}
    (hadds : world.tree.AddsDirectories tree)
    (hfollow : World.follow { world with tree := tree } path = .ok location)
    (hnot : tree.get? location ≠ some .directory) :
    world.tree.get? location = none ∨
      (∃ before, world.tree.get? location = some (.file before)) ∧ ¬world.CanFollow path := by
  have hlocation := h.isPlaced.names_resolve_of_follow hfollow
  cases hentry : world.tree.get? location with
  | none => exact .inl rfl
  | some entry =>
    cases entry with
    | directory => exact absurd (hadds.grows _ _ hentry) hnot
    | file before =>
      refine .inr ⟨⟨before, rfl⟩, fun hpath ↦ ?_⟩
      -- A path that can be followed leads to the file that stands under it.
      have hfind := h.find_of_get? hdot hpath (hlocation ▸ hentry)
      cases hfile.symm.trans (isFile_of_find hcheck hfind)

/-- A world stays sound if its tree grows into a sound one. -/
theorem grow (h : world.IsSound) {tree : FileTree} (hgrows : world.tree.Grows tree)
    (hsound : tree.IsSound) : IsSound { world with tree := tree } :=
  ⟨hsound, hgrows _ _ h.place⟩

end IsSound

/-! ### Writing -/

/-- Writing puts a file where its path leads, unless that is a directory. -/
theorem exists_of_writeBytes (h : world.writeBytes path content = .ok world') :
    checkPath path = .ok () ∧ ∃ location, world.follow path = .ok location ∧
      world.tree.get? location ≠ some .directory ∧
        world' = { world with tree := world.tree.insert location (.file content) } := by
  rw [writeBytes] at h
  obtain ⟨_, hcheck, h⟩ := Yaml.exists_of_bind_eq_ok h
  split at h
  · cases h
  · next location hfollow =>
    split at h
    · cases h
    · next hnot => exact ⟨hcheck, location, hfollow, hnot, (Except.ok.inj h).symm⟩

/-- Something is written to the place that the path leads to, if no directory is there. -/
theorem writeBytes_of_follow (hcheck : checkPath path = .ok ())
    (hfollow : world.follow path = .ok location)
    (hfile : world.tree.get? location ≠ some .directory) (content : ByteArray) :
    world.writeBytes path content =
      .ok { world with tree := world.tree.insert location (.file content) } := by
  rw [writeBytes, bind_of_eq_ok hcheck, hfollow]
  dsimp only
  split
  · contradiction
  · rfl

/-- A sound world stays sound when something is written. -/
theorem IsSound.writeBytes (h : world.IsSound) (hwrite : world.writeBytes path content = .ok world') :
    world'.IsSound := by
  obtain ⟨-, location, hfollow, hnot, rfl⟩ := exists_of_writeBytes hwrite
  have hroot : location ≠ [] := by
    rintro rfl
    exact hnot rfl
  have hadmits := h.tree.admits_of_follow (h.admits_startOf path) (tree_follow_of_follow hfollow)
  refine ⟨h.tree.insert hroot hadmits (.inr hnot), ?_⟩
  show (world.tree.insert location (.file content)).get? world.place.names = _
  rw [FileTree.get?_insert _ _ _ hroot, if_neg]
  · exact h.place
  · rintro hsame
    exact hnot (hsame ▸ h.place)

/-- Making directories adds directories to the tree of a world, and changes nothing else. -/
theorem exists_of_makeDirectories {result : Except Failure Unit}
    (h : world.makeDirectories path = (world', result)) :
    ∃ tree, world' = { world with tree := tree } ∧ world.tree.AddsDirectories tree ∧
      (world.IsSound → tree.IsSound) := by
  rw [makeDirectories] at h
  split at h
  · cases h
    exact ⟨world.tree, rfl, .refl _, IsSound.tree⟩
  · cases h
    exact ⟨_, rfl, world.tree.addsDirectories_makeDirectories _ _,
      fun hsound ↦ hsound.tree.makeDirectories (hsound.admits_startOf path) _⟩

theorem makeDirectories_of_made (hcheck : checkPath path = .ok ()) {tree : FileTree}
    (h : world.tree.makeDirectories (world.startOf path) path.names.reverse = (tree, .ok ())) :
    world.makeDirectories path = ({ world with tree := tree }, .ok ()) := by
  rw [makeDirectories, hcheck]
  simp only [h]
  rfl

/-- Directories are made in the tree, from where the path starts. -/
theorem tree_of_makeDirectories (h : (world.makeDirectories path).2 = .ok ()) :
    world.tree.makeDirectories (world.startOf path) path.names.reverse =
      ((world.makeDirectories path).1.tree, .ok ()) := by
  rw [makeDirectories] at h ⊢
  cases hcheck : checkPath path with
  | error failure =>
    rw [hcheck] at h
    cases h
  | ok =>
    rw [hcheck] at h
    rcases hmade : world.tree.makeDirectories (world.startOf path) path.names.reverse with
      ⟨tree, obstacle | _⟩
    · simp only [hmade] at h
      cases h
    · rfl

/-! ### Asking -/

/-- The world after an address was asked. -/
def asked (world : World) (url : String) : World :=
  ((world.say .debug ("Downloading defaults from " ++ url)).request url).2

/-- Asking for an address is remembered, and nothing else is changed but the log. -/
theorem asked_eq (world : World) (url : String) :
    ∃ log, world.asked url = { world with log := log, requests := world.requests ++ [url] } := by
  rw [asked, request, say]
  split
  · exact ⟨_, rfl⟩
  · exact ⟨world.log, rfl⟩

theorem IsSound.asked (h : world.IsSound) (url : String) : (world.asked url).IsSound := by
  obtain ⟨log, hasked⟩ := world.asked_eq url
  rw [hasked]
  exact ⟨h.tree, h.place⟩

end World

namespace Store

/-- What asking an address of a network gives. -/
def outcome (network : List (String × Answer)) (url : String) : Except Failure ByteArray :=
  match addressFault? url with
  | some fault => .error (.badAddress fault)
  | none =>
    match (network.lookup url).getD (.response 404 .empty) with
    | .unreachable cause => .error (.download url cause)
    | .response status content =>
      if status = 404 then .error (.missingDefaults url false)
      else if status < 200 || status ≥ 300 then
        .error (.download url ("HTTP " ++ toString status))
      else .ok content

/-- A short address without control characters has no fault. -/
theorem addressFault?_eq_none {url : String} (hlength : url.length ≤ addressLimit)
    (hcontrol : ∀ c ∈ url.toList, isControl c = false) : addressFault? url = none := by
  have hwhole : (url.toList.takeWhile fun c ↦ !isControl c) = url.toList :=
    List.takeWhile_eq_self_iff.2 fun c hc ↦ by rw [hcontrol c hc]; rfl
  rw [addressFault?, if_neg (Nat.not_lt.2 hlength), hwhole]
  simp

/-- An address gives the content that it answers with a status of success. -/
theorem outcome_eq_ok_iff {network : List (String × Answer)} {url : String} {content : ByteArray} :
    outcome network url = .ok content ↔ addressFault? url = none ∧
      ∃ status, 200 ≤ status ∧ status < 300 ∧
        network.lookup url = some (.response status content) := by
  rw [outcome]
  cases addressFault? url with
  | some fault => exact ⟨nofun, fun h ↦ by cases h.1⟩
  | none =>
    cases network.lookup url with
    | none => exact ⟨nofun, fun ⟨_, _, _, _, h⟩ ↦ by cases h⟩
    | some answer =>
      cases answer with
      | unreachable cause => exact ⟨nofun, fun ⟨_, _, _, _, h⟩ ↦ by cases h⟩
      | response status found =>
        simp only [Option.getD_some]
        constructor
        · intro h
          split at h
          · cases h
          · split at h
            · cases h
            · next hstatus =>
              cases h
              rw [Bool.or_eq_true, decide_eq_true_iff, decide_eq_true_iff] at hstatus
              exact ⟨trivial, status, by omega, by omega, rfl⟩
        · rintro ⟨-, _, hlow, hhigh, ⟨⟩⟩
          rw [if_neg (by omega), if_neg]
          rw [Bool.or_eq_true, decide_eq_true_iff, decide_eq_true_iff]
          omega

/-- How an address can fail: nothing can be asked from it, it answers that there is no document, or
it answers otherwise without success. -/
theorem outcome_eq_error {network : List (String × Answer)} {url : String} {failure : Failure}
    (h : outcome network url = .error failure) :
    (∃ fault, addressFault? url = some fault ∧ failure = .badAddress fault) ∨
      addressFault? url = none ∧
        (failure = .missingDefaults url false ∧
            (∃ content, (network.lookup url).getD (.response 404 .empty) = .response 404 content) ∨
          (∃ cause, failure = .download url cause) ∧
            ∀ content, (network.lookup url).getD (.response 404 .empty) ≠ .response 404 content) := by
  rw [outcome] at h
  cases hfault : addressFault? url with
  | some fault =>
    rw [hfault] at h
    exact .inl ⟨fault, rfl, (Except.error.inj h).symm⟩
  | none =>
    rw [hfault] at h
    refine .inr ⟨rfl, ?_⟩
    generalize (network.lookup url).getD (.response 404 .empty) = answer at h ⊢
    cases answer with
    | unreachable cause => exact .inr ⟨⟨cause, (Except.error.inj h).symm⟩, fun _ ↦ nofun⟩
    | response status content =>
      simp only at h
      split at h
      · next hmissing => exact .inl ⟨(Except.error.inj h).symm, content, by rw [hmissing]⟩
      · next hother =>
        split at h
        · refine .inr ⟨⟨_, (Except.error.inj h).symm⟩, ?_⟩
          rintro _ ⟨⟩
          exact hother rfl
        · cases h

/-- Where there is no network, no address gives anything. -/
theorem outcome_nil_ne_ok (url : String) (content : ByteArray) : outcome [] url ≠ .ok content := by
  rw [outcome]
  split
  · exact nofun
  · exact nofun

/-- A download has the outcome that the network gives, and is remembered. -/
theorem run_download (url : String) (world : World) :
    (download url).run world = (outcome world.network url, world.asked url) := by
  have hsay : (Run.say .debug ("Downloading defaults from " ++ url)).run world =
      (.ok (), world.say .debug ("Downloading defaults from " ++ url)) := rfl
  have hnetwork : (world.say .debug ("Downloading defaults from " ++ url)).network =
      world.network := by
    rw [World.say]
    split <;> rfl
  have hask : (modifyGet (·.request url) : Run Answer).run
      (world.say .debug ("Downloading defaults from " ++ url)) =
        (.ok ((world.network.lookup url).getD (.response 404 .empty)), world.asked url) := by
    rw [← hnetwork]
    rfl
  rw [download, run_bind_of_ok hsay, run_bind_of_ok hask, outcome]
  cases addressFault? url with
  | some fault => rfl
  | none =>
    cases (world.network.lookup url).getD (.response 404 .empty) with
    | unreachable cause => rfl
    | response status content =>
      simp only
      split
      · rfl
      · split <;> rfl

end Store

/-! ### Fetching -/

namespace Run

theorem run_changing (change : World → Except Failure World) (world : World) :
    (Run.changing change).run world =
      match change world with
      | .ok world' => (.ok (), world')
      | .error failure => (.error failure, world) := by
  have hread := run_reading change world
  rw [Run.changing]
  cases hchange : change world with
  | error failure =>
    rw [hchange] at hread
    exact run_bind_of_error hread _
  | ok world' =>
    rw [hchange] at hread
    exact run_bind_of_ok hread _

theorem run_makeDirectories (path : PosixPath) (world : World) :
    (Run.makeDirectories path).run world =
      ((world.makeDirectories path).2, (world.makeDirectories path).1) := by
  have hget : (get : Run World).run world = (.ok world, world) := rfl
  rw [Run.makeDirectories, run_bind_of_ok hget]
  rcases world.makeDirectories path with ⟨world', failure | _⟩ <;> rfl

end Run

namespace Store

/-- The ways in which a document can be fetched, with the world in which each ends. -/
inductive Fetches (store : PosixPath) (document : Repository) (world : World) :
    Except Failure ByteArray → World → Prop
  | unknown {failure : Failure} (h : world.isFile (document.location store) = .error failure) :
    Fetches store document world (.error failure) world
  | stored (h : world.isFile (document.location store) = .ok true) :
    Fetches store document world (world.readBytes (document.location store)) world
  | unanswered {failure : Failure} (h : world.isFile (document.location store) = .ok false)
    (hanswer : outcome world.network document.url = .error failure) :
    Fetches store document world (.error failure) (world.asked document.url)
  | unmade {content : ByteArray} {failure : Failure} {world' : World}
    (h : world.isFile (document.location store) = .ok false)
    (hanswer : outcome world.network document.url = .ok content)
    (hmake : (world.asked document.url).makeDirectories (document.location store).parent =
      (world', .error failure)) :
    Fetches store document world (.error failure) world'
  | unwritten {content : ByteArray} {failure : Failure} {world' : World}
    (h : world.isFile (document.location store) = .ok false)
    (hanswer : outcome world.network document.url = .ok content)
    (hmake : (world.asked document.url).makeDirectories (document.location store).parent =
      (world', .ok ()))
    (hwrite : world'.writeBytes (document.location store) content = .error failure) :
    Fetches store document world (.error failure) world'
  | written {content : ByteArray} {world' world'' : World}
    (h : world.isFile (document.location store) = .ok false)
    (hanswer : outcome world.network document.url = .ok content)
    (hmake : (world.asked document.url).makeDirectories (document.location store).parent =
      (world', .ok ()))
    (hwrite : world'.writeBytes (document.location store) content = .ok world'') :
    Fetches store document world (.ok content) world''

/-- How a document is fetched. -/
theorem run_fetch (store : PosixPath) (document : Repository) (world : World) :
    (fetch store document).run world =
      match world.isFile (document.location store) with
      | .error failure => (.error failure, world)
      | .ok true => (world.readBytes (document.location store), world)
      | .ok false =>
        match outcome world.network document.url with
        | .error failure => (.error failure, world.asked document.url)
        | .ok content =>
          match (world.asked document.url).makeDirectories (document.location store).parent with
          | (world', .error failure) => (.error failure, world')
          | (world', .ok ()) =>
            match world'.writeBytes (document.location store) content with
            | .error failure => (.error failure, world')
            | .ok world'' => (.ok content, world'') := by
  have hknown := Run.run_reading (·.isFile (document.location store)) world
  rw [fetch]
  cases hfile : world.isFile (document.location store) with
  | error failure =>
    rw [hfile] at hknown
    exact run_bind_of_error hknown _
  | ok found =>
    rw [hfile] at hknown
    rw [run_bind_of_ok hknown]
    cases found with
    | true => exact Run.run_reading (·.readBytes (document.location store)) world
    | false =>
      simp only [Bool.false_eq_true, if_false]
      have hdownload := run_download document.url world
      cases hanswer : outcome world.network document.url with
      | error failure =>
        rw [hanswer] at hdownload
        rw [run_bind_of_error hdownload]
      | ok content =>
        rw [hanswer] at hdownload
        rw [run_bind_of_ok hdownload]
        have hmade := Run.run_makeDirectories (document.location store).parent
          (world.asked document.url)
        rcases hmake : (world.asked document.url).makeDirectories
          (document.location store).parent with ⟨world', failure | _⟩
        · rw [hmake] at hmade
          rw [run_bind_of_error hmade]
        · rw [hmake] at hmade
          have hwritten := Run.run_changing (·.writeBytes (document.location store) content) world'
          rw [run_bind_of_ok hmade]
          cases hwrite : world'.writeBytes (document.location store) content with
          | error failure =>
            rw [hwrite] at hwritten
            rw [run_bind_of_error hwritten]
            simp only [hwrite]
          | ok world'' =>
            rw [hwrite] at hwritten
            rw [run_bind_of_ok hwritten]
            simp only [hwrite]
            rfl

/-- Every document is fetched in one of these ways. -/
theorem fetches (store : PosixPath) (document : Repository) (world : World) :
    Fetches store document world ((fetch store document).run world).1
      ((fetch store document).run world).2 := by
  rw [run_fetch]
  split
  · next hfile => exact .unknown hfile
  · next hfile => exact .stored hfile
  · next hfile =>
    split
    · next hanswer => exact .unanswered hfile hanswer
    · next hanswer =>
      split
      · next hmake => exact .unmade hfile hanswer hmake
      · next hmake =>
        split
        · next hwrite => exact .unwritten hfile hanswer hmake hwrite
        · next hwrite => exact .written hfile hanswer hmake hwrite

/-- What fetching a document makes of a world: nothing; directories, where it fails after its address
was asked; or these and the copy of the document, which takes the place of a file only if the path of
the document cannot be followed. -/
inductive Alters (store : PosixPath) (document : Repository) (world : World) :
    Except Failure ByteArray → World → Prop
  | nothing {result : Except Failure ByteArray} (h : ∀ content, result = .ok content →
      world.readBytes (document.location store) = .ok content) :
    Alters store document world result world
  | directories {failure : Failure} {tree : FileTree} (log : List (Level × String))
    (hadds : world.tree.AddsDirectories tree) (hsound : World.IsSound { world with
      tree := tree, log := log, requests := world.requests ++ [document.url] }) :
    Alters store document world (.error failure)
      { world with tree := tree, log := log, requests := world.requests ++ [document.url] }
  | copy {content : ByteArray} {tree : FileTree} {location : Location}
    (log : List (Level × String)) (hanswer : outcome world.network document.url = .ok content)
    (hadds : world.tree.AddsDirectories tree)
    (hfollow : World.follow { world with tree := tree } (document.location store) = .ok location)
    (hnot : tree.get? location ≠ some .directory)
    (hfree : world.tree.get? location = none ∨ (∃ before, world.tree.get? location =
      some (.file before)) ∧ ¬world.CanFollow (document.location store))
    (hsound : World.IsSound { world with
      tree := tree.insert location (.file content)
      log := log
      requests := world.requests ++ [document.url] }) :
    Alters store document world (.ok content) { world with
      tree := tree.insert location (.file content)
      log := log
      requests := world.requests ++ [document.url] }

/-- Fetching a document changes nothing, or adds directories, or adds directories and a copy. -/
theorem alters {store : PosixPath} (hstore : store.IsSpelled) (document : Repository) {world : World}
    (hworld : world.IsSound) : Alters store document world ((fetch store document).run world).1
      ((fetch store document).run world).2 := by
  have hdot := (Repository.isSpelled_location hstore document).dot_notMem
  obtain ⟨log, hasked⟩ := world.asked_eq document.url
  have hsound := hworld.asked document.url
  have hmade : ∀ {world' : World} {result : Except Failure Unit},
      (world.asked document.url).makeDirectories (document.location store).parent =
        (world', result) → ∃ tree, world' = { world with
          tree := tree, log := log, requests := world.requests ++ [document.url] } ∧
        world.tree.AddsDirectories tree ∧ world'.IsSound := by
    intro world' result hmake
    obtain ⟨tree, rfl, hadds, htree⟩ := World.exists_of_makeDirectories hmake
    have hsound' := hsound.grow hadds.grows (htree hsound)
    rw [hasked] at hadds hsound' ⊢
    exact ⟨tree, rfl, hadds, hsound'⟩
  have hfetches := fetches store document world
  generalize (fetch store document).run world = outcome at hfetches ⊢
  obtain ⟨result, world'⟩ := outcome
  change Fetches store document world result world' at hfetches
  cases hfetches with
  | unknown => exact .nothing fun _ h ↦ by cases h
  | stored => exact .nothing fun _ h ↦ h
  | unanswered =>
    rw [hasked] at hsound ⊢
    exact .directories log (.refl _) hsound
  | unmade _ _ hmake | unwritten _ _ hmake =>
    obtain ⟨tree, rfl, hadds, hsound'⟩ := hmade hmake
    exact .directories log hadds hsound'
  | written hfile hanswer hmake hwrite =>
    obtain ⟨tree, rfl, hadds, hsound'⟩ := hmade hmake
    have hwritten := hsound'.writeBytes hwrite
    obtain ⟨hcheck, location, hfollow, hnot, rfl⟩ := World.exists_of_writeBytes hwrite
    have hfree := hworld.free_of_written hdot hcheck hfile hadds hfollow hnot
    exact .copy log hanswer hadds hfollow hnot hfree hwritten

end Store

end CabalManifest
