import CabalManifest.Build
import CabalManifest.Proofs.FetchedDocuments
import CabalManifest.Proofs.PairedRuns

/-!
# Changed documents

Two worlds may differ in what is written in their documents, and in nothing else (`World.Changes`).
Then the same files are found in both, and the same documents are downloaded, stored and remembered:
whatever a reference leads to, it is the document as it is written in its world
(`Services.resolve_changes`).
-/

namespace CabalManifest

/-! ### Trees without contents -/

/-- An entry without its content. -/
def Entry.blank : Entry → Entry
  | directory => directory
  | file _ => file .empty

namespace FileTree

/-- A tree with empty files. -/
def blank (tree : FileTree) : FileTree :=
  ⟨tree.entries.map fun (location, entry) ↦ (location, entry.blank)⟩

variable (tree : FileTree)

/-- In a blank tree everything stands where it stood, with nothing in the files. -/
theorem get?_blank (location : Location) :
    tree.blank.get? location = (tree.get? location).map Entry.blank := by
  rw [get?, get?]
  split
  · rfl
  · rw [blank]
    induction tree.entries with
    | nil => rfl
    | cons found entries ih =>
      obtain ⟨found, entry⟩ := found
      rw [List.map_cons, List.lookup_cons, List.lookup_cons]
      split
      · rfl
      · exact ih

/-- Paths are followed without looking into files. -/
theorem follow_blank (location : Location) (names : List String) :
    tree.blank.follow location names = tree.follow location names := by
  induction names generalizing location with
  | nil => rw [follow_nil, follow_nil]
  | cons name names ih =>
    rw [follow, follow, get?_blank]
    cases tree.get? location with
    | none => rfl
    | some entry =>
      cases entry with
      | file => rfl
      | directory => simp only [Option.map_some, Entry.blank, ih]

theorem find_blank (location : Location) (names : List String) :
    tree.blank.find location names = (tree.find location names).map Entry.blank := by
  rw [find, find, follow_blank]
  cases tree.follow location names with
  | error => rfl
  | ok target =>
    rw [bind_of_eq_ok rfl, bind_of_eq_ok rfl, get?_blank]
    cases tree.get? target <;> rfl

/-- Directories are told without looking into files. -/
theorem isDirectory_blank (location : Location) (names : List String) :
    tree.blank.isDirectory location names = tree.isDirectory location names := by
  rw [isDirectory, isDirectory, find_blank]
  rcases tree.find location names with stray | (_ | _) <;> rfl

theorem exists?_blank (location : Location) (names : List String) :
    tree.blank.exists? location names = tree.exists? location names := by
  rw [exists?, exists?, find_blank]
  rcases tree.find location names with stray | entry <;> rfl

/-- Files are listed without looking into them. -/
theorem filesBelow_blank (location : Location) :
    tree.blank.filesBelow location = tree.filesBelow location := by
  rw [filesBelow, filesBelow, blank, List.filterMap_map]
  congr 1
  refine List.filterMap_congr fun found _ ↦ ?_
  obtain ⟨found, _ | _⟩ := found <;> rfl

/-- The names in a directory are matched without looking into files. -/
theorem namesMatching_blank (location : Location) (pattern : List Char) (onlyDirectories : Bool) :
    Glob.namesMatching tree.blank location pattern onlyDirectories =
      Glob.namesMatching tree location pattern onlyDirectories := by
  rw [Glob.namesMatching, Glob.namesMatching, children, children, blank, List.filterMap_map,
    List.filterMap_filterMap, List.filterMap_filterMap]
  refine List.filterMap_congr fun found _ ↦ ?_
  obtain ⟨found, entry⟩ := found
  simp only [Function.comp]
  split
  · cases found.getLast? <;> cases entry <;> rfl
  · rfl

theorem namesBelow_blank (location : Location) (onlyDirectories : Bool) :
    Glob.namesBelow tree.blank location onlyDirectories =
      Glob.namesBelow tree location onlyDirectories := by
  rw [Glob.namesBelow, Glob.namesBelow, blank, List.filterMap_map]
  refine List.filterMap_congr fun found _ ↦ ?_
  obtain ⟨found, _ | _⟩ := found <;> rfl

/-- Patterns are matched without looking into files. -/
theorem candidates_blank (start : Location) (pattern : String) :
    Glob.candidates tree.blank start pattern = Glob.candidates tree start pattern := by
  have hname : ∀ pattern isLast names, Glob.expandName tree.blank start pattern isLast names =
      Glob.expandName tree start pattern isLast names := by
    intro pattern isLast names
    simp only [Glob.expandName, follow_blank, isDirectory_blank, exists?_blank, namesMatching_blank,
      namesBelow_blank]
  have hnames : ∀ patterns names, Glob.expandNames tree.blank start patterns names =
      Glob.expandNames tree start patterns names := by
    intro patterns
    induction patterns with
    | nil => exact fun names ↦ rfl
    | cons pattern patterns ih =>
      intro names
      rw [Glob.expandNames, Glob.expandNames, hname, funext ih]
  simp only [Glob.candidates, hnames]

end FileTree

namespace World

/-- A world with empty files. -/
def blank (world : World) : World := { world with tree := world.tree.blank }

variable (world : World) (path : PosixPath)

theorem follow_blank : world.blank.follow path = world.follow path := by
  rw [follow, follow]
  split
  · rfl
  · exact world.tree.follow_blank _ _

theorem find_blank : world.blank.find path = (world.find path).map Entry.blank := by
  rw [find, find, follow_blank]
  cases world.follow path with
  | error => rfl
  | ok target =>
    rw [bind_of_eq_ok rfl, bind_of_eq_ok rfl, blank, FileTree.get?_blank]
    cases world.tree.get? target <;> rfl

/-- What is found is the same but for what is in a file. -/
theorem find?_blank : world.blank.find? path = (world.find? path).map (Option.map Entry.blank) := by
  rw [find?, find?, find_blank]
  rcases checkPath path with failure | _
  · rfl
  · rcases world.find path with (_ | _ | _) | entry <;> rfl

/-- Files are told without looking into them. -/
theorem isFile_blank : world.blank.isFile path = world.isFile path := by
  rw [isFile, isFile, find?_blank]
  rcases world.find? path with failure | (_ | (_ | _)) <;> rfl

theorem isDirectory_blank : world.blank.isDirectory path = world.isDirectory path := by
  rw [isDirectory, isDirectory, find?_blank]
  rcases world.find? path with failure | (_ | (_ | _)) <;> rfl

/-- The files of a directory are listed without looking into them. -/
theorem listFiles_blank : world.blank.listFiles path = world.listFiles path := by
  have hbelow : world.blank.tree.filesBelow = world.tree.filesBelow :=
    funext fun location ↦ world.tree.filesBelow_blank location
  simp only [listFiles, isDirectory_blank, follow_blank, hbelow]

end World

/-! ### Growing without regard to contents -/

/-- A tree that grows does so without what is in the files. -/
theorem FileTree.Grows.blank {tree tree' : FileTree} (h : tree.Grows tree') :
    tree.blank.Grows tree'.blank := by
  intro location entry hentry
  rw [get?_blank] at hentry ⊢
  obtain ⟨found, hfound, rfl⟩ := Option.map_eq_some_iff.1 hentry
  rw [h _ _ hfound, Option.map_some]

/-- Writing a file takes no directory away. -/
theorem FileTree.grows_blank_insert {tree : FileTree} {location : Location}
    (hnot : tree.get? location ≠ some .directory) (content : ByteArray) :
    tree.blank.Grows (tree.insert location (.file content)).blank := by
  have hroot : location ≠ [] := by
    rintro rfl
    exact hnot rfl
  intro location' entry hentry
  rw [get?_blank] at hentry ⊢
  rw [get?_insert _ _ _ hroot]
  split
  · next hsame =>
    subst hsame
    obtain ⟨_ | before, hfound, rfl⟩ := Option.map_eq_some_iff.1 hentry
    · exact absurd hfound hnot
    · rfl
  · exact hentry

/-- A path that is one of a file leads to the file. -/
theorem World.exists_of_isFile {world : World} {path : PosixPath} (h : world.isFile path = .ok true) :
    checkPath path = .ok () ∧ ∃ content, world.find path = .ok (.file content) := by
  rw [isFile, find?] at h
  rcases hcheck : checkPath path with failure | _ <;>
    rcases hfind : world.find path with (_ | _ | _) | (_ | content) <;> rw [hcheck, hfind] at h <;>
      first | exact ⟨rfl, content, rfl⟩ | cases h

/-- What was a file is still one. -/
theorem World.isFile_of_grows {world world' : World} {path : PosixPath}
    (hgrows : world.tree.blank.Grows world'.tree.blank) (hplace : world'.place = world.place)
    (h : world.isFile path = .ok true) : world'.isFile path = .ok true := by
  obtain ⟨hcheck, content, hfind⟩ := exists_of_isFile h
  obtain ⟨location, hfollow, hentry⟩ := exists_of_find hfind
  have htree := tree_follow_of_follow hfollow
  rw [← world.tree.follow_blank] at htree
  have hstart : world'.blank.startOf path = world.startOf path := by
    rw [startOf, startOf, blank, hplace]
  have hfollow' : world'.blank.follow path = .ok location := by
    rw [World.follow, if_neg (Nat.not_lt.2 (size_le_of_follow hfollow)), hstart]
    exact hgrows.follow htree
  have hfile : world'.blank.find path = .ok (.file .empty) := by
    refine find_of_follow hfollow' (hgrows _ _ ?_)
    rw [FileTree.get?_blank, hentry]
    rfl
  rw [← isFile_blank]
  exact isFile_of_find hcheck hfile

/-! ### Trees with other contents -/

/-- Whether entries are the same but for what is written in them. -/
inductive Entry.Changes (relates : ByteArray → ByteArray → Prop) : Entry → Entry → Prop
  | directory : Changes relates .directory .directory
  | file {content content' : ByteArray} (h : relates content content') :
    Changes relates (.file content) (.file content')

namespace FileTree

/-- Whether trees are the same but for what is written in their files. -/
def Changes (relates : Location → ByteArray → ByteArray → Prop) (tree tree' : FileTree) : Prop :=
  List.Forall₂ (fun found found' ↦ found'.1 = found.1 ∧ found.2.Changes (relates found.1) found'.2)
    tree.entries tree'.entries

namespace Changes

variable {relates : Location → ByteArray → ByteArray → Prop} {tree tree' : FileTree}
  {location : Location} {names : List String}

/-- Trees that differ in what is in some files are the same without it. -/
theorem blank_eq (h : tree.Changes relates tree') : tree'.blank = tree.blank := by
  rw [blank, blank]
  refine congrArg FileTree.mk ?_
  unfold Changes at h
  generalize tree.entries = entries at h ⊢
  generalize tree'.entries = entries' at h ⊢
  induction h with
  | nil => rfl
  | @cons found found' _ _ hfound _ ih =>
    obtain ⟨found, entry⟩ := found
    obtain ⟨found', entry'⟩ := found'
    obtain ⟨rfl, hentry⟩ := hfound
    rw [List.map_cons, List.map_cons, ih]
    cases hentry <;> rfl

/-- So paths lead to the same places in both trees. -/
theorem follow_eq (h : tree.Changes relates tree') (location : Location) (names : List String) :
    tree'.follow location names = tree.follow location names := by
  rw [← follow_blank, h.blank_eq, follow_blank]

theorem isDirectory_eq (h : tree.Changes relates tree') (location : Location) (names : List String) :
    tree'.isDirectory location names = tree.isDirectory location names := by
  rw [← isDirectory_blank, h.blank_eq, isDirectory_blank]

/-- At each place both trees have the same, or files that are related. -/
theorem get? (h : tree.Changes relates tree') (location : Location) :
    Option.Rel (Entry.Changes (relates location)) (tree.get? location) (tree'.get? location) := by
  rw [FileTree.get?, FileTree.get?]
  split
  · exact .some .directory
  · unfold Changes at h
    generalize tree.entries = entries at h ⊢
    generalize tree'.entries = entries' at h ⊢
    induction h with
    | nil => exact .none
    | @cons found found' _ _ hfound _ ih =>
      obtain ⟨found, entry⟩ := found
      obtain ⟨found', entry'⟩ := found'
      obtain ⟨rfl, hentry⟩ := hfound
      simp only [List.lookup_cons]
      split
      · next hsame =>
        obtain rfl := beq_iff_eq.1 hsame
        exact .some hentry
      · exact ih

/-- Putting related things in the same place keeps the trees related. -/
theorem insert (h : tree.Changes relates tree') {entry entry' : Entry}
    (hentry : entry.Changes (relates location) entry') :
    (tree.insert location entry).Changes relates (tree'.insert location entry') := by
  refine .cons ⟨rfl, hentry⟩ ?_
  unfold Changes at h
  generalize tree.entries = entries at h ⊢
  generalize tree'.entries = entries' at h ⊢
  induction h with
  | nil => exact .nil
  | @cons found found' _ _ hfound hrest ih =>
    rw [List.filter_cons, List.filter_cons, hfound.1]
    split
    · exact .cons hfound ih
    · exact ih

/-- The same directory is made, or none for the same reason. -/
theorem makeDirectory (h : tree.Changes relates tree') (location : Location) (names : List String) :
    (∃ obstacle, tree.makeDirectory location names = .error obstacle ∧
        tree'.makeDirectory location names = .error obstacle) ∨
      ∃ made made', tree.makeDirectory location names = .ok made ∧
        tree'.makeDirectory location names = .ok made' ∧ made.Changes relates made' := by
  rw [FileTree.makeDirectory, FileTree.makeDirectory, h.follow_eq]
  cases tree.follow location names with
  | error stray => exact .inl ⟨_, rfl, rfl⟩
  | ok target =>
    have hsame : (tree'.get? target).isSome = (tree.get? target).isSome := by
      have hget := h.get? target
      generalize tree.get? target = found at hget ⊢
      generalize tree'.get? target = found' at hget ⊢
      cases hget <;> rfl
    simp only [hsame]
    split
    · exact .inl ⟨_, rfl, rfl⟩
    · exact .inr ⟨_, _, rfl, rfl, h.insert .directory⟩

/-- Making directories keeps the trees related, and succeeds in both or in none. -/
theorem makeDirectories (h : tree.Changes relates tree') (location : Location) (names : List String) :
    (tree.makeDirectories location names).1.Changes relates
        (tree'.makeDirectories location names).1 ∧
      (tree'.makeDirectories location names).2 = (tree.makeDirectories location names).2 := by
  induction names with
  | nil => exact ⟨h, rfl⟩
  | cons name around ih =>
    have hsettle : ∀ {first first' : FileTree}, first.Changes relates first' → ∀ obstacle,
        let settle : FileTree → FileTree × Except (Obstacle × List String) Unit := fun tree ↦
          if tree.isDirectory location (name :: around).reverse then (tree, .ok ())
          else (tree, .error (obstacle, name :: around))
        (settle first).1.Changes relates (settle first').1 ∧ (settle first').2 = (settle first).2 := by
      intro first first' hfirst obstacle
      simp only [hfirst.isDirectory_eq]
      split <;> exact ⟨hfirst, rfl⟩
    rw [FileTree.makeDirectories, FileTree.makeDirectories]
    rcases h.makeDirectory location (name :: around).reverse with
      ⟨obstacle, hmade, hmade'⟩ | ⟨made, made', hmade, hmade', hchanges⟩
    · rw [hmade, hmade']
      rcases obstacle with (_ | _ | _) | _
      · generalize tree.makeDirectories location around = first at ih ⊢
        generalize tree'.makeDirectories location around = first' at ih ⊢
        obtain ⟨first, result⟩ := first
        obtain ⟨first', result'⟩ := first'
        obtain ⟨haround, rfl⟩ : first.Changes relates first' ∧ result' = result := ih
        rcases result' with obstacle | _
        · exact ⟨haround, rfl⟩
        · simp only
          rcases haround.makeDirectory location (name :: around).reverse with
            ⟨obstacle, hmade, hmade'⟩ | ⟨made, made', hmade, hmade', hchanges⟩
          · rw [hmade, hmade']
            exact hsettle haround obstacle
          · rw [hmade, hmade']
            exact ⟨hchanges, rfl⟩
      · exact hsettle h _
      · exact hsettle h _
      · exact hsettle h _
    · rw [hmade, hmade']
      exact ⟨hchanges, rfl⟩

end Changes

end FileTree

/-! ### Worlds with other documents -/

/-- How the documents under their absolute paths may be changed: an object into an object. -/
structure Change where
  relates : String → Value → Value → Prop
  object_or_eq : ∀ {canonical value value'}, relates canonical value value' →
    (∃ entries entries', value = .object entries ∧ value' = .object entries') ∨ value' = value

/-- Whether the document under a path is changed from one content into another one. -/
def Change.Reads (change : Change) (canonical : String) (content content' : ByteArray) : Prop :=
  ∀ source, Matches Eq (change.relates canonical) (Yaml.readBytes source content)
    (Yaml.readBytes source content')

/-- Whether the file at a location is changed from one content into another one. -/
def Change.ReadsAt (change : Change) (location : Location) : ByteArray → ByteArray → Prop :=
  change.Reads (PosixPath.ofLocation location).text

namespace World

theorem resolve_makeDirectories (world : World) (path : PosixPath) :
    (world.makeDirectories path).1.resolve = world.resolve := by
  rcases hmade : world.makeDirectories path with ⟨made, result⟩
  obtain ⟨tree, rfl, -⟩ := exists_of_makeDirectories hmade
  rfl

/-- Whether worlds are the same but for their documents. A document that is in the store need not be
changed on the network, for it is not downloaded again. -/
structure Changes (change : Change) (store : PosixPath) (world world' : World) : Prop where
  isPlaced : world.IsPlaced
  tree : world.tree.Changes change.ReadsAt world'.tree
  addresses : world'.network.map (·.1) = world.network.map (·.1)
  network : ∀ document : Repository, world.isFile (document.location store) = .ok true ∨
    Matches Eq (change.Reads (world.resolve (document.location store)).text)
      (Store.outcome world.network document.url) (Store.outcome world'.network document.url)
  eq : world' = { world with tree := world'.tree, network := world'.network }

namespace Changes

variable {change : Change} {store : PosixPath} {world world' : World} (path : PosixPath)

/-- All documents can stay as they are. -/
theorem refl (h : world.IsPlaced) (hrelates : ∀ canonical value, change.relates canonical value value)
    (store : PosixPath) : world.Changes change store world := by
  have hreads : ∀ canonical content, change.Reads canonical content content := fun canonical _ _ ↦
    .refl (fun _ ↦ rfl) (hrelates canonical) _
  refine ⟨h, ?_, rfl, fun document ↦ .inr (.refl (fun _ ↦ rfl) (hreads _) _), rfl⟩
  refine List.forall₂_same.2 fun found _ ↦ ⟨rfl, ?_⟩
  cases found.2 with
  | directory => exact .directory
  | file content => exact .file (hreads _ content)

/-- Both worlds have the same current directory. -/
theorem place_eq (h : world.Changes change store world') : world'.place = world.place := by
  rw [h.eq]

theorem resolve_eq (h : world.Changes change store world') :
    world'.resolve path = world.resolve path := by
  rw [resolve, h.place_eq, resolve]

theorem blank_eq (h : world.Changes change store world') :
    world'.blank = { world.blank with network := world'.network } := by
  rw [blank, h.tree.blank_eq, blank]
  conv_lhs => rw [h.eq]

theorem follow_eq (h : world.Changes change store world') :
    world'.follow path = world.follow path := by
  rw [← follow_blank, h.blank_eq, ← world.follow_blank]
  rfl

theorem isFile_eq (h : world.Changes change store world') :
    world'.isFile path = world.isFile path := by
  rw [← isFile_blank, h.blank_eq, ← world.isFile_blank]
  rfl

/-- The same files match a pattern in both worlds. -/
theorem glob_eq (h : world.Changes change store world') (pattern : String) :
    world'.glob path pattern = world.glob path pattern := by
  have hcandidates : Glob.candidates world'.tree = Glob.candidates world.tree := by
    funext start pattern
    rw [← FileTree.candidates_blank, h.tree.blank_eq, FileTree.candidates_blank]
  simp only [glob, h.isFile_eq, h.follow_eq, hcandidates]

theorem listFiles_eq (h : world.Changes change store world') :
    world'.listFiles path = world.listFiles path := by
  rw [← listFiles_blank, h.blank_eq, ← world.listFiles_blank]
  rfl

/-- The same modules are found in both worlds. -/
theorem lister_eq (h : world.Changes change store world') (directory : PosixPath) :
    world'.lister directory = world.lister directory := by
  unfold lister
  simp only [h.listFiles_eq]

theorem shorten_eq (h : world.Changes change store world') (root : Option PosixPath) :
    world'.shorten path root = world.shorten path root := by
  simp only [shorten, h.resolve_eq]

/-- Both worlds may have as many documents. -/
theorem documentBound_eq (h : world.Changes change store world') :
    world'.documentBound = world.documentBound := by
  have hfold : ∀ (network : List (String × Answer)) (bound : Nat),
      network.foldl (fun bound entry ↦ bound + (entry.1.length + 1)) bound =
        (network.map (·.1)).foldl (fun bound address ↦ bound + (address.length + 1)) bound := by
    intro network bound
    rw [List.foldl_map]
  rw [documentBound, documentBound, hfold, hfold, h.addresses, h.tree.length_eq]

/-- What stands in a file is changed in the way of its path. -/
theorem readBytes (h : world.Changes change store world') :
    Matches Eq (change.Reads (world.resolve path).text) (world.readBytes path)
      (world'.readBytes path) := by
  rw [World.readBytes, World.readBytes]
  cases checkPath path with
  | error failure => exact .error rfl
  | ok =>
    rw [bind_of_eq_ok rfl, bind_of_eq_ok rfl, find, find, h.follow_eq]
    cases hfollow : world.follow path with
    | error stray => exact .error rfl
    | ok location =>
      rw [bind_of_eq_ok rfl, bind_of_eq_ok rfl, h.isPlaced.eq_of_follow hfollow]
      have hget := h.tree.get? location
      generalize world.tree.get? location = found at hget ⊢
      generalize world'.tree.get? location = found' at hget ⊢
      cases hget with
      | none => exact .error rfl
      | some hentry =>
        cases hentry with
        | directory => exact .error rfl
        | file hreads => exact .ok hreads

/-- Worlds that have grown in the same way still are the same but for their documents. -/
theorem grow (h : world.Changes change store world') {tree tree' : FileTree}
    (htree : tree.Changes change.ReadsAt tree') (hgrows : world.tree.blank.Grows tree.blank) :
    Changes change store { world with tree := tree } { world' with tree := tree' } := by
  refine ⟨h.isPlaced, htree, h.addresses, fun document ↦ ?_, ?_⟩
  · refine (h.network document).imp_left fun hfile ↦ ?_
    exact isFile_of_grows hgrows rfl hfile
  · rw [h.eq]

/-- The same address is asked. -/
theorem asked (h : world.Changes change store world') (url : String) :
    (world.asked url).Changes change store (world'.asked url) := by
  have hsame : ∀ (tree : FileTree) (network : List (String × Answer)),
      World.asked { world with tree := tree, network := network } url =
        { world.asked url with tree := tree, network := network } := by
    intro tree network
    rw [World.asked, World.asked, request, request, say, say]
    split <;> rfl
  obtain ⟨log, hasked⟩ := world.asked_eq url
  have hasked' : world'.asked url =
      { world' with log := log, requests := world.requests ++ [url] } := by
    conv_lhs => rw [h.eq]
    rw [hsame, hasked]
    conv_rhs => rw [h.eq]
  have hfile : ∀ path, world.isFile path = .ok true → (world.asked url).isFile path = .ok true := by
    intro path hpath
    refine isFile_of_grows ?_ ?_ hpath
    · rw [hasked]
      exact .refl _
    · rw [hasked]
  rw [hasked] at hfile ⊢
  rw [hasked']
  refine ⟨h.isPlaced, h.tree, h.addresses, fun document ↦ ?_, by rw [h.eq]⟩
  exact (h.network document).imp_left (hfile _)

theorem makeDirectories (h : world.Changes change store world') :
    (world.makeDirectories path).1.Changes change store (world'.makeDirectories path).1 ∧
      (world'.makeDirectories path).2 = (world.makeDirectories path).2 := by
  rw [World.makeDirectories, World.makeDirectories]
  cases checkPath path with
  | error failure => exact ⟨h, rfl⟩
  | ok =>
    have hstart : world'.startOf path = world.startOf path := by rw [startOf, startOf, h.place_eq]
    obtain ⟨htree, hresult⟩ := h.tree.makeDirectories (world.startOf path) path.names.reverse
    have hgrows := world.tree.addsDirectories_makeDirectories (world.startOf path)
      path.names.reverse
    simp only [hstart, hresult]
    exact ⟨h.grow htree hgrows.grows.blank, trivial⟩

/-- Writing related contents to the same file keeps the worlds related. -/
theorem writeBytes (h : world.Changes change store world') {content content' : ByteArray}
    (hcontent : change.Reads (world.resolve path).text content content') :
    Matches Eq (World.Changes change store) (world.writeBytes path content)
      (world'.writeBytes path content') := by
  rw [World.writeBytes, World.writeBytes, h.follow_eq]
  cases checkPath path with
  | error failure => exact .error rfl
  | ok =>
    rw [bind_of_eq_ok rfl, bind_of_eq_ok rfl]
    cases hfollow : world.follow path with
    | error stray => exact .error rfl
    | ok location =>
      rw [h.isPlaced.eq_of_follow hfollow] at hcontent
      have hget := h.tree.get? location
      have hwrite : world.tree.get? location ≠ some .directory →
          Changes change store { world with tree := world.tree.insert location (.file content) }
            { world' with tree := world'.tree.insert location (.file content') } := fun hnot ↦
        h.grow (h.tree.insert (.file hcontent)) (FileTree.grows_blank_insert hnot content)
      simp only
      generalize world.tree.get? location = found at hget hwrite ⊢
      generalize world'.tree.get? location = found' at hget ⊢
      cases hget with
      | none => exact .ok (hwrite (by simp))
      | some hentry =>
        cases hentry with
        | directory => exact .error rfl
        | file => exact .ok (hwrite (by simp))

/-- The same document is fetched, as it is written in its world. -/
theorem fetch (h : world.Changes change store world') (document : Repository) :
    ((Store.fetch store document).run world).2.Changes change store
        ((Store.fetch store document).run world').2 ∧
      Matches Eq (change.Reads (world.resolve (document.location store)).text)
        ((Store.fetch store document).run world).1 ((Store.fetch store document).run world').1 := by
  rw [Store.run_fetch, Store.run_fetch, h.isFile_eq]
  rcases hfile : world.isFile (document.location store) with failure | (_ | _)
  · exact ⟨h, .error rfl⟩
  · have hanswer := (h.network document).resolve_left fun htrue ↦ by cases hfile.symm.trans htrue
    generalize Store.outcome world.network document.url = answer at hanswer ⊢
    generalize Store.outcome world'.network document.url = answer' at hanswer ⊢
    cases hanswer with
    | error hsame => exact ⟨h.asked _, .error hsame⟩
    | ok hcontent =>
      rename_i content content'
      obtain ⟨hmade, hresult⟩ :=
        (h.asked document.url).makeDirectories (document.location store).parent
      have hresolve : ((world.asked document.url).makeDirectories
          (document.location store).parent).1.resolve = world.resolve := by
        obtain ⟨log, hlog⟩ := world.asked_eq document.url
        rw [resolve_makeDirectories, hlog]
        rfl
      simp only
      generalize (world.asked document.url).makeDirectories (document.location store).parent = first
        at hmade hresult hresolve ⊢
      generalize (world'.asked document.url).makeDirectories (document.location store).parent =
        first' at hmade hresult ⊢
      obtain ⟨made, result⟩ := first
      obtain ⟨made', result'⟩ := first'
      simp only at hmade hresult hresolve ⊢
      subst hresult
      rcases result' with failure | _
      · exact ⟨hmade, .error rfl⟩
      · have hwritten := hmade.writeBytes (document.location store) (hresolve ▸ hcontent)
        simp only
        generalize made.writeBytes (document.location store) content = written at hwritten ⊢
        generalize made'.writeBytes (document.location store) content' = written' at hwritten ⊢
        cases hwritten with
        | error hsame => exact ⟨hmade, .error hsame⟩
        | ok hchanges => exact ⟨hchanges, .ok hcontent⟩
  · exact ⟨h, h.readBytes _⟩

end Changes

end World

/-! ### Remembered documents -/

/-- Whether the same documents are remembered, as they are written. -/
def Cache.Changes (change : Change) (cache cache' : Cache) : Prop :=
  List.Forall₂ (fun known known' ↦ known'.1 = known.1 ∧
    change.relates known.1 (.object known.2) (.object known'.2)) cache cache'

namespace Cache.Changes

variable {change : Change} {cache cache' : Cache} {canonical : String}

theorem get? (h : cache.Changes change cache') (canonical : String) :
    Option.Rel (fun value value' ↦ change.relates canonical (.object value) (.object value'))
      (Entries.get? cache canonical) (Entries.get? cache' canonical) := by
  induction h with
  | nil => exact .none
  | @cons known known' _ _ hknown _ ih =>
    obtain ⟨known, value⟩ := known
    obtain ⟨known', value'⟩ := known'
    obtain ⟨rfl, hrelates⟩ := hknown
    simp only [Entries.get?_cons]
    split
    · next hsame =>
      obtain rfl := hsame
      exact .some hrelates
    · exact ih

theorem insert (h : cache.Changes change cache') {value value' : List (String × Value)}
    (hrelates : change.relates canonical (.object value) (.object value')) :
    Cache.Changes change (Entries.insert cache canonical value)
      (Entries.insert cache' canonical value') := by
  induction h with
  | nil => exact .cons ⟨rfl, hrelates⟩ .nil
  | @cons known known' _ _ hknown hrest ih =>
    obtain ⟨known, found⟩ := known
    obtain ⟨known', found'⟩ := known'
    obtain ⟨rfl, hfound⟩ := hknown
    rw [Entries.insert, Entries.insert]
    split
    · next hsame =>
      obtain rfl := hsame
      exact .cons ⟨rfl, hrelates⟩ hrest
    · exact .cons ⟨rfl, hfound⟩ ih

end Cache.Changes

/-! ### Resolving -/

/-- Whether documents are the same but for what is written in them. -/
structure Document.Changes (change : Change) (document document' : Document) : Prop where
  source_eq : document'.source = document.source
  canonical_eq : document'.canonical = document.canonical
  directory_eq : document'.directory = document.directory
  relates : change.relates document.canonical (.object document.value) (.object document'.value)

namespace Resolver

variable {change : Change} {resolver : Resolver} {world world' : World} {cache cache' : Cache}

/-- The content of a document is fetched alike from both worlds, up to the relation. -/
theorem content_changes (h : world.Changes change resolver.store world') (base : PosixPath)
    (reference : Reference) (label : String) :
    ((resolver.content (resolver.fileOf base reference) label reference).run world).2.Changes change
        resolver.store
        ((resolver.content (resolver.fileOf base reference) label reference).run world').2 ∧
      Matches Eq (change.Reads (resolver.target world base reference))
        ((resolver.content (resolver.fileOf base reference) label reference).run world).1
        ((resolver.content (resolver.fileOf base reference) label reference).run world').1 := by
  cases reference with
  | github document => exact h.fetch document
  | onDisk path =>
    rw [run_content_onDisk, run_content_onDisk]
    refine ⟨h, ?_⟩
    have hread := h.readBytes (resolver.fileOf base (.onDisk path))
    rw [target]
    generalize world.readBytes (resolver.fileOf base (.onDisk path)) = result at hread ⊢
    generalize world'.readBytes (resolver.fileOf base (.onDisk path)) = result' at hread ⊢
    cases hread with
    | ok hcontent => exact .ok hcontent
    | @error failure _ hsame =>
      subst hsame
      cases failure <;> exact .error rfl

/-- A document is loaded alike from both worlds, up to the relation. -/
theorem load_changes (h : world.Changes change resolver.store world') (base : PosixPath)
    (reference : Reference) (label : String) :
    ((resolver.load (resolver.fileOf base reference) label reference).run world).2.Changes change
        resolver.store
        ((resolver.load (resolver.fileOf base reference) label reference).run world').2 ∧
      Matches Eq (fun value value' ↦
          change.relates (resolver.target world base reference) (.object value) (.object value'))
        ((resolver.load (resolver.fileOf base reference) label reference).run world).1
        ((resolver.load (resolver.fileOf base reference) label reference).run world').1 := by
  obtain ⟨hworld, hcontent⟩ := content_changes h base reference label
  rw [load]
  rcases hrun : (resolver.content (resolver.fileOf base reference) label reference).run world with
    ⟨result, after⟩
  rcases hrun' : (resolver.content (resolver.fileOf base reference) label reference).run world' with
    ⟨result', after'⟩
  rw [hrun, hrun'] at hworld hcontent
  cases hcontent with
  | error hsame =>
    rw [run_bind_of_error hrun, run_bind_of_error hrun']
    exact ⟨hworld, .error hsame⟩
  | ok hreads =>
    rename_i content content'
    rw [run_bind_of_ok hrun, run_bind_of_ok hrun']
    have hvalue := hreads label
    have hread := Run.run_reading (fun _ ↦ Yaml.readBytes label content) after
    have hread' := Run.run_reading (fun _ ↦ Yaml.readBytes label content') after'
    generalize Yaml.readBytes label content = read at hvalue hread ⊢
    generalize Yaml.readBytes label content' = read' at hvalue hread' ⊢
    cases hvalue with
    | error hsame =>
      rw [run_bind_of_error hread, run_bind_of_error hread']
      exact ⟨hworld, .error hsame⟩
    | ok hrelates =>
      rw [run_bind_of_ok hread, run_bind_of_ok hread']
      rcases change.object_or_eq hrelates with ⟨entries, entries', rfl, rfl⟩ | rfl
      · exact ⟨hworld, .ok hrelates⟩
      · split
        · exact ⟨hworld, .ok hrelates⟩
        · exact ⟨hworld, .error rfl⟩

/-- A reference is resolved in the same way, to the document as it is written in its world. -/
theorem resolve_changes (h : world.Changes change resolver.store world')
    (hcache : cache.Changes change cache') (reference : Reference) (visited : List String)
    (base : PosixPath) :
    (((resolver.resolve reference visited base).run cache).run world).2.Changes change resolver.store
        (((resolver.resolve reference visited base).run cache').run world').2 ∧
      Matches Eq (fun found found' ↦ found.1.Changes change found'.1 ∧
          Cache.Changes change found.2 found'.2)
        (((resolver.resolve reference visited base).run cache).run world).1
        (((resolver.resolve reference visited base).run cache').run world').1 := by
  have hlocate : resolver.locate base reference world' = resolver.locate base reference world := by
    rw [locate, locate, h.shorten_eq]
  have htarget : resolver.target world' base reference = resolver.target world base reference := by
    rw [target, target, h.resolve_eq]
  rw [run_resolve, run_resolve, hlocate, htarget]
  cases resolver.locate base reference world with
  | error failure => exact ⟨h, .error rfl⟩
  | ok located =>
    obtain ⟨file, label⟩ := located
    have hdocument : ∀ {value value' : List (String × Value)},
        change.relates (resolver.target world base reference) (.object value) (.object value') →
          (resolver.documentOf world base reference label value).Changes change
            (resolver.documentOf world' base reference label value') :=
      fun hrelates ↦ ⟨rfl, htarget, rfl, hrelates⟩
    simp only
    split
    · exact ⟨h, .error rfl⟩
    · have hknown := hcache.get? (resolver.target world base reference)
      generalize Entries.get? cache (resolver.target world base reference) = known at hknown ⊢
      generalize Entries.get? cache' (resolver.target world base reference) = known' at hknown ⊢
      cases hknown with
      | some hrelates => exact ⟨h, .ok ⟨hdocument hrelates, hcache⟩⟩
      | none =>
        obtain ⟨hworld, hload⟩ := load_changes h base reference label
        simp only
        generalize (resolver.load (resolver.fileOf base reference) label reference).run world = first
          at hworld hload ⊢
        generalize (resolver.load (resolver.fileOf base reference) label reference).run world' =
          first' at hworld hload ⊢
        obtain ⟨result, after⟩ := first
        obtain ⟨result', after'⟩ := first'
        cases hload with
        | error hsame => exact ⟨hworld, .error hsame⟩
        | ok hrelates => exact ⟨hworld, .ok ⟨hdocument hrelates, hcache.insert hrelates⟩⟩

end Resolver

/-! ### Services -/

/-- Whether the states of the services of a package are the same but for documents. -/
structure Change.Ties (change : Change) (store : PosixPath) (s t : Cache × World) : Prop where
  cache : s.1.Changes change t.1
  world : s.2.Changes change store t.2

namespace Services

variable {change : Change} {store directory : PosixPath} {resolver? : Option Resolver}

/-- The same files are found. -/
theorem glob_changes {s t : Cache × World} (h : change.Ties store s t) (pattern : String) :
    (Services.ofPackage directory resolver?).glob pattern t =
      (Services.ofPackage directory resolver?).glob pattern s :=
  h.world.glob_eq directory pattern

/-- The same document is resolved, as it is written. -/
theorem resolve_changes {resolver : Resolver}
    {resolve : Reference → List String → PosixPath → Cache × World →
      Except Failure Document × (Cache × World)}
    (hresolve : resolve ∈ (Services.ofPackage directory (some resolver)).resolve?)
    {s t : Cache × World} (h : change.Ties resolver.store s t) (reference : Reference)
    (visited : List String) (base : PosixPath) :
    change.Ties resolver.store (resolve reference visited base s).2
        (resolve reference visited base t).2 ∧
      Matches Eq (Document.Changes change) (resolve reference visited base s).1
        (resolve reference visited base t).1 := by
  obtain ⟨hworld, hfound⟩ := Resolver.resolve_changes h.world h.cache reference visited base
  rcases hrun : ((resolver.resolve reference visited base).run s.1).run s.2 with ⟨result, after⟩
  rcases hrun' : ((resolver.resolve reference visited base).run t.1).run t.2 with ⟨result', after'⟩
  rw [hrun, hrun'] at hworld hfound
  rw [eq_settle hresolve reference visited base _ _ hrun,
    eq_settle hresolve reference visited base _ _ hrun']
  cases hfound with
  | error hsame => exact ⟨⟨h.cache, hworld⟩, .error hsame⟩
  | ok hfound => exact ⟨⟨hfound.2, hworld⟩, .ok hfound.1⟩

end Services

end CabalManifest
