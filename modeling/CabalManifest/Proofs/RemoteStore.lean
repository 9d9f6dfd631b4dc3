import CabalManifest.Proofs.FetchedDocuments

/-!
# The store over whole runs

Fetching documents in turn from an empty store gives for each what its address answers, whatever was
fetched before (`Store.fetchAll_gives`). What carries this is that the store holds exactly the copies
of the documents that were answered (`Store.IsStocked`). The documents are plain, so that their places
tell their addresses, and none has its place inside of that of another one.
-/

namespace CabalManifest

/-! ### Copies below a directory -/

/-- Whether a file tree differs from another one by some copies below a directory, each given by its
names from there, and by the directories that lead to them. -/
structure FileTree.IsStocked (base : FileTree) (root : Location)
    (copies : List (List String × ByteArray)) (tree : FileTree) : Prop where
  file : ∀ copy ∈ copies, tree.get? (root ++ copy.1) = some (.file copy.2)
  directory : ∀ copy ∈ copies, ∀ first, first <+: copy.1 → first ≠ copy.1 →
    tree.get? (root ++ first) = some .directory
  rest : ∀ location, (∀ copy ∈ copies, ¬(root <+: location ∧ location <+: root ++ copy.1)) →
    tree.get? location = base.get? location

/-- Whether a file tree is another one with the directories that lead to a place below a directory,
and there is nothing at this place. -/
structure FileTree.IsPrepared (tree : FileTree) (root : Location) (names : List String)
    (after : FileTree) : Prop where
  grows : tree.Grows after
  free : after.get? (root ++ names) = none
  get?_eq : ∀ location, after.get? location =
    if root <+: location ∧ location <+: root ++ names.dropLast then some .directory
    else tree.get? location

namespace FileTree.IsStocked

variable {base tree after : FileTree} {root : Location} {copies : List (List String × ByteArray)}
  {names first : List String}

/-- A store with nothing put into it is stocked with nothing. -/
theorem nil (base : FileTree) (root : Location) : base.IsStocked root [] base :=
  ⟨List.forall_mem_nil _, List.forall_mem_nil _, fun _ _ ↦ rfl⟩

/-- Below the directory there is nothing but the copies and the directories that lead to them. -/
theorem get?_below (h : base.IsStocked root copies tree)
    (hempty : ∀ below, below ≠ [] → base.get? (root ++ below) = none) (hfirst : first ≠ []) :
    (∃ content, (first, content) ∈ copies) ∨
      (∃ copy ∈ copies, first <+: copy.1 ∧ tree.get? (root ++ first) = some .directory) ∨
        (∀ copy ∈ copies, ¬first <+: copy.1) ∧ tree.get? (root ++ first) = none := by
  by_cases hpath : ∃ copy ∈ copies, first <+: copy.1
  · obtain ⟨copy, hcopy, hinitial⟩ := hpath
    by_cases hsame : first = copy.1
    · exact .inl ⟨copy.2, hsame ▸ hcopy⟩
    · exact .inr (.inl ⟨copy, hcopy, hinitial, h.directory copy hcopy first hinitial hsame⟩)
  · refine .inr (.inr ⟨fun copy hcopy hinitial ↦ hpath ⟨copy, hcopy, hinitial⟩, ?_⟩)
    rw [h.rest, hempty _ hfirst]
    exact fun copy hcopy hbetween ↦ hpath ⟨copy, hcopy, (List.prefix_append_right_inj root).1 hbetween.2⟩

/-- A copy that is put next to the others, with the directories that lead to it. -/
theorem concat (h : base.IsStocked root copies tree)
    (hprepared : tree.IsPrepared root names after) (hnames : names ≠ [])
    (hapart : ∀ copy ∈ copies, ¬names <+: copy.1 ∧ ¬copy.1 <+: names) (content : ByteArray) :
    base.IsStocked root (copies ++ [(names, content)])
      (after.insert (root ++ names) (.file content)) := by
  have hget : ∀ location, (after.insert (root ++ names) (.file content)).get? location =
      if location = root ++ names then some (.file content)
      else if root <+: location ∧ location <+: root ++ names.dropLast then some .directory
      else tree.get? location := fun location ↦ by
    rw [get?_insert _ _ _ (List.append_ne_nil_of_right_ne_nil _ hnames), hprepared.get?_eq]
  have hbefore : ∀ first, first <+: names → first ≠ names → first <+: names.dropLast := by
    intro first hfirst hne
    rw [← List.dropLast_append_getLast hnames, List.prefix_concat_iff,
      List.dropLast_append_getLast hnames] at hfirst
    exact hfirst.resolve_left hne
  refine ⟨?_, ?_, ?_⟩
  · refine List.forall_mem_append.2 ⟨fun copy hcopy ↦ ?_, List.forall_mem_singleton.2 ?_⟩
    · rw [hget, if_neg, if_neg]
      · exact h.file copy hcopy
      · rintro ⟨-, hinitial⟩
        exact (hapart copy hcopy).2 (((List.prefix_append_right_inj root).1 hinitial).trans
          (List.dropLast_prefix names))
      · intro hsame
        exact (hapart copy hcopy).2 (List.append_cancel_left hsame ▸ List.prefix_refl _)
    · rw [hget, if_pos rfl]
  · refine List.forall_mem_append.2 ⟨fun copy hcopy first hfirst hne ↦ ?_,
      List.forall_mem_singleton.2 fun first hfirst hne ↦ ?_⟩
    · rw [hget, if_neg]
      · split
        · rfl
        · exact h.directory copy hcopy first hfirst hne
      · intro hsame
        exact (hapart copy hcopy).1 (List.append_cancel_left hsame ▸ hfirst)
    · rw [hget, if_neg fun hsame ↦ hne (List.append_cancel_left hsame), if_pos]
      exact ⟨List.prefix_append _ _, (List.prefix_append_right_inj root).2 (hbefore first hfirst hne)⟩
  · intro location hlocation
    rw [List.forall_mem_append, List.forall_mem_singleton] at hlocation
    rw [hget, if_neg, if_neg, h.rest location hlocation.1]
    · rintro ⟨hroot, hinitial⟩
      exact hlocation.2 ⟨hroot, hinitial.trans
        ((List.prefix_append_right_inj root).2 (List.dropLast_prefix names))⟩
    · rintro rfl
      exact hlocation.2 ⟨List.prefix_append _ _, List.prefix_refl _⟩

/-- Only the members of the list of copies count. -/
theorem congr (h : base.IsStocked root copies tree) {copies' : List (List String × ByteArray)}
    (hmem : ∀ copy, copy ∈ copies' ↔ copy ∈ copies) : base.IsStocked root copies' tree :=
  ⟨fun copy hcopy ↦ h.file copy ((hmem copy).1 hcopy),
    fun copy hcopy ↦ h.directory copy ((hmem copy).1 hcopy),
    fun location hlocation ↦ h.rest location fun copy hcopy ↦ hlocation copy ((hmem copy).2 hcopy)⟩

/-- Where there is no copy yet, there is nothing, if no copy is inside of another one. -/
theorem get?_eq_none (h : base.IsStocked root copies tree)
    (hempty : ∀ below, below ≠ [] → base.get? (root ++ below) = none) (hnames : names ≠ [])
    (hapart : ∀ copy ∈ copies, names <+: copy.1 → names = copy.1)
    (hnew : ∀ content, (names, content) ∉ copies) : tree.get? (root ++ names) = none := by
  rcases h.get?_below hempty hnames with ⟨content, hcopy⟩ | ⟨copy, hcopy, hinitial, -⟩ | ⟨-, hnone⟩
  · exact absurd hcopy (hnew content)
  · have hsame := hapart copy hcopy hinitial
    exact absurd (hsame ▸ hcopy) (hnew copy.2)
  · exact hnone

/-- The directories that lead to a new copy can be made. -/
theorem exists_makeDirectories (h : base.IsStocked root copies tree)
    (hempty : ∀ below, below ≠ [] → base.get? (root ++ below) = none) (hnames : names ≠ [])
    (hproper : ∀ name ∈ names, IsProperName name)
    (hapart : ∀ copy ∈ copies, (names <+: copy.1 → names = copy.1) ∧
      (copy.1 <+: names → copy.1 = names)) (hnew : ∀ content, (names, content) ∉ copies)
    (hroot : tree.get? root = some .directory) {before : FileTree} {location : Location}
    {around : List String} (hmade : before.makeDirectories location around.reverse = (tree, .ok ()))
    (hlead : tree.follow location around = .ok root) :
    ∃ after, before.makeDirectories location (around ++ names.dropLast).reverse = (after, .ok ()) ∧
      after.follow location (around ++ names) = .ok (root ++ names) ∧
      tree.IsPrepared root names after := by
  have hlength : ¬names <+: names.dropLast := by
    intro hinitial
    have hle := hinitial.length_le
    have hpositive := List.length_pos_iff.2 hnames
    rw [List.length_dropLast] at hle
    omega
  have hfree : ∀ first, first <+: names.dropLast →
      tree.get? (root ++ first) = none ∨ tree.get? (root ++ first) = some .directory := by
    intro first hfirst
    by_cases hne : first = []
    · rw [hne, List.append_nil]
      exact .inr hroot
    · rcases h.get?_below hempty hne with ⟨content, hcopy⟩ | ⟨_, _, -, hdirectory⟩ | ⟨-, hnone⟩
      · have hsame : first = names :=
          (hapart _ hcopy).2 (hfirst.trans (List.dropLast_prefix names))
        exact absurd (hsame ▸ hfirst) hlength
      · exact .inr hdirectory
      · exact .inl hnone
  obtain ⟨after, hafter, hfollow, hget⟩ := exists_makeDirectories_append hmade hlead hroot
    (fun name hname ↦ hproper name (List.dropLast_subset _ hname)) hfree
  refine ⟨after, hafter, ?_, ?_, ?_, hget⟩
  · have hlast := hproper _ (List.getLast_mem hnames)
    have hdirectory : after.get? (root ++ names.dropLast) = some .directory := by
      rw [hget, if_pos ⟨List.prefix_append _ _, List.prefix_refl _⟩]
    rw [← List.dropLast_append_getLast hnames, ← List.append_assoc, follow_append_of_ok hfollow,
      follow_cons hdirectory, step_of_isProperName hlast, List.append_assoc]
    exact follow_nil after _
  · intro other entry hentry
    rw [hget]
    split
    · next hbetween =>
      obtain ⟨⟨first, rfl⟩, hinitial⟩ := hbetween
      rcases hfree first ((List.prefix_append_right_inj root).1 hinitial) with hnone | hdirectory
      · cases hnone.symm.trans hentry
      · exact hdirectory.symm.trans hentry
    · exact hentry
  · rw [hget, if_neg fun hbetween ↦ hlength ((List.prefix_append_right_inj root).1 hbetween.2)]
    exact h.get?_eq_none hempty hnames (fun copy hcopy ↦ (hapart copy hcopy).1) hnew

end FileTree.IsStocked

/-! ### Empty stores -/

/-- Whether the directory of a store can be made, and nothing is in it then. -/
structure World.IsEmptyStore (world : World) (store : PosixPath) : Prop where
  made : (world.makeDirectories store).2 = .ok ()
  empty : ∀ below, below ≠ [] →
    (world.makeDirectories store).1.tree.get? ((world.resolve store).names ++ below) = none

/-- Whether a file can have the place of a document in a store. -/
structure Repository.IsStorable (store : PosixPath) (document : Repository) : Prop where
  check : World.checkPath (document.location store) = .ok ()
  check_parent : World.checkPath (document.location store).parent = .ok ()
  text_size_le : (document.location store).text.utf8ByteSize ≤ World.pathLimit
  name_size_le : ∀ name ∈ document.segments, name.utf8ByteSize ≤ FileTree.nameLimit

namespace Store

/-- The copies of those among some documents that were answered. -/
def copies (network : List (String × Answer)) (documents : List Repository) :
    List (List String × ByteArray) :=
  documents.filterMap fun document ↦
    (outcome network document.url).toOption.map fun content ↦ (document.segments, content)

/-- The copies are those of the documents that the network answers. -/
theorem mem_copies {network : List (String × Answer)} {documents : List Repository}
    {copy : List String × ByteArray} : copy ∈ copies network documents ↔
      ∃ document ∈ documents, document.segments = copy.1 ∧
        outcome network document.url = .ok copy.2 := by
  obtain ⟨names, content⟩ := copy
  simp only [copies, List.mem_filterMap, Option.map_eq_some_iff, Prod.mk.injEq]
  constructor
  · rintro ⟨document, hdocument, found, hfound, hnames, rfl⟩
    refine ⟨document, hdocument, hnames, ?_⟩
    cases houtcome : outcome network document.url with
    | error failure =>
      rw [houtcome] at hfound
      cases hfound
    | ok content =>
      rw [houtcome] at hfound
      exact congrArg Except.ok (Option.some.inj hfound)
  · rintro ⟨document, hdocument, hnames, hok⟩
    exact ⟨document, hdocument, content, by rw [hok]; rfl, hnames, rfl⟩

/-- A document that is answered is one more copy. -/
theorem copies_concat_of_ok {network : List (String × Answer)} (documents : List Repository)
    {document : Repository} {content : ByteArray}
    (h : outcome network document.url = .ok content) :
    copies network (documents ++ [document]) =
      copies network documents ++ [(document.segments, content)] := by
  simp [copies, h, Except.toOption]

/-- A document that is not answered is none. -/
theorem copies_concat_of_error {network : List (String × Answer)} (documents : List Repository)
    {document : Repository} {failure : Failure}
    (h : outcome network document.url = .error failure) :
    copies network (documents ++ [document]) = copies network documents := by
  simp [copies, h, Except.toOption]

/-- Whether some addresses are those that are asked for documents: one that answers is asked once,
and one that fails is asked each time. -/
def AreAsked (network : List (String × Answer)) (documents : List Repository)
    (asked : List String) : Prop :=
  ∀ url, asked.count url =
    if (outcome network url).isOk then min 1 ((documents.map Repository.url).count url)
    else (documents.map Repository.url).count url

namespace AreAsked

variable {network : List (String × Answer)} {documents : List Repository} {asked : List String}
  {document : Repository}

theorem nil (network : List (String × Answer)) : AreAsked network [] [] := fun url ↦ by
  simp

/-- A document that has answered before is not asked for again. -/
theorem again (h : AreAsked network documents asked) (hok : (outcome network document.url).isOk)
    (hmem : document.url ∈ documents.map Repository.url) :
    AreAsked network (documents ++ [document]) asked := by
  intro url
  rw [h url, List.map_append, List.count_append, List.map_singleton, List.count_singleton]
  by_cases hsame : document.url = url
  · subst hsame
    have hpositive := List.count_pos_iff.2 hmem
    simp only [hok, if_true, beq_self_eq_true]
    omega
  · simp [hsame]

/-- A document that was not answered before is asked for once more. -/
theorem ask (h : AreAsked network documents asked)
    (hnew : (outcome network document.url).isOk → document.url ∉ documents.map Repository.url) :
    AreAsked network (documents ++ [document]) (asked ++ [document.url]) := by
  intro url
  rw [List.count_append, h url, List.map_append, List.count_append, List.map_singleton,
    List.count_singleton]
  by_cases hsame : document.url = url
  · subst hsame
    by_cases hok : (outcome network document.url).isOk
    · simp [hok, List.count_eq_zero.2 (hnew hok)]
    · simp [hok]
  · simp [hsame]

end AreAsked

/-- Whether documents can be kept in a store side by side: they are plain, files can have their
places, and none has its place inside of that of another one. -/
structure AreApart (store : PosixPath) (documents : List Repository) : Prop where
  isPlain : ∀ document ∈ documents, document.IsPlain
  isStorable : ∀ document ∈ documents, document.IsStorable store
  location_eq : ∀ document ∈ documents, ∀ document' ∈ documents,
    (document.location store).names <+: (document'.location store).names →
      document.location store = document'.location store

/-- What is in a store after some documents were fetched, and which addresses were asked for it. -/
structure Holds (start : World) (store : PosixPath) (documents : List Repository) (world : World) :
    Prop where
  place_eq : world.place = start.place
  network_eq : world.network = start.network
  isSound : world.IsSound
  tree : ∃ tree,
    world.tree.makeDirectories (start.startOf store) store.names.reverse = (tree, .ok ()) ∧
    (start.makeDirectories store).1.tree.IsStocked (start.resolve store).names
      (copies start.network documents) tree ∧
    (copies start.network documents ≠ [] → world.tree = tree)
  requests : ∃ asked, world.requests = start.requests ++ asked ∧
    AreAsked start.network documents asked

variable {start world : World} {store : PosixPath} {documents done : List Repository}
  {document : Repository}

/-- The directory of the store can be made, and then it is there with the copies. -/
theorem Holds.exists_tree (h : Holds start store done world) : ∃ tree,
    world.tree.makeDirectories (start.startOf store) store.names.reverse = (tree, .ok ()) ∧
    (start.makeDirectories store).1.tree.IsStocked (start.resolve store).names
      (copies start.network done) tree ∧
    (copies start.network done ≠ [] → world.tree = tree) ∧
    tree.IsSound ∧ tree.follow (start.startOf store) store.names = .ok (start.resolve store).names ∧
    tree.get? (start.resolve store).names = some .directory := by
  obtain ⟨tree, hmade, hstocked, hcopies⟩ := h.tree
  have hplaced : start.IsPlaced := by
    rw [World.IsPlaced, ← h.place_eq]
    exact h.isSound.isPlaced
  have hstart : start.startOf store = world.startOf store := by
    rw [World.startOf, World.startOf, h.place_eq]
  have hadmits := h.isSound.admits_startOf store
  rw [← hstart] at hadmits
  have hdirectory : world.tree.get? (start.startOf store) = some .directory := by
    rw [hstart, World.startOf]
    split
    · rfl
    · exact h.isSound.place
  have hsound := h.isSound.tree.makeDirectories hadmits store.names.reverse
  rw [hmade] at hsound
  obtain ⟨target, hfollow, htarget⟩ := FileTree.exists_of_makeDirectories hdirectory hmade
  obtain rfl : target = (start.resolve store).names :=
    (FileTree.eq_foldl_of_follow hfollow).trans (hplaced.names_resolve store).symm
  exact ⟨tree, hmade, hstocked, hcopies, hsound, hfollow, htarget⟩

namespace AreApart

/-- The names of documents that are apart are proper. -/
theorem isProperName (h : AreApart store documents) (hdocument : document ∈ documents) :
    ∀ name ∈ document.segments, FileTree.IsProperName name := fun name hname ↦
  have hplain := h.isPlain document hdocument name hname
  ⟨hplain.2.1, hplain.2.2, (h.isStorable document hdocument).name_size_le name hname⟩

/-- Of documents that are apart, none lies under another one. -/
theorem segments_eq (h : AreApart store documents) {document' : Repository}
    (hdocument : document ∈ documents) (hdocument' : document' ∈ documents)
    (hinitial : document.segments <+: document'.segments) :
    document.segments = document'.segments := by
  have hlocation := h.location_eq document hdocument document' hdocument'
  rw [Repository.location_eq (h.isPlain _ hdocument), Repository.location_eq (h.isPlain _ hdocument'),
    List.prefix_append_right_inj] at hlocation
  exact List.append_cancel_left (congrArg PosixPath.names (hlocation hinitial))

/-- The copies of some documents are apart from another one of them. -/
theorem copies (h : AreApart store documents) (hdone : done ⊆ documents)
    (hdocument : document ∈ documents) (network : List (String × Answer)) :
    ∀ copy ∈ copies network done,
      (document.segments <+: copy.1 → document.segments = copy.1) ∧
        (copy.1 <+: document.segments → copy.1 = document.segments) := by
  intro copy hcopy
  obtain ⟨document', hdocument', hsegments, -⟩ := mem_copies.1 hcopy
  rw [← hsegments]
  exact ⟨h.segments_eq hdocument (hdone hdocument'), h.segments_eq (hdone hdocument') hdocument⟩

end AreApart

/-! ### Fetching from the store -/

/-- Stored copies do not change where a path of the store starts. -/
theorem Holds.startOf_location (h : Holds start store done world) (hplain : document.IsPlain) :
    world.startOf (document.location store) = start.startOf store := by
  rw [Repository.location_eq hplain, World.startOf, World.startOf, h.place_eq]
  rfl

section

variable (hempty : start.IsEmptyStore store) (hapart : AreApart store documents)
  (hdone : done ⊆ documents) (hdocument : document ∈ documents)
include hapart hdocument

/-- A document is in the store if its copy is. -/
theorem Holds.find_of_mem (h : Holds start store done world) {content : ByteArray}
    (hcopy : (document.segments, content) ∈ Store.copies start.network done) :
    world.find (document.location store) = .ok (.file content) := by
  obtain ⟨tree, -, hstocked, hcopies, hsound, hlead, -⟩ := h.exists_tree
  obtain rfl := hcopies (List.ne_nil_of_mem hcopy)
  have hplain := hapart.isPlain document hdocument
  have hfile := hstocked.file _ hcopy
  refine World.find_of_follow ?_ hfile
  rw [World.follow, if_neg (Nat.not_lt.2 (hapart.isStorable document hdocument).text_size_le),
    h.startOf_location hplain, Repository.location_eq hplain, FileTree.follow_append_of_ok hlead]
  exact hsound.follow_of_proper (hapart.isProperName hdocument) hfile

include hempty hdone

/-- A document whose copy is not in the store is not there, and the directories around its place can
be made. -/
theorem Holds.exists_made (h : Holds start store done world)
    (hnew : ∀ content, (document.segments, content) ∉ Store.copies start.network done) :
    world.isFile (document.location store) = .ok false ∧ ∃ tree after,
      world.tree.makeDirectories (start.startOf store)
        (document.location store).parent.names.reverse = (after, .ok ()) ∧
      after.follow (start.startOf store) (document.location store).names =
        .ok ((start.resolve store).names ++ document.segments) ∧
      (start.makeDirectories store).1.tree.IsStocked (start.resolve store).names
        (Store.copies start.network done) tree ∧
      tree.follow (start.startOf store) store.names = .ok (start.resolve store).names ∧
      tree.get? (start.resolve store).names = some .directory ∧
      tree.IsPrepared (start.resolve store).names document.segments after := by
  obtain ⟨tree, hmade, hstocked, -, -, hlead, hroot⟩ := h.exists_tree
  have hplain := hapart.isPlain document hdocument
  have hnames := document.segments_ne_nil
  obtain ⟨after, hafter, hfollow, hprepared⟩ := hstocked.exists_makeDirectories hempty.empty hnames
    (hapart.isProperName hdocument) (hapart.copies hdone hdocument start.network) hnew hroot hmade
    hlead
  have hparent : (document.location store).parent.names =
      store.names ++ document.segments.dropLast := by
    rw [Repository.location_eq hplain]
    exact List.dropLast_append_of_ne_nil hnames
  have hlocation : (document.location store).names = store.names ++ document.segments := by
    rw [Repository.location_eq hplain]
  refine ⟨?_, tree, after, by rwa [hparent], by rwa [hlocation], hstocked, hlead, hroot,
    hprepared⟩
  -- In the tree as it is, the path leads to the same place, or something on it is missing.
  have hadds := world.tree.addsDirectories_makeDirectories (start.startOf store)
    (store.names ++ document.segments.dropLast).reverse
  rw [hafter] at hadds
  have hbefore : world.tree.get? ((start.resolve store).names ++ document.segments) = none := by
    rcases hadds ((start.resolve store).names ++ document.segments) with hsame | ⟨hmissing, -⟩
    · exact hsame.symm.trans hprepared.free
    · exact hmissing
  have hfind : world.find (document.location store) = .error .missing := by
    rw [World.find, World.follow, h.startOf_location hplain, hlocation,
      if_neg (Nat.not_lt.2 (hapart.isStorable document hdocument).text_size_le)]
    rcases hadds.grows.follow_or_missing hfollow with hsame | hmissing
    · rw [bind_of_eq_ok hsame, hbefore]
      rfl
    · rw [hmissing]
      rfl
  exact World.isFile_of_missing (hapart.isStorable document hdocument).check hfind

omit hempty hapart hdone hdocument in
/-- Nothing changes where a document is in the store. -/
theorem Holds.again (h : Holds start store done world) {content : ByteArray}
    (hanswer : outcome start.network document.url = .ok content)
    (hcopy : (document.segments, content) ∈ Store.copies start.network done) :
    Holds start store (done ++ [document]) world := by
  obtain ⟨tree, hmade, hstocked, hcopies⟩ := h.tree
  obtain ⟨asked, hrequests, hasked⟩ := h.requests
  obtain ⟨document', hdocument', hsegments, -⟩ := mem_copies.1 hcopy
  refine ⟨h.place_eq, h.network_eq, h.isSound, ⟨tree, hmade, hstocked.congr fun copy ↦ ?_,
    fun _ ↦ hcopies (List.ne_nil_of_mem hcopy)⟩, asked, hrequests, ?_⟩
  · rw [copies_concat_of_ok done hanswer, List.mem_append, List.mem_singleton]
    exact or_iff_left_of_imp (by rintro rfl; exact hcopy)
  · refine hasked.again (by rw [hanswer]; rfl) (List.mem_map.2 ⟨document', hdocument', ?_⟩)
    exact Repository.segments_eq_iff.1 hsegments

omit hempty hapart hdone hdocument in
/-- Only the address is asked where a document cannot be downloaded. -/
theorem Holds.fail (h : Holds start store done world) {failure : Failure}
    (hanswer : outcome start.network document.url = .error failure) :
    Holds start store (done ++ [document]) (world.asked document.url) := by
  obtain ⟨log, hworld⟩ := world.asked_eq document.url
  obtain ⟨tree, hmade, hstocked, hcopies⟩ := h.tree
  obtain ⟨asked, hrequests, hasked⟩ := h.requests
  have hsound := h.isSound.asked document.url
  rw [hworld] at hsound ⊢
  refine ⟨h.place_eq, h.network_eq, hsound, ⟨tree, hmade, ?_⟩, asked ++ [document.url], ?_,
    hasked.ask ?_⟩
  · rw [copies_concat_of_error done hanswer]
    exact ⟨hstocked, hcopies⟩
  · rw [← List.append_assoc, ← hrequests]
  · rw [hanswer]
    exact nofun

omit hempty in
/-- A new copy is put next to the others where a document is downloaded. -/
theorem Holds.write (h : Holds start store done world) {tree after : FileTree} {content : ByteArray}
    (hnew : ∀ content, (document.segments, content) ∉ Store.copies start.network done)
    (hanswer : outcome start.network document.url = .ok content)
    (hstocked : (start.makeDirectories store).1.tree.IsStocked (start.resolve store).names
      (Store.copies start.network done) tree)
    (hlead : tree.follow (start.startOf store) store.names = .ok (start.resolve store).names)
    (hroot : tree.get? (start.resolve store).names = some .directory)
    (hprepared : tree.IsPrepared (start.resolve store).names document.segments after)
    (hsound : World.IsSound { world.asked document.url with
      tree := after.insert ((start.resolve store).names ++ document.segments) (.file content) }) :
    Holds start store (done ++ [document]) { world.asked document.url with
      tree := after.insert ((start.resolve store).names ++ document.segments) (.file content) } := by
  obtain ⟨log, hworld⟩ := world.asked_eq document.url
  obtain ⟨asked, hrequests, hasked⟩ := h.requests
  have hcopies := hapart.copies hdone hdocument start.network
  have hnotMem : ∀ copy ∈ Store.copies start.network done, document.segments ≠ copy.1 :=
    fun copy hcopy hsame ↦ hnew copy.2 (hsame ▸ hcopy)
  have hgrows := hprepared.grows.trans (FileTree.grows_insert hprepared.free (.file content))
  rw [hworld] at hsound ⊢
  refine ⟨h.place_eq, h.network_eq, hsound, ⟨_, ?_, ?_, fun _ ↦ rfl⟩, asked ++ [document.url], ?_,
    hasked.ask fun _ hmem ↦ ?_⟩
  · exact FileTree.makeDirectories_of_follow (hgrows.follow hlead) (hgrows _ _ hroot)
  · rw [copies_concat_of_ok done hanswer]
    refine hstocked.concat hprepared document.segments_ne_nil
      (fun copy hcopy ↦ ⟨fun hinitial ↦ ?_, fun hinitial ↦ ?_⟩) content
    · exact hnotMem copy hcopy ((hcopies copy hcopy).1 hinitial)
    · exact hnotMem copy hcopy ((hcopies copy hcopy).2 hinitial).symm
  · rw [← List.append_assoc, ← hrequests]
  · obtain ⟨document', hdocument', hurl⟩ := List.mem_map.1 hmem
    refine hnew content (mem_copies.2 ⟨document', hdocument', Repository.segments_eq_iff.2 hurl, ?_⟩)
    rw [hurl]
    exact hanswer

omit hempty hdone in
/-- A document whose copy is in the store is read from there. -/
theorem Holds.fetch_stored (h : Holds start store done world) {content : ByteArray}
    (hcopy : (document.segments, content) ∈ Store.copies start.network done)
    {result : Except Failure ByteArray} {world' : World}
    (hfetches : Fetches store document world result world') :
    outcome start.network document.url = .ok content ∧ result = .ok content ∧ world' = world := by
  have hstorable := hapart.isStorable document hdocument
  have hfind := h.find_of_mem hapart hdocument hcopy
  have hfile := World.isFile_of_find hstorable.check hfind
  have hanswer : outcome start.network document.url = .ok content := by
    obtain ⟨document', -, hsegments, hok⟩ := mem_copies.1 hcopy
    rwa [← Repository.segments_eq_iff.1 hsegments]
  cases hfetches with
  | stored => exact ⟨hanswer, World.readBytes_of_find hstorable.check hfind, rfl⟩
  | unknown hunknown => cases hfile.symm.trans hunknown
  | unanswered hnone => cases hfile.symm.trans hnone
  | unmade hnone => cases hfile.symm.trans hnone
  | unwritten hnone => cases hfile.symm.trans hnone
  | written hnone => cases hfile.symm.trans hnone

/-- A document whose copy is not in the store is asked for, and put there if it is answered. Neither
making directories nor writing can fail. -/
theorem Holds.fetch_new (h : Holds start store done world)
    (hnew : ∀ content, (document.segments, content) ∉ Store.copies start.network done)
    {result : Except Failure ByteArray} {world' : World}
    (hfetches : Fetches store document world result world') :
    result = outcome start.network document.url ∧ Holds start store (done ++ [document]) world' ∧
      ∀ failure, outcome start.network document.url = .error failure →
        world'.tree = world.tree := by
  have hstorable := hapart.isStorable document hdocument
  obtain ⟨log, hasked⟩ := world.asked_eq document.url
  obtain ⟨hfile, tree, after, hmade, hfollow, hstocked, hlead, hroot, hprepared⟩ :=
    h.exists_made hempty hapart hdone hdocument hnew
  have hstart := h.startOf_location (hapart.isPlain document hdocument)
  have hmake : (world.asked document.url).makeDirectories (document.location store).parent =
      ({ world.asked document.url with tree := after }, .ok ()) := by
    rw [hasked]
    exact World.makeDirectories_of_made hstorable.check_parent (hstart ▸ hmade)
  have hlead' : World.follow { world.asked document.url with tree := after }
      (document.location store) = .ok ((start.resolve store).names ++ document.segments) := by
    rw [hasked, World.follow, if_neg (Nat.not_lt.2 hstorable.text_size_le)]
    exact hstart ▸ hfollow
  have hfree : after.get? ((start.resolve store).names ++ document.segments) ≠
      some .directory := fun hdirectory ↦ by cases hprepared.free.symm.trans hdirectory
  have hwrite := World.writeBytes_of_follow hstorable.check hlead' hfree
  cases hfetches with
  | unknown hunknown => cases hfile.symm.trans hunknown
  | stored hstored => cases hfile.symm.trans hstored
  | unanswered _ hanswer =>
    rw [h.network_eq] at hanswer
    refine ⟨hanswer.symm, h.fail hanswer, fun _ _ ↦ ?_⟩
    rw [hasked]
  | unmade _ _ hunmade => cases hmake.symm.trans hunmade
  | unwritten _ _ hmade' hunwritten =>
    obtain rfl := (Prod.mk.inj (hmake.symm.trans hmade')).1
    cases (hwrite _).symm.trans hunwritten
  | @written content _ _ _ hanswer hmade' hwritten =>
    obtain rfl := (Prod.mk.inj (hmake.symm.trans hmade')).1
    obtain rfl := Except.ok.inj ((hwrite _).symm.trans hwritten)
    rw [h.network_eq] at hanswer
    refine ⟨hanswer.symm, ?_, fun failure hfailure ↦ by cases hfailure.symm.trans hanswer⟩
    refine h.write hapart hdone hdocument hnew hanswer hstocked hlead hroot hprepared ?_
    obtain ⟨tree', hworld', hadds, htree⟩ := World.exists_of_makeDirectories hmake
    obtain rfl : after = tree' := congrArg World.tree hworld'
    have hsound := h.isSound.asked document.url
    exact (hsound.grow hadds.grows (htree hsound)).writeBytes (hwrite content)

/-- Fetching a document gives what its address answers. It adds a copy to the store or leaves it
alone. -/
theorem Holds.fetch (h : Holds start store done world) :
    ((Store.fetch store document).run world).1 = outcome start.network document.url ∧
      Holds start store (done ++ [document]) ((Store.fetch store document).run world).2 ∧
      ∀ failure, outcome start.network document.url = .error failure →
        ((Store.fetch store document).run world).2.tree = world.tree := by
  have hfetches := Store.fetches store document world
  by_cases hcopy : ∃ content, (document.segments, content) ∈ Store.copies start.network done
  · obtain ⟨content, hcopy⟩ := hcopy
    obtain ⟨hanswer, hresult, hworld⟩ := h.fetch_stored hapart hdocument hcopy hfetches
    rw [hresult, hworld, hanswer]
    exact ⟨rfl, h.again hanswer hcopy, nofun⟩
  · exact h.fetch_new hempty hapart hdone hdocument (not_exists.1 hcopy) hfetches

end

/-! ### Whole runs -/

/-- Fetches documents in turn, whether or not those before could be fetched. -/
def fetchAll (store : PosixPath) (documents : List Repository) :
    StateM World (List (Except Failure ByteArray)) :=
  documents.mapM fun document ↦ (fetch store document).run

/-- Documents are fetched one after another. -/
theorem run_fetchAll_cons (store : PosixPath) (document : Repository) (rest : List Repository)
    (world : World) : (fetchAll store (document :: rest)).run world =
      (((fetch store document).run world).1 ::
        ((fetchAll store rest).run ((fetch store document).run world).2).1,
        ((fetchAll store rest).run ((fetch store document).run world).2).2) := by
  have hcons : ∀ f : Repository → StateM World (Except Failure ByteArray),
      ((document :: rest).mapM f).run world = (((f document).run world).1 ::
        ((rest.mapM f).run ((f document).run world).2).1,
        ((rest.mapM f).run ((f document).run world).2).2) := fun f ↦ by
    rw [List.mapM_cons]
    rfl
  exact hcons _

/-- Nothing is in a store at first, and no address was asked for it. -/
theorem holds_nil (hsound : start.IsSound) (hempty : start.IsEmptyStore store) :
    Holds start store [] start := by
  refine ⟨rfl, rfl, hsound, ⟨_, World.tree_of_makeDirectories hempty.made, .nil _ _, ?_⟩, [],
    (List.append_nil _).symm, .nil _⟩
  exact fun hne ↦ (hne List.filterMap_nil).elim

/-- Fetching documents in turn gives what their addresses answer, whatever is in the store. -/
theorem Holds.fetchAll (hempty : start.IsEmptyStore store) (hapart : AreApart store documents)
    {rest : List Repository} (hrest : done ++ rest ⊆ documents) (h : Holds start store done world) :
    ((Store.fetchAll store rest).run world).1 =
        rest.map (fun document ↦ outcome start.network document.url) ∧
      Holds start store (done ++ rest) ((Store.fetchAll store rest).run world).2 := by
  induction rest generalizing done world with
  | nil => exact ⟨rfl, by rwa [List.append_nil]⟩
  | cons document rest ih =>
    have hdone : done ⊆ documents := fun _ hmem ↦ hrest (List.mem_append_left _ hmem)
    have hdocument : document ∈ documents :=
      hrest (List.mem_append_right _ List.mem_cons_self)
    obtain ⟨hresult, hholds, -⟩ := h.fetch hempty hapart hdone hdocument
    rw [List.append_cons] at hrest
    obtain ⟨hresults, hholds'⟩ := ih hrest hholds
    rw [run_fetchAll_cons, hresult, hresults, List.append_cons]
    exact ⟨rfl, hholds'⟩

/-- From an empty store, fetching documents in turn gives for each what its address answers: its
content if it answers with success, and else a failure, which leaves the files as they are. An address
that answers with success is asked once, and one that fails is asked each time. -/
theorem fetchAll_gives (hsound : start.IsSound) (hempty : start.IsEmptyStore store)
    (hapart : AreApart store documents) :
    let network := start.network
    let run := (fetchAll store documents).run start
    run.1 = documents.map (fun document ↦ outcome network document.url) ∧
    (∀ url content, outcome network url = .ok content ↔ addressFault? url = none ∧
      ∃ status, 200 ≤ status ∧ status < 300 ∧
        network.lookup url = some (.response status content)) ∧
    (∀ url failure, outcome network url = .error failure →
      (∃ fault, addressFault? url = some fault ∧ failure = .badAddress fault) ∨
      addressFault? url = none ∧
        (failure = .missingDefaults url false ∧ (∃ content,
            (network.lookup url).getD (.response 404 .empty) = .response 404 content) ∨
          (∃ cause, failure = .download url cause) ∧ ∀ content,
            (network.lookup url).getD (.response 404 .empty) ≠ .response 404 content)) ∧
    (∃ asked, run.2.requests = start.requests ++ asked ∧ ∀ url, asked.count url =
      if (outcome network url).isOk then min 1 ((documents.map Repository.url).count url)
      else (documents.map Repository.url).count url) ∧
    ∀ before document after failure, documents = before ++ document :: after →
      outcome network document.url = .error failure →
        let reached := ((fetchAll store before).run start).2
        ((fetch store document).run reached).2.tree = reached.tree := by
  intro network run
  have hnil := holds_nil hsound hempty
  have hall : [] ++ documents ⊆ documents := List.Subset.refl _
  obtain ⟨hresults, hholds⟩ := hnil.fetchAll hempty hapart hall
  refine ⟨hresults, fun _ _ ↦ outcome_eq_ok_iff, fun _ _ ↦ outcome_eq_error, ?_, ?_⟩
  · obtain ⟨asked, hrequests, hasked⟩ := hholds.requests
    exact ⟨asked, hrequests, hasked⟩
  · rintro before document after failure rfl hfailed
    have hbefore : [] ++ before ⊆ before ++ document :: after := List.subset_append_left _ _
    obtain ⟨-, hreached⟩ := hnil.fetchAll hempty hapart hbefore
    obtain ⟨-, -, htree⟩ := hreached.fetch hempty hapart hbefore
      (List.mem_append_right _ List.mem_cons_self)
    exact htree failure hfailed

/-- A document on a network. -/
def answeredDocument : Repository := ⟨"o", "r", "v1", "p"⟩

/-- A world with this network and an empty store. -/
def answeringWorld : World :=
  ⟨FileTree.empty.insert ["store"] .directory, [(answeredDocument.url, .response 200 .empty)],
    ⟨.slash, ["store"]⟩, [], [], [], .silent, []⟩

/-- The sample world is sound. -/
theorem isSound_answeringWorld : answeringWorld.IsSound :=
  ⟨FileTree.isSound_empty.insert (by decide) ⟨by decide, rfl⟩ (.inl rfl), rfl⟩

/-- Its store is empty. -/
theorem isEmptyStore_answeringWorld : answeringWorld.IsEmptyStore ⟨.slash, ["store"]⟩ := by
  have hcheck : World.checkPath ⟨.slash, ["store"]⟩ = .ok () :=
    World.checkPath_of_notMem (by decide) (by decide)
  have hthere : answeringWorld.tree.makeDirectories [] ["store"].reverse =
      (answeringWorld.tree, .ok ()) := FileTree.makeDirectories_of_follow (by rfl) (by rfl)
  have hmade : answeringWorld.makeDirectories ⟨.slash, ["store"]⟩ = (answeringWorld, .ok ()) :=
    World.makeDirectories_of_made hcheck hthere
  constructor
  · rw [hmade]
  · intro below hbelow
    rw [hmade]
    show answeringWorld.tree.get? ("store" :: below) = none
    rw [answeringWorld, FileTree.get?_insert _ _ _ (List.cons_ne_nil _ _), if_neg]
    · rfl
    · rintro ⟨⟩
      exact hbelow rfl

/-- Its document is apart from itself. -/
theorem areApart_answeredDocument :
    AreApart ⟨.slash, ["store"]⟩ [answeredDocument, answeredDocument] := by
  have hstorable : answeredDocument.IsStorable ⟨.slash, ["store"]⟩ := by
    refine ⟨?_, ?_, by decide, by decide⟩
    · exact World.checkPath_of_notMem (by decide) (by decide)
    · exact World.checkPath_of_notMem (by decide) (by decide)
  have hboth : ∀ {p : Repository → Prop}, p answeredDocument →
      ∀ document ∈ [answeredDocument, answeredDocument], p document := fun h ↦
    List.forall_mem_cons.2 ⟨h, List.forall_mem_singleton.2 h⟩
  exact ⟨hboth (by decide), hboth hstorable, hboth (hboth fun _ ↦ rfl)⟩

/-- A document that is fetched twice is given twice and downloaded once. -/
theorem fetchAll_gives_answered :
    answeringWorld.IsSound ∧ answeringWorld.IsEmptyStore ⟨.slash, ["store"]⟩ ∧
      AreApart ⟨.slash, ["store"]⟩ [answeredDocument, answeredDocument] ∧
      ((fetchAll ⟨.slash, ["store"]⟩ [answeredDocument, answeredDocument]).run answeringWorld).1 =
        [.ok .empty, .ok .empty] ∧
      ((fetchAll ⟨.slash, ["store"]⟩ [answeredDocument, answeredDocument]).run
        answeringWorld).2.requests.count answeredDocument.url = 1 := by
  have hgives := fetchAll_gives isSound_answeringWorld isEmptyStore_answeringWorld
    areApart_answeredDocument
  obtain ⟨hresults, hok, -, ⟨asked, hrequests, hcount⟩, -⟩ := hgives
  have haddress : addressFault? answeredDocument.url = none := by
    decide
  have hanswer : outcome answeringWorld.network answeredDocument.url = .ok .empty :=
    (hok _ _).2 ⟨haddress, 200, le_rfl, by decide, List.lookup_cons_self⟩
  refine ⟨isSound_answeringWorld, isEmptyStore_answeringWorld, areApart_answeredDocument, ?_, ?_⟩
  · rw [hresults, List.map_cons, List.map_singleton, hanswer]
  · rw [hrequests, List.count_append, hcount, hanswer]
    simp [answeringWorld, Except.isOk, Except.toBool]

/-! ### Names that are too long -/

/-- Only documents whose names are short enough are ever fetched. -/
theorem name_size_le_of_fetch {content : ByteArray}
    (h : ((fetch store document).run world).1 = .ok content) :
    ∀ name ∈ (document.location store).names,
      name = "." ∨ name = ".." ∨ name.utf8ByteSize ≤ FileTree.nameLimit := by
  have hfetches := fetches store document world
  generalize (fetch store document).run world = run at hfetches h
  obtain ⟨result, world'⟩ := run
  change Fetches store document world result world' at hfetches
  cases hfetches with
  | unknown | unanswered | unmade | unwritten => cases h
  | stored hfile =>
    have hfound := world.yields_isFile (document.location store)
    rw [hfile] at hfound
    obtain ⟨_, hfind⟩ := hfound.of_ok rfl
    obtain ⟨_, hfollow, -⟩ := World.exists_of_find hfind
    exact FileTree.size_le_of_follow (World.tree_follow_of_follow hfollow)
  | written _ _ _ hwrite =>
    obtain ⟨-, _, hfollow, -⟩ := World.exists_of_writeBytes hwrite
    exact FileTree.size_le_of_follow (World.tree_follow_of_follow hfollow)

/-- There is a name that is longer than names can be. -/
theorem exists_longName : ∃ name : String, name.length = 256 ∧ (∀ c ∈ name.toList, c = 'v') ∧
    FileTree.nameLimit < name.utf8ByteSize := by
  refine ⟨String.ofList (List.replicate 256 'v'), ?_, ?_, ?_⟩
  · rw [String.length_ofList, List.length_replicate]
  · rw [String.toList_ofList]
    exact fun c hc ↦ List.eq_of_mem_replicate hc
  · set_option maxRecDepth 2000 in
    decide

/-- A plain document can be answered and not be fetched, for no file can have its name. -/
theorem exists_not_fetch :
    ∃ document : Repository, document.IsPlain ∧
      outcome [(document.url, .response 200 .empty)] document.url = .ok .empty ∧
        ((fetch ⟨.slash, ["store"]⟩ document).run { answeringWorld with
          network := [(document.url, .response 200 .empty)] }).1 ≠ .ok .empty := by
  obtain ⟨name, hlength, hchars, hlong⟩ := exists_longName
  have hsegments : (Repository.mk "o" "r" name "p").segments = ["o", "r", name, "p"] := by
    refine Repository.segments_of_notMem ?_
    have hslash : '/' ∉ name.toList := fun hmem ↦ by cases hchars _ hmem
    simpa using hslash
  have hne : ∀ text : String, text.length < 256 → name ≠ text := by
    rintro text htext rfl
    omega
  have hdot := hne "." (by decide)
  have hdots := hne ".." (by decide)
  have hplain : (Repository.mk "o" "r" name "p").IsPlain := by
    rw [Repository.IsPlain, hsegments]
    simp [hne "" (by decide), hdot, hdots]
  have hcontrol : (Repository.mk "o" "r" name "p").url.toList.all fun c ↦ !isControl c := by
    simp only [Repository.url_eq, String.toList_append, List.all_append, Bool.and_eq_true]
    refine ⟨⟨⟨by decide, List.all_eq_true.2 fun c hc ↦ ?_⟩, by decide⟩, by decide⟩
    rw [hchars c hc]
    decide
  have haddress : addressFault? (Repository.mk "o" "r" name "p").url = none := by
    refine addressFault?_eq_none ?_ fun c hc ↦ by simpa using List.all_eq_true.1 hcontrol c hc
    simp only [Repository.url_eq, String.length_append, hlength]
    decide
  refine ⟨_, hplain, outcome_eq_ok_iff.2
    ⟨haddress, 200, le_rfl, by decide, List.lookup_cons_self⟩, fun hfetched ↦ ?_⟩
  have hshort := name_size_le_of_fetch hfetched name (by
    rw [Repository.location_eq hplain, hsegments]
    simp)
  rcases hshort with h | h | h
  · exact hdot h
  · exact hdots h
  · exact absurd hlong (Nat.not_lt.2 h)

end Store

end CabalManifest
