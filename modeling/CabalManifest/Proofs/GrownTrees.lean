import CabalManifest.Proofs.SpelledPaths

/-!
# Sound file trees

In a *sound* file tree every location is below directories, and its names are such that a file can
have them (`FileTree.IsSound`). There a path without dots leads to what stands under its names, and
one with dots does so too if the directories are there that it names before a pair of dots.

Making directories adds directories only (`FileTree.addsDirectories_makeDirectories`). It succeeds
below a directory that can be made, as far as no file is in the way
(`FileTree.exists_makeDirectories_append`).
-/

namespace CabalManifest

/-- A step that succeeds hands its result on. -/
theorem bind_of_eq_ok {ε α β : Type} {m : Except ε α} {a : α} (h : m = .ok a)
    (k : α → Except ε β) : (m >>= k) = k a := by
  rw [h]
  rfl

namespace FileTree

variable {tree tree' tree'' : FileTree} {location location' : Location} {name : String}
  {names more : List String} {entry : Entry}

/-! ### Following names -/

/-- Following no names stays where it is. -/
@[simp] theorem follow_nil (tree : FileTree) (location : Location) :
    tree.follow location [] = .ok location := by
  rw [follow]

/-- Where a name leads from a directory. -/
def step (location : Location) (name : String) : Except Stray Location :=
  if name = "." then .ok location
  else if name = ".." then .ok location.dropLast
  else if nameLimit < name.utf8ByteSize then .error .longName
  else .ok (location ++ [name])

theorem follow_cons (hdirectory : tree.get? location = some .directory) (name : String)
    (names : List String) :
    tree.follow location (name :: names) = step location name >>= (tree.follow · names) := by
  rw [follow, hdirectory, step]
  simp only
  split
  · rfl
  · split
    · rfl
    · split <;> rfl

/-- Following names that lead on passes through a directory. -/
theorem exists_of_follow_cons (h : tree.follow location (name :: names) = .ok location') :
    tree.get? location = some .directory ∧
      ∃ next, step location name = .ok next ∧ tree.follow next names = .ok location' := by
  have hdirectory : tree.get? location = some .directory := by
    rw [follow] at h
    split at h
    · cases h
    · cases h
    · assumption
  rw [follow_cons hdirectory] at h
  exact ⟨hdirectory, Yaml.exists_of_bind_eq_ok h⟩

/-- Following two lists of names in turn is following them joined. -/
theorem follow_append (tree : FileTree) (location : Location) (names more : List String) :
    tree.follow location (names ++ more) =
      tree.follow location names >>= (tree.follow · more) := by
  induction names generalizing location with
  | nil => rw [follow_nil]; rfl
  | cons name names ih =>
    by_cases hdirectory : tree.get? location = some .directory
    · rw [List.cons_append, follow_cons hdirectory, follow_cons hdirectory]
      cases step location name with
      | error => rfl
      | ok next => exact ih next
    · rw [List.cons_append, follow, follow]
      split
      · rfl
      · rfl
      · contradiction

/-- A path goes on from where its beginning leads. -/
theorem follow_append_of_ok (h : tree.follow location names = .ok location')
    (more : List String) :
    tree.follow location (names ++ more) = tree.follow location' more := by
  rw [follow_append, h]
  rfl

/-- A path that leads somewhere passes the place where its beginning leads. -/
theorem exists_of_follow_append (h : tree.follow location (names ++ more) = .ok location') :
    ∃ between, tree.follow location names = .ok between ∧
      tree.follow between more = .ok location' := by
  rw [follow_append] at h
  exact Yaml.exists_of_bind_eq_ok h

/-- Names that lead on are short enough. -/
theorem size_le_of_follow (h : tree.follow location names = .ok location') :
    ∀ name ∈ names, name = "." ∨ name = ".." ∨ name.utf8ByteSize ≤ nameLimit := by
  induction names generalizing location with
  | nil => exact List.forall_mem_nil _
  | cons name names ih =>
    obtain ⟨-, next, hstep, hrest⟩ := exists_of_follow_cons h
    refine List.forall_mem_cons.2 ⟨?_, ih hrest⟩
    rw [step] at hstep
    split at hstep
    · next hdot => exact .inl hdot
    · split at hstep
      · next hdots => exact .inr (.inl hdots)
      · split at hstep
        · cases hstep
        · next hlong => exact .inr (.inr (Nat.not_lt.1 hlong))

/-! ### Growing trees -/

/-- Whether everything in a tree is still there in another one. -/
def Grows (tree tree' : FileTree) : Prop :=
  ∀ location entry, tree.get? location = some entry → tree'.get? location = some entry

/-- A tree grows into itself. -/
theorem Grows.refl (tree : FileTree) : tree.Grows tree := fun _ _ h ↦ h

/-- What grows into a tree that grows in turn, grows into the last one. -/
theorem Grows.trans (h : tree.Grows tree') (h' : tree'.Grows tree'') : tree.Grows tree'' :=
  fun location entry hentry ↦ h' location entry (h location entry hentry)

/-- Whether every directory of a tree is one in another tree. -/
def KeepsDirectories (tree tree' : FileTree) : Prop :=
  ∀ location, tree.get? location = some .directory → tree'.get? location = some .directory

/-- Directories that are kept twice are kept. -/
theorem KeepsDirectories.trans (h : tree.KeepsDirectories tree')
    (h' : tree'.KeepsDirectories tree'') : tree.KeepsDirectories tree'' :=
  fun location hdirectory ↦ h' location (h location hdirectory)

/-- A tree that only grows keeps its directories. -/
theorem Grows.keepsDirectories (h : tree.Grows tree') : tree.KeepsDirectories tree' :=
  fun location ↦ h location .directory

/-- Names are followed through directories, and lead to the same place where these are kept. -/
theorem KeepsDirectories.follow (h : tree.KeepsDirectories tree')
    (hfollow : tree.follow location names = .ok location') :
    tree'.follow location names = .ok location' := by
  induction names generalizing location with
  | nil => rwa [follow_nil] at hfollow ⊢
  | cons name names ih =>
    obtain ⟨hdirectory, next, hstep, hrest⟩ := exists_of_follow_cons hfollow
    rw [follow_cons (h _ hdirectory), hstep]
    exact ih hrest

/-- Where names lead, they still lead when a tree has grown. -/
theorem Grows.follow (h : tree.Grows tree') (hfollow : tree.follow location names = .ok location') :
    tree'.follow location names = .ok location' :=
  h.keepsDirectories.follow hfollow

/-- Where names lead in a grown tree, they led before, or something was missing. -/
theorem Grows.follow_or_missing (h : tree.Grows tree')
    (hfollow : tree'.follow location names = .ok location') :
    tree.follow location names = .ok location' ∨ tree.follow location names = .error .missing := by
  induction names generalizing location with
  | nil => rw [follow_nil] at hfollow ⊢; exact .inl hfollow
  | cons name names ih =>
    obtain ⟨hdirectory, next, hstep, hrest⟩ := exists_of_follow_cons hfollow
    cases hentry : tree.get? location with
    | none =>
      rw [FileTree.follow, hentry]
      exact .inr rfl
    | some entry =>
      obtain rfl := Option.some.inj ((h _ _ hentry).symm.trans hdirectory)
      rw [follow_cons hentry, hstep]
      exact ih hrest

/-- A tree with an entry where there was none has grown. -/
theorem grows_insert (hnew : tree.get? location = none) (entry : Entry) :
    tree.Grows (tree.insert location entry) := by
  have hroot : location ≠ [] := by
    rintro rfl
    cases hnew
  intro location' entry' hentry
  rw [get?_insert _ _ _ hroot, if_neg]
  · exact hentry
  · rintro rfl
    cases hnew.symm.trans hentry

/-- A file that takes the place of no directory leaves all directories alone. -/
theorem keepsDirectories_insert (hfile : tree.get? location ≠ some .directory)
    (content : ByteArray) : tree.KeepsDirectories (tree.insert location (.file content)) := by
  have hroot : location ≠ [] := by
    rintro rfl
    exact hfile rfl
  intro location' hdirectory
  rw [get?_insert _ _ _ hroot, if_neg]
  · exact hdirectory
  · rintro rfl
    exact hfile hdirectory

/-! ### Sound trees -/

/-- Whether a file can have a name. -/
structure IsProperName (name : String) : Prop where
  ne_dot : name ≠ "."
  ne_dots : name ≠ ".."
  size_le : name.utf8ByteSize ≤ nameLimit

instance (name : String) : Decidable (IsProperName name) :=
  decidable_of_iff (name ≠ "." ∧ name ≠ ".." ∧ name.utf8ByteSize ≤ nameLimit)
    ⟨fun ⟨hdot, hdots, hsize⟩ ↦ ⟨hdot, hdots, hsize⟩, fun ⟨hdot, hdots, hsize⟩ ↦ ⟨hdot, hdots, hsize⟩⟩

/-- A proper name leads one step down. -/
theorem step_of_isProperName (hname : IsProperName name) (location : Location) :
    step location name = .ok (location ++ [name]) := by
  rw [step, if_neg hname.ne_dot, if_neg hname.ne_dots, if_neg (Nat.not_lt.2 hname.size_le)]

/-- Whether every location of a tree is below directories, and its names are proper. -/
structure IsSound (tree : FileTree) : Prop where
  isProper : ∀ location entry, tree.get? location = some entry →
    ∀ name ∈ location, IsProperName name
  directory_dropLast : ∀ location entry, tree.get? location = some entry →
    tree.get? location.dropLast = some .directory

/-- Whether something can stand at a location of a tree. -/
structure Admits (tree : FileTree) (location : Location) : Prop where
  isProper : ∀ name ∈ location, IsProperName name
  directory_dropLast : tree.get? location.dropLast = some .directory

/-- The empty tree is sound. -/
theorem isSound_empty : empty.IsSound := by
  have hroot : ∀ location entry, empty.get? location = some entry → location = [] := by
    intro location entry hentry
    cases location with
    | nil => rfl
    | cons => cases hentry
  constructor
  · intro location entry hentry
    rw [hroot location entry hentry]
    exact List.forall_mem_nil _
  · intro location entry hentry
    rw [hroot location entry hentry]
    rfl

namespace IsSound

/-- The place of an entry can hold an entry. -/
theorem admits (h : tree.IsSound) (hentry : tree.get? location = some entry) :
    tree.Admits location :=
  ⟨h.isProper _ _ hentry, h.directory_dropLast _ _ hentry⟩

/-- Names lead to what stands where they spell out, if the directories are there that they name
before a pair of dots. -/
theorem follow_of_directories (h : tree.IsSound) (hdot : "." ∉ names)
    (hdirectories : ∀ before after, names = before ++ ".." :: after →
      ∃ between, tree.follow location before = .ok between ∧
        tree.get? between = some .directory)
    (hentry : tree.get? (names.foldl PosixPath.follow location) = some entry) :
    tree.follow location names = .ok (names.foldl PosixPath.follow location) := by
  induction names using List.reverseRecOn generalizing entry with
  | nil => exact follow_nil tree location
  | append_singleton names name ih =>
    have hname : name ≠ "." := by
      rintro rfl
      exact hdot (by simp)
    rw [List.foldl_concat] at hentry ⊢
    by_cases hdots : name = ".."
    · obtain ⟨between, hbetween, hdirectory⟩ := hdirectories names [] (by rw [hdots])
      rw [follow_append_of_ok hbetween, follow_cons hdirectory, eq_foldl_of_follow hbetween, step,
        PosixPath.follow, if_neg hname, if_neg hname, if_pos hdots, if_pos hdots]
      exact follow_nil tree _
    · rw [PosixPath.follow, if_neg hname, if_neg hdots] at hentry ⊢
      have hdirectory := h.directory_dropLast _ _ hentry
      rw [List.dropLast_concat] at hdirectory
      have hbefore := ih (fun hmem ↦ hdot (List.mem_append_left _ hmem))
        (fun before after hnames ↦ hdirectories before (after ++ [name]) (by simp [hnames]))
        hdirectory
      have hproper := h.isProper _ _ hentry name (by simp)
      rw [follow_append_of_ok hbefore, follow_cons hdirectory, step_of_isProperName hproper]
      exact follow_nil tree _

/-- Proper names lead to what stands under them. -/
theorem follow_of_proper (h : tree.IsSound) (hproper : ∀ name ∈ names, IsProperName name)
    (hentry : tree.get? (location ++ names) = some entry) :
    tree.follow location names = .ok (location ++ names) := by
  have hspelled := PosixPath.foldl_follow_of_proper
    (fun name hname ↦ ⟨(hproper name hname).ne_dot, (hproper name hname).ne_dots⟩) location
  rw [← hspelled] at hentry ⊢
  refine h.follow_of_directories (fun hmem ↦ (hproper _ hmem).ne_dot rfl) ?_ hentry
  rintro before after rfl
  exact absurd rfl (hproper ".." (by simp)).ne_dots

/-- Something can stand where names lead from such a location. -/
theorem admits_of_follow (h : tree.IsSound) (hadmits : tree.Admits location)
    (hfollow : tree.follow location names = .ok location') : tree.Admits location' := by
  induction names generalizing location with
  | nil =>
    rw [follow_nil] at hfollow
    cases hfollow
    exact hadmits
  | cons name names ih =>
    obtain ⟨hdirectory, next, hstep, hrest⟩ := exists_of_follow_cons hfollow
    refine ih ?_ hrest
    rw [step] at hstep
    split at hstep
    · cases hstep
      exact hadmits
    · next hdot =>
      split at hstep
      · cases hstep
        exact h.admits hadmits.directory_dropLast
      · next hdots =>
        split at hstep
        · cases hstep
        · next hlong =>
          cases hstep
          refine ⟨List.forall_mem_append.2 ⟨hadmits.isProper, ?_⟩, by rwa [List.dropLast_concat]⟩
          exact List.forall_mem_singleton.2 ⟨hdot, hdots, Nat.not_lt.1 hlong⟩

/-- A tree stays sound if no file takes the place of a directory. -/
theorem insert (h : tree.IsSound) (hroot : location ≠ []) (hadmits : tree.Admits location)
    (hentry : entry = .directory ∨ tree.get? location ≠ some .directory) :
    (tree.insert location entry).IsSound := by
  have hget := fun location' ↦ tree.get?_insert location' entry hroot
  refine ⟨fun location' entry' hfound ↦ ?_, fun location' entry' hfound ↦ ?_⟩
  · rw [hget] at hfound
    split at hfound
    · next hsame => exact hsame ▸ hadmits.isProper
    · exact h.isProper _ _ hfound
  · have hparent : tree.get? location'.dropLast = some .directory := by
      rw [hget] at hfound
      split at hfound
      · next hsame => exact hsame ▸ hadmits.directory_dropLast
      · exact h.directory_dropLast _ _ hfound
    rw [hget]
    split
    · next hsame =>
      rcases hentry with rfl | hentry
      · rfl
      · exact absurd (hsame ▸ hparent) hentry
    · exact hparent

end IsSound

/-! ### Making directories -/

/-- Whether a tree differs from another one by further directories only. -/
def AddsDirectories (tree tree' : FileTree) : Prop :=
  ∀ location, tree'.get? location = tree.get? location ∨
    tree.get? location = none ∧ tree'.get? location = some .directory

/-- A tree adds no directory to itself. -/
theorem AddsDirectories.refl (tree : FileTree) : tree.AddsDirectories tree := fun _ ↦ .inl rfl

/-- Directories that are added twice are added. -/
theorem AddsDirectories.trans (h : tree.AddsDirectories tree')
    (h' : tree'.AddsDirectories tree'') : tree.AddsDirectories tree'' := by
  intro location
  rcases h location with hsame | ⟨hnone, hsome⟩ <;> rcases h' location with hsame' | ⟨hnone', hsome'⟩
  · exact .inl (hsame'.trans hsame)
  · exact .inr ⟨hsame.symm.trans hnone', hsome'⟩
  · exact .inr ⟨hnone, hsame'.trans hsome⟩
  · exact .inr ⟨hnone, hsome'⟩

/-- A tree to which directories are added has grown. -/
theorem AddsDirectories.grows (h : tree.AddsDirectories tree') : tree.Grows tree' := by
  intro location entry hentry
  rcases h location with hsame | ⟨hnone, -⟩
  · exact hsame.trans hentry
  · cases hnone.symm.trans hentry

/-- A directory is made where the names lead, if there is nothing yet. -/
theorem exists_of_makeDirectory (h : tree.makeDirectory location names = .ok tree') :
    ∃ target, tree.follow location names = .ok target ∧ tree.get? target = none ∧
      tree' = tree.insert target .directory := by
  rw [makeDirectory] at h
  split at h
  · cases h
  · next target hfollow =>
    split at h
    · cases h
    · next hnew =>
      rw [Bool.or_eq_true, not_or, Bool.not_eq_true, Bool.not_eq_true] at hnew
      exact ⟨target, hfollow, Option.not_isSome_iff_eq_none.1 (by simp [hnew.2]),
        (Except.ok.inj h).symm⟩

/-- What every made directory keeps, making directories keeps. -/
theorem makeDirectories_induction (kept : FileTree → Prop)
    (hstep : ∀ tree tree' names, kept tree → tree.makeDirectory location names = .ok tree' →
      kept tree') (h : kept tree) (names : List String) :
    kept (tree.makeDirectories location names).1 := by
  induction names generalizing tree with
  | nil => exact h
  | cons name around ih =>
    rw [makeDirectories]
    simp only
    split
    · next hmade => exact hstep _ _ _ h hmade
    · have haround := ih h
      split
      · next hfailed => rwa [hfailed] at haround
      · next hdone =>
        rw [hdone] at haround
        split
        · next hmade => exact hstep _ _ _ haround hmade
        · split <;> exact haround
    · split <;> exact h

/-- Making directories adds directories and nothing else. -/
theorem addsDirectories_makeDirectories (tree : FileTree) (location : Location)
    (names : List String) : tree.AddsDirectories (tree.makeDirectories location names).1 := by
  refine makeDirectories_induction tree.AddsDirectories ?_ (.refl tree) names
  intro tree₁ tree₂ names hadds hmade
  obtain ⟨target, -, hnew, rfl⟩ := exists_of_makeDirectory hmade
  refine hadds.trans fun location' ↦ ?_
  have hroot : target ≠ [] := by
    rintro rfl
    cases hnew
  rw [get?_insert _ _ _ hroot]
  split
  · next hsame => exact .inr ⟨hsame ▸ hnew, rfl⟩
  · exact .inl rfl

/-- Making directories keeps a tree sound. -/
theorem IsSound.makeDirectories (h : tree.IsSound) (hadmits : tree.Admits location)
    (names : List String) : (tree.makeDirectories location names).1.IsSound := by
  refine (makeDirectories_induction (fun tree ↦ tree.IsSound ∧ tree.Admits location) ?_
    ⟨h, hadmits⟩ names).1
  rintro tree₁ tree₂ names ⟨hsound, hadmits⟩ hmade
  obtain ⟨target, hfollow, hnew, rfl⟩ := exists_of_makeDirectory hmade
  have hroot : target ≠ [] := by
    rintro rfl
    cases hnew
  refine ⟨hsound.insert hroot (hsound.admits_of_follow hadmits hfollow) (.inl rfl), hadmits.isProper, ?_⟩
  exact grows_insert hnew _ _ _ hadmits.directory_dropLast

/-! ### Directories that can be made -/

/-- A path that leads to a directory is one. -/
theorem isDirectory_of_follow (h : tree.follow location names = .ok location')
    (hdirectory : tree.get? location' = some .directory) : tree.isDirectory location names := by
  have hfind : tree.find location names = .ok .directory := by
    rw [find, bind_of_eq_ok h, hdirectory]
    rfl
  rw [isDirectory, hfind]

/-- A path that is a directory leads to one. -/
theorem exists_of_isDirectory (h : tree.isDirectory location names = true) :
    ∃ target, tree.follow location names = .ok target ∧ tree.get? target = some .directory := by
  rw [isDirectory] at h
  split at h
  · next hfind =>
    rw [find] at hfind
    obtain ⟨target, hfollow, hentry⟩ := Yaml.exists_of_bind_eq_ok hfind
    refine ⟨target, hfollow, ?_⟩
    split at hentry
    · next hget => exact hget.trans (congrArg some (Except.ok.inj hentry))
    · cases hentry
  · cases h

/-- A directory that was made is there. -/
theorem exists_of_makeDirectories (hlocation : tree.get? location = some .directory)
    (h : tree.makeDirectories location names.reverse = (tree', .ok ())) :
    ∃ target, tree'.follow location names = .ok target ∧ tree'.get? target = some .directory := by
  rcases hreverse : names.reverse with - | ⟨name, around⟩
  · rw [hreverse] at h
    obtain rfl : tree = tree' := congrArg Prod.fst h
    obtain rfl : names = [] := List.reverse_eq_nil_iff.1 hreverse
    exact ⟨location, follow_nil tree location, hlocation⟩
  · have hnames : (name :: around).reverse = names := by rw [← hreverse, List.reverse_reverse]
    have hmade : ∀ {tree₁ tree₂ : FileTree}, tree₁.makeDirectory location names = .ok tree₂ →
        ∃ target, tree₂.follow location names = .ok target ∧
          tree₂.get? target = some .directory := by
      intro tree₁ tree₂ hstep
      obtain ⟨target, hfollow, hnew, rfl⟩ := exists_of_makeDirectory hstep
      refine ⟨target, (grows_insert hnew _).follow hfollow, ?_⟩
      rw [get?_insert _ _ _ (by rintro rfl; cases hnew), if_pos rfl]
    have hsettled : ∀ {tree₁ : FileTree} {obstacle : Obstacle},
        (if tree₁.isDirectory location names then (tree₁, .ok ())
          else (tree₁, .error (obstacle, name :: around)) :
            FileTree × Except (Obstacle × List String) Unit) = (tree', .ok ()) →
        ∃ target, tree'.follow location names = .ok target ∧
          tree'.get? target = some .directory := by
      intro tree₁ obstacle hsettle
      split at hsettle
      · next hthere =>
        cases hsettle
        exact exists_of_isDirectory hthere
      · cases hsettle
    rw [hreverse, makeDirectories] at h
    simp only [hnames] at h
    split at h
    · next hstep =>
      cases h
      exact hmade hstep
    · split at h
      · cases h
      · split at h
        · next hstep =>
          cases h
          exact hmade hstep
        · exact hsettled h
    · exact hsettled h

/-- Making a directory that is there changes nothing. -/
theorem makeDirectories_of_follow (h : tree.follow location names = .ok location')
    (hdirectory : tree.get? location' = some .directory) :
    tree.makeDirectories location names.reverse = (tree, .ok ()) := by
  rcases hreverse : names.reverse with - | ⟨name, around⟩
  · rfl
  · have hnames : (name :: around).reverse = names := by rw [← hreverse, List.reverse_reverse]
    have hthere : tree.makeDirectory location names = .error .occupied := by
      rw [makeDirectory, h]
      simp only [hdirectory, Option.isSome_some, Bool.or_true, if_true]
    rw [makeDirectories]
    simp only [hnames, hthere, isDirectory_of_follow h hdirectory, if_true]

/-- Where names lead to, a directory is made or is there already, if no file is in its place. -/
theorem exists_makeDirectory_of_follow (hlast : names.getLast? ≠ some "..")
    (hfollow : tree.follow location names = .ok location')
    (hfree : tree.get? location' = none ∨ tree.get? location' = some .directory) :
    ∃ tree', (tree.makeDirectory location names = .ok tree' ∨
        tree.makeDirectory location names = .error .occupied ∧
          tree.isDirectory location names = true ∧ tree' = tree) ∧
      ∀ other, tree'.get? other =
        if other = location' then some .directory else tree.get? other := by
  rw [makeDirectory, hfollow]
  rcases hfree with hnone | hdirectory
  · refine ⟨tree.insert location' .directory, .inl ?_, fun other ↦ ?_⟩
    · simp only [hlast, hnone, decide_false, Option.isSome_none, Bool.or_self,
        Bool.false_eq_true, if_false]
    · exact tree.get?_insert other _ (by rintro rfl; cases hnone)
  · refine ⟨tree, .inr ⟨?_, isDirectory_of_follow hfollow hdirectory, rfl⟩, fun other ↦ ?_⟩
    · simp only [hdirectory, Option.isSome_some, Bool.or_true, if_true]
    · split
      · next hsame => exact hsame ▸ hdirectory
      · rfl

/-- A directory can be made below one that can be made, if no file is in its place. -/
theorem exists_makeDirectories_cons {around : List String}
    (h : tree.makeDirectories location around = (tree', .ok ())) (hname : name ≠ "..")
    (hfollow : tree'.follow location (around.reverse ++ [name]) = .ok location')
    (hfree : tree'.get? location' = none ∨ tree'.get? location' = some .directory) :
    ∃ tree'', tree.makeDirectories location (name :: around) = (tree'', .ok ()) ∧
      ∀ other, tree''.get? other =
        if other = location' then some .directory else tree'.get? other := by
  have hgrows : tree.Grows tree' := by
    have hadds := tree.addsDirectories_makeDirectories location around
    rw [h] at hadds
    exact hadds.grows
  obtain ⟨tree'', hmade, hget⟩ := exists_makeDirectory_of_follow (by simpa using hname) hfollow hfree
  refine ⟨tree'', ?_, hget⟩
  rw [makeDirectories]
  simp only [List.reverse_cons]
  rcases hgrows.follow_or_missing hfollow with hbefore | hmissing
  · -- The directories around are there, so the tree is as it was.
    obtain ⟨between, hbetween, hrest⟩ := exists_of_follow_append hbefore
    have hsame := makeDirectories_of_follow hbetween (exists_of_follow_cons hrest).1
    rw [List.reverse_reverse, h] at hsame
    obtain rfl : tree' = tree := congrArg Prod.fst hsame
    rcases hmade with hmade | ⟨hthere, hdirectory, rfl⟩
    · simp only [hmade]
    · simp only [hthere, hdirectory, if_true]
  · have hstray : tree.makeDirectory location (around.reverse ++ [name]) =
        .error (.stray .missing) := by
      rw [makeDirectory, hmissing]
    rcases hmade with hmade | ⟨hthere, hdirectory, rfl⟩
    · simp only [hstray, h, hmade]
    · simp only [hstray, h, hthere, hdirectory, if_true]

/-- A tree grows by a directory where no file is. -/
theorem grows_of_get?_eq (hget : ∀ other, tree'.get? other =
      if other = location' then some .directory else tree.get? other)
    (hfree : tree.get? location' = none ∨ tree.get? location' = some .directory) :
    tree.Grows tree' := by
  intro other entry hentry
  rw [hget]
  split
  · next heq =>
    subst heq
    rcases hfree with hnone | hdirectory
    · cases hnone.symm.trans hentry
    · exact hdirectory.symm.trans hentry
  · exact hentry

/-- Directories can be made below one that can be made, if no file is in their place. -/
theorem exists_makeDirectories_append {base : Location}
    (h : tree.makeDirectories location names.reverse = (tree', .ok ()))
    (hfollow : tree'.follow location names = .ok base)
    (hbase : tree'.get? base = some .directory) (hmore : ∀ name ∈ more, IsProperName name)
    (hfree : ∀ first, first <+: more →
      tree'.get? (base ++ first) = none ∨ tree'.get? (base ++ first) = some .directory) :
    ∃ tree'', tree.makeDirectories location (names ++ more).reverse = (tree'', .ok ()) ∧
      tree''.follow location (names ++ more) = .ok (base ++ more) ∧
        ∀ other, tree''.get? other =
          if base <+: other ∧ other <+: base ++ more then some .directory else tree'.get? other := by
  induction more using List.reverseRecOn with
  | nil =>
    refine ⟨tree', by rwa [List.append_nil], by rwa [List.append_nil, List.append_nil], ?_⟩
    intro other
    rw [List.append_nil]
    split
    · next hbetween =>
      rwa [hbetween.2.eq_of_length_le hbetween.1.length_le]
    · rfl
  | append_singleton more name ih =>
    rw [List.forall_mem_append, List.forall_mem_singleton] at hmore
    obtain ⟨tree₁, hmade, hlead, hget⟩ := ih hmore.1 fun first hfirst ↦
      hfree first (hfirst.trans (List.prefix_append _ _))
    have hdirectory : tree₁.get? (base ++ more) = some .directory := by
      rw [hget, if_pos ⟨List.prefix_append _ _, List.prefix_refl _⟩]
    have hnext : tree₁.follow location (names ++ more ++ [name]) =
        .ok (base ++ (more ++ [name])) := by
      rw [follow_append_of_ok hlead, follow_cons hdirectory, step_of_isProperName hmore.2,
        List.append_assoc]
      exact follow_nil tree₁ _
    have hnew : ¬(base ++ (more ++ [name])) <+: base ++ more := by
      intro hle
      have hlength := hle.length_le
      rw [List.length_append, List.length_append, List.length_append, List.length_singleton]
        at hlength
      omega
    have hfree₁ : tree₁.get? (base ++ (more ++ [name])) = none ∨
        tree₁.get? (base ++ (more ++ [name])) = some .directory := by
      rw [hget, if_neg fun hbetween ↦ hnew hbetween.2]
      exact hfree _ (List.prefix_refl _)
    obtain ⟨tree₂, hmade₂, hget₂⟩ := exists_makeDirectories_cons hmade hmore.2.ne_dots
      (by rw [List.reverse_reverse]; exact hnext) hfree₁
    refine ⟨tree₂, ?_, ?_, fun other ↦ ?_⟩
    · rw [← List.append_assoc, List.reverse_concat]
      exact hmade₂
    · rw [← List.append_assoc]
      exact (grows_of_get?_eq hget₂ hfree₁).follow hnext
    · rw [hget₂, hget]
      have hiff : other <+: base ++ (more ++ [name]) ↔
          other <+: base ++ more ∨ other = base ++ (more ++ [name]) := by
        rw [← List.append_assoc, List.prefix_concat_iff, or_comm]
      by_cases heq : other = base ++ (more ++ [name])
      · rw [if_pos heq, if_pos ⟨heq ▸ List.prefix_append _ _, heq ▸ List.prefix_refl _⟩]
      · rw [if_neg heq]
        simp only [hiff, heq, or_false]

end FileTree

end CabalManifest
