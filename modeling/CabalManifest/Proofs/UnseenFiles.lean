import CabalManifest.Build
import CabalManifest.Proofs.FetchedDocuments
import Mathlib.Data.List.Sort

/-!
# Files that nothing looks at

After a file has been put somewhere, a path that does not lead there finds what it found before, and
all directories are where they were (`World.PutsFile`). A source directory may list the new file; but
the file of a package description is that of no module, so inference does not see it
(`Package.infer_putsFile`).
-/

namespace CabalManifest

open Discovery (discover modulesIn modulesOf)

/-! ### Putting a file somewhere -/

namespace FileTree

variable {tree : FileTree} {target : Location}

/-- A file is put in one place, and all other places stay as they are. -/
theorem get?_insert_file (hfile : tree.get? target ≠ some .directory) (content : ByteArray)
    (location : Location) :
    (tree.insert target (.file content)).get? location =
      if location = target then some (.file content) else tree.get? location :=
  tree.get?_insert location _ (by rintro rfl; exact hfile rfl)

/-- Names lead where they led before. If they are led through the file, this is now what is wrong
with them, and no longer that something is missing. -/
theorem follow_insert_file (hfile : tree.get? target ≠ some .directory) (content : ByteArray)
    (location : Location) (names : List String) :
    (tree.insert target (.file content)).follow location names = tree.follow location names ∨
      (tree.insert target (.file content)).follow location names = .error .throughFile ∧
        tree.follow location names = .error .missing := by
  have hget := get?_insert_file hfile content
  induction names generalizing location with
  | nil => exact .inl (by rw [follow_nil, follow_nil])
  | cons name names ih =>
    by_cases htarget : location = target
    · have hnew : (tree.insert target (.file content)).follow location (name :: names) =
          .error .throughFile := by
        rw [follow, hget, if_pos htarget]
      rw [hnew, follow]
      cases hentry : tree.get? location with
      | none => exact .inr ⟨rfl, rfl⟩
      | some entry =>
        cases entry with
        | file => exact .inl rfl
        | directory => exact absurd (htarget ▸ hentry) hfile
    · have hsame : (tree.insert target (.file content)).get? location = tree.get? location := by
        rw [hget, if_neg htarget]
      cases hentry : tree.get? location with
      | none =>
        rw [follow, follow, hsame, hentry]
        exact .inl rfl
      | some entry =>
        cases entry with
        | file =>
          rw [follow, follow, hsame, hentry]
          exact .inl rfl
        | directory =>
          rw [follow_cons hentry, follow_cons (hsame.trans hentry)]
          cases step location name with
          | error => exact .inl rfl
          | ok next => exact ih next

/-- A sorted list is filtered to the sorted list of what is left. -/
theorem filter_sortTexts (kept : String → Bool) (texts : List String) :
    (sortTexts texts).filter kept = sortTexts (texts.filter kept) := by
  have hsorted : ∀ texts, (sortTexts texts).Pairwise (· ≤ ·) := fun texts ↦ by
    have hpairs : (sortTexts texts).Pairwise fun a b ↦ decide (a ≤ b) = true :=
      List.pairwise_mergeSort (fun a b c ↦ by simpa using String.le_trans)
        (fun a b ↦ by simpa using String.le_total a b) texts
    exact hpairs.imp of_decide_eq_true
  have hperm : ∀ texts, (sortTexts texts).Perm texts := fun texts ↦ List.mergeSort_perm texts _
  refine List.Perm.eq_of_pairwise' ((hsorted texts).filter kept) (hsorted _) ?_
  exact ((hperm texts).filter kept).trans (hperm _).symm

end FileTree

/-! ### What source directories show -/

namespace Discovery

/-- Files that are of no module do not matter to the modules of a listing. -/
theorem modulesOf_filter (files : List String) :
    modulesOf (files.filter fun file ↦ (ModuleName.ofPath? file).isSome) = modulesOf files := by
  rw [modulesOf, modulesOf, List.filterMap_filter]
  refine congrArg List.eraseDups (List.filterMap_congr fun file _ ↦ ?_)
  cases ModuleName.ofPath? file <;> rfl

end Discovery

namespace FileTree

/-- The path of a file from a location that it is below. -/
def pathBelow? (base : Location) (found : Location × Entry) : Option String :=
  match found.2 with
  | .file _ =>
    if base.isPrefixOf found.1 then some ("/".intercalate (found.1.drop base.length)) else none
  | .directory => none

/-- The files below a directory are all files of the tree with a path below it, sorted. -/
theorem filesBelow_eq (tree : FileTree) (base : Location) :
    tree.filesBelow base = sortTexts (tree.entries.filterMap (pathBelow? base)) :=
  rfl

/-- Whether a file at a location is that of no module, from wherever it is seen. -/
def HasNoModule (location : Location) : Prop :=
  ∀ base : Location, base <+: location →
    ModuleName.ofPath? ("/".intercalate (location.drop base.length)) = none

/-- A file that is no module is not among the modules below any directory. -/
theorem HasNoModule.filter_pathBelow? (h : HasNoModule target) (base : Location)
    {found : Location × Entry} (hfound : found.1 = target) :
    (pathBelow? base found).filter (fun file ↦ (ModuleName.ofPath? file).isSome) = none := by
  obtain ⟨location, entry⟩ := found
  obtain rfl : location = target := hfound
  cases entry with
  | directory => rfl
  | file =>
    rw [pathBelow?]
    simp only
    split
    · next hbase => simp [h base (List.isPrefixOf_iff_prefix.1 hbase)]
    · rfl

/-- A file that is of no module changes no modules of a listing. -/
theorem modulesOf_filesBelow_insert (tree : FileTree) (h : HasNoModule target)
    (content : ByteArray) (base : Location) :
    modulesOf ((tree.insert target (.file content)).filesBelow base) =
      modulesOf (tree.filesBelow base) := by
  rw [← Discovery.modulesOf_filter, ← Discovery.modulesOf_filter (tree.filesBelow base)]
  simp only [filesBelow_eq, filter_sortTexts, List.filter_filterMap]
  refine congrArg (fun files ↦ modulesOf (sortTexts files)) ?_
  show List.filterMap _ ((target, Entry.file content) :: tree.entries.filter _) = _
  rw [List.filterMap_cons, h.filter_pathBelow? base rfl, List.filterMap_filter]
  refine List.filterMap_congr fun found _ ↦ ?_
  split
  · rfl
  · next hsame => exact (h.filter_pathBelow? base (by simpa using hsame)).symm

end FileTree

/-! ### Worlds with a further file -/

/-- Whether a world is another one with a file put at a location, for all that can be seen on disk. -/
structure World.PutsFile (world : World) (target : Location) (later : World) : Prop where
  place_eq : later.place = world.place
  not_directory : world.tree.get? target ≠ some .directory
  exists_tree_eq : ∃ content, later.tree = world.tree.insert target (.file content)

namespace World

variable {world : World} {path : PosixPath} {location : Location}

theorem isDirectory_of_ne (hfollow : world.follow path = .ok location)
    (hentry : world.tree.get? location ≠ some .directory) :
    world.isDirectory path = .ok false := by
  rw [isDirectory, find?, find, bind_of_eq_ok hfollow]
  cases hget : world.tree.get? location with
  | none => cases checkPath path <;> rfl
  | some entry =>
    cases entry with
    | file => cases checkPath path <;> rfl
    | directory => exact absurd hget hentry

/-- The files of a directory are those below the place that its path leads to. -/
theorem listFiles_of_follow (hdirectory : world.isDirectory path = .ok true)
    (hfollow : world.follow path = .ok location) :
    world.listFiles path = .ok (world.tree.filesBelow location) := by
  rw [listFiles, bind_of_eq_ok hdirectory, if_pos rfl, hfollow]
  rfl

end World

namespace World.PutsFile

variable {world later : World} {target : Location}

/-- A path leads where it led, or it went missing before and now goes through the file. -/
theorem follow_eq (h : world.PutsFile target later) (path : PosixPath) :
    later.follow path = world.follow path ∨
      later.follow path = .error .throughFile ∧ world.follow path = .error .missing := by
  obtain ⟨content, htree⟩ := h.exists_tree_eq
  rw [World.follow, World.follow, htree, World.startOf, World.startOf, h.place_eq]
  split
  · exact .inl rfl
  · exact FileTree.follow_insert_file h.not_directory content _ _

/-- Where a path leads, it still leads. -/
theorem follow (h : world.PutsFile target later) {path : PosixPath} {location : Location}
    (hfollow : world.follow path = .ok location) : later.follow path = .ok location := by
  rcases h.follow_eq path with hsame | ⟨-, hbefore⟩
  · exact hsame.trans hfollow
  · cases hfollow.symm.trans hbefore

/-- Any other place has what it had. -/
theorem get?_eq (h : world.PutsFile target later) {location : Location} (hne : location ≠ target) :
    later.tree.get? location = world.tree.get? location := by
  obtain ⟨content, htree⟩ := h.exists_tree_eq
  rw [htree, FileTree.get?_insert_file h.not_directory, if_neg hne]

/-- A file is put where no directory is. -/
theorem keepsDirectories (h : world.PutsFile target later) :
    world.tree.KeepsDirectories later.tree := by
  obtain ⟨content, htree⟩ := h.exists_tree_eq
  rw [htree]
  exact FileTree.keepsDirectories_insert h.not_directory content

/-- A world stays sound when a file is put where a path leads. -/
theorem isSound (h : world.PutsFile target later) (hsound : world.IsSound) {path : PosixPath}
    (hfollow : world.follow path = .ok target) : later.IsSound := by
  obtain ⟨content, htree⟩ := h.exists_tree_eq
  have hroot : target ≠ [] := by
    rintro rfl
    exact h.not_directory rfl
  have hadmits := hsound.tree.admits_of_follow (hsound.admits_startOf path)
    (World.tree_follow_of_follow hfollow)
  refine ⟨?_, ?_⟩
  · rw [htree]
    exact hsound.tree.insert hroot hadmits (.inr h.not_directory)
  · rw [h.place_eq]
    exact h.keepsDirectories _ hsound.place

/-- What is logged in between does not matter. -/
theorem of_log {log : List (Level × String)}
    (h : World.PutsFile { world with log := log } target later) : world.PutsFile target later :=
  ⟨h.place_eq, h.not_directory, h.exists_tree_eq⟩

/-- A path that does not lead to the file finds what it found before. -/
theorem find?_eq (h : world.PutsFile target later) {path : PosixPath}
    (hpath : world.follow path ≠ .ok target) : later.find? path = world.find? path := by
  rw [World.find?, World.find?]
  cases World.checkPath path with
  | error => rfl
  | ok =>
    rcases h.follow_eq path with hsame | ⟨hlater, hbefore⟩
    · have hfind : later.find path = world.find path := by
        rw [World.find, World.find, hsame]
        cases hfollow : world.follow path with
        | error => rfl
        | ok location =>
          have hget := h.get?_eq fun heq ↦ hpath (heq ▸ hfollow)
          rw [bind_of_eq_ok rfl, bind_of_eq_ok rfl, hget]
      rw [hfind]
    · rw [World.find, World.find, hlater, hbefore]
      rfl

/-- A path that does not lead to the file is one of a file as before. -/
theorem isFile_eq (h : world.PutsFile target later) {path : PosixPath}
    (hpath : world.follow path ≠ .ok target) : later.isFile path = world.isFile path := by
  rw [World.isFile, World.isFile, h.find?_eq hpath]

/-- All paths lead to directories as they did before. -/
theorem isDirectory_eq (h : world.PutsFile target later) (path : PosixPath) :
    later.isDirectory path = world.isDirectory path := by
  by_cases hpath : world.follow path = .ok target
  · obtain ⟨content, htree⟩ := h.exists_tree_eq
    rw [World.isDirectory_of_ne hpath h.not_directory, World.isDirectory_of_ne (h.follow hpath)]
    rw [htree, FileTree.get?_insert_file h.not_directory, if_pos rfl]
    exact nofun
  · rw [World.isDirectory, World.isDirectory, h.find?_eq hpath]

/-- A directory lists the same files as before, or files of the same modules. -/
theorem listFiles_eq (h : world.PutsFile target later) (hmodule : FileTree.HasNoModule target)
    (path : PosixPath) : later.listFiles path = world.listFiles path ∨
      ∃ files files', world.listFiles path = .ok files ∧ later.listFiles path = .ok files' ∧
        modulesOf files' = modulesOf files := by
  have hsame := h.isDirectory_eq path
  rcases hdirectory : world.isDirectory path with failure | (_ | _)
  · rw [World.listFiles, World.listFiles, hsame, hdirectory]
    exact .inl rfl
  · rw [World.listFiles, World.listFiles, hsame, hdirectory]
    exact .inl rfl
  · obtain ⟨location, hfollow, -⟩ := World.exists_follow_of_isDirectory hdirectory
    obtain ⟨content, htree⟩ := h.exists_tree_eq
    refine .inr ⟨_, _, World.listFiles_of_follow hdirectory hfollow,
      World.listFiles_of_follow (hsame.trans hdirectory) (h.follow hfollow), ?_⟩
    rw [htree]
    exact FileTree.modulesOf_filesBelow_insert _ hmodule content location

/-- A source directory shows the same modules as before, if the file is of none. -/
theorem lister_eq (h : world.PutsFile target later) (hmodule : FileTree.HasNoModule target)
    (directory : PosixPath) (dir : String) :
    Option.map modulesOf <$> later.lister directory dir =
      Option.map modulesOf <$> world.lister directory dir := by
  have hlists := h.listFiles_eq hmodule (directory.below dir)
  unfold World.lister
  generalize later.listFiles (directory.below dir) = listed',
    world.listFiles (directory.below dir) = listed at hlists ⊢
  rcases hlists with hsame | ⟨files, files', rfl, rfl, hmodules⟩
  · rw [hsame]
  · show Except.ok (some (modulesOf files')) = Except.ok (some (modulesOf files))
    rw [hmodules]

end World.PutsFile

/-! ### Inference from the same modules -/

section

variable {m : Type → Type} [Monad m] {lister lister' : Listing m}

/-- Listers that show the same modules discover the same. -/
theorem discover_congr (h : modulesIn lister = modulesIn lister') :
    discover lister = discover lister' := by
  funext dirs
  rw [discover, discover, h]

mutual

/-- Such listers find the same inside of a scope. -/
theorem FieldSet.foundInside_congr (h : modulesIn lister = modulesIn lister')
    (fields : FieldSet) : fields.foundInside lister = fields.foundInside lister' := by
  rw [FieldSet.foundInside, FieldSet.foundInside, discover_congr h,
    Conditional.foundIn_congr h fields.conditionals]
termination_by sizeOf fields
decreasing_by exact fields.sizeOf_conditionals_lt

/-- They find the same inside of conditionals. -/
theorem Conditional.foundIn_congr (h : modulesIn lister = modulesIn lister')
    (conditionals : List Conditional) :
    Conditional.foundIn lister conditionals = Conditional.foundIn lister' conditionals := by
  match conditionals with
  | [] => rw [Conditional.foundIn, Conditional.foundIn]
  | ⟨_, thenFields, none⟩ :: rest =>
    rw [Conditional.foundIn, Conditional.foundIn, FieldSet.foundInside_congr h thenFields,
      Conditional.foundIn_congr h rest]
  | ⟨_, thenFields, some elseFields⟩ :: rest =>
    rw [Conditional.foundIn, Conditional.foundIn, FieldSet.foundInside_congr h thenFields,
      FieldSet.foundInside_congr h elseFields, Conditional.foundIn_congr h rest]
termination_by sizeOf conditionals

end

theorem claimed_congr (h : modulesIn lister = modulesIn lister') :
    claimed lister = claimed lister' := by
  funext outer fields conditionals
  rw [claimed, claimed, Conditional.foundIn_congr h]

theorem unclaimed_congr (h : modulesIn lister = modulesIn lister') :
    unclaimed lister = unclaimed lister' := by
  funext dirs known
  rw [unclaimed, unclaimed, discover_congr h]

mutual

/-- Branches are inferred alike with such listers. -/
theorem FieldSet.inferBranch_congr (h : modulesIn lister = modulesIn lister')
    (outer : List String) (fields : FieldSet) :
    fields.inferBranch lister outer = fields.inferBranch lister' outer := by
  have hnested := fun outer ↦ Conditional.inferAll_congr h outer fields.conditionals
  rw [FieldSet.inferBranch, FieldSet.inferBranch, claimed_congr h, unclaimed_congr h]
  simp only [hnested]
termination_by sizeOf fields
decreasing_by exact fields.sizeOf_conditionals_lt

/-- So are lists of conditionals. -/
theorem Conditional.inferAll_congr (h : modulesIn lister = modulesIn lister')
    (outer : List String) (conditionals : List Conditional) :
    Conditional.inferAll lister outer conditionals =
      Conditional.inferAll lister' outer conditionals := by
  match conditionals with
  | [] => rw [Conditional.inferAll, Conditional.inferAll]
  | ⟨_, thenFields, none⟩ :: rest =>
    rw [Conditional.inferAll, Conditional.inferAll, FieldSet.inferBranch_congr h outer thenFields,
      Conditional.inferAll_congr h outer rest]
  | ⟨_, thenFields, some elseFields⟩ :: rest =>
    rw [Conditional.inferAll, Conditional.inferAll, FieldSet.inferBranch_congr h outer thenFields,
      FieldSet.inferBranch_congr h outer elseFields, Conditional.inferAll_congr h outer rest]
termination_by sizeOf conditionals

end

theorem infer_congr (h : modulesIn lister = modulesIn lister') :
    @infer m _ lister = infer lister' := by
  funext dirs fields conditionals exposes pathsModule
  rw [infer, infer, claimed_congr h, unclaimed_congr h]

theorem Section.inferWith_congr (h : modulesIn lister = modulesIn lister') :
    @Section.inferWith m _ lister = Section.inferWith lister' := by
  funext package part
  rw [inferWith, inferWith, infer_congr h]
  simp only [Conditional.inferAll_congr h]

/-- So are whole packages. -/
theorem Package.inferWith_congr (h : modulesIn lister = modulesIn lister')
    (package : Package) : package.inferWith lister = package.inferWith lister' := by
  rw [inferWith, inferWith, Section.inferWith_congr h]

end

/-- Only the modules of a listing matter, and whether there is one. -/
theorem modulesIn_congr {lister lister' : Lister}
    (h : ∀ dir, Option.map modulesOf <$> lister dir = Option.map modulesOf <$> lister' dir) :
    modulesIn lister = modulesIn lister' := by
  funext dir
  refine StateT.ext fun state ↦ ?_
  have hdir := h dir
  rw [modulesIn, modulesIn, StateT.run_bind, StateT.run_bind, StateT.run_get]
  simp only [pure_bind]
  split
  · rfl
  · rcases hlisted : lister dir with failure | files? <;>
      rcases hlisted' : lister' dir with failure' | files?' <;> rw [hlisted, hlisted'] at hdir
    · cases hdir
      rfl
    · cases hdir
    · cases hdir
    · rw [Except.map_ok, Except.map_ok, Except.ok.injEq] at hdir
      have hmodules : modulesOf (files?.getD []) = modulesOf (files?'.getD []) := by
        cases files? <;> cases files?' <;> simp_all
      have hthere : files?.isSome = files?'.isSome := by
        rw [← Option.isSome_map, hdir, Option.isSome_map]
      show Except.ok _ = Except.ok _
      simp only [hmodules, hthere]

/-! ### Package descriptions -/

namespace PosixPath

/-- The last name of a text is what stands behind its last slash. -/
theorem exists_namesOf_append {before : List Char} {last : String}
    (hbefore : before = [] ∨ ∃ cs, before = cs ++ ['/']) (hslash : '/' ∉ last.toList)
    (hproper : last ≠ "" ∧ last ≠ ".") :
    ∃ front, namesOf (before ++ last.toList) = front ++ [last] := by
  have hlast : namesOf last.toList = [last] := by
    rw [namesOf, List.splitOn_eq_singleton hslash]
    simp [hproper]
  rcases hbefore with rfl | ⟨cs, rfl⟩
  · exact ⟨[], hlast⟩
  · refine ⟨namesOf cs, ?_⟩
    rw [List.append_assoc, List.singleton_append, ← hlast, namesOf, List.splitOn_append_cons_self,
      List.map_append, List.filter_append]
    rfl

/-- Every text has something behind its last slash, be it nothing. -/
theorem exists_append_of_slash (cs : List Char) :
    ∃ before last, cs = before ++ last ∧ '/' ∉ last ∧
      (before = [] ∨ ∃ cs, before = cs ++ ['/']) := by
  by_cases hslash : '/' ∈ cs
  · obtain ⟨last, before, hcs, hlast⟩ := List.eq_append_cons_of_mem (List.mem_reverse.2 hslash)
    refine ⟨before.reverse ++ ['/'], last.reverse, ?_, by simpa using hlast, .inr ⟨_, rfl⟩⟩
    have := congrArg List.reverse hcs
    simpa using this
  · exact ⟨[], cs, rfl, hslash, .inl rfl⟩

theorem exists_toList_intercalate (names : List String) (last : String) :
    ∃ before, ("/".intercalate (names ++ [last])).toList = before ++ last.toList ∧
      (before = [] ∨ ∃ cs, before = cs ++ ['/']) := by
  have hjoin : ∀ names : List (List Char), ∃ before, ['/'].intercalate (names ++ [last.toList]) =
      before ++ last.toList ∧ (before = [] ∨ ∃ cs, before = cs ++ ['/']) := by
    intro names
    induction names with
    | nil => exact ⟨[], by simp, .inl rfl⟩
    | cons name names ih =>
      obtain ⟨before, hbefore, hslash⟩ := ih
      refine ⟨name ++ ['/'] ++ before, ?_, .inr ?_⟩
      · rw [List.cons_append, List.intercalate_cons_of_ne_nil (by simp), hbefore]
        simp only [List.append_assoc]
      · rcases hslash with rfl | ⟨cs, rfl⟩
        · exact ⟨name, List.append_nil _⟩
        · exact ⟨name ++ ['/'] ++ cs, by simp⟩
  rw [String.toList_intercalate, List.map_append]
  exact hjoin (names.map String.toList)

/-- The name of a description ends in no suffix but its own. -/
theorem suffix_cabal (root : Root) (names : List String) (stem : String) :
    (PosixPath.mk root (names ++ [stem ++ ".cabal"])).suffix ∈ ["", ".cabal"] := by
  have hreverse : (stem ++ ".cabal").toList.reverse =
      ['l', 'a', 'b', 'a', 'c'] ++ '.' :: stem.toList.reverse := by
    simp
  rw [suffix, name, List.getLastD_concat, splitName, hreverse]
  cases stem.toList.reverse <;> simp

/-- The name of a package description is not a short one. -/
theorem ne_cabal (stem : String) {text : String} (h : text.length < 6) :
    stem ++ ".cabal" ≠ text := by
  rintro rfl
  rw [String.length_append] at h
  exact absurd h (Nat.not_lt.2 (Nat.le_add_left 6 _))

/-- The last name of a description has its suffix. -/
theorem exists_namesOf_cabal {before : List Char} {stem : String}
    (hbefore : before = [] ∨ ∃ cs, before = cs ++ ['/']) (hslash : '/' ∉ stem.toList) :
    ∃ front, namesOf (before ++ (stem ++ ".cabal").toList) = front ++ [stem ++ ".cabal"] :=
  exists_namesOf_append hbefore (by simpa using hslash)
    ⟨ne_cabal _ (by decide), ne_cabal _ (by decide)⟩

theorem exists_names_ofString_cabal (name : String) :
    ∃ before stem, (ofString (name ++ ".cabal")).names = before ++ [stem ++ ".cabal"] ∧
      '/' ∉ stem.toList := by
  obtain ⟨before, last, hname, hslash, hbefore⟩ := exists_append_of_slash name.toList
  have htext : (name ++ ".cabal").toList = before ++ (String.ofList last ++ ".cabal").toList := by
    simp [hname]
  have hslash' : '/' ∉ (String.ofList last).toList := by rwa [String.toList_ofList]
  obtain ⟨front, hfront⟩ := exists_namesOf_cabal hbefore hslash'
  exact ⟨front, _, by rw [ofString, htext, hfront], hslash'⟩

end PosixPath

/-- Whether a file has the name of a package description. -/
def IsDescription (location : Location) : Prop :=
  ∃ before stem, location = before ++ [stem ++ ".cabal"] ∧ '/' ∉ stem.toList

/-- A package description is that of no module. -/
theorem IsDescription.hasNoModule {location : Location} (h : IsDescription location) :
    FileTree.HasNoModule location := by
  obtain ⟨before, stem, rfl, hslash⟩ := h
  rintro base ⟨rest, hrest⟩
  have hdrop : (before ++ [stem ++ ".cabal"]).drop base.length = rest := by
    rw [← hrest, List.drop_left]
  rw [hdrop]
  rcases List.eq_nil_or_concat rest with rfl | ⟨names, last, rfl⟩
  · rfl
  · rw [List.concat_eq_append] at hrest ⊢
    obtain rfl : last = stem ++ ".cabal" := by
      have hlast := congrArg List.getLast? hrest
      simpa [← List.append_assoc] using hlast
    obtain ⟨start, htext, hstart⟩ := PosixPath.exists_toList_intercalate names (stem ++ ".cabal")
    obtain ⟨front, hfront⟩ := PosixPath.exists_namesOf_cabal hstart hslash
    have hsuffix := PosixPath.suffix_cabal (PosixPath.rootOf (start ++ (stem ++ ".cabal").toList))
      front stem
    rw [ModuleName.ofPath?, PosixPath.ofString, htext, hfront]
    have hnone : ModuleName.suffixes.contains (PosixPath.mk (PosixPath.rootOf
        (start ++ (stem ++ ".cabal").toList)) (front ++ [stem ++ ".cabal"])).suffix = false := by
      rcases List.mem_pair.1 hsuffix with h | h <;> rw [h] <;> decide
    simp only [hnone, Bool.false_and, Bool.false_eq_true, if_false]

/-- A text that ends in a name leads to something of this name. -/
theorem World.IsPlaced.exists_of_follow_below {world : World} (h : world.IsPlaced)
    {directory : PosixPath} {text last : String} {front : List String}
    (htext : (PosixPath.ofString text).names = front ++ [last]) (hlast : last ≠ "." ∧ last ≠ "..")
    {location : Location} (hfollow : world.follow (directory.below text) = .ok location) :
    ∃ before, location = before ++ [last] := by
  obtain ⟨root, names, hbelow⟩ : ∃ root names, directory.below text = ⟨root, names ++ [last]⟩ := by
    rw [PosixPath.below, PosixPath.join]
    split
    · exact ⟨(PosixPath.ofString text).root, front, by rw [← htext]⟩
    · exact ⟨directory.root, directory.names ++ front, by rw [htext, List.append_assoc]⟩
  have hlocation : (world.resolve (directory.below text)).names = location :=
    congrArg PosixPath.names (h.eq_of_follow hfollow)
  rw [hbelow, World.resolve,
    PosixPath.names_resolve_append _ _ _ (List.forall_mem_singleton.2 hlast)] at hlocation
  exact ⟨_, hlocation.symm⟩

/-- The path of a description leads to a place that is one of a description. -/
theorem World.IsPlaced.isDescription {world : World} (h : world.IsPlaced) {directory : PosixPath}
    {name : String} {location : Location}
    (hfollow : world.follow (directory.below (name ++ ".cabal")) = .ok location) :
    IsDescription location := by
  obtain ⟨front, stem, hnames, hslash⟩ := PosixPath.exists_names_ofString_cabal name
  obtain ⟨before, rfl⟩ := h.exists_of_follow_below hnames
    ⟨PosixPath.ne_cabal _ (by decide), PosixPath.ne_cabal _ (by decide)⟩ hfollow
  exact ⟨before, stem, rfl, hslash⟩

/-- The license does not stand where a package description does. -/
theorem IsDescription.follow_license_ne {location : Location} (h : IsDescription location)
    {world : World} (hplaced : world.IsPlaced) (directory : PosixPath) :
    world.follow (directory.below FieldSet.licenseFile) ≠ .ok location := by
  intro hfollow
  obtain ⟨before, stem, rfl, -⟩ := h
  have hlicense : (PosixPath.ofString FieldSet.licenseFile).names = [] ++ ["LICENSE"] := by
    decide
  obtain ⟨before', hlocation⟩ := hplaced.exists_of_follow_below hlicense (by decide) hfollow
  have hname : stem ++ ".cabal" = "LICENSE" := by
    have hlast := congrArg List.getLast? hlocation
    simpa using hlast
  have hend := congrArg (·.toList.getLast?) hname
  rw [String.toList_append, List.getLast?_append_of_ne_nil _ (by decide)] at hend
  exact absurd hend (by decide)

/-- Inference does not see a package description. -/
theorem Package.infer_putsFile {world later : World} {target : Location}
    (h : world.PutsFile target later) (htarget : IsDescription target) (directory : PosixPath)
    (package : Package) :
    package.infer (later.lister directory) = package.infer (world.lister directory) :=
  package.inferWith_congr (modulesIn_congr fun dir ↦ h.lister_eq htarget.hasNoModule directory dir)

end CabalManifest
