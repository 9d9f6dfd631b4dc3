import CabalManifest.Proofs.Resolving

/-!
# What runs keep

A run in the world *keeps* a fact if the fact holds after the run whenever it held before, also where
the run fails (`Run.Keeps`). None of the operations on files fails by reporting a cycle or a fault of
a document (`Failure.IsOutside`), and what leads to a file is known from those that succeed.
-/

namespace CabalManifest

/-- A failure of the outside: it neither reports a cycle nor says what is wrong with a document. -/
def Failure.IsOutside : Failure → Prop
  | .cyclicDefaults _ | .invalid .. => False
  | _ => True

/-- A failure that comes from outside is no cycle. -/
theorem Failure.IsOutside.notCycle {failure : Failure} (h : failure.IsOutside) :
    failure.NotCycle := by
  cases failure <;> first | exact id | exact h.elim

/-- No failure of the outside reports a cycle. -/
theorem Yields.notCycle {α : Type} {p : α → Prop} {result : Except Failure α}
    (h : Yields Failure.IsOutside p result) : Yields Failure.NotCycle p result :=
  h.allow fun _ ↦ Failure.IsOutside.notCycle

namespace Run

variable {α β : Type} {kept : World → Prop} {p : α → Prop} {q : β → Prop} {m : Run α}

/-- Whether a run keeps a fact about the world. Its results pass a test, and no failure reports a
cycle. -/
def Keeps (kept : World → Prop) (p : α → Prop) (m : Run α) : Prop :=
  ∀ world, kept world → kept (m.run world).2 ∧ Yields Failure.NotCycle p (m.run world).1

namespace Keeps

/-- To return keeps the world. -/
theorem pure {a : α} (h : p a) : (Pure.pure a : Run α).Keeps kept p := fun _ hkept ↦ ⟨hkept, .ok h⟩

/-- So does a failure. -/
theorem throw {failure : Failure} (h : ¬failure.IsCycle) :
    (MonadExcept.throw failure : Run α).Keeps kept p :=
  fun _ hkept ↦ ⟨hkept, .error h⟩

/-- One step after another keeps what both keep. -/
theorem bind {k : α → Run β} (h : m.Keeps kept p) (hk : ∀ a, p a → (k a).Keeps kept q) :
    (m >>= k).Keeps kept q := by
  intro world hworld
  obtain ⟨hkept, hyields⟩ := h world hworld
  rcases hrun : m.run world with ⟨failure | a, world'⟩ <;> rw [hrun] at hkept hyields
  · rw [run_bind_of_error hrun]
    exact ⟨hkept, .error hyields.of_error⟩
  · rw [run_bind_of_ok hrun]
    exact hk a hyields.of_ok world' hkept

/-- Reading keeps everything. -/
theorem reading {read : World → Except Failure α} {r : World → α → Prop}
    (hread : ∀ world, Yields Failure.NotCycle (r world) (read world))
    (h : ∀ world a, kept world → r world a → p a) : (Run.reading read).Keeps kept p := by
  intro world hworld
  rw [run_reading]
  exact ⟨hworld, (hread world).imp fun a ha ↦ h world a hworld ha⟩

/-- A change keeps what it keeps of every world. -/
theorem modifyGet {f : World → α × World} (h : ∀ world, kept world → p (f world).1 ∧ kept (f world).2) :
    (MonadStateOf.modifyGet f : Run α).Keeps kept p :=
  fun world hworld ↦ ⟨(h world hworld).2, .ok (h world hworld).1⟩

/-- A change that may fail keeps what it keeps where it does not fail. -/
theorem changing {change : World → Except Failure World}
    (h : ∀ world, kept world → Yields Failure.NotCycle kept (change world)) :
    (Run.changing change).Keeps kept fun _ ↦ True := by
  intro world hworld
  have hchange := h world hworld
  have hread : (Run.reading change).run world = (change world, world) := run_reading change world
  rw [Run.changing]
  cases hresult : change world with
  | error failure =>
    rw [hresult] at hread hchange
    rw [run_bind_of_error hread]
    exact ⟨hworld, .error hchange.of_error⟩
  | ok world' =>
    rw [hresult] at hread hchange
    rw [run_bind_of_ok hread]
    exact ⟨hchange.of_ok, .ok trivial⟩

/-- Making directories keeps what it keeps of every world. -/
theorem makeDirectories {path : PosixPath} (h : ∀ world, kept world → kept (world.makeDirectories path).1)
    (hyields : ∀ world : World, Yields Failure.NotCycle (fun _ ↦ True) (world.makeDirectories path).2) :
    (Run.makeDirectories path).Keeps kept fun _ ↦ True := by
  intro world hworld
  have hkept := h world hworld
  have hresult := hyields world
  have hget : (get : Run World).run world = (.ok world, world) := rfl
  rw [Run.makeDirectories, run_bind_of_ok hget]
  rcases hmade : world.makeDirectories path with ⟨world', result⟩
  rw [hmade] at hkept hresult
  have hset : (set world' : Run Unit).run world = (.ok (), world') := rfl
  rw [run_bind_of_ok hset]
  cases result with
  | error failure => exact ⟨hkept, .error hresult.of_error⟩
  | ok => exact ⟨hkept, .ok trivial⟩

end Keeps

end Run

namespace World

variable (world : World)

/-! ### Reading files -/

/-- A path is refused with a failure from outside. -/
theorem yields_checkPath (path : PosixPath) :
    Yields Failure.IsOutside (fun _ ↦ True) (checkPath path) := by
  rw [checkPath]
  split
  · exact .error trivial
  · split
    · exact .error trivial
    · exact .ok trivial

/-- A path that leads nowhere is a failure from outside. -/
theorem isOutside_strayFailure (path : PosixPath) (stray : Stray) :
    (strayFailure path stray).IsOutside := by
  cases stray <;> trivial

/-- So is an entry that cannot be looked for. -/
theorem yields_find? (path : PosixPath) :
    Yields Failure.IsOutside (fun found ↦ ∀ entry, found = some entry → world.find path = .ok entry)
      (world.find? path) := by
  rw [find?.eq_def]
  split
  · next entry _ hfind =>
    refine .ok ?_
    rintro _ ⟨⟩
    exact hfind
  · exact .error trivial
  · exact .ok nofun

/-- A file that is found is there. -/
theorem yields_isFile (path : PosixPath) :
    Yields Failure.IsOutside (fun found ↦ found = true → ∃ content, world.find path = .ok (.file content))
      (world.isFile path) := by
  refine (world.yields_find? path).bind fun found hfound ↦ ?_
  split
  · exact .ok fun _ ↦ ⟨_, hfound _ rfl⟩
  · exact .ok nofun

/-- The content that is read is that of the file. -/
theorem yields_readBytes (path : PosixPath) :
    Yields Failure.IsOutside (fun content ↦ world.find path = .ok (.file content))
      (world.readBytes path) := by
  refine (yields_checkPath path).bind fun _ _ ↦ ?_
  split
  · next hfind => exact .ok hfind
  · exact .error trivial
  · exact .error (isOutside_strayFailure path _)

/-- A file that was read is there. -/
theorem find_of_readBytes {world : World} {path : PosixPath} {content : ByteArray}
    (h : world.readBytes path = .ok content) : world.find path = .ok (.file content) := by
  have hyields := world.yields_readBytes path
  rw [h] at hyields
  exact hyields.of_ok

/-- A path is shortened, or fails from outside. -/
theorem yields_shorten (path : PosixPath) (root : Option PosixPath) :
    Yields Failure.IsOutside (fun _ ↦ True) (world.shorten path root) := by
  refine (yields_checkPath path).bind fun _ _ ↦ ?_
  dsimp only
  split <;> exact .ok trivial

/-- Making a directory fails like following its path, or because there is something there. -/
theorem yields_makeDirectories (path : PosixPath) :
    Yields Failure.IsOutside (fun _ ↦ True) (world.makeDirectories path).2 := by
  have hcheck := yields_checkPath path
  rw [World.makeDirectories]
  split
  · next failure hfailure =>
    rw [hfailure] at hcheck
    exact .error hcheck.of_error
  · rcases world.tree.makeDirectories (world.startOf path) path.names.reverse with
      ⟨tree, ⟨stray | _, names⟩ | _⟩
    · exact .error (isOutside_strayFailure _ stray)
    · exact .error trivial
    · exact .ok trivial

/-! ### Matching patterns -/

/-- Filtering fails from outside if a test does. -/
theorem yields_filterM {α : Type} {test : α → Except Failure Bool}
    (h : ∀ item, Yields Failure.IsOutside (fun _ ↦ True) (test item)) (items : List α) :
    Yields Failure.IsOutside (fun _ ↦ True) (items.filterM test) := by
  have haux : ∀ items found : List α,
      Yields Failure.IsOutside (fun _ ↦ True) (items.filterAuxM test found) := by
    intro items
    induction items with
    | nil => exact fun _ ↦ .ok trivial
    | cons item items ih => exact fun found ↦ (h item).bind fun _ _ ↦ ih _
  exact (haux items []).bind fun _ _ ↦ .ok trivial

/-- A pattern is resolved, or fails from outside. -/
theorem yields_glob (directory : PosixPath) (pattern : String) :
    Yields Failure.IsOutside (fun _ ↦ True) (world.glob directory pattern) := by
  have hfile : ∀ path, Yields Failure.IsOutside (fun _ ↦ True) (world.isFile path) := fun path ↦
    (world.yields_isFile path).imp fun _ _ ↦ trivial
  have hcheck := yields_checkPath
  rw [glob]
  -- How files are told apart and paths are checked stays closed.
  generalize world.isFile = isFile at hfile ⊢
  generalize checkPath = check at hcheck ⊢
  have hfiles : ∀ paths : List PosixPath, Yields Failure.IsOutside (fun _ ↦ True) (do
      let files ← paths.filterM fun path ↦ isFile (directory.join path)
      return FileTree.sortTexts (files.map PosixPath.text)) := fun paths ↦
    (yields_filterM (fun path ↦ hfile _) paths).bind fun _ _ ↦ .ok trivial
  split
  · exact (hfile _).bind fun _ _ ↦ .ok trivial
  · dsimp only
    split
    · exact (hcheck _).bind fun _ _ ↦ hfiles _
    · exact hfiles _

end World

/-- The content of a document on disk is that of a file that is found. -/
theorem Resolver.yields_content_onDisk (resolver : Resolver) (file : PosixPath)
    (label path : String) (world : World) :
    Yields Failure.IsOutside (fun content ↦ world.find file = .ok (.file content))
      ((resolver.content file label (.onDisk path)).run world).1 := by
  have hread := world.yields_readBytes file
  rw [run_content_onDisk]
  generalize world.readBytes file = result at hread ⊢
  cases hread with
  | ok hfind => exact .ok hfind
  | @error failure hfailure => cases failure <;> exact .error hfailure

end CabalManifest
