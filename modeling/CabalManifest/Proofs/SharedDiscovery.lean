import CabalManifest.Proofs.InferredScopes
import Mathlib.Data.List.Forall2

/-!
# Shared discovery

All sections of a package find their modules with one memory. What each of them asks for can be read
off the section itself (`Section.asked`): a scope that infers modules asks for the source directories
of the branches in it before its own, and its branches come after it.

If a directory always has the same files, the memory is not seen in what is inferred. Whatever else
the lister does, all of a run is this: it lists each directory that is asked for and not remembered,
once, in the order in which they are first asked for, and then knows of each what there is to know
(`Discovery.Asks`). Every section gets what it gets by itself (`Package.inferWith_shared`).
-/

namespace CabalManifest

/-! ### Asking once -/

/-- Items that occur in both lists are asked for with the first one. -/
theorem eraseDups_append_eq_filter (items items' : List String) :
    (items ++ items').eraseDups = items.eraseDups ++ items'.eraseDups.filter (· ∉ items) := by
  rw [List.eraseDups_append, filter_eraseDups]
  refine congrArg _ (congrArg _ (List.filter_congr fun other _ ↦ ?_))
  simp

namespace Discovery

/-- The directories that are listed when some are asked for: those that were not listed before, each
one once. -/
def unlisted (known dirs : List String) : List String := dirs.eraseDups.filter (· ∉ known)

@[simp] theorem unlisted_nil_right (known : List String) : unlisted known [] = [] := rfl

theorem unlisted_nil_left (dirs : List String) : unlisted [] dirs = dirs.eraseDups :=
  List.filter_eq_self.2 fun _ _ ↦ decide_eq_true List.not_mem_nil

/-- The directories to list are the ones asked for that are not known yet. -/
theorem mem_unlisted {known dirs : List String} {dir : String} :
    dir ∈ unlisted known dirs ↔ dir ∈ dirs ∧ dir ∉ known := by
  rw [unlisted, List.mem_filter, List.mem_eraseDups, decide_eq_true_iff]

/-- What is asked for later is listed only if it was not asked for before. -/
theorem unlisted_append (known dirs dirs' : List String) :
    unlisted known (dirs ++ dirs') =
      unlisted known dirs ++ unlisted (known ++ unlisted known dirs) dirs' := by
  rw [unlisted, eraseDups_append_eq_filter, List.filter_append, List.filter_filter]
  refine congrArg _ (List.filter_congr fun dir _ ↦ ?_)
  rw [← Bool.decide_and, decide_eq_decide, List.mem_append, mem_unlisted]
  tauto

/-! ### What is known -/

variable (files : String → Option (List String))

/-- The modules of a directory with certain files; without a directory there are none. -/
def modulesAt (dir : String) : List String := modulesOf ((files dir).getD [])

/-- What has been found once some directories have been listed, in order. -/
def after (dirs : List String) : Discovery where
  found := dirs.map fun dir ↦ (dir, modulesAt files dir)
  warnings := (dirs.filter fun dir ↦ (files dir).isNone).map .noSourceDir

/-- If nothing is asked for, nothing is remembered. -/
theorem after_nil : after files [] = start := rfl

/-- After some directories are asked for, each of them is known, and no other one. -/
theorem get?_found_after (dirs : List String) (dir : String) :
    (after files dirs).found.get? dir = if dir ∈ dirs then some (modulesAt files dir) else none := by
  show Entries.get? (dirs.map _) dir = _
  induction dirs with
  | nil => rfl
  | cons first dirs ih =>
    rw [List.map_cons, Entries.get?_cons, ih]
    by_cases h : first = dir
    · simp [h]
    · simp [h, Ne.symm h]

/-- A directory that is listed is remembered last. -/
theorem after_concat {dirs : List String} {dir : String} (h : dir ∉ dirs) :
    after files (dirs ++ [dir]) =
      ⟨(after files dirs).found.insert dir (modulesAt files dir),
        if (files dir).isSome then (after files dirs).warnings
        else (after files dirs).warnings ++ [.noSourceDir dir]⟩ := by
  have hinsert : ∀ dirs : List String, dir ∉ dirs →
      Entries.insert (dirs.map fun dir ↦ (dir, modulesAt files dir)) dir (modulesAt files dir) =
        (dirs ++ [dir]).map fun dir ↦ (dir, modulesAt files dir) := by
    intro dirs hnew
    induction dirs with
    | nil => rfl
    | cons first dirs ih =>
      rw [List.mem_cons, not_or] at hnew
      rw [List.map_cons, Entries.insert, if_neg (Ne.symm hnew.1), ih hnew.2]
      rfl
  rw [after, after, hinsert dirs h, List.filter_append, List.map_append]
  cases hdir : files dir <;> simp [hdir]

/-! ### Runs that ask -/

variable {m : Type → Type} [Monad m] (call : String → m Unit)

/-- Lists files that are always the same, and does something more whenever it is called. -/
def lists : Listing m := fun dir ↦ do
  call dir
  return files dir

/-- Whether a computation asks for some directories, in order, and gives a result. Whatever was listed
before, it calls the lister for each of them that was not, once, in the order of first use. -/
def Asks {α : Type} (dirs : List String) (item : α) (k : Finding m α) : Prop :=
  ∀ known, k.run (after files known) = do
    forM (unlisted known dirs) call
    return (item, after files (known ++ unlisted known dirs))

/-- Whether a computation asks for some directories and gives a result that is always the same. -/
def AsksFor {α : Type} (dirs : List String) (k : Finding m α) : Prop :=
  ∃ item, Asks files call dirs item k

variable {files call} [LawfulMonad m] {α β : Type}

namespace Asks

/-- To return asks for no directory. -/
theorem pure (item : α) : Asks files call [] item (Pure.pure item : Finding m α) := by
  intro known
  simp

/-- One step after another asks for the directories of the first, then for those of the second. -/
theorem bind {dirs dirs' : List String} {item : α} {item' : β} {k : Finding m α}
    {next : α → Finding m β} (h : Asks files call dirs item k)
    (hnext : Asks files call dirs' item' (next item)) :
    Asks files call (dirs ++ dirs') item' (k >>= next) := by
  intro known
  rw [StateT.run_bind, h known]
  simp only [bind_assoc, pure_bind]
  rw [hnext, unlisted_append, List.forM_append, bind_assoc, List.append_assoc]

/-- A computation that asks for nothing more goes on from what another gives. -/
theorem map {dirs : List String} {item : α} {k : Finding m α} (h : Asks files call dirs item k)
    (f : α → β) : Asks files call dirs (f item) (do return f (← k)) := by
  intro known
  rw [StateT.run_bind, h known]
  simp

/-- Computations that are run for each item of a list ask one after the other. -/
theorem of_forall₂ (asked : β → List String) {f : β → Finding m α} {items : List β}
    {results : List α}
    (h : List.Forall₂ (fun item a ↦ Asks files call (asked item) a (f item)) items results) :
    Asks files call (items.flatMap asked) results (items.mapM f) := by
  induction h with
  | nil => exact pure []
  | cons ha _ ih =>
    rw [List.mapM_cons, List.flatMap_cons]
    exact ha.bind (ih.map (_ :: ·))

/-- A step for each of some items asks for the directories of all of them, in order. -/
theorem mapM {asked : β → List String} {f : β → Finding m α} {items : List β}
    (h : ∀ item ∈ items, AsksFor files call (asked item) (f item)) :
    ∃ results, List.Forall₂ (fun item a ↦ Asks files call (asked item) a (f item)) items results ∧
      Asks files call (items.flatMap asked) results (items.mapM f) := by
  obtain ⟨results, hresults⟩ : ∃ results,
      List.Forall₂ (fun item a ↦ Asks files call (asked item) a (f item)) items results := by
    induction items with
    | nil => exact ⟨[], .nil⟩
    | cons item items ih =>
      rw [List.forall_mem_cons] at h
      obtain ⟨⟨a, ha⟩, hrest⟩ := h
      obtain ⟨results, hresults⟩ := ih hrest
      exact ⟨a :: results, .cons ha hresults⟩
  exact ⟨results, hresults, of_forall₂ asked hresults⟩

end Asks

namespace AsksFor

theorem pure (item : α) : AsksFor files call [] (Pure.pure item : Finding m α) := ⟨item, .pure item⟩

theorem bind {dirs dirs' : List String} {k : Finding m α} {next : α → Finding m β}
    (h : AsksFor files call dirs k) (hnext : ∀ item, AsksFor files call dirs' (next item)) :
    AsksFor files call (dirs ++ dirs') (k >>= next) := by
  obtain ⟨item, hitem⟩ := h
  obtain ⟨item', hitem'⟩ := hnext item
  exact ⟨item', hitem.bind hitem'⟩

/-- What is done with a result asks for nothing more. -/
theorem map {dirs : List String} {k : Finding m α} (h : AsksFor files call dirs k) (f : α → β) :
    AsksFor files call dirs (do return f (← k)) := by
  obtain ⟨item, hitem⟩ := h
  exact ⟨f item, hitem.map f⟩

end AsksFor

/-! ### Directories -/

/-- A directory is listed unless it is remembered. -/
theorem asks_modulesIn (dir : String) :
    Asks files call [dir] (modulesAt files dir) (modulesIn (lists files call) dir) := by
  intro known
  have hunlisted : unlisted known [dir] = if dir ∈ known then [] else [dir] := by
    simp [unlisted, List.eraseDups_cons, List.filter_cons]
  rw [modulesIn, StateT.run_bind, StateT.run_get, pure_bind, hunlisted]
  simp only [get?_found_after]
  by_cases h : dir ∈ known
  · simp [h]
  · simp [h, after_concat, lists]
    rfl

/-- What is found under some directories is the same each time. -/
theorem asks_discover (dirs : List String) :
    Asks files call dirs (under (modulesAt files) dirs) (discover (lists files call) dirs) := by
  have hdirs : List.Forall₂
      (fun dir modules ↦ Asks files call [dir] modules (modulesIn (lists files call) dir)) dirs
      (dirs.map (modulesAt files)) := by
    rw [List.forall₂_map_right_iff, List.forall₂_same]
    exact fun dir _ ↦ asks_modulesIn dir
  have hrun := Asks.of_forall₂ (fun dir ↦ [dir]) hdirs
  rw [List.flatMap_singleton'] at hrun
  exact hrun.map fun modules ↦ modules.flatten.eraseDups

/-- Discovery asks for the directories that it is given. -/
theorem asksFor_discover (dirs : List String) :
    AsksFor files call dirs (discover (lists files call) dirs) := ⟨_, asks_discover dirs⟩

theorem mem_under {view : String → List String} {dirs : List String} {item : String} :
    item ∈ under view dirs ↔ ∃ dir ∈ dirs, item ∈ view dir := by
  simp [under, List.mem_eraseDups]

end Discovery

open Discovery

/-! ### What is asked for -/

mutual

/-- The source directories of a branch and of the branches in it. -/
def FieldSet.dirsInside (fields : FieldSet) : List String :=
  fields.texts "source-dirs" ++ Conditional.dirsIn fields.conditionals
termination_by sizeOf fields
decreasing_by exact fields.sizeOf_conditionals_lt

/-- The source directories of the branches of some conditionals, at any depth. -/
def Conditional.dirsIn : List Conditional → List String
  | [] => []
  | ⟨_, thenFields, none⟩ :: rest => thenFields.dirsInside ++ Conditional.dirsIn rest
  | ⟨_, thenFields, some elseFields⟩ :: rest =>
    thenFields.dirsInside ++ elseFields.dirsInside ++ Conditional.dirsIn rest
termination_by conditionals => sizeOf conditionals

end

mutual

/-- The source directories that inference inside a branch asks for. -/
def FieldSet.askedInside (fields : FieldSet) : List String :=
  let infers := (fields.texts? "other-modules").isNone && !(fields.texts "source-dirs").isEmpty
  (if infers then Conditional.dirsIn fields.conditionals ++ fields.texts "source-dirs" else []) ++
    Conditional.askedIn fields.conditionals
termination_by sizeOf fields
decreasing_by exact fields.sizeOf_conditionals_lt

/-- The source directories that inference inside the branches of some conditionals asks for. -/
def Conditional.askedIn : List Conditional → List String
  | [] => []
  | ⟨_, thenFields, none⟩ :: rest => thenFields.askedInside ++ Conditional.askedIn rest
  | ⟨_, thenFields, some elseFields⟩ :: rest =>
    thenFields.askedInside ++ elseFields.askedInside ++ Conditional.askedIn rest
termination_by conditionals => sizeOf conditionals

end

/-- The source directories that a branch asks for before the branches in it do. -/
def FieldSet.askedFirst (fields : FieldSet) : List String :=
  if (fields.texts? "other-modules").isNone && !(fields.texts "source-dirs").isEmpty then
    Conditional.dirsIn fields.conditionals ++ fields.texts "source-dirs"
  else []

/-- A scope asks for its own directories, then for those of its conditionals. -/
theorem FieldSet.askedInside_eq (fields : FieldSet) :
    fields.askedInside = fields.askedFirst ++ Conditional.askedIn fields.conditionals := by
  rw [askedInside]
  rfl

/-- The source directories that inference in a section asks for. -/
def Section.asked (part : Section) : List String :=
  if part.kind = .customSetup then []
  else
    (if part.infersModules then
        Conditional.dirsIn part.conditionals ++ part.fields.texts "source-dirs"
      else []) ++
      Conditional.askedIn part.conditionals

/-- The source directories that inference in a package asks for. -/
def Package.asked (package : Package) : List String := package.sections.flatMap Section.asked

variable {files : String → Option (List String)} {m : Type → Type} [Monad m] [LawfulMonad m]
  {call : String → m Unit}

mutual

theorem FieldSet.exists_asks_foundInside (files : String → Option (List String))
    (call : String → m Unit) (fields : FieldSet) :
    ∃ found, Asks files call fields.dirsInside found (fields.foundInside (lists files call)) ∧
      ∀ item, item ∈ found ↔ item ∈ under (modulesAt files) fields.dirsInside := by
  obtain ⟨inside, hinside, hmem⟩ := Conditional.exists_asks_foundIn files call fields.conditionals
  rw [FieldSet.dirsInside, FieldSet.foundInside]
  refine ⟨_, (asks_discover _).bind (hinside.map (_ ++ ·)), fun item ↦ ?_⟩
  simp only [List.mem_append, hmem, mem_under, or_and_right, exists_or]
termination_by sizeOf fields
decreasing_by exact fields.sizeOf_conditionals_lt

/-- The modules that are found under conditionals are those of the source directories in them. -/
theorem Conditional.exists_asks_foundIn (files : String → Option (List String))
    (call : String → m Unit) (conditionals : List Conditional) :
    ∃ found, Asks files call (Conditional.dirsIn conditionals) found
        (Conditional.foundIn (lists files call) conditionals) ∧
      ∀ item, item ∈ found ↔ item ∈ under (modulesAt files) (Conditional.dirsIn conditionals) := by
  match conditionals with
  | [] =>
    rw [Conditional.dirsIn, Conditional.foundIn]
    exact ⟨[], .pure [], fun _ ↦ Iff.rfl⟩
  | ⟨_, thenFields, none⟩ :: rest =>
    obtain ⟨inThen, hthen, hmemThen⟩ := FieldSet.exists_asks_foundInside files call thenFields
    obtain ⟨inRest, hrest, hmemRest⟩ := Conditional.exists_asks_foundIn files call rest
    rw [Conditional.dirsIn, Conditional.foundIn]
    refine ⟨_, hthen.bind (hrest.map (inThen ++ ·)), fun item ↦ ?_⟩
    rw [List.mem_append, hmemThen, hmemRest]
    simp only [mem_under, List.mem_append, or_and_right, exists_or]
  | ⟨_, thenFields, some elseFields⟩ :: rest =>
    obtain ⟨inThen, hthen, hmemThen⟩ := FieldSet.exists_asks_foundInside files call thenFields
    obtain ⟨inElse, helse, hmemElse⟩ := FieldSet.exists_asks_foundInside files call elseFields
    obtain ⟨inRest, hrest, hmemRest⟩ := Conditional.exists_asks_foundIn files call rest
    rw [Conditional.dirsIn, Conditional.foundIn, List.append_assoc]
    refine ⟨_, hthen.bind (helse.bind (hrest.map (inThen ++ inElse ++ ·))), fun item ↦ ?_⟩
    rw [List.mem_append, List.mem_append, hmemThen, hmemElse, hmemRest, or_assoc]
    simp only [mem_under, List.mem_append, or_and_right, exists_or]
termination_by sizeOf conditionals

end

/-- Finding the claimed modules asks for the directories of all conditionals. -/
theorem asksFor_claimed (outer : List String) (fields : FieldSet)
    (conditionals : List Conditional) :
    AsksFor files call (Conditional.dirsIn conditionals)
      (claimed (lists files call) outer fields conditionals) := by
  obtain ⟨found, hfound, -⟩ := Conditional.exists_asks_foundIn files call conditionals
  exact ⟨_, hfound.map _⟩

/-- Finding the unclaimed modules asks for the directories that it is given. -/
theorem asksFor_unclaimed (dirs claimed : List String) :
    AsksFor files call dirs (unclaimed (lists files call) dirs claimed) :=
  (asksFor_discover dirs).map _

/-! ### What inference asks for -/

/-- Inferring the other modules asks only for the directories of the scope itself. -/
theorem FieldSet.asksFor_inferOther (outer : List String) (fields : FieldSet) :
    AsksFor files call fields.askedFirst (fields.inferOther (lists files call) outer) := by
  rw [FieldSet.askedFirst, FieldSet.inferOther]
  cases hgiven : fields.texts? "other-modules" with
  | some other => exact .pure other
  | none =>
    cases hdirs : (fields.texts "source-dirs").isEmpty with
    | true => exact .pure []
    | false =>
      exact (asksFor_claimed outer fields fields.conditionals).bind (asksFor_unclaimed _)

mutual

/-- Inferring a branch asks for its directories and for those of all in it. -/
theorem FieldSet.asksFor_inferBranch (outer : List String) (fields : FieldSet) :
    AsksFor files call fields.askedInside (fields.inferBranch (lists files call) outer) := by
  rw [FieldSet.askedInside_eq, FieldSet.inferBranch_eq]
  refine (fields.asksFor_inferOther outer).bind fun other ↦ ?_
  rw [FieldSet.inferNested]
  split
  · next hempty =>
    rw [List.isEmpty_iff.1 hempty, Conditional.askedIn]
    exact .pure _
  · exact (Conditional.asksFor_inferAll _ fields.conditionals).map _
termination_by sizeOf fields
decreasing_by all_goals exact fields.sizeOf_conditionals_lt

/-- Inferring conditionals asks for the directories of their branches, in order. -/
theorem Conditional.asksFor_inferAll (outer : List String) (conditionals : List Conditional) :
    AsksFor files call (Conditional.askedIn conditionals)
      (Conditional.inferAll (lists files call) outer conditionals) := by
  match conditionals with
  | [] =>
    rw [Conditional.askedIn, Conditional.inferAll]
    exact .pure []
  | ⟨condition, thenFields, none⟩ :: rest =>
    rw [Conditional.askedIn, Conditional.inferAll]
    refine (FieldSet.asksFor_inferBranch outer thenFields).bind fun thenResult ↦ ?_
    exact (Conditional.asksFor_inferAll outer rest).map _
  | ⟨condition, thenFields, some elseFields⟩ :: rest =>
    rw [Conditional.askedIn, Conditional.inferAll, List.append_assoc]
    refine (FieldSet.asksFor_inferBranch outer thenFields).bind fun thenResult ↦ ?_
    refine (FieldSet.asksFor_inferBranch outer elseFields).bind fun elseResult ↦ ?_
    exact (Conditional.asksFor_inferAll outer rest).map _
termination_by sizeOf conditionals

end

theorem asksFor_infer (dirs : List String) (fields : FieldSet) (conditionals : List Conditional)
    (exposes : Bool) (pathsModule : Option String) :
    AsksFor files call
      (if (exposes && (fields.texts? "exposed-modules").isNone) ||
          (fields.texts? "other-modules").isNone then Conditional.dirsIn conditionals ++ dirs else [])
      (infer (lists files call) dirs fields conditionals exposes pathsModule) := by
  rw [infer]
  simp only
  split
  · refine (asksFor_claimed [] fields conditionals).bind fun claimed ↦ ?_
    simp only [pure_bind]
    exact (asksFor_unclaimed dirs claimed).map _
  · rw [pure_bind]
    exact .pure _

/-- Inferring a section asks for the directories of the section. -/
theorem Section.asksFor_inferWith (package : String) (part : Section) :
    AsksFor files call part.asked (part.inferWith (lists files call) package) := by
  rw [Section.asked, Section.inferWith]
  split
  · exact .pure part
  · refine (asksFor_infer _ _ _ _ _).bind fun modules ↦ ?_
    exact (Conditional.asksFor_inferAll _ part.conditionals).map _

/-- A package asks for what its sections ask for, one after the other. -/
theorem Package.asks_inferWith (files : String → Option (List String)) (call : String → m Unit)
    (package : Package) :
    ∃ sections,
      List.Forall₂ (fun part result ↦
          Asks files call part.asked result (part.inferWith (lists files call) package.name))
        package.sections sections ∧
      Asks files call package.asked { package with sections := sections }
        (package.inferWith (lists files call)) := by
  have hparts : ∀ part ∈ package.sections,
      AsksFor files call part.asked (part.inferWith (lists files call) package.name) :=
    fun part _ ↦ part.asksFor_inferWith package.name
  obtain ⟨sections, hsections, hrun⟩ := Asks.mapM hparts
  exact ⟨sections, hsections, hrun.map _⟩

/-- A lister that notes each directory that it is called for. -/
def noting (files : String → Option (List String)) : Listing (StateM (List String)) :=
  lists files fun dir ↦ modify (· ++ [dir])

/-- Noting directories in turn appends them to the calls. -/
theorem forM_note (dirs calls : List String) :
    (forM dirs fun dir ↦ (modify (· ++ [dir]) : StateM (List String) Unit)).run calls =
      ((), calls ++ dirs) := by
  induction dirs generalizing calls with
  | nil => rw [List.append_nil]; rfl
  | cons dir dirs ih =>
    rw [List.forM_cons, StateT.run_bind]
    exact (ih (calls ++ [dir])).trans (by rw [List.append_assoc]; rfl)

/-- Whatever a lister does besides giving the same files for a directory each time, and whichever
directories were listed before: each section of a package gets what it gets by itself, with nothing
listed before. The lister is called once for each source directory that is asked for and was not
listed, in the order of first use; and there is one warning for each of them that is not there, in
that order. -/
theorem Package.inferWith_shared (files : String → Option (List String)) (call : String → m Unit)
    (package : Package) (known : List String) :
    ∃ sections,
      List.Forall₂ (fun part result ↦
          (part.inferWith (lists files call) package.name).run start = do
            forM part.asked.eraseDups call
            return (result, after files part.asked.eraseDups))
        package.sections sections ∧
      (package.inferWith (lists files call)).run (after files known) = do
        forM (unlisted known package.asked) call
        return ({ package with sections := sections },
          after files (known ++ unlisted known package.asked)) := by
  obtain ⟨sections, hsections, hrun⟩ := package.asks_inferWith files call
  refine ⟨sections, hsections.imp fun part result hpart ↦ ?_, hrun known⟩
  have hstart := hpart []
  rwa [unlisted_nil_left, List.nil_append, after_nil] at hstart

/-- A package whose two programs share a source directory. -/
def sharingPackage : Package :=
  ⟨"foo", "0.0.0", ⟨[]⟩,
    [⟨.executable, some "foo", ⟨[("source-dirs", .texts ["src"])]⟩, [], []⟩,
      ⟨.test, some "spec", ⟨[("source-dirs", .texts ["src"])]⟩, [], []⟩], [], none, []⟩

/-- The directory is listed for the first program, and not again for the second one. -/
theorem Package.inferWith_shared_sharing :
    LawfulMonad (StateM (List String)) ∧ ∃ sections,
      ((sharingPackage.inferWith (noting fun _ ↦ some ["Main.hs"])).run start).run [] =
        (({ sharingPackage with sections := sections }, after (fun _ ↦ some ["Main.hs"]) ["src"]),
          ["src"]) := by
  have hasked : sharingPackage.asked = ["src", "src"] := by
    simp only [asked, sharingPackage, List.flatMap_cons, List.flatMap_nil, Section.asked,
      Conditional.dirsIn, Conditional.askedIn]
    rfl
  obtain ⟨sections, -, hrun⟩ := Package.inferWith_shared (fun _ ↦ some ["Main.hs"])
    (fun dir ↦ (modify (· ++ [dir]) : StateM (List String) Unit)) sharingPackage []
  rw [hasked, after_nil] at hrun
  refine ⟨inferInstance, sections, ?_⟩
  rw [noting, hrun, StateT.run_bind, forM_note]
  rfl

/-- Over all of a package a lister is called for the source directories that are asked for, each one
once. -/
theorem Package.calls_inferWith (files : String → Option (List String)) (package : Package) :
    (((package.inferWith (noting files)).run start).run []).2 = package.asked.eraseDups := by
  obtain ⟨sections, -, hrun⟩ := package.asks_inferWith files
    fun dir ↦ (modify (· ++ [dir]) : StateM (List String) Unit)
  have hstart := hrun []
  rw [unlisted_nil_left, after_nil] at hstart
  rw [noting, hstart, StateT.run_bind, forM_note]
  rfl

end CabalManifest
