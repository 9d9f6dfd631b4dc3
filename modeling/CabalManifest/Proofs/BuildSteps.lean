import CabalManifest.Proofs.InstalledDescriptions
import CabalManifest.Proofs.ReadingEquations
import CabalManifest.Proofs.Regeneration

/-!
# Building step by step

Building a package loads its manifest, reads the fields of this with all that it refers to, makes a
package of them, lays it out as the description that is there, and puts the new description in its
place. Every step has an equation for how it runs, given how the steps before it ran
(`Manifest.run_readFields`, `Manifest.run_readPackage`, `Manifest.run_compile`,
`Manifest.run_build_of_compile`); and a run that came out well tells how its steps ran
(`Manifest.reads_of_run`, `Manifest.exists_package_of_compile`, `Manifest.builds`).
-/

namespace CabalManifest

/-! ### Reading -/

/-- What is logged does not matter to what is listed. -/
theorem World.lister_log (world : World) (log : List (Level × String)) (directory : PosixPath) :
    World.lister { world with log := log } directory = world.lister directory := by
  unfold World.lister
  simp only [World.listFiles, World.isDirectory, World.find?, World.find, World.follow, World.startOf]

namespace Manifest

variable {manifest store : PosixPath} {resolver : Resolver} {world later read between : World}
  {warnings : List Warning} {entries : List (String × Value)} {fields : FieldSet}
  {package : Package} {compiled : Compiled}

/-- The fields that are loaded depend on the text of the manifest alone, and have distinct keys. -/
theorem exists_of_load (h : (load manifest).run world = (.ok entries, read)) :
    read = world ∧ Value.areKeyed entries ∧
      ∀ later : World, later.readText manifest = world.readText manifest →
        (load manifest).run later = (.ok entries, later) := by
  rw [load] at h
  obtain ⟨text, htext, h⟩ := Run.exists_of_run_reading h
  obtain ⟨value, hvalue, h⟩ := Run.exists_of_run_reading h
  cases value with
  | scalar | array => cases h
  | object found =>
    cases h
    refine ⟨rfl, Yaml.isKeyed_of_readText hvalue, fun later hsame ↦ ?_⟩
    rw [load, run_bind_of_ok (Run.run_reading_of_eq (hsame.trans htext)),
      run_bind_of_ok (Run.run_reading_of_eq hvalue)]
    rfl

theorem run_load {text : String} (htext : world.readText manifest = .ok text)
    (hvalue : Yaml.readText manifest.name text = .ok (.object entries)) :
    (load manifest).run world = (.ok entries, world) := by
  rw [load, run_bind_of_ok (Run.run_reading_of_eq htext),
    run_bind_of_ok (Run.run_reading_of_eq hvalue)]
  rfl

/-- How some entries of a manifest are read with some services, beginning in a world. -/
def outcomeOf (services : Services (Cache × World)) (manifest : PosixPath) (world : World)
    (entries : List (String × Value)) : Decode.Outcome (Cache × World) FieldSet :=
  ((⟨services, manifest.name, manifest.parent, []⟩ : Context _).package world.documentBound
    (.object entries)).run ⟨[], [], world⟩

theorem run_readFields (hload : (load manifest).run world = (.ok entries, world)) :
    (readFields manifest resolver).run world =
      let outcome := outcomeOf (.ofPackage manifest.parent (some resolver)) manifest world entries
      (outcome.1.map (outcome.2.warnings, ·), outcome.2.state.2) := by
  extract_lets outcome
  have hlift : (liftM ((Context.ofPackage manifest.name manifest.parent (some resolver)).package
      world.documentBound (.object entries)).inWorld : Run (Warned FieldSet)).run world =
        (.ok (outcome.2.warnings, outcome.1), outcome.2.state.2) := rfl
  have hget : (get : Run World).run world = (.ok world, world) := rfl
  rw [readFields, run_bind_of_ok hload, run_bind_of_ok hget, run_bind_of_ok hlift]
  cases outcome.1 <;> rfl

theorem exists_of_readFields
    (h : (readFields manifest resolver).run world = (.ok (warnings, fields), read)) :
    ∃ entries cache, (load manifest).run world = (.ok entries, world) ∧
      outcomeOf (.ofPackage manifest.parent (some resolver)) manifest world entries =
        (.ok fields, ⟨warnings, cache, read⟩) := by
  have hread := h
  rw [readFields] at h
  obtain ⟨entries, world₁, hload, -⟩ := exists_of_run_bind h
  obtain ⟨rfl, -⟩ := exists_of_load hload
  refine ⟨entries, ?_⟩
  rw [run_readFields hload] at hread
  generalize outcomeOf (.ofPackage manifest.parent (some resolver)) manifest world₁ entries =
    outcome at hread
  obtain ⟨_ | found, ⟨_, cache, _⟩⟩ := outcome
  · cases hread
  · cases hread
    exact ⟨cache, hload, rfl⟩

/-- How a manifest is read into a package. -/
inductive Reads (manifest : PosixPath) (resolver : Resolver) (world : World) :
    List Warning → Package → World → Prop
  | intro {entries : List (String × Value)} {fields : FieldSet} {warnings further : List Warning}
    {cache : Cache} {read between : World} {hasLicense : Bool} {found package : Package}
    {discovery : Discovery}
    (hload : (load manifest).run world = (.ok entries, world))
    (hread : outcomeOf (.ofPackage manifest.parent (some resolver)) manifest world entries =
      (.ok fields, ⟨warnings, cache, read⟩))
    (hlicense : read.isFile (manifest.parent.below FieldSet.licenseFile) = .ok hasLicense)
    (hfields : Package.ofFields manifest.name hasLicense fields = (further, .ok found))
    (hinfer : (found.infer (read.lister manifest.parent)).run Discovery.start =
      .ok (package, discovery))
    (hlog : ∃ log, between = { read with log := log }) :
    Reads manifest resolver world (warnings ++ further ++ discovery.warnings) package between

theorem reads_of_run
    (h : (readPackage manifest resolver).run world = (.ok (warnings, package), between)) :
    Reads manifest resolver world warnings package between := by
  rw [readPackage] at h
  obtain ⟨⟨warnings₁, fields⟩, read, hfields, h⟩ := exists_of_run_bind h
  obtain ⟨entries, cache, hload, hread⟩ := exists_of_readFields hfields
  obtain ⟨hasLicense, hlicense, h⟩ := Run.exists_of_run_reading h
  obtain ⟨found, hfound, h⟩ := Run.exists_of_run_reading h
  obtain ⟨log, hlog⟩ := run_say .debug ("Resolved package " ++ found.name ++ "-" ++ found.version ++
    " with " ++ counted found.sections.length "section") read
  rw [run_bind_of_ok hlog] at h
  obtain ⟨⟨package', discovery⟩, hinfer, h⟩ := Run.exists_of_run_reading h
  rw [World.lister_log] at hinfer
  obtain ⟨log', hlog'⟩ := run_say .debug ("Inferred modules for " ++
    counted package'.sections.length "section") { read with log := log }
  rw [run_bind_of_ok hlog'] at h
  cases h
  exact .intro hload hread hlicense (Prod.ext rfl hfound) hinfer ⟨log', rfl⟩

theorem run_readPackage
    (hread : (readFields manifest resolver).run world = (.ok (warnings, fields), read))
    {hasLicense : Bool} {further : List Warning} {found : Package} {discovery : Discovery}
    (hlicense : read.isFile (manifest.parent.below FieldSet.licenseFile) = .ok hasLicense)
    (hfields : Package.ofFields manifest.name hasLicense fields = (further, .ok found))
    (hinfer : (found.infer (read.lister manifest.parent)).run Discovery.start =
      .ok (package, discovery)) :
    ∃ log, (readPackage manifest resolver).run world =
      (.ok (warnings ++ further ++ discovery.warnings, package), { read with log := log }) := by
  obtain ⟨log, hlog⟩ := run_say .debug ("Resolved package " ++ found.name ++ "-" ++ found.version ++
    " with " ++ counted found.sections.length "section") read
  obtain ⟨log', hlog'⟩ := run_say .debug ("Inferred modules for " ++
    counted package.sections.length "section") { read with log := log }
  have hinferred : (Run.reading fun world ↦ (found.infer (world.lister manifest.parent)).run
      Discovery.start).run { read with log := log } =
        (.ok (package, discovery), { read with log := log }) := by
    rw [Run.run_reading, World.lister_log, hinfer]
  refine ⟨log', ?_⟩
  rw [readPackage, run_bind_of_ok hread]
  simp only
  rw [run_bind_of_ok (Run.run_reading_of_eq hlicense), hfields]
  simp only
  have hfound : (Run.reading fun _ ↦ .ok found).run read = (.ok found, read) :=
    Run.run_reading _ _
  rw [run_bind_of_ok hfound, run_bind_of_ok hlog, run_bind_of_ok hinferred, run_bind_of_ok hlog']
  rfl

/-! ### Compiling again -/

theorem ofText_empty : LayoutHints.ofText "" = .standard :=
  rfl

theorem renderTop_of_sortBy {hints : LayoutHints} {elements : List Element}
    (harrange : hints.arrangeAll elements = elements)
    (hsort : Element.sortBy hints.fieldOrder elements = elements) :
    hints.renderTop elements = "\n".intercalate (hints.topLines none elements) ++ "\n" := by
  rw [LayoutHints.renderTop, LayoutHints.arrangeTop, harrange, hsort]

/-- A package is laid out as the description that is there, and an empty one is as good as none. -/
theorem layoutOf_eq (previous : Option String) :
    (match previous with
      | none | some "" => LayoutHints.standard
      | some text => LayoutHints.ofText text) = LayoutHints.ofText (previous.getD "") := by
  split
  · exact ofText_empty.symm
  · exact ofText_empty.symm
  · rfl

/-- What a compiled manifest is made of. -/
theorem exists_package_of_compile
    (h : (compile manifest store none).run world = (.ok compiled, later)) :
    ∃ warnings package previous, ∃ between : World,
      (readPackage manifest ⟨store, some manifest.parent⟩).run world =
        (.ok (warnings, package), between) ∧
      package.isWritable ∧
      compiled = ⟨manifest.parent.below (package.name ++ ".cabal"),
        package.render (.ofText previous), warnings⟩ ∧
      ∃ log, later = { between with log := log } := by
  rw [compile] at h
  obtain ⟨⟨warnings, package⟩, between, hread, h⟩ := exists_of_run_bind h
  obtain ⟨previous, world₁, hprevious, h⟩ := exists_of_run_bind h
  rw [run_previousText] at hprevious
  obtain ⟨-, rfl⟩ := Prod.mk.inj hprevious
  simp only at h
  split at h
  · next hwritable =>
    obtain ⟨log, hlog⟩ := run_say .debug ("Compiled " ++ (manifest.parent.below
      (package.name ++ ".cabal")).name ++ " (" ++ counted warnings.length "warning" ++ ")") between
    rw [run_bind_of_ok hlog] at h
    cases h
    refine ⟨warnings, package, previous.getD "", between, hread, hwritable, ?_, log, rfl⟩
    exact congrArg (fun hints ↦ Compiled.mk _ (package.render hints) warnings)
      (layoutOf_eq previous)
  · obtain ⟨_, world₂, hthrow, -⟩ := exists_of_run_bind h
    cases hthrow

/-- A package that can be read and has a description is laid out as this. -/
theorem run_compile
    (hread : (readPackage manifest ⟨store, some manifest.parent⟩).run world =
      (.ok (warnings, package), between))
    (hwritable : package.isWritable) {previous : Option String}
    (hprevious : between.readText? (manifest.parent.below (package.name ++ ".cabal")) =
      .ok previous) :
    ∃ log, (compile manifest store none).run world =
      (.ok ⟨manifest.parent.below (package.name ++ ".cabal"),
        package.render (.ofText (previous.getD "")), warnings⟩, { between with log := log }) := by
  obtain ⟨log, hlog⟩ := run_say .debug ("Compiled " ++ (manifest.parent.below
    (package.name ++ ".cabal")).name ++ " (" ++ counted warnings.length "warning" ++ ")") between
  have htext := run_previousText (manifest.parent.below (package.name ++ ".cabal")) between
  rw [hprevious] at htext
  refine ⟨log, ?_⟩
  rw [compile, run_bind_of_ok hread]
  simp only
  rw [run_bind_of_ok htext, if_pos hwritable, run_bind_of_ok hlog, ← layoutOf_eq]
  rfl

/-! ### Building -/

/-- The ways in which a build can go, with the world in which each ends. -/
inductive Builds (manifest store : PosixPath) (toOutput force : Bool) (world : World) :
    Except Failure Outcome → World → Prop
  | uncompiled {failure : Failure} {world' : World}
    (h : (compile manifest store none).run world = (.error failure, world')) :
    Builds manifest store toOutput force world (.error failure) world'
  | printed {compiled : Compiled} {world' : World} (log : List (Level × String))
    (h : (compile manifest store none).run world = (.ok compiled, world'))
    (hprinted : toOutput = true) :
    Builds manifest store toOutput force world (.ok (.printed compiled.output))
      { world' with log := log }
  | installed {compiled : Compiled} {world' world'' : World} {result : Except Failure Outcome}
    (log : List (Level × String))
    (h : (compile manifest store none).run world = (.ok compiled, world'))
    (hinstalled : toOutput = false)
    (hinstalls : Installs compiled force { world' with log := log } result world'') :
    Builds manifest store toOutput force world result world''

/-- Logging warnings changes nothing but what is logged. -/
theorem run_forM_say (warnings : List Warning) (world : World) :
    ∃ log, (warnings.forM fun warning ↦ Run.say .warning warning.message : Run Unit).run world =
      (.ok (), { world with log := log }) := by
  induction warnings generalizing world with
  | nil => exact ⟨world.log, rfl⟩
  | cons warning warnings ih =>
    obtain ⟨log, hlog⟩ := run_say .warning warning.message world
    obtain ⟨log', hrest⟩ := ih { world with log := log }
    exact ⟨log', (run_bind_of_ok hlog _).trans hrest⟩

theorem builds (manifest store : PosixPath) (toOutput force : Bool) (world : World) :
    Builds manifest store toOutput force world
      ((build manifest store toOutput force).run world).1
      ((build manifest store toOutput force).run world).2 := by
  rw [build]
  rcases hcompile : (compile manifest store none).run world with ⟨failure | compiled, world'⟩
  · rw [run_bind_of_error hcompile]
    exact .uncompiled hcompile
  · obtain ⟨log, hlog⟩ := run_forM_say compiled.warnings world'
    rw [run_bind_of_ok hcompile, run_bind_of_ok hlog]
    split
    · next hprinted => exact .printed log hcompile hprinted
    · next hinstalled =>
      exact .installed log hcompile (Bool.eq_false_iff.2 hinstalled) (installs compiled force _)

/-- A build changes at most the file of its description after it has compiled the manifest. -/
theorem Builds.tree_eq (h : Builds manifest store toOutput force world result world') :
    let copied := ((compile manifest store none).run world).2
    world'.tree = copied.tree ∧ result ≠ .ok .generated ∨
      toOutput = false ∧ ∃ compiled location content,
        ((compile manifest store none).run world).1 = .ok compiled ∧
        copied.follow compiled.target = .ok location ∧
        copied.tree.get? location ≠ some .directory ∧
        MayReplace copied compiled.target force ∧
        world'.tree = copied.tree.insert location (.file content) ∧
        (result = .ok .generated ∧ Text.encode? compiled.output = .ok content ∨
          ∃ fault, result = .error (.unencodable fault) ∧
            Text.encode? compiled.output = .error fault ∧ content = .empty) := by
  cases h with
  | uncompiled hcompile =>
    rw [hcompile]
    exact .inl ⟨rfl, nofun⟩
  | printed log hcompile =>
    rw [hcompile]
    exact .inl ⟨rfl, nofun⟩
  | installed log hcompile hinstalled hinstalls =>
    rw [hcompile]
    refine hinstalls.tree_eq.imp_right ?_
    rintro ⟨location, content, hwritten⟩
    exact ⟨hinstalled, _, location, content, rfl, hwritten⟩

/-- No address is asked after the manifest is compiled. -/
theorem Builds.requests_eq (h : Builds manifest store toOutput force world result world') :
    world'.requests = ((compile manifest store none).run world).2.requests := by
  cases h with
  | uncompiled hcompile => rw [hcompile]
  | printed log hcompile => rw [hcompile]
  | installed log hcompile _ hinstalls =>
    rw [hcompile]
    exact hinstalls.requests_eq

theorem Builds.modified_iff (h : Builds manifest store toOutput force world result world')
    (hinstalled : toOutput = false) : result = .ok .modified ↔ force = false ∧ ∃ compiled text,
      ((compile manifest store none).run world).1 = .ok compiled ∧
      ((compile manifest store none).run world).2.readText? compiled.target = .ok (some text) ∧
      isHandwritten text := by
  cases h with
  | uncompiled hcompile =>
    rw [hcompile]
    exact ⟨nofun, fun ⟨_, _, _, hcompiled, _⟩ ↦ by cases hcompiled⟩
  | printed _ _ hprinted => cases hinstalled.symm.trans hprinted
  | installed log hcompile _ hinstalls =>
    rw [hcompile]
    refine hinstalls.modified_iff.trans (and_congr_right fun _ ↦ ⟨?_, ?_⟩)
    · rintro ⟨text, htext, hhand⟩
      exact ⟨_, text, rfl, htext, hhand⟩
    · rintro ⟨_, text, ⟨⟩, htext, hhand⟩
      exact ⟨text, htext, hhand⟩

/-- After it is compiled, a manifest is built by putting its description in its place. -/
theorem run_build_of_compile {manifest store : PosixPath} (force : Bool)
    (h : (compile manifest store none).run world = (.ok compiled, later)) :
    ∃ log, (build manifest store false force).run world =
      (install compiled force).run { later with log := log } := by
  obtain ⟨log, hlog⟩ := run_forM_say compiled.warnings later
  refine ⟨log, ?_⟩
  rw [build, run_bind_of_ok h, run_bind_of_ok hlog]
  rfl

end Manifest

end CabalManifest
