import CabalManifest.Proofs.RepeatedReading
import CabalManifest.Proofs.StableDescription
import CabalManifest.Proofs.UnseenFiles
import CabalManifest.Proofs.WrittenDescriptions

/-!
# Packages that are built again

A build that generates a description puts it where the next build looks: it is read for its layout,
it is listed with the source files, and patterns are matched against it. As long as the manifest,
the documents that it refers to and the files that its patterns match stay the same, the next build
finds the description up to date (`Manifest.build_again`). A manifest that lists the description
itself does not have this chance: its pattern matches nothing at first, and the description later
(`Manifest.build_generates_again`).
-/

namespace CabalManifest

/-! ### Packages that are read -/

/-- In formed fields, named things are named apart. -/
theorem FieldSet.IsFormed.namesApart {fields : FieldSet} (h : fields.IsFormed) :
    fields.NamesApart := by
  refine ⟨?_, fun key ↦ ?_⟩
  · rw [FieldSet.flags]
    split
    · next entries hget =>
      obtain ⟨field, -, hform⟩ := h.exists_field "flags" _ hget
      obtain ⟨-, hnodup, hnames⟩ := by simpa only [FieldValue.HasForm] using hform
      rw [List.map_map, Function.comp_def, List.map_congr_left hnames]
      exact hnodup
    · exact List.nodup_nil
  · rw [FieldSet.bodies]
    split
    · next named hget =>
      obtain ⟨field, -, hform⟩ := h.exists_field key _ hget
      obtain ⟨-, hnodup, -⟩ := by simpa only [FieldValue.HasForm] using hform
      exact hnodup
    · exact List.nodup_nil

/-- What is read from a document whose keys are distinct is formed. -/
theorem Context.isFormed_of_package {source : String} {directory : PosixPath}
    {resolver? : Option Resolver} {bound : Nat} {entries : List (String × Value)}
    (hkeyed : Value.areKeyed entries) {world : World} {fields : FieldSet}
    {t : Progress (Cache × World)}
    (h : ((Context.ofPackage source directory resolver?).package bound (.object entries)).run
      ⟨[], [], world⟩ = (.ok fields, t)) : fields.IsFormed := by
  have hgive : (Context.ofPackage source directory resolver?).services.GiveKeyed _ :=
    Services.giveKeyed_ofPackage directory resolver?
  have hmeets := meets_scope hgive (readsFormed_document hgive bound) (.inl rfl) Place.top hkeyed
  have hnothing : ∀ entry ∈ (([] : Cache), world).1, Value.areKeyed entry.2 := nofun
  exact (hmeets.of_run (s := ⟨[], [], world⟩) hnothing h).2.2

/-- The elements of a tidy package that is made of formed fields can be told from what is written of
them. -/
theorem Package.isOrderly_elements {source : String} {hasLicense : Bool} {top : FieldSet}
    {warnings : List Warning} {found package : Package} {lister : Lister} {discovery : Discovery}
    (hformed : top.IsFormed)
    (hfields : Package.ofFields source hasLicense top = (warnings, .ok found))
    (hinfer : (found.infer lister).run Discovery.start = .ok (package, discovery))
    (htidy : package.IsTidy IsLegibleText) : Element.IsOrderly package.elements := by
  obtain ⟨hsections, hflags, hkind⟩ := Package.exists_of_ofFields hfields
  obtain ⟨htags, hrepository⟩ := Package.tags_of_infer hinfer
  refine htidy.isOrderly_elements (fun repository hmem ↦ ?_) (nodup_headers_stanzas ?_)
  · rw [hkind repository (hrepository ▸ hmem)]
    decide
  · rw [htags, tags_eq_of_sections hsections hflags]
    exact nodup_flatMap_groups (top.nodup_words_nameGroups _ _)
      (hformed.namesApart.nodup_of_mem _ _)

/-! ### Texts that are written and read back -/

namespace Text

/-- A text in one line has no carriage return in it. -/
theorem Unbroken.return_notMem {cs : List Char} (h : Unbroken cs) : '\r' ∉ cs := fun hmem ↦
  absurd (h '\r' hmem) (by decide)

end Text

/-- Neither has a whole description. -/
theorem LayoutHints.return_notMem_renderTop (hints : LayoutHints) {elements : List Element}
    (h : Element.IsOrderly elements) : '\r' ∉ (hints.renderTop elements).toList := by
  intro hmem
  rw [renderTop, String.toList_append, List.mem_append, String.toList_intercalate] at hmem
  rcases hmem with hmem | hmem
  · rcases Text.mem_intercalate hmem with hnewline | ⟨line, hline, hmem⟩
    · exact absurd hnewline (by decide)
    · obtain ⟨written, hwritten, rfl⟩ := List.mem_map.1 hline
      have hunbroken := hints.unbroken_of_mem_topLines_of_legible (hints.legible_arrangeTop h)
        hwritten
      exact hunbroken.return_notMem hmem
  · exact absurd hmem (by decide)

/-- A description is read back as it was written. -/
theorem Package.unifyNewlines_output {package : Package}
    (h : Element.IsOrderly package.elements) (hints : LayoutHints) :
    Text.unifyNewlines (generatedHeader ++ package.render hints).toList =
      (generatedHeader ++ package.render hints).toList := by
  refine Text.unifyNewlines_of_notMem ?_
  rw [String.toList_append, List.mem_append, not_or]
  exact ⟨isFaithful_generatedHeader.return_notMem, hints.return_notMem_renderTop h⟩

/-! ### Patterns that are read -/

namespace Context

variable {context : Context (Cache × World)} {s : Progress (Cache × World)} {pattern : String}
  {files : List String}

/-- The progress of reading a pattern that matches some files. -/
def matched (pattern field : String) (files : List String) (s : Progress (Cache × World)) :
    Progress (Cache × World) :=
  if files.isEmpty then ⟨s.warnings ++ [.unmatched pattern field], s.state⟩ else s

/-- A list of one pattern is read as the files that it matches. -/
theorem run_files (field : String) (h : context.services.glob pattern s.state = .ok files) :
    (context.files field [pattern]).run s =
      (.ok files.eraseDups, matched pattern field files s) := by
  have hget : (get : Decode (Cache × World) (Progress (Cache × World))).run s = (.ok s, s) := rfl
  have hglob : (context.glob pattern).run s = (.ok files, s) := by
    rw [glob, run_bind_of_ok hget, h]
    rfl
  rw [Context.files, List.mapM_cons, List.mapM_nil]
  simp only [bind_assoc]
  rw [run_bind_of_ok hglob, matched]
  cases files with
  | nil => rfl
  | cons =>
    simp
    rfl

/-- The field with the pattern is read as the files that match it. -/
theorem run_entry_extraSourceFiles (read : ReadDocument (Cache × World))
    (h : context.services.glob pattern s.state = .ok files) :
    (Context.entry read context .package (fun _ ↦ false) Place.top "extra-source-files"
      (.text pattern)).run s =
        (.ok (some ("extra-source-files", .texts files.eraseDups)),
          matched pattern "extra-source-files" files s) := by
  let field : Field := ⟨"extra-source-files", .globs, .concat, "extra-source-files", .lines⟩
  have hfield : Registries.package.own.find? "extra-source-files" = some field := rfl
  have hvalue : (context.value field (Place.top.key "extra-source-files") (.text pattern)).run s =
      (.ok (.texts files.eraseDups), matched pattern "extra-source-files" files s) := by
    show (context.files "extra-source-files" [pattern] >>=
      fun files ↦ pure (FieldValue.texts files)).run s = _
    rw [run_bind_of_ok (run_files _ h)]
    rfl
  rw [Context.entry, if_neg (by decide), hfield]
  simp only [Context.fieldValue]
  rw [if_neg (by decide), run_bind_of_ok hvalue]
  rfl

theorem run_entry_name (read : ReadDocument (Cache × World)) (s : Progress (Cache × World))
    (name : String) :
    (Context.entry read context .package (fun _ ↦ false) Place.top "name" (.text name)).run s =
      (.ok (some ("name", .text name)), s) := by
  rw [Context.entry]
  simp only [Context.fieldValue]
  rfl

end Context

namespace World

/-- A pattern without wildcards matches the file that it names. -/
theorem glob_of_isFile {world : World} {directory : PosixPath} {pattern : String} {found : Bool}
    (hpattern : Glob.isPattern pattern = false)
    (hfile : world.isFile (directory.join (PosixPath.ofString pattern)) = .ok found) :
    world.glob directory pattern = .ok (if found then [pattern] else []) := by
  rw [glob, hpattern, hfile]
  rfl

end World

/-! ### What a later world still shows -/

/-- What is remembered still stands on disk after a file was put somewhere else. -/
theorem Resolver.IsCurrent.putsFile {resolver : Resolver} {cache : Cache} {calls : List Call}
    {world later : World} {target : Location} (h : IsCurrent cache world)
    (hcalled : resolver.IsCalled cache calls) (hputs : world.PutsFile target later)
    (htarget : ∀ call ∈ calls, call.target resolver ≠ (PosixPath.ofLocation target).text) :
    IsCurrent cache later := by
  intro canonical value hvalue
  obtain ⟨location, hspelled, hcanonical, content, hentry, hread⟩ := h canonical value hvalue
  obtain ⟨call, hcall, hcalls⟩ := hcalled canonical value hvalue
  have hne : location ≠ target := by
    rintro rfl
    exact htarget call hcall (hcalls.trans hcanonical)
  exact ⟨location, hspelled, hcanonical, content, (hputs.get?_eq hne).trans hentry, hread⟩

namespace Manifest

variable {manifest store : PosixPath} {resolver : Resolver} {world later read between : World}
  {warnings : List Warning} {entries : List (String × Value)} {fields : FieldSet}
  {package : Package} {compiled : Compiled}

/-- Whether a later world still shows what a manifest was read from: its text, the documents that it
refers to, and the files that match its patterns. -/
structure StillShows (manifest : PosixPath) (resolver : Resolver) (world later : World) : Prop where
  readText_eq : later.readText manifest = world.readText manifest
  isCurrent : ∀ entries, (load manifest).run world = (.ok entries, world) →
    Resolver.IsCurrent
      (outcomeOf (.ofPackage manifest.parent (some resolver)) manifest world entries).2.state.1 later
  outcomeOf_eq : ∀ entries, (load manifest).run world = (.ok entries, world) →
    outcomeOf (.foreseeing later manifest.parent resolver) manifest world entries =
      outcomeOf (.ofPackage manifest.parent (some resolver)) manifest world entries

/-- A manifest is still shown after a file was put somewhere, if it keeps its text, the file is none
of the documents that it refers to, and its patterns do not match it. -/
theorem StillShows.of_putsFile (hstore : resolver.store.IsSpelled) (hmanifest : manifest.IsSpelled)
    (hworld : world.IsSound) (hspelled : world.place.IsSpelled)
    (hload : (load manifest).run world = (.ok entries, world)) {result : Except Failure FieldSet}
    {calls : List Call}
    (hread : ((Context.reloading manifest.name manifest.parent resolver).package
      world.documentBound (.object entries)).run ⟨[], ([], world)⟩ =
        (result, ⟨warnings, (calls, between)⟩))
    (hcalls : ∀ call ∈ calls, call.CanFollow resolver) {target : Location}
    (htarget : ∀ call ∈ calls, call.target resolver ≠ (PosixPath.ofLocation target).text)
    (hputs : between.PutsFile target later)
    (htext : later.readText manifest = world.readText manifest)
    (hpatterns : outcomeOf (.foreseeing later manifest.parent resolver) manifest world entries =
      outcomeOf (.ofPackage manifest.parent (some resolver)) manifest world entries) :
    StillShows manifest resolver world later := by
  obtain ⟨cache, hrun, hcurrent, hcalled⟩ :=
    Context.exists_run_package hstore hmanifest.parent hworld hspelled manifest.name hread hcalls
  have houtcome : outcomeOf (.ofPackage manifest.parent (some resolver)) manifest world entries =
    (result, ⟨warnings, (cache, between)⟩) := hrun
  have hsame : ∀ others, (load manifest).run world = (.ok others, world) → others = entries := by
    intro others hothers
    rw [hload] at hothers
    cases hothers
    rfl
  refine ⟨htext, fun others hothers ↦ ?_, fun others hothers ↦ ?_⟩
  · rw [hsame others hothers, houtcome]
    exact hcurrent.putsFile hcalled hputs htarget
  · rw [hsame others hothers]
    exact hpatterns

/-- A manifest that was read is read again as the same package, after a description was put
somewhere. -/
theorem Reads.again (h : Reads manifest resolver world warnings package between)
    (hstore : resolver.store.IsSpelled) (hmanifest : manifest.IsSpelled) (hworld : world.IsSound)
    (hspelled : world.place.IsSpelled) (hlater : later.IsSound) (hplace : later.place = world.place)
    (hshows : StillShows manifest resolver world later) {target : Location}
    (hputs : between.PutsFile target later) (htarget : IsDescription target) :
    ∃ log, (readPackage manifest resolver).run later =
      (.ok (warnings, package), { later with log := log }) := by
  cases h with
  | @intro entries fields warnings further cache read _ _ found _ discovery hload hread hlicense
      hfields hinfer hlog =>
    obtain ⟨log, rfl⟩ := hlog
    replace hputs := hputs.of_log
    obtain ⟨-, -, hagain⟩ := exists_of_load hload
    -- The same fields are read again, with the patterns matched against the same files.
    have hforeseen := (hshows.outcomeOf_eq entries hload).trans hread
    have hcurrent := hshows.isCurrent entries hload
    rw [hread] at hcurrent
    have houtcome : outcomeOf (.ofPackage manifest.parent (some resolver)) manifest later entries =
        (.ok fields, ⟨warnings, cache, later⟩) :=
      Context.package_again hstore hmanifest.parent hworld hlater (hplace ▸ hspelled) hplace
        manifest.name (.object entries) hforeseen hputs.keepsDirectories hcurrent
    have hfieldsAgain : (readFields manifest resolver).run later = _ :=
      run_readFields (hagain later hshows.readText_eq)
    rw [houtcome] at hfieldsAgain
    -- The new file is neither the license nor a module.
    have hplaced : read.IsPlaced := by
      rw [World.IsPlaced, ← hputs.place_eq]
      exact hlater.isPlaced
    have hlicenseAgain := (hputs.isFile_eq
      (htarget.follow_license_ne hplaced manifest.parent)).trans hlicense
    have hinferAgain := hinfer
    rw [← Package.infer_putsFile hputs htarget] at hinferAgain
    exact run_readPackage hfieldsAgain hlicenseAgain hfields hinferAgain

/-! ### A manifest that lists a file -/

/-- The text of a manifest that lists a file. -/
def listingText (name : String) : String :=
  "name: foo\nextra-source-files: \"" ++ name ++ "\"\n"

/-- The entries of this manifest. -/
def listingEntries (name : String) : List (String × Value) :=
  [("name", .text "foo"), ("extra-source-files", .text name)]

/-- A world with this manifest, and perhaps with a generated description of its package. -/
def listingWorld (name : String) (text? : Option String) (log : List (Level × String)) : World :=
  let tree := sparseWorld.tree.insert ["pkg", "package.yaml"]
    (.file (Text.encode (listingText name)))
  { sparseWorld with
    tree := match text? with
      | none => tree
      | some text =>
        tree.insert ["pkg", "foo.cabal"] (.file (Text.encode (generatedHeader ++ text)))
    log := log }

/-- The package of this manifest with the files that were found. -/
def listingPackage (files : List String) : Package :=
  ⟨"foo", "0.0.0", ⟨[("extra-source-files", .texts files), ("build-type", .text "Simple")]⟩, [], [],
    none, []⟩

/-- Whether a manifest can list a file by its name. -/
structure CanList (name : String) : Prop where
  parse_eq : Yaml.parse (listingText name) = .ok (.object (listingEntries name))
  isFaithful : Text.IsFaithful name
  not_isPattern : Glob.isPattern name = false

theorem parsesAs_listingText : ∀ name ∈ ["foo.cabal", "package.yaml"],
    Yaml.parsesAs (listingText name) (.object (listingEntries name)) := by
  decide +kernel

/-- A manifest can list the description of its package. -/
theorem canList_description : CanList "foo.cabal" :=
  ⟨Yaml.parse_eq_of_parsesAs (parsesAs_listingText _ (by decide)), by decide, rfl⟩

/-- A manifest can list itself. -/
theorem canList_manifest : CanList "package.yaml" :=
  ⟨Yaml.parse_eq_of_parsesAs (parsesAs_listingText _ (by decide)), by decide, rfl⟩

variable {name : String} {text? : Option String} {files : List String}

theorem CanList.isFaithful_listingText (h : CanList name) : Text.IsFaithful (listingText name) :=
  (Text.IsFaithful.append (by decide) h.isFaithful).append (by decide)

/-- Such a manifest is read as its two fields, the second one with the files that are found. -/
theorem outcomeOf_listing {services : Services (Cache × World)} {world : World}
    (h : services.glob name ([], world) = .ok files) :
    outcomeOf services manifestPath world (listingEntries name) =
      (.ok ⟨[("name", .text "foo"), ("extra-source-files", .texts files.eraseDups)]⟩,
        Context.matched name "extra-source-files" files ⟨[], [], world⟩) := by
  set context : Context (Cache × World) :=
    ⟨services, manifestPath.name, manifestPath.parent, []⟩
  set t := Context.matched name "extra-source-files" files ⟨[], ([], world)⟩
  have hrest : ∀ read, (Context.fields read context .package (fun _ ↦ false) Place.top
      [("extra-source-files", .text name)]).run ⟨[], [], world⟩ =
        (.ok [("extra-source-files", .texts files.eraseDups)], t) := by
    intro read
    rw [Context.fields_cons, run_bind_of_ok (Context.run_entry_extraSourceFiles read h),
      Context.fields]
    rfl
  have hfields : ∀ read, (Context.fields read context .package (fun _ ↦ false) Place.top
      (listingEntries name)).run ⟨[], [], world⟩ =
        (.ok [("name", .text "foo"), ("extra-source-files", .texts files.eraseDups)], t) := by
    intro read
    rw [listingEntries, Context.fields_cons, run_bind_of_ok (Context.run_entry_name _ _ _),
      run_bind_of_ok (hrest read)]
    rfl
  rw [outcomeOf, Context.package, Context.scope, run_bind_of_ok (hfields _)]
  rfl

theorem readText_listing (h : CanList name) (log : List (Level × String)) :
    (listingWorld name text? log).readText manifestPath = .ok (listingText name) := by
  have hfind : (listingWorld name text? log).find manifestPath =
      .ok (.file (Text.encode (listingText name))) := by
    cases text? <;> rfl
  rw [World.readText_of_find checkPath_manifestPath hfind,
    h.isFaithful_listingText.unifyNewlines]

/-- Such a manifest is loaded as it is written, with or without a description beside it. -/
theorem run_load_listing (h : CanList name) (text? : Option String)
    (log : List (Level × String)) :
    (load manifestPath).run (listingWorld name text? log) =
      (.ok (listingEntries name), listingWorld name text? log) := by
  have hvalue : Yaml.readText manifestPath.name (listingText name) =
      .ok (.object (listingEntries name)) := by
    rw [Yaml.readText, h.parse_eq]
    rfl
  exact run_load (readText_listing h log) hvalue

/-- Such a manifest is read as its package, with the files that are found. -/
theorem run_readPackage_listing (h : CanList name) (log : List (Level × String))
    (hglob : (listingWorld name text? log).glob manifestPath.parent name = .ok files) :
    ∃ warnings log',
      (readPackage manifestPath ⟨storePath, some manifestPath.parent⟩).run
        (listingWorld name text? log) =
          (.ok (warnings, listingPackage files.eraseDups), listingWorld name text? log') := by
  have hfields := @run_readFields _ ⟨storePath, some manifestPath.parent⟩ _ _
    (run_load_listing h text? log)
  rw [outcomeOf_listing hglob] at hfields
  have hstate : (Context.matched name "extra-source-files" files
      ⟨[], [], listingWorld name text? log⟩).state.2 =
        listingWorld name text? log := by
    rw [Context.matched]
    split <;> rfl
  simp only [hstate] at hfields
  have hlicense : (listingWorld name text? log).isFile
      (manifestPath.parent.below FieldSet.licenseFile) = .ok false := by
    refine World.isFile_of_missing (World.checkPath_of_notMem (by decide) (by decide)) ?_
    cases text? <;> rfl
  have hinfer : ((listingPackage files.eraseDups).infer
      ((listingWorld name text? log).lister manifestPath.parent)).run Discovery.start =
        .ok (listingPackage files.eraseDups, .start) := rfl
  obtain ⟨log', hread⟩ := run_readPackage hfields hlicense rfl hinfer
  exact ⟨_, log', hread⟩

theorem below_listing (files : List String) :
    manifestPath.parent.below ((listingPackage files).name ++ ".cabal") = descriptionPath := by
  show manifestPath.parent.below ("foo" ++ ".cabal") = descriptionPath
  rfl

/-- The description in its place is read back. -/
theorem readText?_listing (name : String) (log : List (Level × String))
    (hfaithful : ∀ text ∈ text?, Text.IsFaithful text) :
    (listingWorld name text? log).readText? descriptionPath =
      .ok (text?.map (generatedHeader ++ ·)) := by
  cases text? with
  | none =>
    rw [World.readText?, World.isFile_of_missing checkPath_descriptionPath rfl]
    rfl
  | some text =>
    have hfind : (listingWorld name (some text) log).find descriptionPath =
        .ok (.file (Text.encode (generatedHeader ++ text))) := rfl
    have hdescription := isFaithful_generatedHeader.append (hfaithful text rfl)
    rw [World.readText?_of_find checkPath_descriptionPath hfind, hdescription.unifyNewlines]
    rfl

/-- Building such a manifest puts the description of its package in its place, unless it stands
there already. -/
theorem run_build_listing (h : CanList name) (log : List (Level × String))
    (hglob : (listingWorld name text? log).glob manifestPath.parent name = .ok files)
    (hfaithful : ∀ text ∈ text?, Text.IsFaithful text) {text : String}
    (hrender : (listingPackage files.eraseDups).render (.ofText (text?.getD "")) = text)
    (hnew : text? ≠ some text) (htext : Text.IsFaithful text) :
    ∃ log', (build manifestPath storePath false false).run (listingWorld name text? log) =
      (.ok .generated, listingWorld name (some text) log') := by
  obtain ⟨warnings, log₁, hread⟩ := run_readPackage_listing h log hglob
  have hprevious := readText?_listing name log₁ hfaithful
  rw [← below_listing files.eraseDups] at hprevious
  obtain ⟨log₂, hcompile⟩ := run_compile hread rfl hprevious
  have hhints : LayoutHints.ofText ((text?.map (generatedHeader ++ ·)).getD "") =
      .ofText (text?.getD "") := by
    cases text? with
    | none => rfl
    | some text => exact LayoutHints.ofText_generatedHeader text
  rw [below_listing, hhints, hrender] at hcompile
  obtain ⟨log₃, hbuild⟩ := run_build_of_compile false hcompile
  have hwritten : text?.map (generatedHeader ++ ·) ≠ some (generatedHeader ++ text) := by
    intro hsame
    obtain ⟨former, rfl, hformer⟩ := Option.map_eq_some_iff.1 hsame
    exact hnew (congrArg some ((String.append_right_inj _).1 hformer))
  have hgenerated : (text?.map (generatedHeader ++ ·)).any isHandwritten = false := by
    cases text? with
    | none => rfl
    | some text =>
      rw [Option.map_some, Option.any_some]
      exact isHandwritten_output ⟨descriptionPath, text, []⟩
  have hplace : (listingWorld name text? log₃).follow descriptionPath = .ok ["pkg", "foo.cabal"] ∧
      (listingWorld name text? log₃).tree.get? ["pkg", "foo.cabal"] ≠ some .directory := by
    cases text? <;> exact ⟨rfl, nofun⟩
  obtain ⟨log₄, hinstalled⟩ := run_install_of_new ⟨descriptionPath, text, warnings⟩ false
    (readText?_listing name log₃ hfaithful) hwritten (by rw [hgenerated]; rfl)
    (isFaithful_generatedHeader.append htext).encode? checkPath_descriptionPath hplace.1 hplace.2
  refine ⟨log₄, ?_⟩
  rw [hbuild]
  refine hinstalled.trans ?_
  cases text? <;> rfl

/-- How this package is described if no file is found. -/
def plainDescription : String :=
  "name: foo\nversion: 0.0.0\nbuild-type: Simple\ncabal-version: >= 1.10\n"

/-- How this package is described if one file is found. -/
def listingDescription (name : String) : String :=
  plainDescription ++ "extra-source-files:\n    " ++ name ++ "\n"

theorem isFaithful_plainDescription : Text.IsFaithful plainDescription :=
  .ofList (by decide)

theorem CanList.isFaithful_listingDescription (h : CanList name) :
    Text.IsFaithful (listingDescription name) :=
  ((isFaithful_plainDescription.append (by decide)).append h.isFaithful).append (by decide)

/-- The elements of this package, if one file is found. -/
def listingElements (name : String) : List Element :=
  [.field "name" (.inline "foo"), .field "version" (.inline "0.0.0"),
    .field "build-type" (.inline "Simple"), .field "cabal-version" (.inline ">= 1.10"),
    .field "extra-source-files" (.lines [name])]

/-- What is written if no file is found. -/
theorem render_plain :
    (listingPackage (List.eraseDups [])).render (.ofText "") = plainDescription := by
  have helements : (listingPackage (List.eraseDups [])).elements = [.field "name" (.inline "foo"),
      .field "version" (.inline "0.0.0"), .field "build-type" (.inline "Simple"),
      .field "cabal-version" (.inline ">= 1.10")] := rfl
  show (LayoutHints.ofText "").renderTop _ = _
  rw [helements, ofText_empty, renderTop_of_sortBy rfl (Element.sortBy_nil _)]
  rfl

/-- What is written if a manifest lists itself. -/
theorem render_manifest :
    (listingPackage (List.eraseDups ["package.yaml"])).render (.ofText "") =
      listingDescription "package.yaml" := by
  have helements : (listingPackage (List.eraseDups ["package.yaml"])).elements =
      listingElements "package.yaml" := rfl
  show (LayoutHints.ofText "").renderTop _ = _
  rw [helements, ofText_empty, renderTop_of_sortBy rfl (Element.sortBy_nil _)]
  rfl

/-- What is written if a manifest lists the description, and this is there. -/
theorem render_description :
    (listingPackage (List.eraseDups ["foo.cabal"])).render (.ofText plainDescription) =
      listingDescription "foo.cabal" := by
  have helements : (listingPackage (List.eraseDups ["foo.cabal"])).elements =
      listingElements "foo.cabal" := rfl
  have hhints : LayoutHints.ofText plainDescription =
      ⟨["name", "version", "build-type", "cabal-version"], [], none, 2, .leading⟩ := by
    decide
  show (LayoutHints.ofText plainDescription).renderTop _ = _
  rw [helements, hhints, renderTop_of_sortBy rfl]
  · rfl
  · rw [Element.sortBy, List.mergeSort_of_pairwise (by decide)]
    rfl

theorem isSound_listingWorld (name : String) (log : List (Level × String)) :
    (listingWorld name none log).IsSound :=
  ⟨isSound_sparseWorld.tree.insert (by decide) ⟨by decide, rfl⟩ (.inr nofun), rfl⟩

/-- The description is found once it is there. -/
theorem glob_description (text? : Option String) (log : List (Level × String)) :
    (listingWorld "foo.cabal" text? log).glob manifestPath.parent "foo.cabal" =
      .ok (if text?.isSome then ["foo.cabal"] else []) := by
  have hpath : manifestPath.parent.join (PosixPath.ofString "foo.cabal") = descriptionPath :=
    rfl
  refine World.glob_of_isFile canList_description.not_isPattern ?_
  rw [hpath]
  cases text? with
  | none => exact World.isFile_of_missing checkPath_descriptionPath rfl
  | some => exact World.isFile_of_find checkPath_descriptionPath rfl

/-- The manifest is found, with or without a description. -/
theorem glob_manifest (text? : Option String) (log : List (Level × String)) :
    (listingWorld "package.yaml" text? log).glob manifestPath.parent "package.yaml" =
      .ok ["package.yaml"] := by
  have hpath : manifestPath.parent.join (PosixPath.ofString "package.yaml") =
      manifestPath := rfl
  have hfile : (listingWorld "package.yaml" text? log).isFile manifestPath =
      .ok true := by
    cases text? <;> exact World.isFile_of_find checkPath_manifestPath rfl
  rw [← hpath] at hfile
  exact World.glob_of_isFile canList_manifest.not_isPattern hfile

theorem isTidy_listingPackage {files : List String}
    (h : ∀ file ∈ files, LayoutHints.IsItem file.toList) :
    (listingPackage files).IsTidy IsLegibleText := by
  have hbuild : IsLegibleText "Simple" := isLegibleText_of_isLine (by decide)
  refine ⟨show Text.IsLine "foo".toList by decide, show Text.IsLine "0.0.0".toList by decide,
    ?_, nofun, nofun, nofun, nofun⟩
  simpa [listingPackage, FieldValue.IsTidy] using ⟨h, hbuild⟩

/-- Such a manifest is read as a tidy package if the files that it finds have tidy names. -/
theorem isTidy_of_readPackage_listing (h : CanList name) {log : List (Level × String)}
    (hglob : (listingWorld name text? log).glob manifestPath.parent name = .ok files)
    (hfiles : ∀ file ∈ files.eraseDups, LayoutHints.IsItem file.toList) {warnings : List Warning}
    {package : Package} {between : World}
    (hread : (readPackage manifestPath ⟨storePath, some manifestPath.parent⟩).run
      (listingWorld name text? log) = (.ok (warnings, package), between)) :
    package.IsTidy IsLegibleText := by
  obtain ⟨_, _, hlisting⟩ := run_readPackage_listing h log hglob
  rw [hlisting] at hread
  cases hread
  exact isTidy_listingPackage hfiles

theorem isItem_manifest : ∀ file ∈ List.eraseDups ["package.yaml"], LayoutHints.IsItem file.toList := by
  decide

/-- A manifest that lists itself matches the same file after a description was written. -/
theorem stillShows_listing (log : List (Level × String)) :
    StillShows manifestPath ⟨storePath, some manifestPath.parent⟩
      (listingWorld "package.yaml" none [])
      (listingWorld "package.yaml" (some (listingDescription "package.yaml")) log) := by
  have hloaded : ∀ entries, (load manifestPath).run (listingWorld "package.yaml" none []) =
      (.ok entries, listingWorld "package.yaml" none []) →
        entries = listingEntries "package.yaml" := by
    intro entries hload
    rw [run_load_listing canList_manifest] at hload
    cases hload
    rfl
  refine ⟨?_, fun entries hload ↦ ?_, fun entries hload ↦ ?_⟩
  · rw [readText_listing canList_manifest, readText_listing canList_manifest]
  · rw [hloaded entries hload, outcomeOf_listing (glob_manifest none [])]
    exact nofun
  · rw [hloaded entries hload]
    exact (outcomeOf_listing (glob_manifest _ log)).trans
      (outcomeOf_listing (glob_manifest none [])).symm

/-! ### A manifest with a document, once more -/

/-- The document is in the store afterwards, and the description is not. -/
theorem stillShows_sharing (log : List (Level × String)) :
    StillShows manifestPath sharingResolver (sharingWorld none) (sharedWorld log) := by
  obtain ⟨reload, hreload⟩ : ∃ reload,
      (Services.reloading manifestPath.parent sharingResolver).resolve? = some reload := ⟨_, rfl⟩
  have hread := run_package_sharing hreload manifestPath.name
    (documentBound_ne_zero (sharingWorld none))
    (Services.eq_reloading hreload [] (run_resolve_shared none)) rfl
  obtain ⟨resolve, hresolve⟩ : ∃ resolve,
      (Services.ofPackage manifestPath.parent (some sharingResolver)).resolve? = some resolve :=
    ⟨_, rfl⟩
  have hfound := Services.eq_settle hresolve _ _ _ _ _ (run_resolve_shared none)
  have hforesees : (Services.foreseeing (sharedWorld log) manifestPath.parent
      sharingResolver).resolve? = some resolve := hresolve
  have hputs : (downloadedWorld none).PutsFile ["pkg", "foo.cabal"] (sharedWorld log) :=
    ⟨rfl, nofun, _, rfl⟩
  have hfaithful : Text.IsFaithful sharingText := .ofList (by decide)
  have htext : (sharedWorld log).readText manifestPath =
      (sharingWorld none).readText manifestPath := by
    rw [World.readText_of_find checkPath_manifestPath rfl,
      World.readText_of_find checkPath_manifestPath rfl]
  refine StillShows.of_putsFile (by decide) (by decide) (isSound_sharingWorld none) (by decide)
    (run_load_sharing none) hread ?_ ?_ hputs htext ?_
  · refine List.forall_mem_singleton.2 (World.canFollow_of_notMem ?_ ?_)
    · decide
    · decide
  · refine List.forall_mem_singleton.2 ?_
    show copyName ≠ _
    decide
  · rw [outcomeOf_sharing hforesees hfound rfl, outcomeOf_sharing hresolve hfound rfl]

theorem isTidy_sharingPackage : sharingPackage.IsTidy IsLegibleText := by
  have hbuild : IsLegibleText "Simple" := isLegibleText_of_isLine (by decide)
  have hcategory : IsLegibleText "Web" := isLegibleText_of_isLine (by decide)
  refine ⟨show Text.IsLine "foo".toList by decide, show Text.IsLine "0.0.0".toList by decide,
    ?_, nofun, nofun, nofun, nofun⟩
  simpa [sharingPackage, FieldValue.IsTidy] using ⟨hcategory, hbuild⟩

/-- The manifest with a document is read as a tidy package. -/
theorem isTidy_of_readPackage_sharing (warnings : List Warning) (package : Package)
    (between : World)
    (h : (readPackage manifestPath sharingResolver).run (sharingWorld none) =
      (.ok (warnings, package), between)) : package.IsTidy IsLegibleText := by
  obtain ⟨_, hsharing⟩ := run_readPackage_sharing none
  rw [hsharing] at h
  cases h
  exact isTidy_sharingPackage

/-! ### Building again -/

/-- The elements of a tidy package that was read can be told from what is written of them. -/
theorem Reads.isOrderly_elements (h : Reads manifest resolver world warnings package between)
    (htidy : package.IsTidy IsLegibleText) : Element.IsOrderly package.elements := by
  cases h with
  | intro hload hread _ hfields hinfer =>
    obtain ⟨-, hkeyed, -⟩ := exists_of_load hload
    exact Package.isOrderly_elements (Context.isFormed_of_package hkeyed hread) hfields hinfer htidy

/-- A build that generates a description puts it where its path leads. -/
theorem exists_of_build_generated {force : Bool} {built : World}
    (h : (build manifest store false force).run world = (.ok .generated, built)) :
    ∃ compiled location, ∃ copied : World,
      (compile manifest store none).run world = (.ok compiled, copied) ∧
      World.checkPath compiled.target = .ok () ∧ copied.follow compiled.target = .ok location ∧
      copied.PutsFile location built ∧
      built.tree.get? location = some (.file (Text.encode compiled.output)) := by
  have hbuilds := builds manifest store false force world
  rw [h] at hbuilds
  cases hbuilds with
  | @installed compiled copied _ _ log hcompile _ hinstalls =>
    cases hinstalls with
    | @generated content location log' hencode hcheck hfollow hfile _ =>
      refine ⟨compiled, location, copied, hcompile, hcheck, hfollow, ⟨rfl, hfile, content, rfl⟩, ?_⟩
      rw [FileTree.get?_insert_file hfile, if_pos rfl, Text.encode_eq_of_encode? hencode]

/-- A build that generated a description finds it up to date the next time, and changes nothing. -/
theorem build_again {manifest store : PosixPath} (hstore : store.IsSpelled)
    (hmanifest : manifest.IsSpelled) {force : Bool} {world built : World} (hsound : world.IsSound)
    (hspelled : world.place.IsSpelled)
    (hbuild : (build manifest store false force).run world = (.ok .generated, built))
    (hshows : StillShows manifest ⟨store, some manifest.parent⟩ world built)
    (htidy : ∀ warnings package, ∀ between : World,
      (readPackage manifest ⟨store, some manifest.parent⟩).run world =
        (.ok (warnings, package), between) → package.IsTidy IsLegibleText) :
    ∃ log, (build manifest store false force).run built =
      (.ok .upToDate, { built with log := log }) := by
  obtain ⟨compiled, location, copied, hcompile, hcheck, hfollow, hputs, hentry⟩ :=
    exists_of_build_generated hbuild
  have hcopied := addsCopies_compile manifest hstore none hsound
  rw [hcompile] at hcopied
  have hlater := hputs.isSound hcopied.isSound hfollow
  obtain ⟨warnings, package, previous, between, hread, hwritable, rfl, log, rfl⟩ :=
    exists_package_of_compile hcompile
  have hdescription := hcopied.isSound.isPlaced.isDescription hfollow
  have hreads := reads_of_run hread
  have horderly := hreads.isOrderly_elements (htidy _ _ _ hread)
  obtain ⟨log₁, hreadAgain⟩ := hreads.again hstore hmanifest hsound hspelled hlater
    (hputs.place_eq.trans hcopied.place_eq) hshows hputs.of_log hdescription
  -- The description is read back as it was written, and gives itself the layout that it has.
  have hpresent : ∀ log, World.readText? { built with log := log }
      (manifest.parent.below (package.name ++ ".cabal")) =
        .ok (some (generatedHeader ++ package.render (.ofText previous))) := by
    intro log
    rw [World.readText?_log, World.readText?_of_find hcheck
      (World.find_of_follow (hputs.follow hfollow) hentry), Compiled.output,
      Package.unifyNewlines_output horderly, String.ofList_toList]
  have hstable : package.render (.ofText (generatedHeader ++ package.render (.ofText previous))) =
      package.render (.ofText previous) := by
    rw [LayoutHints.ofText_generatedHeader]
    exact (LayoutHints.ofText previous).renderTop_recovered
      (LayoutHints.indentation_ofText_pos previous) horderly
  obtain ⟨log₂, hcompileAgain⟩ := run_compile hreadAgain hwritable (hpresent log₁)
  rw [Option.getD_some, hstable] at hcompileAgain
  obtain ⟨log₃, hbuildAgain⟩ := run_build_of_compile force hcompileAgain
  obtain ⟨log₄, hinstalled⟩ := run_install_of_present ⟨_, _, warnings⟩ force (hpresent log₃)
  exact ⟨log₄, hbuildAgain.trans hinstalled⟩

/-- A manifest that lists itself and one that refers to a document are found up to date when they are
built again. -/
theorem build_again_samples :
    storePath.IsSpelled ∧ manifestPath.IsSpelled ∧
      ∀ world ∈ [listingWorld "package.yaml" none [], sharingWorld none],
        world.IsSound ∧ world.place.IsSpelled ∧
          ∃ built, (build manifestPath storePath false false).run world = (.ok .generated, built) ∧
            StillShows manifestPath ⟨storePath, some manifestPath.parent⟩ world built ∧
            (∀ warnings package, ∀ between : World,
              (readPackage manifestPath ⟨storePath, some manifestPath.parent⟩).run world =
                (.ok (warnings, package), between) → package.IsTidy IsLegibleText) ∧
            ∃ log, (build manifestPath storePath false false).run built =
              (.ok .upToDate, { built with log := log }) := by
  have hstore : storePath.IsSpelled := by decide
  have hmanifest : manifestPath.IsSpelled := by decide
  refine ⟨hstore, hmanifest, List.forall_mem_cons.2 ⟨?_, List.forall_mem_singleton.2 ?_⟩⟩
  · have hsound := isSound_listingWorld "package.yaml" []
    have hspelled : (listingWorld "package.yaml" none []).place.IsSpelled := by decide
    obtain ⟨log, hbuild⟩ := run_build_listing canList_manifest [] (glob_manifest none []) nofun
      render_manifest nofun canList_manifest.isFaithful_listingDescription
    have hshows := stillShows_listing log
    have htidy := fun warnings package between ↦ @isTidy_of_readPackage_listing _ _ _
      canList_manifest [] (glob_manifest none []) isItem_manifest warnings package between
    exact ⟨hsound, hspelled, _, hbuild, hshows, htidy,
      build_again hstore hmanifest hsound hspelled hbuild hshows htidy⟩
  · have hsound := isSound_sharingWorld none
    have hspelled : (sharingWorld none).place.IsSpelled := by decide
    obtain ⟨log, hbuild⟩ := run_build_sharing
    have hshows := stillShows_sharing log
    exact ⟨hsound, hspelled, _, hbuild, hshows, isTidy_of_readPackage_sharing,
      build_again hstore hmanifest hsound hspelled hbuild hshows isTidy_of_readPackage_sharing⟩

/-- A manifest that lists the description generates another one when it is built again. -/
theorem build_generates_again :
    (listingWorld "foo.cabal" none []).IsSound ∧
      (∀ warnings package, ∀ between : World,
        (readPackage manifestPath ⟨storePath, some manifestPath.parent⟩).run
          (listingWorld "foo.cabal" none []) = (.ok (warnings, package), between) →
            package.IsTidy IsLegibleText) ∧
      ∃ built rebuilt : World,
        (build manifestPath storePath false false).run (listingWorld "foo.cabal" none []) =
          (.ok .generated, built) ∧
        (build manifestPath storePath false false).run built = (.ok .generated, rebuilt) ∧
        built.readText? descriptionPath = .ok (some (generatedHeader ++ plainDescription)) ∧
        rebuilt.readText? descriptionPath =
          .ok (some (generatedHeader ++ listingDescription "foo.cabal")) := by
  have hplain : ∀ text ∈ some plainDescription, Text.IsFaithful text := by
    rintro _ ⟨⟩
    exact isFaithful_plainDescription
  have hlisting : ∀ text ∈ some (listingDescription "foo.cabal"), Text.IsFaithful text := by
    rintro _ ⟨⟩
    exact canList_description.isFaithful_listingDescription
  have hnew : some plainDescription ≠ some (listingDescription "foo.cabal") := by
    intro hsame
    have hlength := congrArg String.length (Option.some.inj hsame)
    have hnewline : "\n".length = 1 := rfl
    simp only [listingDescription, String.length_append] at hlength
    omega
  obtain ⟨log, hbuild⟩ := run_build_listing canList_description [] (glob_description none [])
    nofun render_plain nofun isFaithful_plainDescription
  obtain ⟨log', hbuild'⟩ := run_build_listing canList_description log
    (glob_description (some plainDescription) log) hplain render_description hnew
    canList_description.isFaithful_listingDescription
  refine ⟨isSound_listingWorld _ _, fun warnings package between hread ↦ ?_, _, _, hbuild, hbuild',
    readText?_listing _ log hplain, readText?_listing _ log' hlisting⟩
  exact isTidy_of_readPackage_listing canList_description (glob_description none []) nofun hread

end Manifest

end CabalManifest
