import CabalManifest.Proofs.BuildSteps
import CabalManifest.Proofs.FieldOrder
import CabalManifest.Proofs.ReloadedDocuments

/-!
# Written descriptions

Building a package changes the file of its description and adds copies of documents to the store, and
that is all (`Manifest.build_places`, `Manifest.build_preserves`). The manifest that refers to a
document on the network has both: its first build downloads the document and writes the description.
-/

namespace CabalManifest.Manifest

/-! ### A manifest with a document -/

/-- Where a manifest stands. -/
def manifestPath : PosixPath := ⟨.slash, ["pkg", "package.yaml"]⟩

/-- The store of documents. -/
def storePath : PosixPath := ⟨.slash, ["store"]⟩

/-- Where the description of a package stands that is named `foo`. -/
def descriptionPath : PosixPath := ⟨.slash, ["pkg", "foo.cabal"]⟩

/-- The path of the manifest can be asked for. -/
theorem checkPath_manifestPath : World.checkPath manifestPath = .ok () :=
  World.checkPath_of_notMem (by decide) (by decide)

/-- So can the path of the description. -/
theorem checkPath_descriptionPath : World.checkPath descriptionPath = .ok () :=
  World.checkPath_of_notMem (by decide) (by decide)

/-- A world with a directory for packages. -/
def sparseWorld : World :=
  ⟨FileTree.empty.insert ["pkg"] .directory, [], ⟨.slash, ["pkg"]⟩, [], [], [], .silent, []⟩

/-- The world with no manifest is sound. -/
theorem isSound_sparseWorld : sparseWorld.IsSound :=
  ⟨FileTree.isSound_empty.insert (by decide) ⟨by decide, rfl⟩ (.inl rfl), rfl⟩

/-- A document on the network. -/
def sharedDocument : Repository := ⟨"o", "r", "v1", ".hpack/defaults.yaml"⟩

/-- The text of this document. -/
def sharedText : String := "category: Web\n"

/-- The fields of this document. -/
def sharedEntries : List (String × Value) := [("category", .text "Web")]

/-- The text of a manifest that refers to it. -/
def sharingText : String := "name: foo\ndefaults: o/r@v1\n"

/-- The entries of this manifest. -/
def sharingEntries : List (String × Value) :=
  [("name", .text "foo"), ("defaults", .text "o/r@v1")]

/-- The text of the document stands for its entries. -/
theorem parse_sharedText : Yaml.parse sharedText = .ok (.object sharedEntries) :=
  Yaml.parse_eq_of_parsesAs (by decide +kernel)

/-- So does the text of the manifest. -/
theorem parse_sharingText : Yaml.parse sharingText = .ok (.object sharingEntries) :=
  Yaml.parse_eq_of_parsesAs (by decide +kernel)

section

variable (present : Option String)

/-- A world with this manifest and this document, and perhaps with a description of the package. -/
def sharingWorld : World :=
  let tree := sparseWorld.tree.insert ["pkg", "package.yaml"] (.file (Text.encode sharingText))
  { sparseWorld with
    tree := match present with
      | none => tree
      | some text => tree.insert ["pkg", "foo.cabal"] (.file (Text.encode text))
    network := [(sharedDocument.url, .response 200 (Text.encode sharedText))] }

/-- Where the copy of the document is put. -/
def copyLocation : Location := ["store", "o", "r", "v1", ".hpack", "defaults.yaml"]

/-- The path to this place. -/
def copyPath : PosixPath := ⟨.slash, copyLocation⟩

/-- The absolute path of the copy. -/
def copyName : String := "/store/o/r/v1/.hpack/defaults.yaml"

/-- The files after the directories around the copy were made. -/
def storedTree : FileTree :=
  ((((((sharingWorld present).tree.insert ["store"] .directory).insert ["store", "o"]
    .directory).insert ["store", "o", "r"] .directory).insert ["store", "o", "r", "v1"]
      .directory).insert ["store", "o", "r", "v1", ".hpack"] .directory)

/-- The world after the document was downloaded. -/
def downloadedWorld : World :=
  { sharingWorld present with
    tree := (storedTree present).insert copyLocation (.file (Text.encode sharedText))
    requests := [sharedDocument.url] }

/-- The world with the manifest is sound, whatever description is in it. -/
theorem isSound_sharingWorld : (sharingWorld present).IsSound := by
  have hmanifest : (sparseWorld.tree.insert ["pkg", "package.yaml"]
      (.file (Text.encode sharingText))).IsSound :=
    isSound_sparseWorld.tree.insert (by decide) ⟨by decide, rfl⟩ (.inr nofun)
  cases present with
  | none => exact ⟨hmanifest, rfl⟩
  | some text => exact ⟨hmanifest.insert (by decide) ⟨by decide, rfl⟩ (.inr nofun), rfl⟩

/-- The path of the stored copy can be asked for. -/
theorem checkPath_copyPath : World.checkPath copyPath = .ok () :=
  World.checkPath_of_notMem (by decide) (by decide)

/-- The document is not in the store yet, so that it is downloaded. -/
theorem run_fetch_shared :
    (Store.fetch storePath sharedDocument).run (sharingWorld present) =
      (.ok (Text.encode sharedText), downloadedWorld present) := by
  have hlocation : sharedDocument.location storePath = copyPath := rfl
  have hnew : (sharingWorld present).isFile copyPath = .ok false :=
    World.isFile_of_missing checkPath_copyPath (by cases present <;> rfl)
  have hanswer : Store.outcome (sharingWorld present).network sharedDocument.url =
      .ok (Text.encode sharedText) :=
    Store.outcome_eq_ok_iff.2 ⟨by decide, 200, le_rfl, by decide, List.lookup_cons_self⟩
  have hparent : World.checkPath copyPath.parent = .ok () :=
    World.checkPath_of_notMem (by decide) (by decide)
  have htree : (sharingWorld present).tree.makeDirectories [] copyPath.parent.names.reverse =
      (storedTree present, .ok ()) := by
    cases present <;> rfl
  have hmade : ((sharingWorld present).asked sharedDocument.url).makeDirectories copyPath.parent =
      ({ sharingWorld present with
        tree := storedTree present, requests := [sharedDocument.url] }, .ok ()) :=
    World.makeDirectories_of_made hparent htree
  have hfollow : World.follow { sharingWorld present with
      tree := storedTree present, requests := [sharedDocument.url] } copyPath =
        .ok copyLocation := by
    cases present <;> rfl
  have hfree : (storedTree present).get? copyLocation = none := by
    cases present <;> rfl
  have hfile : (storedTree present).get? copyLocation ≠ some .directory := by
    rw [hfree]
    exact nofun
  rw [Store.run_fetch, hlocation, hnew]
  simp only [hanswer, hmade]
  rw [World.writeBytes_of_follow checkPath_copyPath hfollow hfile]
  rfl

/-- The resolver of this manifest. -/
def sharingResolver : Resolver := ⟨storePath, some manifestPath.parent⟩

/-- The document of the host is located at its copy in the store. -/
theorem locate_shared :
    sharingResolver.locate manifestPath.parent (.github sharedDocument) (sharingWorld present) =
      .ok (copyPath, copyName) := by
  have htext : ((sharingWorld present).resolve copyPath).text = copyName := rfl
  have houtside : ((sharingWorld present).resolve copyPath).relativeTo?
      ((sharingWorld present).resolve manifestPath.parent) = none := rfl
  have hshown : (sharingWorld present).shorten copyPath (some manifestPath.parent) =
      .ok copyName := by
    rw [World.shorten, checkPath_copyPath]
    simp only [Option.bind_some, houtside, htext]
    rfl
  have hlocated : sharingResolver.locate manifestPath.parent (.github sharedDocument)
      (sharingWorld present) =
        (do return (copyPath, ← (sharingWorld present).shorten copyPath
          (some manifestPath.parent))) := rfl
  rw [hlocated, hshown]
  rfl

/-- Loading it for the first time downloads it and stores the copy. -/
theorem run_load_shared :
    (sharingResolver.load copyPath copyName (.github sharedDocument)).run (sharingWorld present) =
      (.ok sharedEntries, downloadedWorld present) := by
  have hvalue : Yaml.readBytes copyName (Text.encode sharedText) = .ok (.object sharedEntries) := by
    rw [Yaml.readBytes_encode, Yaml.readText, parse_sharedText]
    rfl
  have hcontent : (sharingResolver.content copyPath copyName (.github sharedDocument)).run
      (sharingWorld present) = (.ok (Text.encode sharedText), downloadedWorld present) := by
    rw [Resolver.content]
    exact run_fetch_shared present
  exact Resolver.run_load_of_content hcontent hvalue

/-- Resolving the reference for the first time does this and remembers the document. -/
theorem run_resolve_shared :
    ((sharingResolver.resolve (.github sharedDocument) [] manifestPath.parent).run []).run
      (sharingWorld present) = (.ok (⟨sharedEntries, copyName, copyName, copyPath.parent⟩,
        [(copyName, sharedEntries)]), downloadedWorld present) := by
  have htarget : sharingResolver.target (sharingWorld present) manifestPath.parent
      (.github sharedDocument) = copyName := rfl
  have hfile : sharingResolver.fileOf manifestPath.parent (.github sharedDocument) = copyPath :=
    rfl
  have hnone : Entries.get? ([] : Cache) copyName = none := rfl
  rw [Resolver.run_resolve, locate_shared]
  simp only [Resolver.documentOf, htarget, hfile, hnone, run_load_shared, List.not_mem_nil,
    if_false]
  rfl

/-- What is read from the manifest, once the document is resolved to. -/
theorem run_package_sharing {σ : Type} {services : Services σ}
    {resolve : Reference → List String → PosixPath → σ → Except Failure Document × σ}
    (hresolve : services.resolve? = some resolve) (source : String) {bound : Nat} (hbound : bound ≠ 0)
    {document : Document} {s t : σ}
    (hfound : resolve (.github sharedDocument) [] manifestPath.parent s = (.ok document, t))
    (hdocument : document.value = sharedEntries) :
    ((⟨services, source, manifestPath.parent, []⟩ : Context σ).package bound
      (.object sharingEntries)).run ⟨[], s⟩ =
        (.ok ⟨[("category", .text "Web"), ("name", .text "foo")]⟩, ⟨[], t⟩) := by
  obtain ⟨bound, rfl⟩ := Nat.exists_eq_succ_of_ne_zero hbound
  let context : Context σ := ⟨services, source, manifestPath.parent, []⟩
  have hown : (Context.fields (Context.document (bound + 1)) context .package (fun _ ↦ false)
      Place.top sharingEntries).run ⟨[], s⟩ = (.ok [("name", .text "foo")], ⟨[], s⟩) := by
    simp only [sharingEntries, Context.fields, Context.fieldValue]
    rfl
  have hread : (Context.document (bound + 1) context .package document).run ⟨[], t⟩ =
      (.ok ⟨[("category", .text "Web")]⟩, ⟨[], t⟩) := by
    simp only [Context.document, hdocument, sharedEntries, Context.scope, Context.fields,
      Context.fieldValue]
    rfl
  have hinherit : (Context.inherit (Context.document (bound + 1)) context .package .empty
      [.github sharedDocument]).run ⟨[], s⟩ =
        (.ok ⟨[("category", .text "Web")]⟩, ⟨[], t⟩) := by
    have hresolved := context.run_resolve hresolve (.github sharedDocument) ⟨[], s⟩
    rw [hfound] at hresolved
    rw [Context.inherit, run_bind_of_ok hresolved, run_bind_of_ok hread,
      FieldSet.empty_merge (by decide)]
    rfl
  have hreferences : (context.listReferences (Place.top.key "defaults") (.text "o/r@v1")).run
      ⟨[], s⟩ = (.ok [.github sharedDocument], ⟨[], s⟩) := by
    have hlist : Reference.listOf context.source (Place.top.key "defaults") (.text "o/r@v1") =
        ([], .ok [.github sharedDocument]) := rfl
    rw [Context.listReferences, hlist]
    simp only [context, hresolve]
    rfl
  have hdefaults : (context.defaults (Context.document (bound + 1)) .package
      (Place.top.key "defaults") (.text "o/r@v1")).run ⟨[], s⟩ =
        (.ok ⟨[("category", .text "Web")]⟩, ⟨[], t⟩) := by
    rw [Context.defaults_eq, run_bind_of_ok hreferences, hinherit]
  have hmerge : FieldSet.merge ⟨[("category", .text "Web")]⟩ ⟨[("name", .text "foo")]⟩ =
      ⟨[("category", .text "Web"), ("name", .text "foo")]⟩ := by
    rw [FieldSet.merge_eq]
    rfl
  rw [Context.package, Context.scope, run_bind_of_ok hown]
  show (context.defaults (Context.document (bound + 1)) .package (Place.top.key "defaults")
    (.text "o/r@v1") >>= fun inherited ↦ pure (inherited.merge ⟨[("name", .text "foo")]⟩)).run
      ⟨[], s⟩ = _
  rw [run_bind_of_ok hdefaults, hmerge]
  rfl

/-- At least one document can be read. -/
theorem documentBound_ne_zero (world : World) : world.documentBound ≠ 0 :=
  Nat.ne_zero_of_lt (world.length_documentPaths_lt storePath)

/-- Services that find the document give the package of the manifest. -/
theorem outcomeOf_sharing {services : Services (Cache × World)} {world : World}
    {resolve : Reference → List String → PosixPath → Cache × World →
      Except Failure Document × (Cache × World)}
    (hresolve : services.resolve? = some resolve) {document : Document} {t : Cache × World}
    (hfound : resolve (.github sharedDocument) [] manifestPath.parent ([], world) =
      (.ok document, t)) (hdocument : document.value = sharedEntries) :
    outcomeOf services manifestPath world sharingEntries =
      (.ok ⟨[("category", .text "Web"), ("name", .text "foo")]⟩, ⟨[], t⟩) :=
  run_package_sharing hresolve manifestPath.name (documentBound_ne_zero world) hfound hdocument

/-- The manifest is there and is parsed. -/
theorem run_load_sharing :
    (load manifestPath).run (sharingWorld present) = (.ok sharingEntries, sharingWorld present) := by
  have hfaithful : Text.IsFaithful sharingText := .ofList (by decide)
  have hfind : (sharingWorld present).find manifestPath =
      .ok (.file (Text.encode sharingText)) := by
    cases present <;> rfl
  have htext : (sharingWorld present).readText manifestPath = .ok sharingText := by
    rw [World.readText_of_find checkPath_manifestPath hfind, hfaithful.unifyNewlines]
  have hvalue : Yaml.readText manifestPath.name sharingText = .ok (.object sharingEntries) := by
    rw [Yaml.readText, parse_sharingText]
    rfl
  exact run_load htext hvalue

/-- The package of this manifest. -/
def sharingPackage : Package :=
  ⟨"foo", "0.0.0", ⟨[("category", .text "Web"), ("build-type", .text "Simple")]⟩, [], [], none, []⟩

/-- Reading the package leaves the downloaded copy and some messages behind. -/
theorem run_readPackage_sharing :
    ∃ log, (readPackage manifestPath sharingResolver).run (sharingWorld present) =
      (.ok ([], sharingPackage), { downloadedWorld present with log := log }) := by
  obtain ⟨resolve, hresolve⟩ : ∃ resolve,
      (Services.ofPackage manifestPath.parent (some sharingResolver)).resolve? = some resolve :=
    ⟨_, rfl⟩
  have hfound := Services.eq_settle hresolve _ _ _ _ _ (run_resolve_shared present)
  have hfields := @run_readFields _ sharingResolver _ _ (run_load_sharing present)
  rw [outcomeOf_sharing hresolve hfound rfl] at hfields
  have hlicense : (downloadedWorld present).isFile
      (manifestPath.parent.below FieldSet.licenseFile) = .ok false :=
    World.isFile_of_missing (World.checkPath_of_notMem (by decide) (by decide))
      (by cases present <;> rfl)
  have hinfer : (sharingPackage.infer ((downloadedWorld present).lister
      manifestPath.parent)).run Discovery.start = .ok (sharingPackage, .start) := rfl
  exact run_readPackage hfields hlicense rfl hinfer

/-- The former description is read as it was, the download apart. -/
theorem readText?_downloadedWorld (log : List (Level × String))
    (hfaithful : ∀ text ∈ present, Text.IsFaithful text) :
    World.readText? { downloadedWorld present with log := log } descriptionPath =
      .ok present := by
  rw [World.readText?_log]
  cases present with
  | none =>
    rw [World.readText?, World.isFile_of_missing checkPath_descriptionPath rfl]
    rfl
  | some text =>
    have hfind : (downloadedWorld (some text)).find descriptionPath =
        .ok (.file (Text.encode text)) := rfl
    rw [World.readText?_of_find checkPath_descriptionPath hfind,
      (hfaithful text rfl).unifyNewlines]

/-- Compiling the manifest stores a copy of the document. -/
theorem run_compile_sharing (hfaithful : ∀ text ∈ present, Text.IsFaithful text) :
    ∃ log, (compile manifestPath storePath none).run (sharingWorld present) =
      (.ok ⟨descriptionPath, sharingPackage.render (.ofText (present.getD "")), []⟩,
        { downloadedWorld present with log := log }) := by
  obtain ⟨log, hread⟩ := run_readPackage_sharing present
  have hpath : manifestPath.parent.below (sharingPackage.name ++ ".cabal") = descriptionPath := by
    show manifestPath.parent.below ("foo" ++ ".cabal") = descriptionPath
    rfl
  have hprevious := readText?_downloadedWorld present log hfaithful
  rw [← hpath] at hprevious
  obtain ⟨log', hcompile⟩ := run_compile hread rfl hprevious
  rw [hpath] at hcompile
  exact ⟨log', hcompile⟩

end

/-- The description of the package. -/
def sharingDescription : String :=
  "name: foo\nversion: 0.0.0\ncategory: Web\nbuild-type: Simple\ncabal-version: >= 1.10\n"

/-- The generated description has no mark in it that reading would change. -/
theorem isFaithful_sharingDescription : Text.IsFaithful sharingDescription :=
  .ofList (by decide)

/-- With no former text, the package is written in the standard layout. -/
theorem render_sharing : sharingPackage.render (.ofText "") = sharingDescription := by
  have helements : sharingPackage.elements = [.field "name" (.inline "foo"),
      .field "version" (.inline "0.0.0"), .field "category" (.inline "Web"),
      .field "build-type" (.inline "Simple"), .field "cabal-version" (.inline ">= 1.10")] := rfl
  show (LayoutHints.ofText "").renderTop _ = _
  rw [helements, ofText_empty, renderTop_of_sortBy rfl (Element.sortBy_nil _)]
  rfl

/-- The description with its header. -/
def sharingOutput : String := generatedHeader ++ sharingDescription

/-- The world after the manifest was built. -/
def sharedWorld (log : List (Level × String)) : World :=
  { downloadedWorld none with
    tree := (downloadedWorld none).tree.insert ["pkg", "foo.cabal"]
      (.file (Text.encode sharingOutput))
    log := log }

/-- Building the manifest writes the description, too. -/
theorem run_build_sharing : ∃ log, (build manifestPath storePath false false).run
    (sharingWorld none) = (.ok .generated, sharedWorld log) := by
  obtain ⟨log, hcompile⟩ := run_compile_sharing none nofun
  rw [Option.getD_none, render_sharing] at hcompile
  obtain ⟨log', hbuild⟩ := run_build_of_compile false hcompile
  have hencode : Text.encode? sharingOutput = .ok (Text.encode sharingOutput) :=
    (isFaithful_generatedHeader.append isFaithful_sharingDescription).encode?
  have hpresent := readText?_downloadedWorld none log' nofun
  have hfollow : World.follow { downloadedWorld none with log := log' } descriptionPath =
      .ok ["pkg", "foo.cabal"] := rfl
  obtain ⟨log'', hinstall⟩ := run_install_of_new ⟨descriptionPath, sharingDescription, []⟩ false
    hpresent nofun rfl hencode checkPath_descriptionPath hfollow nofun
  exact ⟨log'', hbuild.trans hinstall⟩

/-! ### What a build changes -/

/-- A description whose name has no slash in it stands right in its directory. -/
theorem names_resolve_below_description (place directory : PosixPath) {name : String}
    (hslash : '/' ∉ name.toList) : (place.resolve (directory.below (name ++ ".cabal"))).names =
      (place.resolve directory).names ++ [name ++ ".cabal"] := by
  have hlength : 6 ≤ (name ++ ".cabal").length := by
    rw [String.length_append]
    exact Nat.le_add_left 6 _
  have hne : ∀ text : String, text.length < 6 → name ++ ".cabal" ≠ text := by
    rintro text htext rfl
    omega
  have hread : PosixPath.ofString (name ++ ".cabal") = ⟨.relative, [name ++ ".cabal"]⟩ :=
    PosixPath.ofString_of_notMem (by simpa using hslash) (hne "" (by decide)) (hne "." (by decide))
  rw [PosixPath.below, hread]
  exact place.names_resolve_append directory.root directory.names
    (List.forall_mem_singleton.2 ⟨hne "." (by decide), hne ".." (by decide)⟩)

/-- What a build can make of what is at a location: it is left alone; a directory is made; a copy of
a document is put there, which is strictly below the store if the document is plain; or it is the
place of the description, which is right in the directory of the manifest if no slash is in the name
of the package. -/
theorem build_places (manifest : PosixPath) {store : PosixPath} (hstore : store.IsSpelled)
    (toOutput force : Bool) {world : World} (hsound : world.IsSound) (location : Location) :
    let built := ((build manifest store toOutput force).run world).2
    let before := world.tree.get? location
    let after := built.tree.get? location
    after = before ∨ (before = none ∧ after = some .directory) ∨
    (∃ content document, after = some (.file content) ∧
      world.IsCopy store built.requests location content document ∧
      (document.IsPlain → ∃ below, below ≠ [] ∧
        location = (world.resolve store).names ++ below)) ∨
    toOutput = false ∧ ∃ warnings package, ∃ between : World,
      (readPackage manifest ⟨store, some manifest.parent⟩).run world =
        (.ok (warnings, package), between) ∧
      location = (world.resolve (manifest.parent.below (package.name ++ ".cabal"))).names ∧
      ('/' ∉ package.name.toList →
        location = (world.resolve manifest.parent).names ++ [package.name ++ ".cabal"]) := by
  intro built before after
  have hbuilds := builds manifest store toOutput force world
  have hcopied := addsCopies_compile manifest hstore none hsound
  have hrequests := hbuilds.requests_eq
  have htrees := hbuilds.tree_eq
  rcases hcompile : (compile manifest store none).run world with ⟨compiled?, copied⟩
  rw [hcompile] at hcopied hrequests htrees
  obtain ⟨asked, hasked, hstored⟩ := hcopied.exists_asked
  have hsubset : asked ⊆ built.requests := by
    rw [hrequests, hasked]
    exact List.subset_append_right _ _
  -- What the manifest changes when it is compiled are copies and the directories around them.
  have hcopy := ((hstored location).mono hsubset).eq_or_new
  have hafter : built.tree.get? location = after := rfl
  rcases htrees with ⟨htree, -⟩ |
    ⟨hinstalled, compiled, target, written, hcompiled, hfollow, hfile, -, htree, -⟩
  · rw [htree] at hafter
    rw [hafter] at hcopy
    exact hcopy.imp_right (Or.imp_right .inl)
  · have hroot : target ≠ [] := by
      rintro rfl
      exact hfile rfl
    rw [htree, FileTree.get?_insert _ _ _ hroot] at hafter
    split at hafter
    · next hsame =>
      rw [show compiled? = .ok compiled from hcompiled] at hcompile
      obtain ⟨warnings, package, _, between, hread, -, rfl, -⟩ := exists_package_of_compile hcompile
      have hlocation : location =
          (world.resolve (manifest.parent.below (package.name ++ ".cabal"))).names := by
        rw [World.resolve, ← hcopied.place_eq, hsame]
        exact (congrArg PosixPath.names (hcopied.isSound.isPlaced.eq_of_follow hfollow)).symm
      refine .inr (.inr (.inr ⟨hinstalled, warnings, package, between, hread, hlocation,
        fun hslash ↦ ?_⟩))
      rw [hlocation, World.resolve, names_resolve_below_description _ _ hslash]
      rfl
    · rw [hafter] at hcopy
      exact hcopy.imp_right (Or.imp_right .inl)

/-- The first build of the manifest stores the copy of the document below the store, and writes the
description next to the manifest. -/
theorem build_places_sharing :
    storePath.IsSpelled ∧ (sharingWorld none).IsSound ∧
      ∃ built, (build manifestPath storePath false false).run (sharingWorld none) =
          (.ok .generated, built) ∧
        (built.tree.get? copyLocation = some (.file (Text.encode sharedText)) ∧
          ∃ document, (sharingWorld none).IsCopy storePath built.requests copyLocation
            (Text.encode sharedText) document) ∧
        built.tree.get? ["pkg", "foo.cabal"] = some (.file (Text.encode sharingOutput)) ∧
          ["pkg", "foo.cabal"] = ((sharingWorld none).resolve manifestPath.parent).names ++
            [sharingPackage.name ++ ".cabal"] := by
  have hstore : storePath.IsSpelled := by decide
  obtain ⟨log, hbuild⟩ := run_build_sharing
  obtain ⟨log', hread'⟩ := run_readPackage_sharing none
  have hplaces := build_places manifestPath hstore false false (isSound_sharingWorld none)
  simp only [hbuild] at hplaces
  -- Both files are new, and neither of them is a directory.
  have hcopied : (sharedWorld log).tree.get? copyLocation =
      some (.file (Text.encode sharedText)) := rfl
  have hwritten : (sharedWorld log).tree.get? ["pkg", "foo.cabal"] =
      some (.file (Text.encode sharingOutput)) := rfl
  have hnone : (sharingWorld none).tree.get? copyLocation = none := rfl
  have hnone' : (sharingWorld none).tree.get? ["pkg", "foo.cabal"] = none := rfl
  refine ⟨hstore, isSound_sharingWorld none, _, hbuild, ⟨hcopied, ?_⟩, hwritten, ?_⟩
  · rcases hplaces copyLocation with hsame | ⟨-, hdirectory⟩ | ⟨content, document, hfile, hcopy, -⟩ |
      ⟨-, warnings, package, between, hread, hlocation, -⟩
    · rw [hcopied, hnone] at hsame
      cases hsame
    · rw [hcopied] at hdirectory
      cases hdirectory
    · rw [hcopied] at hfile
      cases hfile
      exact ⟨document, hcopy⟩
    · cases hread'.symm.trans hread
      exact absurd hlocation (by decide)
  · rcases hplaces ["pkg", "foo.cabal"] with hsame | ⟨-, hdirectory⟩ |
      ⟨content, document, hfile, hcopy, -⟩ | ⟨-, warnings, package, between, hread, -, hlocation⟩
    · rw [hwritten, hnone'] at hsame
      cases hsame
    · rw [hwritten] at hdirectory
      cases hdirectory
    · -- The network holds no description.
      rw [hwritten] at hfile
      cases hfile
      obtain ⟨-, status, -, -, hanswer⟩ := Store.outcome_eq_ok_iff.1 hcopy.answer_eq
      simp only [sharingWorld, List.lookup_cons, List.lookup_nil] at hanswer
      split at hanswer <;> cases hanswer
    · cases hread'.symm.trans hread
      exact hlocation (by decide)

/-- A document that has its place outside of the store. -/
def strayDocument : Repository := ⟨"o", "r", "v1", "../../../../out/x.yaml"⟩

/-- A reference to this document. -/
def strayReference : Value :=
  .object [("github", .text "o/r"), ("ref", .text "v1"), ("path", .text "../../../../out/x.yaml")]

/-- Values can name documents that do not have their place below the store. -/
theorem strayReference_outside :
    strayReference.Names (.github strayDocument) ∧
      (sparseWorld.resolve ⟨.slash, ["store"]⟩).names = ["store"] ∧
      (sparseWorld.resolve (strayDocument.location ⟨.slash, ["store"]⟩)).names =
        ["out", "x.yaml"] := by
  have hlist : Reference.listOf "package.yaml" Place.top strayReference =
      ([], .ok [.github strayDocument]) := rfl
  refine ⟨⟨_, _, _, congrArg Prod.snd hlist, List.mem_singleton_self _⟩, ?_, ?_⟩
  · decide
  · decide

/-- A build leaves files as they are, apart from copies in the store. It changes the file of the
description only if it says that this was generated, or if no bytes stand for the description; and it
changes none that was written by hand unless that is forced. -/
theorem build_preserves (manifest : PosixPath) {store : PosixPath} (hstore : store.IsSpelled)
    (toOutput force : Bool) {world : World} (hsound : world.IsSound) :
    let compiled? := ((compile manifest store none).run world).1
    let copied := ((compile manifest store none).run world).2
    let built := (build manifest store toOutput force).run world
    world.AddsCopies store copied ∧
    (∀ failure, built.1 = .error failure → built.2.tree = copied.tree ∨
      toOutput = false ∧ ∃ compiled fault location, compiled? = .ok compiled ∧
        Text.encode? (generatedHeader ++ compiled.text) = .error fault ∧
        failure = .unencodable fault ∧ copied.follow compiled.target = .ok location ∧
        MayReplace copied compiled.target force ∧
        built.2.tree = copied.tree.insert location (.file .empty)) ∧
    (∀ outcome, built.1 = .ok outcome → outcome ≠ .generated → built.2.tree = copied.tree) ∧
    (built.1 = .ok .generated →
      toOutput = false ∧ ∃ compiled content location, compiled? = .ok compiled ∧
        Text.encode? (generatedHeader ++ compiled.text) = .ok content ∧
        copied.follow compiled.target = .ok location ∧
        MayReplace copied compiled.target force ∧
        built.2.tree = copied.tree.insert location (.file content)) ∧
    (toOutput = false → (built.1 = .ok .modified ↔ force = false ∧ ∃ compiled text,
      compiled? = .ok compiled ∧ copied.readText? compiled.target = .ok (some text) ∧
        isHandwritten text)) := by
  have hbuilds := builds manifest store toOutput force world
  have hcopied := addsCopies_compile manifest hstore none hsound
  have htrees := hbuilds.tree_eq
  have hmodified := hbuilds.modified_iff
  generalize (build manifest store toOutput force).run world = built at htrees hmodified ⊢
  generalize (compile manifest store none).run world = compiled at hcopied htrees hmodified ⊢
  refine ⟨hcopied, fun failure hfailure ↦ ?_, fun outcome houtcome hne ↦ ?_, fun hgenerated ↦ ?_,
    hmodified⟩
  · rcases htrees with ⟨htree, -⟩ |
      ⟨hinstalled, compiled, location, content, hcompiled, hfollow, -, hmay, htree, hwritten⟩
    · exact .inl htree
    · rcases hwritten with ⟨hok, -⟩ | ⟨fault, herror, hencode, rfl⟩
      · cases hfailure.symm.trans hok
      · obtain rfl := Except.error.inj (hfailure.symm.trans herror)
        exact .inr ⟨hinstalled, compiled, fault, location, hcompiled, hencode, rfl, hfollow, hmay,
          htree⟩
  · rcases htrees with ⟨htree, -⟩ |
      ⟨-, compiled, location, content, -, -, -, -, -, ⟨hok, -⟩ | ⟨fault, herror, -⟩⟩
    · exact htree
    · exact absurd (Except.ok.inj (houtcome.symm.trans hok)) hne
    · cases houtcome.symm.trans herror
  · rcases htrees with ⟨-, hne⟩ |
      ⟨hinstalled, compiled, location, content, hcompiled, hfollow, -, hmay, htree, hwritten⟩
    · exact absurd hgenerated hne
    · rcases hwritten with ⟨-, hencode⟩ | ⟨fault, herror, -⟩
      · exact ⟨hinstalled, compiled, content, location, hcompiled, hencode, hfollow, hmay, htree⟩
      · cases hgenerated.symm.trans herror

/-- Without the header of generated descriptions, a description is written by hand. -/
def handwrittenOutput : String := "name: foo\n"

/-- The description is laid out as it is. -/
theorem render_sharing_again : sharingPackage.render (.ofText sharingOutput) = sharingDescription := by
  have helements : sharingPackage.elements = [.field "name" (.inline "foo"),
      .field "version" (.inline "0.0.0"), .field "category" (.inline "Web"),
      .field "build-type" (.inline "Simple"), .field "cabal-version" (.inline ">= 1.10")] := rfl
  have hhints : LayoutHints.ofText sharingDescription =
      ⟨["name", "version", "category", "build-type", "cabal-version"], [], none, 2, .leading⟩ := by
    decide
  show (LayoutHints.ofText (generatedHeader ++ sharingDescription)).renderTop _ = _
  rw [LayoutHints.ofText_generatedHeader, helements, hhints, renderTop_of_sortBy rfl]
  · rfl
  · rw [Element.sortBy, List.mergeSort_of_pairwise (by decide)]
    rfl

/-- The build of the manifest with a document writes the description where there is none, and nothing
but the copy of the document where the description is up to date or was written by hand. -/
theorem build_preserves_sharing :
    storePath.IsSpelled ∧ (∀ present, (sharingWorld present).IsSound) ∧
      (∃ built, (build manifestPath storePath false false).run (sharingWorld none) =
          (.ok .generated, built) ∧ ∃ content, Text.encode? sharingOutput = .ok content ∧
        built.tree = (downloadedWorld none).tree.insert ["pkg", "foo.cabal"] (.file content)) ∧
      (∃ built, (build manifestPath storePath false false).run
          (sharingWorld (some sharingOutput)) = (.ok .upToDate, built) ∧
        built.tree = (downloadedWorld (some sharingOutput)).tree) ∧
      (isHandwritten handwrittenOutput ∧ ∃ built, (build manifestPath storePath false false).run
          (sharingWorld (some handwrittenOutput)) = (.ok .modified, built) ∧
        built.tree = (downloadedWorld (some handwrittenOutput)).tree) := by
  have hstore : storePath.IsSpelled := by decide
  have hpreserves := fun present ↦ build_preserves manifestPath hstore false false
    (isSound_sharingWorld present)
  refine ⟨hstore, isSound_sharingWorld, ?_, ?_, ?_⟩
  · obtain ⟨log, hbuild⟩ := run_build_sharing
    obtain ⟨log', hcompile⟩ := run_compile_sharing none (by simp)
    rw [Option.getD_none, render_sharing] at hcompile
    obtain ⟨-, -, -, hgenerated, -⟩ := hpreserves none
    simp only [hbuild, hcompile] at hgenerated
    obtain ⟨-, compiled, content, location, hcompiled, hencode, hfollow, -, htree⟩ :=
      hgenerated trivial
    cases hcompiled
    cases hfollow
    exact ⟨_, hbuild, content, hencode, htree⟩
  · have hfaithful : ∀ text ∈ some sharingOutput, Text.IsFaithful text := by
      rintro _ ⟨⟩
      exact isFaithful_generatedHeader.append isFaithful_sharingDescription
    obtain ⟨log, hcompile⟩ := run_compile_sharing (some sharingOutput) hfaithful
    rw [Option.getD_some, render_sharing_again] at hcompile
    obtain ⟨log', hbuild⟩ := run_build_of_compile false hcompile
    obtain ⟨log'', hinstall⟩ := run_install_of_present ⟨descriptionPath, sharingDescription, []⟩
      false (readText?_downloadedWorld (some sharingOutput) log' hfaithful)
    obtain ⟨-, -, hkept, -⟩ := hpreserves (some sharingOutput)
    rw [hbuild, hinstall, hcompile] at hkept
    exact ⟨_, hbuild.trans hinstall, hkept .upToDate rfl (by simp)⟩
  · have hfaithful : ∀ text ∈ some handwrittenOutput, Text.IsFaithful text := by
      rintro _ ⟨⟩
      exact .ofList (by decide)
    have hhand : isHandwritten handwrittenOutput := by
      rw [isHandwritten, Bool.not_eq_true', Bool.eq_false_iff, ne_eq, String.startsWith_string_iff]
      refine fun hprefix ↦ absurd hprefix.length_le ?_
      set_option maxRecDepth 4000 in
      decide
    obtain ⟨log, hcompile⟩ := run_compile_sharing (some handwrittenOutput) hfaithful
    obtain ⟨-, -, hkept, -, hmodified⟩ := hpreserves (some handwrittenOutput)
    rw [hcompile] at hkept hmodified
    have hresult := (hmodified rfl).2 ⟨rfl, _, handwrittenOutput, rfl,
      readText?_downloadedWorld (some handwrittenOutput) log hfaithful, hhand⟩
    exact ⟨hhand, _, Prod.ext hresult rfl, hkept .modified hresult (by simp)⟩

/-- A description that was generated. -/
def formerOutput : String := generatedHeader ++ "name: foo\n"

/-- A world with this description. -/
def describedWorld : World :=
  { sparseWorld with
    tree := sparseWorld.tree.insert ["pkg", "foo.cabal"] (.file (Text.encode formerOutput)) }

/-- A description with half of a surrogate pair in it. -/
def halvedDescription : Compiled :=
  ⟨⟨.slash, ["pkg", "foo.cabal"]⟩, "author: " ++ String.ofList (Text.ofCode 0xD800), []⟩

/-- The path of the description with half a surrogate pair can be asked for. -/
theorem checkPath_halvedDescription : World.checkPath halvedDescription.target = .ok () :=
  World.checkPath_of_notMem (by decide) (by decide)

/-- The former description is read as it was. -/
theorem readText?_describedWorld :
    describedWorld.readText? halvedDescription.target = .ok (some formerOutput) := by
  have hfaithful : Text.IsFaithful formerOutput := isFaithful_generatedHeader.append (by decide)
  have hfind : describedWorld.find halvedDescription.target =
      .ok (.file (Text.encode formerOutput)) := rfl
  rw [World.readText?_of_find checkPath_halvedDescription hfind, hfaithful.unifyNewlines]

/-- No bytes stand for this description: what is in front of the half is faithful. -/
theorem exists_firstHalves?_halvedDescription :
    ∃ fault, Text.firstHalves? (Text.codes halvedDescription.output.toList) = some fault := by
  have hfaithful : Text.IsFaithful (generatedHeader ++ "author: ") :=
    isFaithful_generatedHeader.append (by decide)
  have hcodes : Text.codes halvedDescription.output.toList =
      (generatedHeader ++ "author: ").toList.map Char.toNat ++ Text.codes (Text.ofCode 0xD800) := by
    rw [← Text.codes_append_of_notMem hfaithful.halfMark_notMem, Compiled.output, halvedDescription,
      ← String.append_assoc, String.toList_append, String.toList_ofList]
  refine Option.ne_none_iff_exists'.1 fun hnone ↦ ?_
  have hhalf := Text.firstHalves?_eq_none_iff.1 hnone 0xD800
    (hcodes ▸ List.mem_append_right _ (by decide))
  exact absurd hhalf (by decide)

/-- Where no bytes stand for a description, it empties the file of one that was generated before. -/
theorem install_empties :
    ∃ fault, (install halvedDescription false).run describedWorld =
      (.error (.unencodable fault), { describedWorld with
        tree := describedWorld.tree.insert ["pkg", "foo.cabal"] (.file .empty) }) := by
  have hpresent := run_previousText halvedDescription.target describedWorld
  rw [readText?_describedWorld] at hpresent
  have hnew : some formerOutput ≠ some halvedDescription.output := fun hsame ↦
    absurd ((String.append_right_inj _).1 (Option.some.inj hsame)) (by decide)
  have hgenerated : isHandwritten formerOutput = false :=
    isHandwritten_output ⟨.here, "name: foo\n", []⟩
  obtain ⟨fault, hfault⟩ := exists_firstHalves?_halvedDescription
  have hencode : Text.encode? halvedDescription.output = .error fault := by
    rw [Text.encode?, hfault]
  have hwrite : describedWorld.writeBytes halvedDescription.target .empty =
      .ok { describedWorld with
        tree := describedWorld.tree.insert ["pkg", "foo.cabal"] (.file .empty) } := by
    rw [World.writeBytes, checkPath_halvedDescription]
    rfl
  have hempty := Run.run_changing (·.writeBytes halvedDescription.target .empty) describedWorld
  rw [hwrite] at hempty
  refine ⟨fault, ?_⟩
  rw [install, run_bind_of_ok hpresent, if_neg hnew, Option.any_some, hgenerated, Bool.false_and,
    if_neg Bool.false_ne_true]
  refine run_bind_of_error ?_ _
  simp only [Run.writeText, hencode]
  exact run_bind_of_ok hempty _

end CabalManifest.Manifest
