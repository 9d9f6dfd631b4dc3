import CabalManifest.Proofs.ChangedDocuments
import CabalManifest.Proofs.ReloadedDocuments
import CabalManifest.Proofs.SurfaceForms

/-!
# Equivalent forms

A manifest and the documents that it refers to can be written in other forms, at any places: what is
read from them, and the package made of it, is the same, and so are failures and warnings but for the
places that they tell (`Context.package_rewrites`). A place only grows by the steps into the arrays
and branches that are new (`Place.Moves`).
-/

namespace CabalManifest

/-! ### Places that move -/

/-- Whether steps are the same but for further ones into the only item of an array, or into the first
branch of a conditional. -/
inductive Step.Move : List Step → List Step → Prop
  | nil : Move [] []
  | step {steps steps' : List Step} (h : Move steps steps') (step : Step) :
    Move (steps ++ [step]) (steps' ++ [step])
  | lone {steps steps' : List Step} (h : Move steps steps') : Move steps (steps' ++ [.index 0])
  | branch {steps steps' : List Step} (h : Move steps steps') : Move steps (steps' ++ [.key "then"])

/-- Whether a place is another one where a value is written in another form. -/
structure Place.Moves (place place' : Place) : Prop where
  root_eq : place'.root = place.root
  steps : Step.Move place.steps place'.steps

/-- The placing of values that are written in other forms. -/
def Placing.moving : Placing where
  relates _ place place' _ := place.Moves place'
  key h _ := ⟨h.root_eq, h.steps.step _⟩
  index h _ := ⟨h.root_eq, h.steps.step _⟩
  lone h := ⟨h.root_eq, h.steps.lone⟩
  branch h := ⟨h.root_eq, h.steps.branch⟩

theorem Step.Move.refl (steps : List Step) : Step.Move steps steps := by
  induction steps using List.reverseRecOn with
  | nil => exact .nil
  | append_singleton steps step ih => exact ih.step step

theorem Place.Moves.refl (place : Place) : place.Moves place := ⟨rfl, .refl _⟩

/-- Whether failures are the same but for the place that they tell. -/
inductive Failure.Moves : Failure → Failure → Prop
  | invalid {source : String} {place place' : Place} {fault : Fault} (h : place.Moves place') :
    Moves (.invalid source place fault) (.invalid source place' fault)
  | same (failure : Failure) : Moves failure failure

/-- Whether warnings are the same but for the place that they tell. -/
inductive Warning.Moves : Warning → Warning → Prop
  | unrecognized {source : String} {place place' : Place} (h : place.Moves place') :
    Moves (.unrecognized source place) (.unrecognized source place')
  | same (warning : Warning) : Moves warning warning

theorem Failure.Moves.of_blames {failure failure' : Failure}
    (h : Placing.moving.Blames failure failure') : failure.Moves failure' := by
  cases h with
  | fault h => exact .invalid h
  | other => exact .same _

theorem Warning.Moves.of_tells {warning warning' : Warning}
    (h : Placing.moving.Tells warning warning') : warning.Moves warning' := by
  cases h with
  | unrecognized h => exact .unrecognized ⟨h.root_eq, h.steps.step _⟩
  | other => exact .same _

theorem Shape.exists_value (shape : Shape) : ∃ value : Value, value.shape = shape := by
  cases shape with
  | null => exact ⟨.null, rfl⟩
  | boolean => exact ⟨.bool true, rfl⟩
  | number => exact ⟨.int 0, rfl⟩
  | string => exact ⟨.text "", rfl⟩
  | array => exact ⟨.array [], rfl⟩
  | object => exact ⟨.object [], rfl⟩

/-- Where nothing moves, a failure belongs to itself. -/
theorem Placing.blames_moving_refl (failure : Failure) : Placing.moving.Blames failure failure := by
  by_cases h : ∃ source place what found, failure = .invalid source place (.expected what found)
  · obtain ⟨source, place, what, found, rfl⟩ := h
    obtain ⟨value, hvalue⟩ := found.exists_value
    have hplace : Placing.moving.relates source place place value := Place.Moves.refl place
    refine .fault hplace fun _ _ hfault ↦ ?_
    cases hfault
    exact hvalue
  · exact .other fun source place what found heq ↦ h ⟨source, place, what, found, heq⟩

/-! ### Documents in other forms -/

/-- Documents can be written in other forms. -/
def Change.forms : Change where
  relates _ := Value.Rewrites .scope
  object_or_eq h := by
    cases h with
    | scope => exact .inl ⟨_, _, rfl, rfl⟩
    | noScope => exact .inr rfl

namespace Services

/-- The services of a package give the same documents, each in its form. -/
theorem pairs_forms (directory : PosixPath) (resolver : Resolver) :
    (Services.ofPackage directory (some resolver)).Pairs Placing.moving
      (Change.forms.Ties resolver.store) fun _ ↦ True where
  glob pattern s t h := by
    rw [glob_changes h]
    exact .refl Placing.blames_moving_refl (fun _ ↦ rfl) _
  resolve resolve hresolve reference visited base s t _ h := by
    obtain ⟨hties, hmatches⟩ := resolve_changes hresolve h reference visited base
    refine ⟨hties, ?_⟩
    generalize (resolve reference visited base s).1 = result at hmatches ⊢
    generalize (resolve reference visited base t).1 = result' at hmatches ⊢
    cases hmatches with
    | error hsame => exact .error (hsame ▸ Placing.blames_moving_refl _)
    | ok hchanges =>
      exact .ok ⟨hchanges.source_eq, hchanges.canonical_eq, hchanges.directory_eq,
        hchanges.relates, .refl _, trivial⟩

end Services

/-! ### Packages -/

namespace World

/-- The package of fields that were read in a world, with the modules of its source directories, and
the warnings on the way. -/
def packageOf (world : World) (source : String) (directory : PosixPath) (fields : FieldSet) :
    Except Failure (List Warning × Package) := do
  let hasLicense ← world.isFile (directory.below FieldSet.licenseFile)
  let (warnings, package) := Package.ofFields source hasLicense fields
  let (package, discovery) ← ((← package).infer (world.lister directory)).run Discovery.start
  return (warnings ++ discovery.warnings, package)

/-- The package of some fields does not depend on what is written in documents. -/
theorem Changes.packageOf_eq {change : Change} {store : PosixPath} {world world' : World}
    (h : world.Changes change store world') (source : String) (directory : PosixPath) :
    world'.packageOf source directory = world.packageOf source directory := by
  funext fields
  rw [packageOf, packageOf, h.isFile_eq, h.lister_eq]

end World

/-- A manifest and the documents that it refers to give the same in all forms: the same fields, with
the same package and description, or the same failure but for the place that it tells; and the same
warnings but for their places. The worlds after it are the same but for the forms of documents. -/
theorem Context.package_rewrites {resolver : Resolver} {world world' : World}
    (hworld : world.Changes Change.forms resolver.store world') {value value' : Value}
    (hvalue : value.Rewrites .scope value') (source : String) (directory : PosixPath) :
    let context := Context.ofPackage source directory (some resolver)
    let ((warnings, fields), after) := (context.package world.documentBound value).inWorld.run world
    let ((warnings', fields'), after') :=
      (context.package world'.documentBound value').inWorld.run world'
    List.Forall₂ Warning.Moves warnings warnings' ∧
      Matches Failure.Moves Eq fields fields' ∧
      Matches Failure.Moves Eq (fields >>= after.packageOf source directory)
        (fields' >>= after'.packageOf source directory) ∧
      (∀ hints, Matches Failure.Moves Eq
        ((fields >>= after.packageOf source directory).map (·.2.render hints))
        ((fields' >>= after'.packageOf source directory).map (·.2.render hints))) ∧
      after.Changes Change.forms resolver.store after' := by
  intro context
  have hservices : context.services.Pairs Placing.moving (Change.forms.Ties resolver.store)
      fun _ ↦ True := Services.pairs_forms directory resolver
  have hpaired := Context.paired_package hservices trivial world.documentBound hvalue
    (Place.Moves.refl _)
  have hstart : (Placing.moving.pairing (Change.forms.Ties resolver.store)).Agrees
      (⟨[], [], world⟩ : Progress (Cache × World)) ⟨[], [], world'⟩ := ⟨⟨.nil, hworld⟩, .nil⟩
  obtain ⟨hagrees, hmatches⟩ := hpaired _ _ hstart
  have hfields := hmatches.allow fun _ _ ↦ Failure.Moves.of_blames
  have hwarnings := hagrees.warnings.imp fun _ _ ↦ Warning.Moves.of_tells
  have hpackage := hagrees.ties.world.packageOf_eq source directory
  have hbind : ∀ next : FieldSet → Except Failure (List Warning × Package),
      Matches Failure.Moves Eq (_ >>= next) (_ >>= next) := fun next ↦
    hfields.bind fun fields _ hsame ↦ hsame ▸ .refl .same (fun _ ↦ rfl) (next fields)
  rw [hworld.documentBound_eq, Decode.run_inWorld, Decode.run_inWorld]
  simp only [hpackage]
  exact ⟨hwarnings, hfields, hbind _, fun hints ↦ (hbind _).map_eq _, hagrees.ties.world⟩

/-! ### A manifest in two forms -/

/-- A world with a document of defaults. -/
def formedWorld (document : String) : World :=
  ⟨(FileTree.empty.insert ["pkg"] .directory).insert ["pkg", "d.yaml"]
      (.file (Text.encode document)),
    [], ⟨.slash, ["pkg"]⟩, [], [], [], .silent, []⟩

theorem changes_formedWorld : (formedWorld "ghc-options: -Wall").Changes Change.forms
    ⟨.slash, ["store"]⟩ (formedWorld "ghc-options: [-Wall]") := by
  have hlone : Yaml.parse "ghc-options: -Wall" = .ok (.object [("ghc-options", .text "-Wall")]) :=
    Yaml.parse_eq_of_parsesAs (by decide +kernel)
  have hlisted : Yaml.parse "ghc-options: [-Wall]" =
      .ok (.object [("ghc-options", .array [.text "-Wall"])]) :=
    Yaml.parse_eq_of_parsesAs (by decide +kernel)
  have hreads : ∀ canonical, Change.forms.Reads canonical (Text.encode "ghc-options: -Wall")
      (Text.encode "ghc-options: [-Wall]") := by
    intro canonical source
    rw [Yaml.readBytes_encode, Yaml.readBytes_encode, Yaml.readText, Yaml.readText, hlone, hlisted]
    exact .ok (.scope (.cons (.loneText _ rfl) .nil))
  refine ⟨rfl, .cons ⟨rfl, .file (hreads _)⟩ (.cons ⟨rfl, .directory⟩ .nil), rfl,
    fun document ↦ .inr ?_, rfl⟩
  -- There is no network, so that no address has an answer.
  show Matches Eq _ (Store.outcome [] document.url) (Store.outcome [] document.url)
  cases hanswer : Store.outcome [] document.url with
  | ok content => exact absurd hanswer (Store.outcome_nil_ne_ok _ _)
  | error failure => exact .error rfl

/-- A manifest with a conditional and a reference by themselves. -/
def loneManifest : Value :=
  .object [("name", .text "p"),
    ("when", .object [("condition", .text "os(linux)"), ("cpp-options", .text "-DLINUX")]),
    ("defaults", .object [("local", .text "d.yaml")])]

/-- The manifest with arrays of them, and with a branch. -/
def listedManifest : Value :=
  .object [("name", .text "p"),
    ("when", .array [.object [("condition", .text "os(linux)"),
      ("then", .object [("cpp-options", .array [.text "-DLINUX"])])]]),
    ("defaults", .array [.object [("local", .text "d.yaml")]])]

theorem rewrites_loneManifest : loneManifest.Rewrites .scope listedManifest := by
  have hnode : Value.Rewrites .node
      (.object [("condition", .text "os(linux)"), ("cpp-options", .text "-DLINUX")])
      (.object [("condition", .text "os(linux)"),
        ("then", .object [("cpp-options", .array [.text "-DLINUX"])])]) :=
    .branch rfl rfl rfl (.cons (.loneText _ rfl) .nil)
  refine .scope (.cons (.plain _ rfl) (.cons (.loneConditional nofun hnode) (.cons ?_ .nil)))
  exact .loneItem rfl nofun

theorem package_rewrites_loneManifest :
    (formedWorld "ghc-options: -Wall").Changes Change.forms ⟨.slash, ["store"]⟩
        (formedWorld "ghc-options: [-Wall]") ∧
      loneManifest.Rewrites .scope listedManifest ∧
      let context := Context.ofPackage "package.yaml" ⟨.slash, ["pkg"]⟩
        (some ⟨⟨.slash, ["store"]⟩, none⟩)
      let world := formedWorld "ghc-options: -Wall"
      let world' := formedWorld "ghc-options: [-Wall]"
      let ((warnings, fields), _) :=
        (context.package world.documentBound loneManifest).inWorld.run world
      let ((warnings', fields'), _) :=
        (context.package world'.documentBound listedManifest).inWorld.run world'
      List.Forall₂ Warning.Moves warnings warnings' ∧ Matches Failure.Moves Eq fields fields' := by
  let resolver : Resolver := ⟨⟨.slash, ["store"]⟩, none⟩
  have hworld : (formedWorld "ghc-options: -Wall").Changes Change.forms resolver.store
      (formedWorld "ghc-options: [-Wall]") := changes_formedWorld
  obtain ⟨hwarnings, hfields, -⟩ := Context.package_rewrites hworld rewrites_loneManifest
    "package.yaml" ⟨.slash, ["pkg"]⟩
  exact ⟨changes_formedWorld, rewrites_loneManifest, hwarnings, hfields⟩

end CabalManifest
