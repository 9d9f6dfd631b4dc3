import CabalManifest.Proofs.Discovering
import CabalManifest.Proofs.LegiblePackage

/-!
# Descriptions that stay as they are

A tidy package that is made of the fields of a manifest has its description written again without a
change, whatever layout it was given first (`Package.render_stable`). What the fields contribute is
that names are apart: so the tags of stanzas are distinct (`Package.tags_eq_of_sections`), and their
headers (`Package.nodup_headers_stanzas`), and each stanza finds its own order again.

A text that looks like an item behind a comma has to be excluded, behind a tab as well as behind a
space: `not_stable_of_tab` is a package whose description goes on changing.
-/

namespace CabalManifest

open LayoutHints
open Element (fieldNames)
open Text (Tidy)

/-! ### Tags -/

/-- What the header of a stanza is made of: a word, and perhaps a name. -/
abbrev Tag := String × Option String

namespace Tag

/-- The header of a stanza. -/
def header : Tag → String
  | (word, none) => word
  | (word, some name) => word ++ " " ++ name

/-- A header is cut in front of its first space. -/
theorem span_header {tag : Tag} (hword : ' ' ∉ tag.1.toList) :
    tag.header.toList.takeWhile (· != ' ') = tag.1.toList ∧
      tag.header.toList.dropWhile (· != ' ') =
        match tag.2 with
        | none => []
        | some name => ' ' :: name.toList := by
  have hpos : ∀ c ∈ tag.1.toList, (c != ' ') = true := fun c hc ↦
    bne_iff_ne.2 fun h ↦ hword (h ▸ hc)
  obtain ⟨word, name⟩ := tag
  cases name with
  | none =>
    refine ⟨List.takeWhile_eq_self_iff.2 hpos, List.dropWhile_eq_nil_iff.2 hpos⟩
  | some name =>
    have hheader : (header (word, some name)).toList = word.toList ++ ' ' :: name.toList := by
      simp [header]
    rw [hheader, List.takeWhile_append_of_pos hpos, List.dropWhile_append_of_pos hpos]
    exact ⟨by simp, by simp⟩

/-- Headers are told apart by their words and their names. -/
theorem eq_of_header_eq {tag tag' : Tag} (hword : ' ' ∉ tag.1.toList)
    (hword' : ' ' ∉ tag'.1.toList) (h : tag.header = tag'.header) : tag = tag' := by
  obtain ⟨htake, hdrop⟩ := span_header hword
  obtain ⟨htake', hdrop'⟩ := span_header hword'
  rw [h, htake'] at htake
  rw [h, hdrop'] at hdrop
  refine Prod.ext (String.toList_inj.1 htake.symm) ?_
  cases hname : tag.2 with
  | none => cases hname' : tag'.2 with
    | none => rfl
    | some name' => simp [hname, hname'] at hdrop
  | some name => cases hname' : tag'.2 with
    | none => simp [hname, hname'] at hdrop
    | some name' =>
      simp only [hname, hname', List.cons.injEq, true_and] at hdrop
      rw [String.toList_inj.1 hdrop]

end Tag

/-- The tag of a section. -/
def Section.tag (part : Section) : Tag := (part.kind.header, part.name)

theorem Section.header_tag (part : Section) : part.tag.header = part.header := by
  rw [Section.tag, Section.header]
  cases part.name <;> rfl

/-- The tags of the stanzas of a package. -/
def Package.tags (package : Package) : List Tag :=
  (package.sourceRepository.map fun _ ↦ ("source-repository", some "head")).toList ++
    package.flags.map (fun flag ↦ ("flag", some flag.name)) ++ package.sections.map Section.tag

theorem Package.headers_stanzas (package : Package) :
    headers package.stanzas = package.tags.map Tag.header := by
  have hrepository : headers (package.sourceRepository.map SourceRepository.element).toList =
      (package.sourceRepository.map fun _ ↦ ("source-repository", some "head")).toList.map
        Tag.header := by
    cases package.sourceRepository <;> rfl
  have hflags : headers (package.flags.map Flag.element) =
      (package.flags.map fun flag ↦ (("flag", some flag.name) : Tag)).map Tag.header := by
    rw [headers, List.filterMap_map, List.map_map, ← List.filterMap_eq_map]
    refine List.filterMap_congr fun flag _ ↦ ?_
    have hword : "flag" ++ " " = "flag " := rfl
    show some ("flag " ++ flag.name) = some ("flag" ++ " " ++ flag.name)
    rw [hword]
  have hsections : headers (package.sections.map Section.element) =
      (package.sections.map Section.tag).map Tag.header := by
    rw [headers, List.filterMap_map, List.map_map, ← List.filterMap_eq_map]
    refine List.filterMap_congr fun part _ ↦ ?_
    show some part.header = some part.tag.header
    rw [Section.header_tag]
  rw [headers] at hrepository hflags hsections
  rw [Package.tags, headers, stanzas, List.filterMap_append, List.filterMap_append, hrepository, hflags,
    hsections, List.map_append, List.map_append]

theorem Package.space_not_mem_of_mem_tags {package : Package} {tag : Tag} (h : tag ∈ package.tags) :
    ' ' ∉ tag.1.toList := by
  rw [tags, List.mem_append, List.mem_append] at h
  rcases h with (h | h) | h
  · obtain ⟨_, -, rfl⟩ := Option.map_eq_some_iff.1 (Option.mem_toList.1 h)
    decide
  · obtain ⟨flag, -, rfl⟩ := List.mem_map.1 h
    show ' ' ∉ "flag".toList
    decide
  · obtain ⟨part, -, rfl⟩ := List.mem_map.1 h
    show ' ' ∉ part.kind.header.toList
    cases part.kind <;> decide

/-- Stanzas with distinct tags have distinct headers. -/
theorem Package.nodup_headers_stanzas {package : Package} (h : package.tags.Nodup) :
    (headers package.stanzas).Nodup := by
  rw [headers_stanzas]
  exact h.map_on fun tag htag tag' htag' ↦
    Tag.eq_of_header_eq (space_not_mem_of_mem_tags htag) (space_not_mem_of_mem_tags htag')

/-! ### Packages that are made of fields -/

/-- Named things are named apart: the flags, and the sections of each kind. -/
structure FieldSet.NamesApart (top : FieldSet) : Prop where
  flags : (top.flags.map (·.name)).Nodup
  bodies : ∀ key, ((top.bodies key).map (·.1)).Nodup

/-- The words of the stanzas of a package, in their order, with the names behind each. -/
def FieldSet.nameGroups (top : FieldSet) (packageName : String)
    (repository : Option SourceRepository) : List (String × List (Option String)) :=
  [("source-repository", repository.toList.map fun _ ↦ some "head"),
    ("flag", top.flags.map fun flag ↦ some flag.name),
    ("custom-setup", (top.body? "custom-setup").toList.map fun _ ↦ none),
    ("library", ((top.body? "library").toList.map fun _ ↦ none) ++
      (top.bodies "internal-libraries").map fun named ↦ some named.1),
    ("executable", (top.executables packageName).map fun named ↦ some named.1),
    ("test-suite", (top.bodies "tests").map fun named ↦ some named.1),
    ("benchmark", (top.bodies "benchmarks").map fun named ↦ some named.1)]

theorem FieldSet.nodup_words_nameGroups (top : FieldSet) (packageName : String)
    (repository : Option SourceRepository) :
    ((top.nameGroups packageName repository).map (·.1)).Nodup := by
  show ["source-repository", "flag", "custom-setup", "library", "executable", "test-suite",
    "benchmark"].Nodup
  decide

theorem nodup_map_some {α : Type} {names : α → String} {items : List α}
    (h : (items.map names).Nodup) : (items.map fun item ↦ some (names item)).Nodup := by
  rw [← Function.comp_def, ← List.map_map]
  exact h.map (Option.some_injective _)

/-- Groups with distinct words and distinct names in each make distinct tags. -/
theorem nodup_flatMap_groups {groups : List (String × List (Option String))}
    (hwords : (groups.map (·.1)).Nodup) (hnames : ∀ group ∈ groups, group.2.Nodup) :
    (groups.flatMap fun group ↦ group.2.map fun name ↦ ((group.1, name) : Tag)).Nodup := by
  refine List.nodup_flatMap.2 ⟨fun group hgroup ↦ ?_, ?_⟩
  · exact (hnames group hgroup).map fun _ _ heq ↦ (Prod.mk.inj heq).2
  · refine (List.pairwise_map.1 hwords).imp fun {a b} hne tag ha hb ↦ ?_
    obtain ⟨_, -, rfl⟩ := List.mem_map.1 ha
    obtain ⟨_, -, heq⟩ := List.mem_map.1 hb
    exact hne (Prod.mk.inj heq).1.symm

theorem nodup_toList_map {α β : Type} (f : α → β) (item : Option α) :
    (item.toList.map f).Nodup := by
  cases item with
  | none => exact List.nodup_nil
  | some item => exact List.nodup_singleton _

theorem FieldSet.NamesApart.executables {top : FieldSet} (h : top.NamesApart)
    (packageName : String) : ((top.executables packageName).map (·.1)).Nodup := by
  rw [FieldSet.executables]
  split
  · exact List.nodup_singleton _
  · exact h.bodies "executables"

theorem FieldSet.NamesApart.nodup_of_mem {top : FieldSet} (h : top.NamesApart)
    (packageName : String) (repository : Option SourceRepository) :
    ∀ group ∈ top.nameGroups packageName repository, group.2.Nodup := by
  have hlibrary : (((top.body? "library").toList.map fun _ ↦ (none : Option String)) ++
      (top.bodies "internal-libraries").map fun named : String × FieldSet ↦ some named.1).Nodup := by
    refine (nodup_toList_map _ _).append (nodup_map_some (h.bodies _)) fun name hnone hsome ↦ ?_
    obtain ⟨_, -, rfl⟩ := List.mem_map.1 hnone
    obtain ⟨_, -, heq⟩ := List.mem_map.1 hsome
    cases heq
  simp only [nameGroups, List.forall_mem_cons, List.not_mem_nil, false_imp_iff, implies_true,
    and_true]
  exact ⟨nodup_toList_map _ _, nodup_map_some h.flags, nodup_toList_map _ _, hlibrary,
    nodup_map_some (h.executables packageName), nodup_map_some (h.bodies _),
    nodup_map_some (h.bodies _)⟩

/-- A repository on GitHub is kept with Git. -/
theorem SourceRepository.kind_of_ofGithub? {text : String} {repository : SourceRepository}
    (h : ofGithub? text = some repository) : repository.kind = "git" := by
  rw [ofGithub?] at h
  split at h
  · split at h
    · cases h
    · cases h
      rfl
  · cases h

theorem FieldSet.kind_of_github {top : FieldSet} {source : String} {repository : SourceRepository}
    (h : top.github source = .ok (some repository)) : repository.kind = "git" := by
  rw [FieldSet.github] at h
  split at h
  · cases h
  · split at h
    · next found hfound =>
      cases h
      exact SourceRepository.kind_of_ofGithub? hfound
    · cases h

/-- What a package that is made of fields takes from them. -/
theorem Package.exists_of_ofFields {source : String} {hasLicense : Bool} {top : FieldSet}
    {warnings : List Warning} {package : Package}
    (h : Package.ofFields source hasLicense top = (warnings, .ok package)) :
    package.sections = top.sections package.name ∧ package.flags = top.flags ∧
      ∀ repository ∈ package.sourceRepository, repository.kind = "git" := by
  rw [Package.ofFields] at h
  split at h
  · cases h
  · next name hname =>
    obtain ⟨-, h⟩ := Prod.mk.inj h
    cases hgithub : top.github source with
    | error failure =>
      rw [hgithub] at h
      cases h
    | ok github =>
      rw [hgithub] at h
      cases h
      refine ⟨rfl, rfl, fun repository hrepository ↦ ?_⟩
      cases github with
      | some found =>
        cases hrepository
        exact FieldSet.kind_of_github hgithub
      | none =>
        obtain ⟨location, -, rfl⟩ := Option.map_eq_some_iff.1 hrepository
        rfl

/-- The sections of a package have the tags that its fields ask for. -/
theorem Package.tags_eq_of_sections {package : Package} {top : FieldSet}
    (hsections : package.sections = top.sections package.name) (hflags : package.flags = top.flags) :
    package.tags = (top.nameGroups package.name package.sourceRepository).flatMap fun group ↦
      group.2.map fun name ↦ (group.1, name) := by
  rw [tags, hsections, hflags, FieldSet.sections, FieldSet.nameGroups]
  cases package.sourceRepository <;>
    simp [List.map_map, Function.comp_def, Section.tag, FieldSet.sectionOf, SectionKind.header]

open Discovery (exists_of_bind_run eq_of_pure_run map_eq_of_mapM_run)

theorem Section.tag_of_infer {lister : Lister} {packageName : String} {part result : Section}
    {start done : Discovery}
    (h : (part.infer lister packageName).run start = .ok (result, done)) :
    result.tag = part.tag := by
  rw [Section.infer, Section.inferWith] at h
  split at h
  · rw [eq_of_pure_run h]
  · obtain ⟨_, _, -, h⟩ := exists_of_bind_run h
    obtain ⟨_, _, -, h⟩ := exists_of_bind_run h
    rw [eq_of_pure_run h]
    rfl

/-- Finding modules leaves the tags and the repository of a package as they are. -/
theorem Package.tags_of_infer {lister : Lister} {found package : Package} {start done : Discovery}
    (h : (found.infer lister).run start = .ok (package, done)) :
    package.tags = found.tags ∧ package.sourceRepository = found.sourceRepository := by
  obtain ⟨sections, middle, hsections, h⟩ := exists_of_bind_run h
  have htags := map_eq_of_mapM_run (fun _ _ _ _ ↦ Section.tag_of_infer) hsections
  rw [eq_of_pure_run h]
  refine ⟨?_, rfl⟩
  rw [tags, tags, htags]

/-! ### Writing a package again -/

/-- A tidy package that is made of fields whose names are apart, with the modules that were found,
is written again as it was, whatever layout it was given first. -/
theorem Package.render_stable {source : String} {hasLicense : Bool} {top : FieldSet}
    {warnings : List Warning} {found package : Package} {lister : Lister} {discovery : Discovery}
    (hnames : top.NamesApart)
    (hfields : Package.ofFields source hasLicense top = (warnings, .ok found))
    (hinfer : (found.infer lister).run Discovery.start = .ok (package, discovery))
    (htidy : package.IsTidy IsLegibleText) (previous : String) :
    package.render (.ofText (generatedHeader ++ package.render (.ofText previous))) =
      package.render (.ofText previous) := by
  obtain ⟨hsections, hflags, hkind⟩ := Package.exists_of_ofFields hfields
  obtain ⟨htags, hrepository⟩ := Package.tags_of_infer hinfer
  have hnodup : package.tags.Nodup := by
    rw [htags, tags_eq_of_sections hsections hflags]
    exact nodup_flatMap_groups (top.nodup_words_nameGroups _ _) (hnames.nodup_of_mem _ _)
  have horderly := htidy.isOrderly_elements (fun repository hmem ↦ by
    rw [hkind repository (hrepository ▸ hmem)]
    decide) (nodup_headers_stanzas hnodup)
  rw [ofText_generatedHeader]
  exact (LayoutHints.ofText previous).renderTop_recovered (indentation_ofText_pos previous) horderly

/-! ### A package with a setup program -/

/-- The fields of a manifest with a setup program and a description. -/
def setupFields (description : String) : FieldSet :=
  ⟨[("name", .text "foo"), ("description", .text description),
    ("custom-setup", .body ⟨[("dependencies", .dependencies [⟨"base", none⟩, ⟨"text", none⟩])]⟩)]⟩

/-- The package of these fields. -/
def setupPackage (description : String) : Package :=
  ⟨"foo", "0.0.0", ⟨[("description", .text description), ("build-type", .text "Custom")]⟩,
    [⟨.customSetup, none, ⟨[("dependencies", .dependencies [⟨"base", none⟩, ⟨"text", none⟩])]⟩,
      [], []⟩], [], none, []⟩

theorem namesApart_setupFields (description : String) : (setupFields description).NamesApart := by
  refine ⟨List.nodup_nil, fun key ↦ ?_⟩
  have hnone : (setupFields description).bodies key = [] := by
    rw [FieldSet.bodies, FieldSet.get?, setupFields]
    simp only [Entries.get?_cons, Entries.get?_nil]
    split_ifs <;> rfl
  rw [hnone]
  exact List.nodup_nil

theorem isTidy_setupPackage {isText : String → Prop} {description : String}
    (hdescription : isText description) (hbuild : isText "Custom") :
    (setupPackage description).IsTidy isText := by
  have hdependencies : FieldValue.IsTidy (fun text ↦ Text.IsLine text.toList)
      (.dependencies [⟨"base", none⟩, ⟨"text", none⟩]) := by
    show ∀ dependency ∈ [(⟨"base", none⟩ : Dependency), ⟨"text", none⟩], _
    decide
  refine ⟨show Text.IsLine "foo".toList by decide, show Text.IsLine "0.0.0".toList by decide,
    ?_, ?_, ?_, ?_, ?_⟩
  · simpa [setupPackage, FieldValue.IsTidy] using ⟨hdescription, hbuild⟩
  · intro part hpart
    rw [List.mem_singleton.1 hpart]
    refine ⟨?_, ?_, ?_, ?_⟩
    · simp
    · simpa [FieldSet.IsTidy] using hdependencies
    · simp
    · simp
  · simp [setupPackage]
  · simp [setupPackage]
  · simp [setupPackage]

theorem elements_setupPackage (description : String) :
    (setupPackage description).elements =
      [.field "name" (.inline "foo"), .field "version" (.inline "0.0.0"),
        .field "description" (.ofText description), .field "build-type" (.inline "Custom"),
        .field "cabal-version" (.inline ">= 1.24"),
        .stanza "custom-setup" [.field "setup-depends" (.commas ["base", "text"])] true] := by
  have hversion : (setupPackage description).formatVersion = ⟨1, 24⟩ := by
    simp only [Package.formatVersion, setupPackage, List.flatMap_cons, List.flatMap_nil,
      Section.formatVersions, Conditional.scopesIn]
    rfl
  simp only [setupPackage] at hversion
  simp only [Package.elements, setupPackage, Section.element, Conditional.elements, List.map_cons,
    List.map_nil, Field.headerOrder, List.filterMap_cons, Package.headerElement?, hversion]
  rfl

/-- A description of several lines is written again as it was. -/
theorem render_stable_setupPackage :
    let package := setupPackage "x\n,foo"
    ((setupFields "x\n,foo").NamesApart ∧
      Package.ofFields "package.yaml" false (setupFields "x\n,foo") = ([], .ok package) ∧
      package.IsTidy IsLegibleText) ∧
      package.render (.ofText (generatedHeader ++ package.render (.ofText "name:     foo\n"))) =
        package.render (.ofText "name:     foo\n") := by
  intro package
  have hnames := namesApart_setupFields "x\n,foo"
  have htidy : package.IsTidy IsLegibleText := isTidy_setupPackage
    (show ∀ row ∈ ["x", ",foo"], _ by decide) (isLegibleText_of_isLine (by decide))
  exact ⟨⟨hnames, rfl, htidy⟩, @Package.render_stable "package.yaml" false (setupFields "x\n,foo") []
    package package (fun _ ↦ .ok none) Discovery.start hnames rfl rfl htidy "name:     foo\n"⟩

/-! ### Tabs behind commas -/

/-- A text none of whose lines starts with a comma and a space. -/
def SeemsLegible (text : String) : Prop :=
  match Content.ofText text with
  | .block rows => ∀ row ∈ rows, Text.Unbroken row.toList ∧
      ", ".toList.isPrefixOf (Text.trim row.toList) = false
  | content => content.Legible

/-- The elements of a package with such a line, in their standard order. -/
def tabbedElements : List Element :=
  [.field "name" (.inline "foo"), .field "version" (.inline "0.0.0"),
    .field "description" (.block ["x", ",\tfoo"]), .field "build-type" (.inline "Custom"),
    .field "cabal-version" (.inline ">= 1.24"),
    .stanza "custom-setup" [.field "setup-depends" (.commas ["base", "text"])] true]

theorem arrangeTop_tabbedElements {hints : LayoutHints}
    (h : hints.fieldOrder = [] ∨ hints.fieldOrder = fieldNames tabbedElements) :
    hints.arrangeTop tabbedElements = tabbedElements := by
  have hchild : ∀ order, Element.sortBy order
      [.field "setup-depends" (.commas ["base", "text"])] =
        [.field "setup-depends" (.commas ["base", "text"])] := fun order ↦
    List.perm_singleton.1 (Element.perm_sortBy order _)
  have harrange : hints.arrangeAll tabbedElements = tabbedElements := by
    simp [tabbedElements, arrangeAll_eq_map, arrange, hchild]
  rw [arrangeTop, harrange]
  rcases h with h | h
  · rw [h, Element.sortBy_nil]
  · rw [h, Element.sortBy_fieldNames]
    decide

/-- Behind a comma, a tab is as good as a space: a line that starts with both is taken for an item
of a list when it is read again, and the commas of all lists move. -/
theorem not_stable_of_tab :
    ¬∀ (source : String) (hasLicense : Bool) (top : FieldSet) (warnings : List Warning)
        (found package : Package) (lister : Lister) (discovery : Discovery) (previous : String),
      top.NamesApart → Package.ofFields source hasLicense top = (warnings, .ok found) →
        (found.infer lister).run Discovery.start = .ok (package, discovery) →
          package.IsTidy SeemsLegible →
            package.render (.ofText (generatedHeader ++ package.render (.ofText previous))) =
              package.render (.ofText previous) := by
  intro h
  set package := setupPackage "x\n,\tfoo" with hpackage
  have htidy : package.IsTidy SeemsLegible := isTidy_setupPackage
    (show ∀ row ∈ ["x", ",\tfoo"], _ by decide)
    (show Text.IsFlush "Custom".toList ∧ Text.Unbroken "Custom".toList by decide)
  have hstable := h "package.yaml" false (setupFields "x\n,\tfoo") [] package package
    (fun _ ↦ .ok none) Discovery.start "library\n  build-depends:\n    a,\n    b\n"
    (namesApart_setupFields _) rfl rfl htidy
  have hrender : ∀ {hints : LayoutHints},
      hints.fieldOrder = [] ∨ hints.fieldOrder = fieldNames tabbedElements →
        package.render hints = "\n".intercalate (hints.topLines none tabbedElements) ++ "\n" := by
    intro hints hints_order
    show hints.renderTop package.elements = _
    rw [hpackage, elements_setupPackage]
    show hints.renderTop tabbedElements = _
    rw [renderTop, arrangeTop_tabbedElements hints_order]
  have hfirst : LayoutHints.ofText "library\n  build-depends:\n    a,\n    b\n" =
      ⟨[], [("library", ["build-depends"])], none, 2, .trailing⟩ := by decide
  have htext : package.render (.ofText "library\n  build-depends:\n    a,\n    b\n") =
      "name: foo\nversion: 0.0.0\ndescription:\n    x\n    ,\tfoo\nbuild-type: Custom\n" ++
        "cabal-version: >= 1.24\n\ncustom-setup\n  setup-depends:\n      base,\n      text\n" := by
    rw [hfirst, hrender (.inl rfl)]
    set_option maxRecDepth 2000 in
    decide
  have hsecond : LayoutHints.ofText
      ("name: foo\nversion: 0.0.0\ndescription:\n    x\n    ,\tfoo\nbuild-type: Custom\n" ++
        "cabal-version: >= 1.24\n\ncustom-setup\n  setup-depends:\n      base,\n      text\n") =
      ⟨fieldNames tabbedElements, [("custom-setup", ["setup-depends"])], none, 2, .leading⟩ := by
    set_option maxRecDepth 2000 in
    decide
  rw [htext, ofText_generatedHeader, hsecond, hrender (.inr rfl)] at hstable
  revert hstable
  set_option maxRecDepth 2000 in
  decide

end CabalManifest
