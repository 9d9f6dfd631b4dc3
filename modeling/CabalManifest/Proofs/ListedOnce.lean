import CabalManifest.Proofs.InferredScopes
import CabalManifest.Proofs.SectionFits

/-!
# Inferred modules are listed once

A module that inference adds to a scope is stated there once. No other scope along a chain through
this one lists it, and it is the main module of none of them (`Section.InfersTo.listedOnceAt`). What
rules this out above the scope is that modules declared there are claims on it; what rules it out
below is that a scope claims all that is named or found in it, and nothing else can be listed there.
-/

namespace CabalManifest

/-- Whether two paths lie on one chain of scopes. -/
def AreChained (path other : List Turn) : Prop := path <+: other ∨ other <+: path

/-- Whether a scope lists a module, be it as a generated one. -/
def FieldSet.HasModule (fields : FieldSet) (m : String) : Prop :=
  m ∈ fields.modules.stated ∨ m ∈ fields.modules.autogen

section

variable (inputs outputs : List Turn → Option FieldSet) (path : List Turn) (m : String)

/-- Whether inference adds a module to the scope at a path. -/
def IsInferredAt : Prop :=
  ∃ input output, inputs path = some input ∧ outputs path = some output ∧
    m ∈ output.modules.stated ∧ m ∉ input.listed

/-- Whether a module belongs to one scope only, among those on a chain with it. -/
structure ListedOnceAt : Prop where
  /-- It is stated once in the scope. -/
  count : ∀ output, outputs path = some output → output.modules.stated.count m = 1
  /-- No other scope of the chain lists it. -/
  elsewhere : ∀ other output, AreChained path other → other ≠ path →
    outputs other = some output → ¬output.HasModule m
  /-- It is the main module of no scope of the chain. -/
  main : ∀ other output, AreChained path other → outputs other = some output →
    output.mainModule? ≠ some m

end

/-- Whether the scopes that a function gives hold no lists of generated modules yet. -/
def ArePlain (inputs : List Turn → Option FieldSet) : Prop :=
  ∀ path input, inputs path = some input → input.get? "autogen-modules" = none

theorem ArePlain.branch {root : FieldSet} {conditionals : List Conditional}
    (h : ArePlain (Conditional.scopeAt? root conditionals)) {turn : Turn} {branch : FieldSet}
    (hbranch : Conditional.branchAt? conditionals turn = some branch) : ArePlain branch.at? :=
  Conditional.forall_branch h hbranch

namespace InfersRoot

variable {view : String → List String} {outer : List String} {applies : Prop}
  {extra : Option String} {root result : FieldSet} {conditionals nested : List Conditional}
  {m : String}

/-- Where a scope of the result stands: at the root, or in a branch that was inferred from one. -/
theorem scopeAt?_cases (h : InfersRoot view outer applies extra root conditionals result nested)
    {path : List Turn} {output : FieldSet}
    (houtput : Conditional.scopeAt? result nested path = some output) :
    path = [] ∧ output = result ∨ ∃ turn rest branch branch',
      path = turn :: rest ∧ Conditional.branchAt? conditionals turn = some branch ∧
        branch.InfersTo view (outer ++ result.declared) branch' ∧ branch'.at? rest = some output := by
  cases path with
  | nil => exact .inl ⟨rfl, (Option.some.inj houtput).symm⟩
  | cons turn rest =>
    obtain ⟨branch', hbranch', hrest⟩ := Option.bind_eq_some_iff.1 houtput
    obtain ⟨branch, hbranch, hinfers⟩ := h.nested.exists_input hbranch'
    exact .inr ⟨turn, rest, branch, branch', rfl, hbranch, hinfers, hrest⟩

/-- The result has the same scopes, if that is so in the branches. -/
theorem isSome_scopeAt? (h : InfersRoot view outer applies extra root conditionals result nested)
    {path : List Turn} (hbranches : ∀ turn rest (branch branch' : FieldSet), path = turn :: rest →
      Conditional.branchAt? conditionals turn = some branch →
        branch.InfersTo view (outer ++ result.declared) branch' →
          (branch'.at? rest).isSome = (branch.at? rest).isSome) :
    (Conditional.scopeAt? result nested path).isSome =
      (Conditional.scopeAt? root conditionals path).isSome := by
  cases path with
  | nil => rfl
  | cons turn rest =>
    rw [Conditional.scopeAt?, Conditional.scopeAt?]
    cases hbranch : Conditional.branchAt? conditionals turn with
    | none =>
      have hnone := h.nested.isSome turn
      rw [hbranch, Option.isSome_none, Option.isSome_eq_false_iff, Option.isNone_iff_eq_none] at hnone
      rw [hnone]
    | some branch =>
      obtain ⟨branch', hbranch', hinfers⟩ := h.nested.exists_output hbranch
      rw [hbranch']
      exact hbranches turn rest branch branch' rfl hbranch hinfers

/-- The root of the result lists what it states, also where it lists generated modules. -/
theorem mem_stated_of_hasModule
    (h : InfersRoot view outer applies extra root conditionals result nested)
    (hm : result.HasModule m) : m ∈ result.modules.stated :=
  hm.elim id fun hautogen ↦ h.modules.listed m (h.modules.autogen m hautogen)

end InfersRoot

theorem FieldSet.InfersTo.isSome_at? {view : String → List String} {outer : List String}
    {path : List Turn} {fields result : FieldSet} (h : fields.InfersTo view outer result)
    (hplain : ArePlain fields.at?) : (result.at? path).isSome = (fields.at? path).isSome := by
  induction path generalizing fields outer result with
  | nil => rfl
  | cons turn rest ih =>
    have hroot := h.root (hplain [] fields rfl)
    rw [FieldSet.at?_eq] at hplain
    rw [FieldSet.at?_eq result, FieldSet.at?_eq fields]
    refine hroot.isSome_scopeAt? fun turn' rest' branch branch' hpath hbranch hinfers ↦ ?_
    cases hpath
    exact ih hinfers (hplain.branch hbranch)

theorem Section.InfersTo.isSome_at? {view : String → List String} {package : String}
    {path : List Turn} {part result : Section} (h : part.InfersTo view package result)
    (hplain : ArePlain part.at?) : (result.at? path).isSome = (part.at? path).isSome :=
  (h.root (hplain [] part.fields rfl)).isSome_scopeAt? fun _ _ _ _ _ hbranch hinfers ↦
    hinfers.isSome_at? (hplain.branch hbranch)

/-! ### What is below a scope -/

/-- Whether a scope or one in it names a module or finds it. -/
def FieldSet.Touches (view : String → List String) (fields : FieldSet) (m : String) : Prop :=
  (m ∈ fields.declared ∨ Conditional.Gives fields.conditionals FieldSet.declared m) ∨
    m ∈ fields.found view ∨ Conditional.Gives fields.conditionals (FieldSet.found view) m

/-- What a scope in the result of a branch lists, the branch names or finds. -/
theorem FieldSet.InfersTo.touches {view : String → List String} {m : String} {path : List Turn}
    {outer : List String} {fields result output : FieldSet} (h : fields.InfersTo view outer result)
    (hplain : ArePlain fields.at?) (houtput : result.at? path = some output)
    (hm : output.HasModule m ∨ output.mainModule? = some m) : fields.Touches view m := by
  induction path generalizing fields outer result with
  | nil =>
    have hroot := h.root (hplain [] fields rfl)
    cases houtput
    obtain hm | hm := hm
    -- A module that was not listed before is one that was found.
    · by_cases hlisted : m ∈ fields.listed
      · exact .inl (.inl (mem_declared.2 (.inl hlisted)))
      · obtain ⟨-, hfound | hextra, -⟩ := hroot.modules.new m (hroot.mem_stated_of_hasModule hm) hlisted
        · exact .inr (.inl hfound)
        · cases hextra
    · exact .inl (.inl (mem_declared.2 (.inr (hroot.main ▸ hm))))
  | cons turn rest ih =>
    have hroot := h.root (hplain [] fields rfl)
    rw [FieldSet.at?_eq] at houtput hplain
    obtain ⟨hpath, -⟩ | ⟨turn', rest', branch, branch', hpath, hbranch, hinfers, hrest⟩ :=
      hroot.scopeAt?_cases houtput
    · cases hpath
    · cases hpath
      obtain hnamed | hfound := ih hinfers (hplain.branch hbranch) hrest
      · exact .inl (.inr (.of_branchAt? hbranch hnamed))
      · exact .inr (.inr (.of_branchAt? hbranch hfound))

/-! ### Chains -/

theorem areChained_cons {turn turn' : Turn} {path other : List Turn} :
    AreChained (turn :: path) (turn' :: other) ↔ turn = turn' ∧ AreChained path other := by
  rw [AreChained, AreChained, List.cons_prefix_cons, List.cons_prefix_cons, and_or_left,
    eq_comm (a := turn')]

namespace InfersRoot

variable {view : String → List String} {outer : List String} {applies : Prop}
  {extra : Option String} {root result : FieldSet} {conditionals nested : List Conditional}
  {m : String}

/-- What the root of a result adds stands in no scope below it. -/
theorem listedOnceAt_root (h : InfersRoot view outer applies extra root conditionals result nested)
    (hplain : ArePlain (Conditional.scopeAt? root conditionals)) (hm : m ∈ result.modules.stated)
    (hlisted : m ∉ root.listed) :
    m ∉ outer ∧ ListedOnceAt (Conditional.scopeAt? result nested) [] m := by
  obtain ⟨hclaims, -, hcount⟩ := h.modules.new m hm hlisted
  -- What a scope below lists it names or finds, and that would be a claim on the module.
  have hbelow : ∀ other output, other ≠ [] → Conditional.scopeAt? result nested other = some output →
      ¬(output.HasModule m ∨ output.mainModule? = some m) := by
    intro other output hother houtput hhas
    obtain ⟨rfl, -⟩ | ⟨turn, rest, branch, branch', rfl, hbranch, hinfers, hrest⟩ :=
      h.scopeAt?_cases houtput
    · exact hother rfl
    · obtain hnamed | hfound := hinfers.touches (hplain.branch hbranch) hrest hhas
      · exact hclaims (.inr (.inr (.inl (.of_branchAt? hbranch hnamed))))
      · exact hclaims (.inr (.inr (.inr (.of_branchAt? hbranch hfound))))
  refine ⟨fun houter ↦ hclaims (.inl houter), ?_, ?_, ?_⟩
  · intro output houtput
    cases houtput
    exact hcount
  · intro other output _ hother houtput hhas
    exact hbelow other output hother houtput (.inl hhas)
  · intro other output _ houtput hmain
    by_cases hother : other = []
    · subst hother
      cases houtput
      exact hclaims (.inr (.inl (FieldSet.mem_declared.2 (.inr (h.main ▸ hmain)))))
    · exact hbelow other output hother houtput (.inr hmain)

/-- What is added to a branch stands in the root above it neither, if that is so in the branch for
all that the scopes around the branch declare. -/
theorem listedOnceAt_branch
    (h : InfersRoot view outer applies extra root conditionals result nested)
    {turn : Turn} {rest : List Turn} {branch : FieldSet}
    (hbranch : Conditional.branchAt? nested turn = some branch)
    (hm : m ∉ outer ++ result.declared ∧ ListedOnceAt branch.at? rest m) :
    m ∉ outer ∧ ListedOnceAt (Conditional.scopeAt? result nested) (turn :: rest) m := by
  obtain ⟨hnotMem, honce⟩ := hm
  -- All that the root states or has for its main module is a claim on the branch.
  rw [List.mem_append, not_or, h.declared, not_or] at hnotMem
  have hat := Conditional.scopeAt?_cons result hbranch
  refine ⟨hnotMem.1, fun output houtput ↦ honce.count output (hat rest ▸ houtput), ?_, ?_⟩
  · intro other output hchained hother houtput hhas
    cases other with
    | nil =>
      cases houtput
      exact hnotMem.2.1 (h.mem_stated_of_hasModule hhas)
    | cons turn' other =>
      obtain ⟨rfl, hrest⟩ := areChained_cons.1 hchained
      exact honce.elsewhere other output hrest (fun heq ↦ hother (heq ▸ rfl))
        (hat other ▸ houtput) hhas
  · intro other output hchained houtput hmain
    cases other with
    | nil =>
      cases houtput
      exact hnotMem.2.2 hmain
    | cons turn' other =>
      obtain ⟨rfl, hrest⟩ := areChained_cons.1 hchained
      exact honce.main other output hrest (hat other ▸ houtput) hmain

/-- What is added to a scope is listed once, if that is so in the branches. -/
theorem listedOnceAt (h : InfersRoot view outer applies extra root conditionals result nested)
    (hplain : ArePlain (Conditional.scopeAt? root conditionals)) {path : List Turn}
    (hm : IsInferredAt (Conditional.scopeAt? root conditionals)
      (Conditional.scopeAt? result nested) path m)
    (hbranches : ∀ turn rest (branch branch' : FieldSet), path = turn :: rest →
      ArePlain branch.at? → branch.InfersTo view (outer ++ result.declared) branch' →
        IsInferredAt branch.at? branch'.at? rest m →
          m ∉ outer ++ result.declared ∧ ListedOnceAt branch'.at? rest m) :
    m ∉ outer ∧ ListedOnceAt (Conditional.scopeAt? result nested) path m := by
  obtain ⟨input, output, hinput, houtput, hstated, hlisted⟩ := hm
  cases path with
  | nil =>
    cases hinput
    cases houtput
    exact h.listedOnceAt_root hplain hstated hlisted
  | cons turn rest =>
    obtain ⟨branch, hbranch, hinput⟩ := Option.bind_eq_some_iff.1 hinput
    obtain ⟨branch', hbranch', houtput⟩ := Option.bind_eq_some_iff.1 houtput
    have hinfers := h.nested.related turn branch branch' hbranch hbranch'
    refine h.listedOnceAt_branch hbranch' (hbranches turn rest branch branch' rfl
      (hplain.branch hbranch) hinfers ?_)
    exact ⟨input, output, hinput, houtput, hstated, hlisted⟩

end InfersRoot

theorem FieldSet.InfersTo.listedOnceAt {view : String → List String} {m : String}
    {path : List Turn} {outer : List String} {fields result : FieldSet}
    (h : fields.InfersTo view outer result) (hplain : ArePlain fields.at?)
    (hm : IsInferredAt fields.at? result.at? path m) :
    m ∉ outer ∧ ListedOnceAt result.at? path m := by
  induction path generalizing fields outer result with
  | nil =>
    have hroot := h.root (hplain [] fields rfl)
    rw [FieldSet.at?_eq] at hplain hm ⊢
    rw [FieldSet.at?_eq] at hm
    exact hroot.listedOnceAt hplain hm nofun
  | cons turn rest ih =>
    have hroot := h.root (hplain [] fields rfl)
    rw [FieldSet.at?_eq] at hplain hm ⊢
    rw [FieldSet.at?_eq] at hm
    refine hroot.listedOnceAt hplain hm fun turn' rest' branch branch' hpath hplain hinfers hm ↦ ?_
    cases hpath
    exact ih hinfers hplain hm

/-- A module that inference adds to a scope of a section is listed once along every chain of
scopes. -/
theorem Section.InfersTo.listedOnceAt {view : String → List String} {package : String}
    {part result : Section} (h : part.InfersTo view package result) (hplain : ArePlain part.at?)
    {path : List Turn} {m : String} (hm : IsInferredAt part.at? result.at? path m) :
    ListedOnceAt result.at? path m := by
  have hroot := h.root (hplain [] part.fields rfl)
  refine (hroot.listedOnceAt hplain hm fun turn rest branch branch' _ hplain hinfers hm ↦ ?_).2
  exact hinfers.listedOnceAt hplain hm

/-! ### Sections that were read -/

/-- No manifest gives lists of generated modules by hand. -/
theorem Section.Fits.arePlain {writable : Prop} {part : Section} (h : part.Fits writable) :
    ArePlain part.at? := by
  intro path input hinput
  refine (h.at? hinput).get?_eq_none ?_
  cases part.kind <;> rfl

theorem SectionKind.find?_of_not_exposes {kind : SectionKind} (h : kind.exposesModules = false) :
    kind.fields.find? "exposed-modules" = none ∧
      kind.fields.find? "generated-exposed-modules" = none := by
  cases kind with
  | library | internalLibrary => cases h
  | executable | test | benchmark | customSetup => exact ⟨rfl, rfl⟩

/-- A section that exposes no modules cannot list exposed ones. -/
theorem Section.Fits.lists_of_not_exposes {writable : Prop} {part : Section}
    (h : part.Fits writable) (hexposes : part.kind.exposesModules = false) :
    part.fields.texts? "exposed-modules" = none ∧ part.fields.generated.1 = [] := by
  obtain ⟨hexposed, hgenerated⟩ := SectionKind.find?_of_not_exposes hexposes
  have hexposed := h.fields.get?_eq_none hexposed
  have hgenerated := h.fields.get?_eq_none hgenerated
  exact ⟨by rw [FieldSet.texts?, hexposed], FieldSet.texts_of_get?_eq_none hgenerated⟩

section

variable {σ : Type} {context : Context σ} {bound : Nat} {value : Value} {top : FieldSet}
  {s t : Progress σ} {source : String} {hasLicense : Bool} {warnings : List Warning}
  {package : Package} {part : Section}

/-- Of every section of a manifest, whatever the files are: inference fails only where directories
cannot be listed. Otherwise the result has the scopes that the section has, and what inference adds to
one of them is stated there once and in no other scope along a chain through it, nor is it the main
module of any of them. -/
theorem Section.infer_listedOnce (hread : (context.package bound value).run s = (.ok top, t))
    (hpackage : Package.ofFields source hasLicense top = (warnings, .ok package))
    (hpart : part ∈ package.sections) (hkind : part.kind ≠ .customSetup) (packageName : String)
    (lister : Lister) (memory : Discovery) :
    Yields (Discovery.CannotList lister)
      (fun (result, _) ↦ (∀ path, (result.at? path).isSome = (part.at? path).isSome) ∧
        ∀ path m, IsInferredAt part.at? result.at? path m → ListedOnceAt result.at? path m)
      ((part.infer lister packageName).run memory) := by
  have hfits := Package.section_fits hread hpackage hpart
  have hmeets : Discovery.Meets lister (Discovery.shown lister memory)
      (part.InfersTo (Discovery.shown lister memory) packageName) (part.infer lister packageName) :=
    Section.meets_infer hkind hfits.lists_of_not_exposes
  refine (hmeets memory rfl).imp fun (result, _) ⟨_, hinfers⟩ ↦ ⟨fun path ↦ ?_, fun path m hm ↦ ?_⟩
  · exact hinfers.isSome_at? hfits.arePlain
  · exact hinfers.listedOnceAt hfits.arePlain hm

/-! A library finds three modules, one of them in a branch too. -/

/-- The files of the small package. -/
def sampleLister : Lister := fun dir ↦
  .ok (Entries.get? [("src", ["A.hs", "B.hs"]), ("extra", ["B.hs", "C.hs"])] dir)

/-- The library with its modules. -/
def sampleResult : Section :=
  ⟨.library, none,
    ⟨[("source-dirs", .texts ["src"]), ("exposed-modules", .texts ["A"]),
      ("other-modules", .texts ["Paths_sample"])]⟩,
    [⟨"flag(extra)",
      ⟨[("source-dirs", .texts ["extra"]), ("other-modules", .texts ["B", "C"])]⟩, none⟩], []⟩

theorem infer_sample :
    (sampleSection.infer sampleLister "sample").run Discovery.start =
      .ok (sampleResult, ⟨[("extra", ["B", "C"]), ("src", ["A", "B"])], []⟩) := by
  have hnone : sampleBranch.conditionals = [] := rfl
  simp only [sampleSection, Section.infer, Section.inferWith, Conditional.inferAll,
    FieldSet.inferBranch, infer, claimed, Conditional.foundIn, FieldSet.foundInside,
    Conditional.mentionedIn, FieldSet.mentioned, hnone]
  rfl

/-- What is found twice is listed in the branch, and there only. -/
theorem Section.infer_listedOnce_sample : ListedOnceAt sampleResult.at? [(0, false)] "B" := by
  have hpart : sampleSection ∈ samplePackage.sections := List.mem_cons_self
  have hyields := Section.infer_listedOnce run_package_sample ofFields_sample hpart nofun "sample"
    sampleLister Discovery.start
  rw [infer_sample] at hyields
  refine hyields.of_ok.2 [(0, false)] "B" ⟨sampleBranch, _, rfl, rfl, ?_, ?_⟩
  · decide
  · decide

end

end CabalManifest
