import CabalManifest.Proofs.ListedOnce

/-!
# No module that is found is lost

Every module under the source directories of a section or of a branch in it is stated in the result,
by the section or by one of its branches, or is the main module of one (`Section.InfersTo.isListed`).
A scope that leaves a module out does so because the module is claimed. If the claim comes from above,
or from what is named below, the module is listed there. If it comes from a branch that finds the
module too, the same question comes up in that branch, with more claims from above; so the proof goes
by induction on the branches.
-/

namespace CabalManifest

/-- Whether some scope states a module or has it as its main module. -/
def IsListed (outputs : List Turn → Option FieldSet) (m : String) : Prop :=
  ∃ path output, outputs path = some output ∧
    (m ∈ output.modules.stated ∨ output.mainModule? = some m)

/-- Whether a scope with source directories leaves its other modules to be inferred. -/
def FieldSet.LeavesModules (fields : FieldSet) : Prop :=
  fields.texts "source-dirs" = [] ∨ fields.texts? "other-modules" = none

theorem IsListed.of_branch {result : FieldSet} {nested : List Conditional} {turn : Turn}
    {branch : FieldSet} (hbranch : Conditional.branchAt? nested turn = some branch) {m : String}
    (h : IsListed branch.at? m) : IsListed (Conditional.scopeAt? result nested) m := by
  obtain ⟨path, output, houtput, hm⟩ := h
  exact ⟨turn :: path, output, (Conditional.scopeAt?_cons result hbranch path).trans houtput, hm⟩

/-! ### What is declared -/

/-- What a scope of a branch declares, the scope in its place lists. -/
theorem FieldSet.InfersTo.isListed_of_declared {view : String → List String} {m : String}
    {path : List Turn} {outer : List String} {fields result input : FieldSet}
    (h : fields.InfersTo view outer result) (hplain : ArePlain fields.at?)
    (hinput : fields.at? path = some input) (hm : m ∈ input.declared) : IsListed result.at? m := by
  induction path generalizing fields outer result with
  | nil =>
    have hroot := h.root (hplain [] fields rfl)
    cases hinput
    refine ⟨[], result, rfl, ?_⟩
    rw [hroot.main]
    exact (mem_declared.1 hm).imp_left (hroot.modules.listed m)
  | cons turn rest ih =>
    have hroot := h.root (hplain [] fields rfl)
    rw [FieldSet.at?_eq] at hplain hinput ⊢
    obtain ⟨branch, hbranch, hinput⟩ := Option.bind_eq_some_iff.1 hinput
    obtain ⟨branch', hbranch', hinfers⟩ := hroot.nested.exists_output hbranch
    exact .of_branch hbranch' (ih hinfers (hplain.branch hbranch) hinput)

/-! ### What is found -/

namespace InfersRoot

variable {view : String → List String} {outer : List String} {applies : Prop}
  {extra : Option String} {root result : FieldSet} {conditionals nested : List Conditional}
  {m : String}

/-- What some scope finds is claimed from above or listed, if that is so in the branches. -/
theorem isListed (h : InfersRoot view outer applies extra root conditionals result nested)
    (hplain : ArePlain (Conditional.scopeAt? root conditionals))
    (happlies : root.texts "source-dirs" = [] ∨ applies)
    (hbranches : ∀ turn (branch branch' : FieldSet),
      Conditional.branchAt? conditionals turn = some branch →
        Conditional.branchAt? nested turn = some branch' → ∀ path input,
          branch.at? path = some input → m ∈ input.found view →
            m ∈ outer ++ result.declared ∨ IsListed branch'.at? m)
    {path : List Turn} {input : FieldSet}
    (hinput : Conditional.scopeAt? root conditionals path = some input)
    (hm : m ∈ input.found view) :
    m ∈ outer ∨ IsListed (Conditional.scopeAt? result nested) m := by
  have hbelow : ∀ turn branch rest input, Conditional.branchAt? conditionals turn = some branch →
      branch.at? rest = some input → m ∈ input.found view →
        m ∈ outer ∨ IsListed (Conditional.scopeAt? result nested) m := by
    intro turn branch rest input hbranch hinput hm
    obtain ⟨branch', hbranch', -⟩ := h.nested.exists_output hbranch
    -- A claim from above the branch is one of the root, or of the scopes around it.
    obtain hclaimed | hlisted := hbranches turn branch branch' hbranch hbranch' rest input hinput hm
    · rw [List.mem_append, h.declared] at hclaimed
      exact hclaimed.imp_right fun hdeclared ↦ ⟨[], result, rfl, hdeclared⟩
    · exact .inr (.of_branch hbranch' hlisted)
  cases path with
  | cons turn rest =>
    obtain ⟨branch, hbranch, hinput⟩ := Option.bind_eq_some_iff.1 hinput
    exact hbelow turn branch rest input hbranch hinput hm
  | nil =>
    cases hinput
    obtain hdirs | happlies := happlies
    · rw [FieldSet.found, hdirs] at hm
      cases hm
    · -- Whoever claims the module lists it, or leaves it to the scopes around.
      obtain (houter | hdeclared | hnamed | hfound) | hstated := h.modules.found happlies m hm
      · exact .inl houter
      · refine .inr ⟨[], result, rfl, ?_⟩
        rw [h.main]
        exact (FieldSet.mem_declared.1 hdeclared).imp_left (h.modules.listed m)
      · obtain ⟨scope, ⟨turn, branch, rest, hbranch, hscope⟩, hdeclared⟩ := hnamed
        obtain ⟨branch', hbranch', hinfers⟩ := h.nested.exists_output hbranch
        exact .inr (.of_branch hbranch'
          (hinfers.isListed_of_declared (hplain.branch hbranch) hscope hdeclared))
      · obtain ⟨scope, ⟨turn, branch, rest, hbranch, hscope⟩, hm⟩ := hfound
        exact hbelow turn branch rest scope hbranch hscope hm
      · exact .inr ⟨[], result, rfl, .inl hstated⟩

end InfersRoot

/-- What a branch finds, or a branch in it, is claimed from above or listed. -/
theorem FieldSet.InfersTo.isListed {view : String → List String} {outer : List String}
    {fields result : FieldSet} (h : fields.InfersTo view outer result) (hplain : ArePlain fields.at?)
    (hleaves : ∀ path input, fields.at? path = some input → input.LeavesModules) {m : String}
    {path : List Turn} {input : FieldSet} (hinput : fields.at? path = some input)
    (hm : m ∈ input.found view) : m ∈ outer ∨ IsListed result.at? m := by
  induction h generalizing path input with
  | @mk outer fields modules nested hmodules hisSome hnested ih =>
    have hroot := (InfersTo.mk hmodules hisSome hnested).root (hplain [] fields rfl)
    rw [FieldSet.at?_eq] at hplain hleaves hinput ⊢
    refine hroot.isListed hplain (hleaves [] fields rfl) ?_ hinput hm
    intro turn branch branch' hbranch hbranch' rest input hinput hm
    rw [conditionals_withInferred hisSome] at hbranch'
    rw [declared_withInferred]
    refine ih turn branch branch' hbranch hbranch' (hplain.branch hbranch) (fun path input h ↦ ?_)
      hinput hm
    exact hleaves (turn :: path) input ((Conditional.scopeAt?_cons fields hbranch path).trans h)

/-- What a section finds, or a branch in it, is listed, if the section and its branches leave their
modules to be inferred. -/
theorem Section.InfersTo.isListed {view : String → List String} {package : String}
    {part result : Section} (h : part.InfersTo view package result) (hplain : ArePlain part.at?)
    (happlies : part.infersModules)
    (hleaves : ∀ path input, path ≠ [] → part.at? path = some input → input.LeavesModules)
    {path : List Turn} {input : FieldSet} (hinput : part.at? path = some input) {m : String}
    (hm : m ∈ input.found view) : IsListed result.at? m := by
  have hroot := h.root (hplain [] part.fields rfl)
  refine (hroot.isListed hplain (.inr happlies) ?_ hinput hm).resolve_left List.not_mem_nil
  intro turn branch branch' hbranch hbranch' rest input hinput hm
  have hinfers := hroot.nested.related turn branch branch' hbranch hbranch'
  refine hinfers.isListed (hplain.branch hbranch) (fun path input h ↦ ?_) hinput hm
  refine hleaves (turn :: path) input (List.cons_ne_nil _ _) ?_
  exact (Conditional.scopeAt?_cons part.fields hbranch path).trans h

section

variable {σ : Type} {context : Context σ} {bound : Nat} {value : Value} {top : FieldSet}
  {s t : Progress σ} {source : String} {hasLicense : Bool} {warnings : List Warning}
  {package : Package} {part : Section}

open Discovery

/-- Of every section of a manifest that infers its modules, and whose branches do so where they have
source directories: inference fails only where directories cannot be listed. Otherwise every module
that is found under the source directories of the section or of a branch is listed by some scope of
the result, or is the main module of one. -/
theorem Section.infer_isListed (hread : (context.package bound value).run s = (.ok top, t))
    (hpackage : Package.ofFields source hasLicense top = (warnings, .ok package))
    (hpart : part ∈ package.sections) (hkind : part.kind ≠ .customSetup)
    (hinfers : part.infersModules)
    (hbranches : ∀ path input, path ≠ [] → part.at? path = some input → input.LeavesModules)
    (packageName : String) (lister : Lister) (memory : Discovery) :
    Yields (CannotList lister)
      (fun (result, _) ↦ ∀ path input, part.at? path = some input → ∀ found memory',
        (discover lister (input.texts "source-dirs")).run memory = .ok (found, memory') →
          ∀ m ∈ found, IsListed result.at? m)
      ((part.infer lister packageName).run memory) := by
  have hfits := Package.section_fits hread hpackage hpart
  have hmeets : Meets lister (shown lister memory) (part.InfersTo (shown lister memory) packageName)
      (part.infer lister packageName) :=
    Section.meets_infer hkind hfits.lists_of_not_exposes
  refine (hmeets memory rfl).imp
    fun (result, _) ⟨_, hresult⟩ path input hinput found memory' hfound m hm ↦ ?_
  have hyields := meets_discover (input.texts "source-dirs") memory (rfl : shown lister memory = _)
  rw [hfound] at hyields
  obtain ⟨-, hunder⟩ := hyields.of_ok
  refine hresult.isListed hfits.arePlain hinfers hbranches hinput ?_
  rw [FieldSet.found, ← hunder]
  exact hm

/-- What the library finds it leaves to the branch, which lists it. -/
theorem Section.infer_isListed_sample : IsListed sampleResult.at? "B" := by
  have hbranches : ∀ path input, path ≠ [] → sampleSection.at? path = some input →
      input.LeavesModules := by
    intro path input hpath hinput
    cases path with
    | nil => exact absurd rfl hpath
    | cons turn rest =>
      obtain ⟨branch, hbranch, hinput⟩ := Option.bind_eq_some_iff.1 hinput
      obtain ⟨conditional, hconditional, hmem⟩ := Conditional.mem_of_branchAt? hbranch
      obtain rfl := List.mem_singleton.1 hconditional
      obtain rfl := List.mem_singleton.1 hmem
      cases rest with
      | nil =>
        cases hinput
        exact .inr rfl
      | cons turn' rest =>
        obtain ⟨nested, hnested, -⟩ := Option.bind_eq_some_iff.1 hinput
        cases (Conditional.branchAt?_nil turn').symm.trans hnested
  have hpart : sampleSection ∈ samplePackage.sections := List.mem_cons_self
  have hyields := Section.infer_isListed run_package_sample ofFields_sample hpart nofun rfl hbranches
    "sample" sampleLister start
  rw [infer_sample] at hyields
  exact hyields.of_ok [] ⟨[("source-dirs", .texts ["src"])]⟩ rfl ["A", "B"]
    ⟨[("src", ["A", "B"])], []⟩ rfl "B" (by decide)

end

end CabalManifest
