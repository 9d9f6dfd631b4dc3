import CabalManifest.Proofs.NestedScopes
import Mathlib.Data.List.Nodup
import Mathlib.Data.List.Perm.Basic
import Mathlib.Tactic.Tauto

/-!
# What inference makes of a scope

The module lists of a scope after inference hold what the scope listed before, and of the modules found
under its source directories those that nobody claims (`FieldSet.ModulesInferred`). That is so for a
section and for every branch in it, with the modules that the scopes around a branch declare as claims
on it (`FieldSet.InfersTo`, `Section.InfersTo`).
-/

namespace CabalManifest

open Discovery

/-! ### Modules of a scope -/

namespace FieldSet

/-- The modules that a scope lists or generates. -/
def listed (fields : FieldSet) : List String := Field.moduleLists.flatMap fields.texts

/-- The main module of a scope. -/
def mainModule? (fields : FieldSet) : Option String :=
  (fields.text? "main").bind ModuleName.ofMain?

/-- The module lists of a scope that has been inferred. -/
def modules (fields : FieldSet) : ModuleLists where
  exposed := fields.texts "exposed-modules"
  other := fields.texts "other-modules"
  autogen := fields.texts "autogen-modules"

/-- A module is listed if one of the four lists has it. -/
theorem mem_listed {fields : FieldSet} {m : String} :
    m ∈ fields.listed ↔ m ∈ fields.texts "exposed-modules" ∨ m ∈ fields.texts "other-modules" ∨
      m ∈ fields.generated.1 ∨ m ∈ fields.generated.2 := by
  simp [listed, Field.moduleLists, generated]

/-- A module is declared if it is listed, or the main one. -/
theorem mem_declared {fields : FieldSet} {m : String} :
    m ∈ fields.declared ↔ m ∈ fields.listed ∨ fields.mainModule? = some m := by
  rw [declared, List.mem_append, Option.mem_toList]
  rfl

end FieldSet

/-- The modules of a scope that a package description lists. -/
def ModuleLists.stated (modules : ModuleLists) : List String := modules.exposed ++ modules.other

/-! ### Replacing module lists -/

namespace FieldSet

variable {fields : FieldSet} {modules : ModuleLists} {key : String}

/-- Sets a list unless it is empty. -/
def putTexts (fields : FieldSet) (key : String) (items : List String) : FieldSet :=
  if items.isEmpty then fields else fields.insert key (.texts items)

theorem withModules_eq (fields : FieldSet) (modules : ModuleLists) :
    fields.withModules modules =
      (((fields.filterKeys fun key ↦ !Field.moduleLists.contains key).putTexts "exposed-modules"
        modules.exposed).putTexts "other-modules" modules.other).putTexts "autogen-modules"
          modules.autogen := rfl

theorem get?_putTexts_of_ne {items : List String} {other : String} (h : key ≠ other) :
    (fields.putTexts key items).get? other = fields.get? other := by
  rw [putTexts]
  split
  · rfl
  · rw [get?_insert, if_neg h]

theorem texts_putTexts {items : List String} (h : fields.get? key = none) :
    (fields.putTexts key items).texts key = items := by
  rw [putTexts]
  split
  · next hempty => rw [texts_of_get?_eq_none h, List.isEmpty_iff.1 hempty]
  · exact texts_insert items

/-- Fields that hold no inferred modules stay as they are. -/
theorem get?_withModules_of_notMem (hlists : key ∉ Field.moduleLists)
    (hautogen : key ≠ "autogen-modules") :
    (fields.withModules modules).get? key = fields.get? key := by
  have hexposed : "exposed-modules" ≠ key := fun h ↦ hlists (by simp [← h, Field.moduleLists])
  have hother : "other-modules" ≠ key := fun h ↦ hlists (by simp [← h, Field.moduleLists])
  rw [withModules_eq, get?_putTexts_of_ne hautogen.symm, get?_putTexts_of_ne hother,
    get?_putTexts_of_ne hexposed, get?_filterKeys, if_pos (by simpa using hlists)]

/-- The exposed modules are those that are put there. -/
theorem texts_withModules_exposed :
    (fields.withModules modules).texts "exposed-modules" = modules.exposed := by
  have hnone : (fields.filterKeys fun key ↦ !Field.moduleLists.contains key).get?
      "exposed-modules" = none := by
    rw [get?_filterKeys, if_neg (by simp [Field.moduleLists])]
  rw [withModules_eq, texts_congr (get?_putTexts_of_ne (by decide)),
    texts_congr (get?_putTexts_of_ne (by decide)), texts_putTexts hnone]

/-- The other modules are those that are put there. -/
theorem texts_withModules_other :
    (fields.withModules modules).texts "other-modules" = modules.other := by
  have hnone : ((fields.filterKeys fun key ↦ !Field.moduleLists.contains key).putTexts
      "exposed-modules" modules.exposed).get? "other-modules" = none := by
    rw [get?_putTexts_of_ne (by decide), get?_filterKeys, if_neg (by simp [Field.moduleLists])]
  rw [withModules_eq, texts_congr (get?_putTexts_of_ne (by decide)), texts_putTexts hnone]

theorem texts_withModules_autogen (h : fields.get? "autogen-modules" = none) :
    (fields.withModules modules).texts "autogen-modules" = modules.autogen := by
  rw [withModules_eq, texts_putTexts]
  rw [get?_putTexts_of_ne (by decide), get?_putTexts_of_ne (by decide), get?_filterKeys, h, ite_self]

/-- The lists of generated modules are gone, as their modules are in the other lists. -/
theorem texts_withModules_generated
    (hkey : key = "generated-exposed-modules" ∨ key = "generated-other-modules") :
    (fields.withModules modules).texts key = [] := by
  refine texts_of_get?_eq_none ?_
  rw [withModules_eq]
  obtain rfl | rfl := hkey <;>
    rw [get?_putTexts_of_ne (by decide), get?_putTexts_of_ne (by decide),
      get?_putTexts_of_ne (by decide), get?_filterKeys, if_neg (by simp [Field.moduleLists])]

/-- The modules that are put into a scope can be read off it. -/
theorem modules_withModules (h : fields.get? "autogen-modules" = none) :
    (fields.withModules modules).modules = modules := by
  rw [FieldSet.modules, texts_withModules_exposed, texts_withModules_other,
    texts_withModules_autogen h]

/-- Afterwards a scope lists the given modules and no others. -/
theorem mem_listed_withModules {m : String} :
    m ∈ (fields.withModules modules).listed ↔ m ∈ modules.stated := by
  rw [mem_listed, texts_withModules_exposed, texts_withModules_other, generated,
    texts_withModules_generated (.inl rfl), texts_withModules_generated (.inr rfl),
    ModuleLists.stated, List.mem_append]
  simp

/-- Putting modules into a scope does not change its main one. -/
theorem mainModule?_withModules : (fields.withModules modules).mainModule? = fields.mainModule? := by
  rw [mainModule?, mainModule?,
    text?_congr (get?_withModules_of_notMem (by decide) (by decide))]

/-- Putting modules into a scope does not change its conditionals. -/
theorem conditionals_withModules : (fields.withModules modules).conditionals = fields.conditionals :=
  conditionals_congr (get?_withModules_of_notMem (by decide) (by decide))

/-- A scope with other module lists and conditionals. -/
def withInferred (fields : FieldSet) (modules : ModuleLists) (nested : List Conditional) : FieldSet :=
  if fields.conditionals.isEmpty then fields.withModules modules
  else (fields.withModules modules).insert "when" (.conditionals nested)

/-- Only the conditionals differ from what the modules make of a scope. -/
theorem get?_withInferred {nested : List Conditional} (h : key ≠ "when") :
    (fields.withInferred modules nested).get? key = (fields.withModules modules).get? key := by
  rw [withInferred]
  split
  · rfl
  · rw [get?_insert, if_neg (Ne.symm h)]

theorem modules_withInferred {nested : List Conditional}
    (h : fields.get? "autogen-modules" = none) :
    (fields.withInferred modules nested).modules = modules := by
  rw [FieldSet.modules, texts_congr (get?_withInferred (by decide)),
    texts_congr (get?_withInferred (by decide)), texts_congr (get?_withInferred (by decide))]
  exact modules_withModules h

theorem mainModule?_withInferred {nested : List Conditional} :
    (fields.withInferred modules nested).mainModule? = fields.mainModule? := by
  rw [mainModule?, text?_congr (get?_withInferred (by decide))]
  exact mainModule?_withModules

end FieldSet

/-! ### The steps of a branch -/

section

variable {m : Type → Type} [Monad m] [LawfulMonad m]

/-- The other modules of a branch, as far as they are given or found. -/
def FieldSet.inferOther (lister : Listing m) (outer : List String) (fields : FieldSet) :
    Finding m (List String) :=
  match fields.texts? "other-modules" with
  | some other => pure other
  | none =>
    if (fields.texts "source-dirs").isEmpty then pure []
    else do
      let claimed ← claimed lister outer fields fields.conditionals
      unclaimed lister (fields.texts "source-dirs") claimed

/-- A branch with its module lists, once its other modules are known. -/
def FieldSet.withOther (fields : FieldSet) (other : List String) : FieldSet :=
  fields.withModules {
    exposed := fields.texts "exposed-modules" ++ fields.generated.1
    other := other ++ fields.generated.2
    autogen := fields.generated.1 ++ fields.generated.2 }

/-- Inference in the conditionals of a branch that has its module lists. -/
def FieldSet.inferNested (lister : Listing m) (outer : List String)
    (given : List Conditional) (result : FieldSet) : Finding m FieldSet :=
  if given.isEmpty then return result
  else do
    let nested ← Conditional.inferAll lister (outer ++ result.declared) given
    return result.insert "when" (.conditionals nested)

/-- A branch is inferred in two steps: its other modules, and its nested scopes. -/
theorem FieldSet.inferBranch_eq (lister : Listing m) (outer : List String) (fields : FieldSet) :
    fields.inferBranch lister outer = fields.inferOther lister outer >>= fun other ↦
      FieldSet.inferNested lister outer fields.conditionals (fields.withOther other) := by
  rw [FieldSet.inferBranch, inferOther]
  cases hgiven : fields.texts? "other-modules" with
  | some other => rfl
  | none =>
    cases hdirs : (fields.texts "source-dirs").isEmpty with
    | true => rfl
    | false => exact (bind_assoc ..).symm

end

/-! ### What inference finds -/

section

variable (view : String → List String) (outer : List String) (fields : FieldSet)
  (conditionals : List Conditional)

/-- Whether a scope claims a module: the scopes around it declare it, or it does so itself, or a
scope in it names it or finds it. -/
def FieldSet.Claims (m : String) : Prop :=
  m ∈ outer ∨ m ∈ fields.declared ∨ Conditional.Gives conditionals FieldSet.declared m ∨
    Conditional.Gives conditionals (FieldSet.found view) m

/-- What inference makes of the module lists of a scope. `applies` says whether it infers the modules
that are found, and `extra` is a module that it may infer without having found it. -/
structure FieldSet.ModulesInferred (applies : Prop) (extra : Option String) (modules : ModuleLists) :
    Prop where
  /-- What is new is claimed by nobody, was found, and is stated once. -/
  new : ∀ m ∈ modules.stated, m ∉ fields.listed →
    ¬fields.Claims view outer conditionals m ∧ (m ∈ fields.found view ∨ extra = some m) ∧
      modules.stated.count m = 1
  /-- What was found is claimed or stated. -/
  found : applies → ∀ m ∈ fields.found view,
    fields.Claims view outer conditionals m ∨ m ∈ modules.stated
  /-- What was listed is stated. -/
  listed : ∀ m ∈ fields.listed, m ∈ modules.stated
  /-- What is generated was listed. -/
  autogen : ∀ m ∈ modules.autogen, m ∈ fields.listed

end

section

variable {view : String → List String} {outer : List String} {fields : FieldSet}
  {conditionals : List Conditional} {applies : Prop} {extra : Option String}
  {modules : ModuleLists}

theorem FieldSet.listed_eq (fields : FieldSet) :
    fields.listed = fields.texts "exposed-modules" ++ (fields.texts "other-modules" ++
      (fields.generated.1 ++ (fields.generated.2 ++ []))) := rfl

/-- Module lists are inferred if they hold what was listed and, once each, what is new. -/
theorem FieldSet.ModulesInferred.of_perm (new : List String)
    (hperm : modules.stated.Perm (fields.listed ++ new)) (hnodup : new.Nodup)
    (hnew : ∀ m ∈ new,
      ¬fields.Claims view outer conditionals m ∧ (m ∈ fields.found view ∨ extra = some m))
    (hfound : applies → ∀ m ∈ fields.found view,
      fields.Claims view outer conditionals m ∨ m ∈ new)
    (hautogen : modules.autogen = fields.generated.1 ++ fields.generated.2) :
    fields.ModulesInferred view outer conditionals applies extra modules where
  new m hm hlisted := by
    have hmem : m ∈ new := (List.mem_append.1 (hperm.mem_iff.1 hm)).resolve_left hlisted
    refine ⟨(hnew m hmem).1, (hnew m hmem).2, ?_⟩
    rw [hperm.count_eq, List.count_append, List.count_eq_zero_of_not_mem hlisted,
      List.count_eq_one_of_mem hnodup hmem]
  found happlies m hm :=
    (hfound happlies m hm).imp_right fun h ↦ hperm.mem_iff.2 (List.mem_append_right _ h)
  listed m hm := hperm.mem_iff.2 (List.mem_append_left _ hm)
  autogen m hm := by
    rw [hautogen, List.mem_append] at hm
    exact mem_listed.2 (.inr (.inr hm))

variable {lister : Lister}

/-- The modules that are claimed are those that the scope or one inside it declares, or that are
found in one inside it. -/
theorem meets_claimed :
    Meets lister view (fun claimed ↦ ∀ m, m ∈ claimed ↔ fields.Claims view outer conditionals m)
      (claimed lister outer fields conditionals) := by
  refine (Conditional.meets_foundIn conditionals).bind fun found hfound ↦ .pure fun m ↦ ?_
  simp only [List.mem_append, hfound, Conditional.mem_mentionedIn_iff, FieldSet.Claims, or_assoc]

/-- What a scope infers is what it finds and does not claim, each module once. -/
theorem meets_unclaimed {claimed : List String}
    (h : ∀ m, m ∈ claimed ↔ fields.Claims view outer conditionals m) :
    Meets lister view
      (fun inferred ↦ inferred.Nodup ∧
        ∀ m, m ∈ inferred ↔ m ∈ fields.found view ∧ ¬fields.Claims view outer conditionals m)
      (unclaimed lister (fields.texts "source-dirs") claimed) := by
  refine (meets_discover _).bind fun found hfound ↦ .pure ?_
  rw [hfound]
  refine ⟨(nodup_eraseDups _).filter _, fun m ↦ ?_⟩
  rw [List.mem_filter, Bool.not_eq_true', List.contains_eq_mem, decide_eq_false_iff_not, h]
  rfl

/-! ### Branches -/

/-- The module lists that a branch infers. -/
theorem FieldSet.modulesInferred_branch {other : List String}
    (h : fields.texts? "other-modules" = some other ∨
      fields.texts? "other-modules" = none ∧ other.Nodup ∧
        ∀ m, m ∈ other ↔ m ∈ fields.found view ∧ ¬fields.Claims view outer fields.conditionals m) :
    fields.ModulesInferred view outer fields.conditionals (fields.texts? "other-modules" = none) none
      { exposed := fields.texts "exposed-modules" ++ fields.generated.1
        other := other ++ fields.generated.2
        autogen := fields.generated.1 ++ fields.generated.2 } := by
  obtain hgiven | ⟨hnone, hnodup, hother⟩ := h
  · -- With the list given nothing is new.
    have htexts : fields.texts "other-modules" = other := by rw [texts, hgiven]; rfl
    refine .of_perm [] (List.perm_iff_count.2 fun m ↦ ?_) .nil (List.forall_mem_nil _)
      (fun hnone ↦ ?_) rfl
    · simp only [ModuleLists.stated, listed_eq, htexts, List.count_append, List.count_nil]
      omega
    · cases hgiven.symm.trans hnone
  · have htexts : fields.texts "other-modules" = [] := by rw [texts, hnone]; rfl
    refine .of_perm other (List.perm_iff_count.2 fun m ↦ ?_) hnodup (fun m hm ↦ ?_)
      (fun _ m hm ↦ ?_) rfl
    · simp only [ModuleLists.stated, listed_eq, htexts, List.count_append, List.count_nil]
      omega
    · exact ⟨((hother m).1 hm).2, .inl ((hother m).1 hm).1⟩
    · exact or_iff_not_imp_left.2 fun hclaims ↦ (hother m).2 ⟨hm, hclaims⟩

/-- The other modules of a branch are the given ones, or else those that it finds and does not claim. -/
theorem FieldSet.meets_inferOther (outer : List String) (fields : FieldSet) :
    Meets lister view
      (fun other ↦ fields.texts? "other-modules" = some other ∨
        fields.texts? "other-modules" = none ∧ other.Nodup ∧
          ∀ m, m ∈ other ↔
            m ∈ fields.found view ∧ ¬fields.Claims view outer fields.conditionals m)
      (fields.inferOther lister outer) := by
  rw [FieldSet.inferOther]
  split
  · next other hgiven => exact .pure (.inl hgiven)
  · next hnone =>
    split
    · next hdirs =>
      -- Without source directories nothing is found.
      refine .pure (.inr ⟨hnone, .nil, fun m ↦ ?_⟩)
      rw [FieldSet.found, List.isEmpty_iff.1 hdirs]
      simp [under]
    · refine meets_claimed.bind fun claimed hclaimed ↦ ?_
      exact (meets_unclaimed hclaimed).imp fun other hother ↦ .inr ⟨hnone, hother⟩

/-! ### Sections -/

/-- The modules that a section infers, those that it finds before an extra one. -/
structure FieldSet.NewModules (view : String → List String) (fields : FieldSet)
    (conditionals : List Conditional) (applies : Bool) (extra : Option String)
    (inferred paths : List String) : Prop where
  nodup : (inferred ++ paths).Nodup
  isNew : ∀ m ∈ inferred ++ paths,
    ¬fields.Claims view [] conditionals m ∧ (m ∈ fields.found view ∨ extra = some m)
  found : applies → ∀ m ∈ fields.found view,
    fields.Claims view [] conditionals m ∨ m ∈ inferred

/-- Where the new modules of a section go. Only a section that exposes modules may list exposed
ones. -/
theorem FieldSet.NewModules.modulesInferred {exposes : Bool} {inferred paths : List String}
    (h : fields.NewModules view conditionals
      ((exposes && (fields.texts? "exposed-modules").isNone) ||
        (fields.texts? "other-modules").isNone) extra inferred paths)
    (hexposes : exposes = false →
      fields.texts? "exposed-modules" = none ∧ fields.generated.1 = [])
    (hexposed : modules.exposed =
      if exposes then
        (if exposes && (fields.texts? "exposed-modules").isNone then inferred
          else (fields.texts? "exposed-modules").getD []) ++ fields.generated.1
      else [])
    (hgiven : ∀ other, fields.texts? "other-modules" = some other →
      modules.other = other ++ fields.generated.2)
    (hnone : fields.texts? "other-modules" = none → modules.other =
      (if exposes && (fields.texts? "exposed-modules").isNone then paths
        else inferred ++ paths) ++ fields.generated.2)
    (hautogen : modules.autogen = fields.generated.1 ++ fields.generated.2) :
    fields.ModulesInferred view [] conditionals
      ((exposes && (fields.texts? "exposed-modules").isNone) ||
        (fields.texts? "other-modules").isNone) extra modules := by
  have hperm {new : List String} (hcount : ∀ m, modules.exposed.count m + modules.other.count m =
      ((fields.texts? "exposed-modules").getD []).count m +
        ((fields.texts? "other-modules").getD []).count m + fields.generated.1.count m +
          fields.generated.2.count m + new.count m) :
      modules.stated.Perm (fields.listed ++ new) := by
    refine List.perm_iff_count.2 fun m ↦ ?_
    have hm := hcount m
    simp only [ModuleLists.stated, listed_eq, texts, List.count_append, List.count_nil]
    omega
  -- Besides what was listed a section states all new modules, all but the extra one, or none.
  have hall (hcount : ∀ m, _) : fields.ModulesInferred view [] conditionals _ extra modules :=
    .of_perm _ (hperm hcount) h.nodup h.isNew
      (fun happlies m hm ↦ (h.found happlies m hm).imp_right (List.mem_append_left _)) hautogen
  have hinferred (hcount : ∀ m, _) : fields.ModulesInferred view [] conditionals _ extra modules :=
    .of_perm _ (hperm hcount) (List.nodup_append.1 h.nodup).1
      (fun m hm ↦ h.isNew m (List.mem_append_left _ hm)) h.found hautogen
  have hnothing (hcount : ∀ m, _)
      (happlies : ((exposes && (fields.texts? "exposed-modules").isNone) ||
        (fields.texts? "other-modules").isNone) = false) :
      fields.ModulesInferred view [] conditionals _ extra modules :=
    .of_perm _ (hperm hcount) .nil (List.forall_mem_nil _)
      (fun htrue ↦ absurd htrue (Bool.eq_false_iff.1 happlies)) hautogen
  -- Which of these holds is a matter of the lists that are given.
  obtain hotherGiven | ⟨other, hotherGiven⟩ :=
    Option.eq_none_or_eq_some (fields.texts? "other-modules")
  · have hother := hnone hotherGiven
    cases exposes with
    | false =>
      obtain ⟨hexposedGiven, hgenerated⟩ := hexposes rfl
      refine hall fun m ↦ ?_
      simp [hexposed, hother, hexposedGiven, hotherGiven, hgenerated]
      omega
    | true =>
      refine hall fun m ↦ ?_
      cases hexposedGiven : fields.texts? "exposed-modules" <;>
        simp [hexposed, hother, hexposedGiven, hotherGiven] <;> omega
  · have hother := hgiven other hotherGiven
    cases exposes with
    | false =>
      obtain ⟨hexposedGiven, hgenerated⟩ := hexposes rfl
      refine hnothing (fun m ↦ ?_) (by simp [hotherGiven])
      simp [hexposed, hother, hexposedGiven, hotherGiven, hgenerated]
    | true =>
      obtain hexposedGiven | ⟨exposed, hexposedGiven⟩ :=
        Option.eq_none_or_eq_some (fields.texts? "exposed-modules")
      · refine hinferred fun m ↦ ?_
        simp [hexposed, hother, hexposedGiven, hotherGiven]
        omega
      · refine hnothing (fun m ↦ ?_) (by simp [hexposedGiven, hotherGiven])
        simp [hexposed, hother, hexposedGiven, hotherGiven]
        omega

/-- The module lists that a section infers. -/
theorem meets_infer {exposes : Bool} {pathsModule : Option String}
    (hexposes : exposes = false →
      fields.texts? "exposed-modules" = none ∧ fields.generated.1 = []) :
    Meets lister view
      (fields.ModulesInferred view [] conditionals
        ((exposes && (fields.texts? "exposed-modules").isNone) ||
          (fields.texts? "other-modules").isNone) pathsModule)
      (infer lister (fields.texts "source-dirs") fields conditionals exposes pathsModule) := by
  rw [infer]
  simp only
  split
  · refine meets_claimed.bind fun claimed hclaimed ↦ ?_
    refine (meets_unclaimed hclaimed).bind fun inferred hunclaimed ↦ .pure ?_
    obtain ⟨hnodup, hinferred⟩ := hunclaimed
    have hnew : fields.NewModules view conditionals
        ((exposes && (fields.texts? "exposed-modules").isNone) ||
          (fields.texts? "other-modules").isNone) pathsModule inferred
        (pathsModule.toList.filter fun m ↦
          m != "" && !claimed.contains m && !inferred.contains m) := by
      have hpaths : ∀ m ∈ pathsModule.toList.filter fun m ↦
          m != "" && !claimed.contains m && !inferred.contains m,
          pathsModule = some m ∧ ¬fields.Claims view [] conditionals m ∧ m ∉ inferred := by
        intro m hm
        obtain ⟨hextra, hnew⟩ := List.mem_filter.1 hm
        rw [← hclaimed]
        simp_all
      refine ⟨List.nodup_append.2 ⟨hnodup, ?_, ?_⟩, List.forall_mem_append.2 ⟨?_, ?_⟩, ?_⟩
      · cases pathsModule with
        | none => exact .nil
        | some paths => exact (List.nodup_singleton paths).filter _
      · rintro m hm _ hpath rfl
        exact (hpaths m hpath).2.2 hm
      · exact fun m hm ↦ ⟨((hinferred m).1 hm).2, .inl ((hinferred m).1 hm).1⟩
      · exact fun m hm ↦ ⟨(hpaths m hm).2.1, .inr (hpaths m hm).1⟩
      · exact fun _ m hm ↦ or_iff_not_imp_left.2 fun hclaims ↦ (hinferred m).2 ⟨hm, hclaims⟩
    exact hnew.modulesInferred hexposes rfl (fun other h ↦ by simp only [h])
      (fun h ↦ by simp only [h]) rfl
  · next happlies =>
    have hnew : fields.NewModules view conditionals
        ((exposes && (fields.texts? "exposed-modules").isNone) ||
          (fields.texts? "other-modules").isNone) pathsModule [] [] :=
      ⟨.nil, List.forall_mem_nil _, fun h ↦ absurd h happlies⟩
    refine .pure (hnew.modulesInferred hexposes rfl (fun other h ↦ ?_) (fun h ↦ ?_) rfl)
    · simp only [h]
    · simp only [h]

end

/-! ### Scopes in scopes -/

namespace Conditional

/-- Whether two lists of conditionals have the same branches, each related to its counterpart. -/
structure Correspond (related : FieldSet → FieldSet → Prop) (inputs outputs : List Conditional) :
    Prop where
  isSome : ∀ turn, (branchAt? outputs turn).isSome = (branchAt? inputs turn).isSome
  related : ∀ turn input output, branchAt? inputs turn = some input →
    branchAt? outputs turn = some output → related input output

namespace Correspond

variable {related : FieldSet → FieldSet → Prop} {inputs outputs : List Conditional}

/-- No conditionals correspond to no conditionals. -/
theorem nil : Correspond related [] [] where
  isSome _ := rfl
  related turn _ _ hinput := by cases (branchAt?_nil turn).symm.trans hinput

/-- Conditionals correspond one by one, and so do their branches. -/
theorem cons {input output : Conditional}
    (hisSome : ∀ isElse, (output.branch? isElse).isSome = (input.branch? isElse).isSome)
    (hrelated : ∀ isElse branch branch', input.branch? isElse = some branch →
      output.branch? isElse = some branch' → related branch branch')
    (h : Correspond related inputs outputs) :
    Correspond related (input :: inputs) (output :: outputs) where
  isSome turn := by
    obtain ⟨n, isElse⟩ := turn
    cases n with
    | zero => exact hisSome isElse
    | succ n =>
      rw [branchAt?_cons_succ, branchAt?_cons_succ]
      exact h.isSome _
  related turn branch branch' hbranch hbranch' := by
    obtain ⟨n, isElse⟩ := turn
    cases n with
    | zero => exact hrelated isElse branch branch' hbranch hbranch'
    | succ n =>
      rw [branchAt?_cons_succ] at hbranch hbranch'
      exact h.related _ branch branch' hbranch hbranch'

/-- A branch of the one list has a counterpart in the other. -/
theorem exists_input (h : Correspond related inputs outputs) {turn : Turn} {output : FieldSet}
    (houtput : branchAt? outputs turn = some output) :
    ∃ input, branchAt? inputs turn = some input ∧ related input output := by
  have hisSome := h.isSome turn
  rw [houtput, Option.isSome_some] at hisSome
  obtain ⟨input, hinput⟩ := Option.isSome_iff_exists.1 hisSome.symm
  exact ⟨input, hinput, h.related turn input output hinput houtput⟩

/-- Where there is a branch before, there is one after, and both are related. -/
theorem exists_output (h : Correspond related inputs outputs) {turn : Turn} {input : FieldSet}
    (hinput : branchAt? inputs turn = some input) :
    ∃ output, branchAt? outputs turn = some output ∧ related input output := by
  have hisSome := h.isSome turn
  rw [hinput, Option.isSome_some] at hisSome
  obtain ⟨output, houtput⟩ := Option.isSome_iff_exists.1 hisSome
  exact ⟨output, houtput, h.related turn input output hinput houtput⟩

end Correspond

theorem eq_nil_of_isSome {outputs : List Conditional}
    (h : ∀ turn, (branchAt? outputs turn).isSome = (branchAt? [] turn).isSome) : outputs = [] := by
  cases outputs with
  | nil => rfl
  | cons output outputs =>
    have hisSome := h (0, false)
    rw [branchAt?_nil] at hisSome
    cases hisSome

end Conditional

theorem FieldSet.conditionals_withInferred {fields : FieldSet} {modules : ModuleLists}
    {nested : List Conditional} (h : ∀ turn, (Conditional.branchAt? nested turn).isSome =
      (Conditional.branchAt? fields.conditionals turn).isSome) :
    (fields.withInferred modules nested).conditionals = nested := by
  rw [withInferred]
  split
  · next hempty =>
    rw [List.isEmpty_iff.1 hempty] at h
    rw [conditionals_withModules, List.isEmpty_iff.1 hempty, Conditional.eq_nil_of_isSome h]
  · exact conditionals_insert nested

/-- What inference makes of a branch, given what the scopes around it declare: its module lists are
inferred, and so are those of the branches in it. -/
inductive FieldSet.InfersTo (view : String → List String) :
    List String → FieldSet → FieldSet → Prop
  | mk {outer : List String} {fields : FieldSet} {modules : ModuleLists} {nested : List Conditional}
    (hmodules : fields.ModulesInferred view outer fields.conditionals
      (fields.texts? "other-modules" = none) none modules)
    (hisSome : ∀ turn, (Conditional.branchAt? nested turn).isSome =
      (Conditional.branchAt? fields.conditionals turn).isSome)
    (hnested : ∀ turn input output, Conditional.branchAt? fields.conditionals turn = some input →
      Conditional.branchAt? nested turn = some output →
        FieldSet.InfersTo view (outer ++ (fields.withModules modules).declared) input output) :
    FieldSet.InfersTo view outer fields (fields.withInferred modules nested)

namespace FieldSet.InfersTo

variable {view : String → List String} {outer : List String} {fields : FieldSet}
  {modules : ModuleLists}

/-- A scope without conditionals is inferred by itself. -/
theorem of_isEmpty (h : fields.conditionals.isEmpty)
    (hmodules : fields.ModulesInferred view outer fields.conditionals
      (fields.texts? "other-modules" = none) none modules) :
    fields.InfersTo view outer (fields.withModules modules) := by
  have hnil := List.isEmpty_iff.1 h
  have hnested : Conditional.Correspond
      (InfersTo view (outer ++ (fields.withModules modules).declared)) [] [] := .nil
  have hmk : fields.InfersTo view outer (fields.withInferred modules []) :=
    .mk hmodules (hnil ▸ hnested.isSome) (hnil ▸ hnested.related)
  rwa [withInferred, if_pos h] at hmk

/-- A scope with conditionals is inferred with what is inferred inside them. -/
theorem of_not_isEmpty (h : ¬fields.conditionals.isEmpty) {nested : List Conditional}
    (hmodules : fields.ModulesInferred view outer fields.conditionals
      (fields.texts? "other-modules" = none) none modules)
    (hnested : Conditional.Correspond
      (InfersTo view (outer ++ (fields.withModules modules).declared)) fields.conditionals nested) :
    fields.InfersTo view outer ((fields.withModules modules).insert "when" (.conditionals nested)) := by
  have hmk := InfersTo.mk hmodules hnested.isSome hnested.related
  rwa [withInferred, if_neg h] at hmk

end FieldSet.InfersTo

section

variable {lister : Lister} {view : String → List String}

mutual

/-- A branch is inferred as the relation says, by induction on its depth. -/
theorem FieldSet.meets_inferBranch (outer : List String) (fields : FieldSet) :
    Meets lister view (fields.InfersTo view outer) (fields.inferBranch lister outer) := by
  rw [FieldSet.inferBranch_eq]
  refine (fields.meets_inferOther outer).bind fun other hother ↦ ?_
  have hmodules := FieldSet.modulesInferred_branch hother
  rw [FieldSet.inferNested]
  split
  · next hempty => exact .pure (.of_isEmpty hempty hmodules)
  · next hempty =>
    refine (Conditional.meets_inferAll _ fields.conditionals).bind fun nested hnested ↦ .pure ?_
    exact .of_not_isEmpty hempty hmodules hnested
termination_by sizeOf fields
decreasing_by all_goals exact fields.sizeOf_conditionals_lt

/-- So are the branches of a list of conditionals, each one with those that are nested in it. -/
theorem Conditional.meets_inferAll (outer : List String) (conditionals : List Conditional) :
    Meets lister view (Conditional.Correspond (FieldSet.InfersTo view outer) conditionals)
      (Conditional.inferAll lister outer conditionals) := by
  match conditionals with
  | [] =>
    rw [Conditional.inferAll]
    exact .pure .nil
  | ⟨condition, thenFields, none⟩ :: rest =>
    rw [Conditional.inferAll]
    refine (FieldSet.meets_inferBranch outer thenFields).bind fun thenResult hthen ↦ ?_
    refine (Conditional.meets_inferAll outer rest).bind fun restResult hrest ↦ .pure ?_
    refine .cons (fun isElse ↦ ?_) (fun isElse branch branch' hbranch hbranch' ↦ ?_) hrest
    · cases isElse <;> rfl
    · cases isElse with
      | false =>
        cases hbranch
        cases hbranch'
        exact hthen
      | true => cases hbranch
  | ⟨condition, thenFields, some elseFields⟩ :: rest =>
    rw [Conditional.inferAll]
    refine (FieldSet.meets_inferBranch outer thenFields).bind fun thenResult hthen ↦ ?_
    refine (FieldSet.meets_inferBranch outer elseFields).bind fun elseResult helse ↦ ?_
    refine (Conditional.meets_inferAll outer rest).bind fun restResult hrest ↦ .pure ?_
    refine .cons (fun isElse ↦ ?_) (fun isElse branch branch' hbranch hbranch' ↦ ?_) hrest
    · cases isElse <;> rfl
    · cases isElse with
      | false =>
        cases hbranch
        cases hbranch'
        exact hthen
      | true =>
        cases hbranch
        cases hbranch'
        exact helse
termination_by sizeOf conditionals

end

end

/-! ### Sections -/

/-- Whether a section infers the modules that are found under its source directories. -/
def Section.infersModules (part : Section) : Bool :=
  (part.kind.exposesModules && (part.fields.texts? "exposed-modules").isNone) ||
    (part.fields.texts? "other-modules").isNone

/-- What inference makes of a section of a package. -/
inductive Section.InfersTo (view : String → List String) (package : String) :
    Section → Section → Prop
  | mk {part : Section} {modules : ModuleLists} {nested : List Conditional}
    (hmodules : part.fields.ModulesInferred view [] part.conditionals part.infersModules
      (some (ModuleName.pathsModule package)) modules)
    (hnested : Conditional.Correspond
      (FieldSet.InfersTo view (part.fields.withModules modules).declared) part.conditionals nested) :
    Section.InfersTo view package part
      { part with fields := part.fields.withModules modules, conditionals := nested }

/-- A section that lists modules is inferred as the relation says. -/
theorem Section.meets_infer {lister : Lister} {view : String → List String} {package : String}
    {part : Section} (hkind : part.kind ≠ .customSetup)
    (hexposes : part.kind.exposesModules = false →
      part.fields.texts? "exposed-modules" = none ∧ part.fields.generated.1 = []) :
    Meets lister view (part.InfersTo view package) (part.infer lister package) := by
  rw [Section.infer, Section.inferWith, if_neg hkind]
  refine (CabalManifest.meets_infer hexposes).bind fun modules hmodules ↦ ?_
  refine (Conditional.meets_inferAll _ part.conditionals).bind fun nested hnested ↦ .pure ?_
  exact .mk hmodules hnested

/-! ### Roots -/

/-- What inference makes of a scope with some conditionals, be it a section or a branch. -/
structure InfersRoot (view : String → List String) (outer : List String) (applies : Prop)
    (extra : Option String) (root : FieldSet) (conditionals : List Conditional)
    (result : FieldSet) (nested : List Conditional) : Prop where
  modules : root.ModulesInferred view outer conditionals applies extra result.modules
  main : result.mainModule? = root.mainModule?
  declared : ∀ m, m ∈ result.declared ↔ m ∈ result.modules.stated ∨ result.mainModule? = some m
  nested : Conditional.Correspond (FieldSet.InfersTo view (outer ++ result.declared)) conditionals
    nested

variable {view : String → List String}

/-- After inference a scope declares the modules that it states, and the main one. -/
theorem FieldSet.mem_declared_withModules {fields : FieldSet} {modules : ModuleLists}
    (h : fields.get? "autogen-modules" = none) {m : String} :
    m ∈ (fields.withModules modules).declared ↔ m ∈ (fields.withModules modules).modules.stated ∨
      (fields.withModules modules).mainModule? = some m := by
  rw [mem_declared, mem_listed_withModules, modules_withModules h]

theorem FieldSet.declared_withInferred {fields : FieldSet} {modules : ModuleLists}
    {nested : List Conditional} :
    (fields.withInferred modules nested).declared = (fields.withModules modules).declared := by
  have htexts : ∀ key ∈ Field.moduleLists, (fields.withInferred modules nested).texts key =
      (fields.withModules modules).texts key := fun key hkey ↦
    texts_congr (get?_withInferred fun hwhen ↦ absurd (hwhen ▸ hkey) (by decide))
  rw [declared, declared, text?_congr (get?_withInferred (by decide)),
    List.flatMap_congr htexts]

/-- The root of a section infers its modules with nothing declared outside of it. -/
theorem Section.InfersTo.root {package : String} {part result : Section}
    (h : part.InfersTo view package result) (hplain : part.fields.get? "autogen-modules" = none) :
    InfersRoot view [] part.infersModules (some (ModuleName.pathsModule package)) part.fields
      part.conditionals result.fields result.conditionals := by
  cases h with
  | mk hmodules hnested =>
    refine ⟨?_, FieldSet.mainModule?_withModules, fun m ↦ ?_, hnested⟩
    · rw [FieldSet.modules_withModules hplain]
      exact hmodules
    · exact FieldSet.mem_declared_withModules hplain

/-- A branch infers its modules with those declared that are declared around it. -/
theorem FieldSet.InfersTo.root {outer : List String} {fields result : FieldSet}
    (h : fields.InfersTo view outer result) (hplain : fields.get? "autogen-modules" = none) :
    InfersRoot view outer (fields.texts? "other-modules" = none) none fields fields.conditionals
      result result.conditionals := by
  cases h with
  | mk hmodules hisSome hnested =>
    refine ⟨?_, mainModule?_withInferred, fun m ↦ ?_, ?_⟩
    · rw [modules_withInferred hplain]
      exact hmodules
    · rw [declared_withInferred, mem_declared_withModules hplain, modules_withModules hplain,
        modules_withInferred hplain, mainModule?_withInferred, mainModule?_withModules]
    · rw [conditionals_withInferred hisSome, declared_withInferred]
      exact ⟨hisSome, hnested⟩

end CabalManifest
