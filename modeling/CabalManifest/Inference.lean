import CabalManifest.Discovery
import CabalManifest.Package

/-!
# Module inference

Fills in the module lists that nobody wrote. Modules are found under the source directories of a
section; a module is *claimed*, and never inferred, if the section declares it, if its conditionals
name it anywhere, or if it is found under a source directory of a conditional branch.

In a section that exposes modules, unclaimed modules become exposed, or other modules if only the
exposed ones are given; with both given nothing is inferred. Other sections, and conditional branches
with source directories of their own, only infer other modules. The module with the package's paths
joins the other modules wherever they are inferred in a section.
-/

namespace CabalManifest

open Discovery

variable {m : Type → Type} [Monad m]

/-! ### Claimed modules -/

/-- The modules that a scope names itself, as members of a list or as its main file. -/
def FieldSet.declared (fields : FieldSet) : List String :=
  Field.moduleLists.flatMap fields.texts ++ ((fields.text? "main").bind ModuleName.ofMain?).toList

mutual

/-- The modules that a scope or its conditionals name. -/
def FieldSet.mentioned (fields : FieldSet) : List String :=
  fields.declared ++ Conditional.mentionedIn fields.conditionals
termination_by sizeOf fields
decreasing_by exact fields.sizeOf_conditionals_lt

/-- The modules that some conditionals name, at any depth. -/
def Conditional.mentionedIn : List Conditional → List String
  | [] => []
  | ⟨_, thenFields, none⟩ :: rest => thenFields.mentioned ++ Conditional.mentionedIn rest
  | ⟨_, thenFields, some elseFields⟩ :: rest =>
    thenFields.mentioned ++ elseFields.mentioned ++ Conditional.mentionedIn rest
termination_by conditionals => sizeOf conditionals

end

mutual

/-- The modules found under the source directories of a branch and of the branches in it. -/
def FieldSet.foundInside (lister : Listing m) (fields : FieldSet) : Finding m (List String) := do
  let own ← discover lister (fields.texts "source-dirs")
  return own ++ (← Conditional.foundIn lister fields.conditionals)
termination_by sizeOf fields
decreasing_by exact fields.sizeOf_conditionals_lt

/-- The modules found under the source directories of the branches of some conditionals. -/
def Conditional.foundIn (lister : Listing m) : List Conditional → Finding m (List String)
  | [] => return []
  | ⟨_, thenFields, none⟩ :: rest => do
    let inThen ← thenFields.foundInside lister
    return inThen ++ (← Conditional.foundIn lister rest)
  | ⟨_, thenFields, some elseFields⟩ :: rest => do
    let inThen ← thenFields.foundInside lister
    let inElse ← elseFields.foundInside lister
    return inThen ++ inElse ++ (← Conditional.foundIn lister rest)
termination_by conditionals => sizeOf conditionals

end

/-- The modules that a scope claims, together with those that the scopes around it claim. -/
def claimed (lister : Listing m) (outer : List String) (fields : FieldSet)
    (conditionals : List Conditional) : Finding m (List String) := do
  let found ← Conditional.foundIn lister conditionals
  return outer ++ fields.declared ++ Conditional.mentionedIn conditionals ++ found

/-- The unclaimed modules under some source directories. -/
def unclaimed (lister : Listing m) (dirs claimed : List String) : Finding m (List String) := do
  return (← discover lister dirs).filter fun m ↦ !claimed.contains m

/-! ### Module lists -/

/-- The module lists of a scope. -/
structure ModuleLists where
  exposed : List String
  other : List String
  autogen : List String
  deriving DecidableEq, Repr

/-- The modules that are generated before a scope is built. -/
def FieldSet.generated (fields : FieldSet) : List String × List String :=
  (fields.texts "generated-exposed-modules", fields.texts "generated-other-modules")

/-- Puts module lists in the place of those of a scope; an empty list is left out. -/
def FieldSet.withModules (fields : FieldSet) (modules : ModuleLists) : FieldSet :=
  let kept := fields.filterKeys fun key ↦ !Field.moduleLists.contains key
  [("exposed-modules", modules.exposed), ("other-modules", modules.other),
      ("autogen-modules", modules.autogen)].foldl
    (fun fields (key, items) ↦ if items.isEmpty then fields else fields.insert key (.texts items))
    kept

/-- The final module lists of a section with some source directories. -/
def infer (lister : Listing m) (dirs : List String) (fields : FieldSet)
    (conditionals : List Conditional) (exposes : Bool) (pathsModule : Option String) :
    Finding m ModuleLists := do
  let exposedGiven := fields.texts? "exposed-modules"
  let otherGiven := fields.texts? "other-modules"
  let (generatedExposed, generatedOther) := fields.generated
  let (inferred, paths) ←
    if (exposes && exposedGiven.isNone) || otherGiven.isNone then do
      let claimed ← claimed lister [] fields conditionals
      let inferred ← unclaimed lister dirs claimed
      let isNew (m : String) : Bool := m != "" && !claimed.contains m && !inferred.contains m
      pure (inferred, pathsModule.toList.filter isNew)
    else pure ([], [])
  let exposed := if exposes && exposedGiven.isNone then inferred else exposedGiven.getD []
  let other := match otherGiven with
    | some other => other
    | none => if exposes && exposedGiven.isNone then paths else inferred ++ paths
  return {
    exposed := if exposes then exposed ++ generatedExposed else []
    other := other ++ generatedOther
    autogen := generatedExposed ++ generatedOther }

/-! ### Branches -/

mutual

/-- Inference inside a conditional branch, given the modules claimed by the scopes around it. -/
def FieldSet.inferBranch (lister : Listing m) (outer : List String) (fields : FieldSet) :
    Finding m FieldSet := do
  let dirs := fields.texts "source-dirs"
  let (generatedExposed, generatedOther) := fields.generated
  let other ← match fields.texts? "other-modules" with
    | some other => pure other
    | none =>
      if dirs.isEmpty then pure []
      else do unclaimed lister dirs (← claimed lister outer fields fields.conditionals)
  let result := fields.withModules {
    exposed := fields.texts "exposed-modules" ++ generatedExposed
    other := other ++ generatedOther
    autogen := generatedExposed ++ generatedOther }
  if fields.conditionals.isEmpty then return result
  let nested ← Conditional.inferAll lister (outer ++ result.declared) fields.conditionals
  return result.insert "when" (.conditionals nested)
termination_by sizeOf fields
decreasing_by exact fields.sizeOf_conditionals_lt

/-- Inference inside the branches of some conditionals. -/
def Conditional.inferAll (lister : Listing m) (outer : List String) :
    List Conditional → Finding m (List Conditional)
  | [] => return []
  | ⟨condition, thenFields, none⟩ :: rest => do
    let thenFields ← thenFields.inferBranch lister outer
    return ⟨condition, thenFields, none⟩ :: (← Conditional.inferAll lister outer rest)
  | ⟨condition, thenFields, some elseFields⟩ :: rest => do
    let thenFields ← thenFields.inferBranch lister outer
    let elseFields ← elseFields.inferBranch lister outer
    return ⟨condition, thenFields, some elseFields⟩ :: (← Conditional.inferAll lister outer rest)
termination_by conditionals => sizeOf conditionals

end

/-! ### Sections and packages -/

/-- Inference in a section of a package, with any lister. The setup program has no modules. -/
def Section.inferWith (lister : Listing m) (package : String) (part : Section) :
    Finding m Section := do
  if part.kind = .customSetup then return part
  let modules ← CabalManifest.infer lister (part.fields.texts "source-dirs") part.fields
    part.conditionals part.kind.exposesModules (some (ModuleName.pathsModule package))
  let fields := part.fields.withModules modules
  let conditionals ← Conditional.inferAll lister fields.declared part.conditionals
  return { part with fields := fields, conditionals := conditionals }

/-- Inference in all sections of a package, with any lister. -/
def Package.inferWith (lister : Listing m) (package : Package) : Finding m Package := do
  let sections ← package.sections.mapM (Section.inferWith lister package.name)
  return { package with sections := sections }

/-- Inference in a section of a package. -/
def Section.infer (lister : Lister) (package : String) (part : Section) : Finder Section :=
  part.inferWith lister package

/-- Inference in all sections of a package. -/
def Package.infer (lister : Lister) (package : Package) : Finder Package :=
  package.inferWith lister

end CabalManifest
