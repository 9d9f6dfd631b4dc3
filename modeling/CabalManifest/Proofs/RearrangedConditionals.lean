import CabalManifest.Proofs.SharedDiscovery
import Mathlib.Data.List.FinRange
import Mathlib.Data.List.OfFn
import Mathlib.Logic.Equiv.Fin.Basic

/-!
# Rearranged conditionals

The conditionals of a scope may stand in any order, and a conditional with two branches may have them
exchanged. A `Rearrangement` does so at all depths at once. Inference does not tell the difference: it
makes of a section that is rearranged what it makes of the section, rearranged in the same way
(`Section.inferWith_rearrange`). A rearranged section asks for the same source directories, in another
order perhaps; what it finds in them is claimed by the same scopes.
-/

namespace CabalManifest

/-! ### Other conditionals in a scope -/

/-- Changes the value of a field, if it holds the conditionals of a scope. -/
def FieldValue.mapConditionals (f : List Conditional → List Conditional) (key : String) :
    FieldValue → FieldValue
  | .conditionals items => .conditionals (if key = "when" then f items else items)
  | value => value

/-- Changes the conditionals of a scope where they stand. -/
def FieldSet.mapConditionals (f : List Conditional → List Conditional) (fields : FieldSet) : FieldSet :=
  ⟨fields.entries.map fun entry ↦ (entry.1, entry.2.mapConditionals f entry.1)⟩

theorem Entries.map_insert {α : Type} (g : String → α → α) (entries : Entries α) (key : String)
    (value : α) :
    (entries.insert key value).map (fun entry ↦ (entry.1, g entry.1 entry.2)) =
      Entries.insert (entries.map fun entry ↦ (entry.1, g entry.1 entry.2)) key (g key value) := by
  induction entries with
  | nil => rfl
  | cons entry rest ih =>
    rw [insert, List.map_cons, insert]
    split
    · next h => rw [List.map_cons, h]
    · rw [List.map_cons, ih]

theorem Entries.get?_map {α : Type} (g : String → α → α) (entries : Entries α) (key : String) :
    Entries.get? (entries.map fun entry ↦ (entry.1, g entry.1 entry.2)) key =
      (entries.get? key).map (g key) := by
  induction entries with
  | nil => rfl
  | cons entry rest ih =>
    rw [List.map_cons, get?_cons, get?_cons, ih]
    split
    · next h => rw [h, Option.map_some]
    · rfl

namespace FieldSet

variable (f : List Conditional → List Conditional) (fields : FieldSet)

/-- Only the conditionals of a scope are changed. -/
theorem get?_mapConditionals (key : String) :
    (fields.mapConditionals f).get? key =
      (fields.get? key).map (FieldValue.mapConditionals f key) :=
  Entries.get?_map (FieldValue.mapConditionals f) _ key

@[simp]
theorem texts?_mapConditionals (key : String) :
    (fields.mapConditionals f).texts? key = fields.texts? key := by
  rw [texts?, texts?, get?_mapConditionals]
  rcases fields.get? key with - | value
  · rfl
  · cases value <;> rfl

@[simp]
theorem text?_mapConditionals (key : String) :
    (fields.mapConditionals f).text? key = fields.text? key := by
  rw [text?, text?, get?_mapConditionals]
  rcases fields.get? key with - | value
  · rfl
  · cases value <;> rfl

@[simp]
theorem texts_mapConditionals (key : String) :
    (fields.mapConditionals f).texts key = fields.texts key := by
  rw [texts, texts, texts?_mapConditionals]

@[simp]
theorem declared_mapConditionals : (fields.mapConditionals f).declared = fields.declared := by
  simp [declared, Field.moduleLists]

@[simp]
theorem generated_mapConditionals : (fields.mapConditionals f).generated = fields.generated := by
  simp [generated]

variable {f}

/-- The conditionals of a scope are those that it is given. -/
theorem conditionals_mapConditionals (hnil : f [] = []) :
    (fields.mapConditionals f).conditionals = f fields.conditionals := by
  rw [conditionals, conditionals, get?_mapConditionals]
  rcases fields.get? "when" with - | value
  · exact hnil.symm
  · cases value <;> first | rfl | exact hnil.symm

variable (f)

/-- Putting texts into a scope does not touch its conditionals. -/
theorem mapConditionals_insert_texts (key : String) (items : List String) :
    (fields.insert key (.texts items)).mapConditionals f =
      (fields.mapConditionals f).insert key (.texts items) :=
  congrArg FieldSet.mk (Entries.map_insert (FieldValue.mapConditionals f) ..)

/-- Conditionals that are put into a scope are changed like those that were there. -/
theorem mapConditionals_insert_when (items : List Conditional) :
    (fields.insert "when" (.conditionals items)).mapConditionals f =
      (fields.mapConditionals f).insert "when" (.conditionals (f items)) :=
  congrArg FieldSet.mk (Entries.map_insert (FieldValue.mapConditionals f) ..)

/-- Leaving out fields does not touch the conditionals that stay. -/
theorem mapConditionals_filterKeys (p : String → Bool) :
    (fields.filterKeys p).mapConditionals f = (fields.mapConditionals f).filterKeys p := by
  simp only [filterKeys, mapConditionals, List.filter_map]
  rfl

theorem mapConditionals_putTexts (key : String) (items : List String) :
    (fields.putTexts key items).mapConditionals f =
      (fields.mapConditionals f).putTexts key items := by
  rw [putTexts, putTexts]
  split
  · rfl
  · exact mapConditionals_insert_texts f fields key items

/-- Module lists are put into a scope whatever its conditionals are. -/
theorem mapConditionals_withModules (modules : ModuleLists) :
    (fields.withModules modules).mapConditionals f =
      (fields.mapConditionals f).withModules modules := by
  simp only [withModules_eq, mapConditionals_putTexts, mapConditionals_filterKeys]

end FieldSet

/-! ### Rearrangements -/

/-- A way to rearrange conditionals: in which order they stand, which of them have their branches
exchanged, and how the conditionals in each of their branches are rearranged. Conditionals and
branches are told by the places where they stood. -/
inductive Rearrangement where
  | keep
  | change (order : (n : Nat) → Equiv.Perm (Fin n)) (exchanges : Nat → Bool)
      (inside : Turn → Rearrangement)

/-- A conditional with other branches, which are exchanged if there are two and if wanted. -/
def Conditional.moved (exchanges : Bool) (f : Bool → FieldSet → FieldSet) :
    Conditional → Conditional
  | ⟨condition, thenFields, none⟩ => ⟨condition, f false thenFields, none⟩
  | ⟨condition, thenFields, some elseFields⟩ =>
    if exchanges then ⟨condition, f true elseFields, some (f false thenFields)⟩
    else ⟨condition, f false thenFields, some (f true elseFields)⟩

namespace Rearrangement

/-- Rearranges conditionals. -/
def conditionals : Rearrangement → List Conditional → List Conditional
  | keep, given => given
  | change order exchanges inside, given =>
    List.ofFn fun i : Fin given.length ↦
      let place := order given.length i
      (given.get place).moved (exchanges place) fun isElse ↦
        FieldSet.mapConditionals (inside (place, isElse)).conditionals

/-- Rearranges the conditionals of a scope. -/
def scope (r : Rearrangement) : FieldSet → FieldSet := FieldSet.mapConditionals r.conditionals

end Rearrangement

/-- Rearranges the conditionals of a section. -/
def Section.rearrange (r : Rearrangement) (part : Section) : Section :=
  { part with conditionals := r.conditionals part.conditionals }

namespace Rearrangement

theorem conditionals_nil (r : Rearrangement) : r.conditionals [] = [] := by
  cases r <;> rfl

/-- The conditional at each place comes from where the order says, with its branches moved. -/
theorem conditionals_change {order : (n : Nat) → Equiv.Perm (Fin n)} {exchanges : Nat → Bool}
    {inside : Turn → Rearrangement} {given : List Conditional} {n : Nat} (h : given.length = n) :
    (change order exchanges inside).conditionals given = List.ofFn fun i : Fin n ↦
      (given.get ((order n i).cast h.symm)).moved (exchanges (order n i)) fun isElse ↦
        (inside (order n i, isElse)).scope := by
  subst h
  rfl

theorem conditionals_scope (r : Rearrangement) (fields : FieldSet) :
    (r.scope fields).conditionals = r.conditionals fields.conditionals :=
  fields.conditionals_mapConditionals r.conditionals_nil

/-- A rearrangement leaves no conditional out, and adds none. -/
theorem isEmpty_conditionals (r : Rearrangement) (given : List Conditional) :
    (r.conditionals given).isEmpty = given.isEmpty := by
  have hlength : (r.conditionals given).length = given.length := by
    cases r with
    | keep => rfl
    | change => rw [conditionals, List.length_ofFn]
  rw [Bool.eq_iff_iff, List.isEmpty_iff_length_eq_zero, List.isEmpty_iff_length_eq_zero, hlength]

end Rearrangement

/-! ### What rearranging keeps -/

/-- What the branches of some conditionals give, branch by branch. -/
def Conditional.gathered (gives : FieldSet → List String) (conditionals : List Conditional) :
    List String :=
  conditionals.flatMap fun conditional ↦ conditional.branches.flatMap gives

namespace Conditional

/-- The modules that conditionals mention are gathered from their branches. -/
theorem mentionedIn_eq_gathered (conditionals : List Conditional) :
    mentionedIn conditionals = gathered FieldSet.mentioned conditionals := by
  induction conditionals with
  | nil => rw [mentionedIn, gathered, List.flatMap_nil]
  | cons conditional rest ih =>
    obtain ⟨condition, thenFields, - | elseFields⟩ := conditional <;>
      simp [mentionedIn, ih, gathered, branches]

/-- So are the directories. -/
theorem dirsIn_eq_gathered (conditionals : List Conditional) :
    dirsIn conditionals = gathered FieldSet.dirsInside conditionals := by
  induction conditionals with
  | nil => rw [dirsIn, gathered, List.flatMap_nil]
  | cons conditional rest ih =>
    obtain ⟨condition, thenFields, - | elseFields⟩ := conditional <;>
      simp [dirsIn, ih, gathered, branches]

/-- So are the directories that are asked for. -/
theorem askedIn_eq_gathered (conditionals : List Conditional) :
    askedIn conditionals = gathered FieldSet.askedInside conditionals := by
  induction conditionals with
  | nil => rw [askedIn, gathered, List.flatMap_nil]
  | cons conditional rest ih =>
    obtain ⟨condition, thenFields, - | elseFields⟩ := conditional <;>
      simp [askedIn, ih, gathered, branches]

/-- What is gathered from both branches does not depend on which one is first. -/
theorem flatMap_branches_moved_perm {gives : FieldSet → List String} {f : Bool → FieldSet → FieldSet}
    (h : ∀ isElse fields, (gives (f isElse fields)).Perm (gives fields)) (exchanges : Bool)
    (conditional : Conditional) :
    ((conditional.moved exchanges f).branches.flatMap gives).Perm
      (conditional.branches.flatMap gives) := by
  obtain ⟨condition, thenFields, - | elseFields⟩ := conditional
  · simpa [moved, branches] using h false thenFields
  · cases exchanges with
    | false => simpa [moved, branches] using (h false thenFields).append (h true elseFields)
    | true =>
      simpa [moved, branches] using
        ((h true elseFields).append (h false thenFields)).trans List.perm_append_comm

end Conditional

open Conditional (gathered mentionedIn dirsIn askedIn)
open scoped List

namespace Rearrangement

variable (r : Rearrangement)

/-- What is gathered from rearranged conditionals is what is gathered from them, if that is so of every
scope whose conditionals are rearranged. -/
theorem gathered_perm {gives : FieldSet → List String}
    (h : ∀ (r : Rearrangement) (fields : FieldSet),
      (gathered gives (r.conditionals fields.conditionals)).Perm (gathered gives fields.conditionals) →
        (gives (r.scope fields)).Perm (gives fields)) (given : List Conditional) :
    (gathered gives (r.conditionals given)).Perm (gathered gives given) := by
  induction r generalizing given with
  | keep => exact .refl _
  | change order exchanges inside ih =>
    have hmoved (place : Fin given.length) := Conditional.flatMap_branches_moved_perm
      (fun isElse fields ↦ h (inside (place, isElse)) fields (ih _ fields.conditionals))
      (exchanges place) (given.get place)
    calc
      gathered gives ((change order exchanges inside).conditionals given)
      _ = (List.finRange given.length).flatMap fun i ↦
            (((given.get (order given.length i)).moved (exchanges (order given.length i))
              fun isElse ↦ (inside (order given.length i, isElse)).scope).branches).flatMap gives := by
        rw [gathered, conditionals, List.ofFn_eq_map, List.flatMap_map]
        rfl
      _ ~ (List.finRange given.length).flatMap fun i ↦
            (given.get (order given.length i)).branches.flatMap gives :=
        .flatMap_left _ fun i _ ↦ hmoved (order given.length i)
      _ = gathered gives (List.ofFn (given.get ∘ order given.length)) := by
        rw [gathered, List.ofFn_eq_map, List.flatMap_map]
        rfl
      _ ~ gathered gives (List.ofFn given.get) :=
        ((order given.length).ofFn_comp_perm given.get).flatMap_right _
      _ = gathered gives given := by rw [List.ofFn_get]

/-- Rearranged conditionals mention the same modules. -/
theorem mentionedIn_perm (given : List Conditional) :
    (mentionedIn (r.conditionals given)).Perm (mentionedIn given) := by
  rw [Conditional.mentionedIn_eq_gathered, Conditional.mentionedIn_eq_gathered]
  refine r.gathered_perm (fun r fields h ↦ ?_) given
  rw [FieldSet.mentioned, FieldSet.mentioned, conditionals_scope,
    Conditional.mentionedIn_eq_gathered, Conditional.mentionedIn_eq_gathered, Rearrangement.scope,
    FieldSet.declared_mapConditionals]
  exact h.append_left _

/-- Rearranged conditionals have the same directories. -/
theorem dirsIn_perm (given : List Conditional) :
    (dirsIn (r.conditionals given)).Perm (dirsIn given) := by
  rw [Conditional.dirsIn_eq_gathered, Conditional.dirsIn_eq_gathered]
  refine r.gathered_perm (fun r fields h ↦ ?_) given
  rw [FieldSet.dirsInside, FieldSet.dirsInside, conditionals_scope,
    Conditional.dirsIn_eq_gathered, Conditional.dirsIn_eq_gathered, Rearrangement.scope,
    FieldSet.texts_mapConditionals]
  exact h.append_left _

/-- Rearranged conditionals ask for the same directories. -/
theorem askedIn_perm (given : List Conditional) :
    (askedIn (r.conditionals given)).Perm (askedIn given) := by
  rw [Conditional.askedIn_eq_gathered, Conditional.askedIn_eq_gathered]
  refine r.gathered_perm (fun r fields h ↦ ?_) given
  rw [FieldSet.askedInside, FieldSet.askedInside, conditionals_scope,
    Conditional.askedIn_eq_gathered, Conditional.askedIn_eq_gathered, Rearrangement.scope,
    FieldSet.texts_mapConditionals, FieldSet.texts?_mapConditionals]
  refine .append ?_ h
  split
  · exact (r.dirsIn_perm fields.conditionals).append_right _
  · exact .refl _

end Rearrangement

open Discovery

variable {files : String → Option (List String)} {m : Type → Type} [Monad m] [LawfulMonad m]
  {call : String → m Unit}

/-! ### What a scope claims -/

omit [LawfulMonad m] in
/-- Only the members of a list of claims matter. -/
theorem unclaimed_congr_claims {lister : Listing m} (dirs : List String) {claimed claimed' : List String}
    (h : ∀ item, claimed'.contains item = claimed.contains item) :
    unclaimed lister dirs claimed' = unclaimed lister dirs claimed := by
  simp only [unclaimed, h]

namespace Rearrangement

variable (r : Rearrangement)

/-- A scope claims the same modules with its conditionals rearranged, and so nothing changes that comes
of its claims. -/
theorem exists_asks_claimed (outer : List String) {fields fields' : FieldSet}
    (hfields : fields'.declared = fields.declared) (given : List Conditional) {α : Type}
    {dirs : List String} {next : List String → Finding m α}
    (hnext : ∀ claims, AsksFor files call dirs (next claims))
    (hcongr : ∀ claims claims', (∀ item, claims'.contains item = claims.contains item) →
      next claims' = next claims) :
    ∃ item, Asks files call (dirsIn given ++ dirs) item
        (claimed (lists files call) outer fields given >>= next) ∧
      Asks files call (dirsIn (r.conditionals given) ++ dirs) item
        (claimed (lists files call) outer fields' (r.conditionals given) >>= next) := by
  obtain ⟨found, hfound, hmem⟩ := Conditional.exists_asks_foundIn files call given
  obtain ⟨found', hfound', hmem'⟩ :=
    Conditional.exists_asks_foundIn files call (r.conditionals given)
  obtain ⟨item, hitem⟩ := hnext (outer ++ fields.declared ++ mentionedIn given ++ found)
  refine ⟨item, (hfound.map _).bind hitem, (hfound'.map _).bind ?_⟩
  rw [hcongr (outer ++ fields.declared ++ mentionedIn given ++ found)]
  · exact hitem
  · intro claim
    rw [List.contains_eq_mem, List.contains_eq_mem, decide_eq_decide]
    simp only [List.mem_append, hmem, hmem', mem_under, (r.dirsIn_perm given).mem_iff,
      (r.mentionedIn_perm given).mem_iff, hfields]

end Rearrangement

/-! ### What is inferred in branches -/

/-- Inference in the branches of a conditional. -/
def Conditional.inferBranches (lister : Listing m) (outer : List String) :
    Conditional → Finding m Conditional
  | ⟨condition, thenFields, none⟩ => do
    return ⟨condition, ← thenFields.inferBranch lister outer, none⟩
  | ⟨condition, thenFields, some elseFields⟩ => do
    let thenFields ← thenFields.inferBranch lister outer
    return ⟨condition, thenFields, some (← elseFields.inferBranch lister outer)⟩

theorem Conditional.inferAll_eq_mapM (lister : Listing m) (outer : List String)
    (conditionals : List Conditional) :
    inferAll lister outer conditionals = conditionals.mapM (inferBranches lister outer) := by
  induction conditionals with
  | nil => rw [inferAll, List.mapM_nil]
  | cons conditional rest ih =>
    obtain ⟨condition, thenFields, - | elseFields⟩ := conditional <;>
      simp [inferAll, ih, inferBranches]

/-- What the branches of a conditional ask for. -/
def Conditional.asked (conditional : Conditional) : List String :=
  conditional.branches.flatMap FieldSet.askedInside

namespace Conditional

variable {outer : List String} {thenFields thenResult elseFields elseResult : FieldSet}
  (condition : String)

/-- A conditional with one branch asks for what the branch asks for. -/
theorem asks_inferBranches_none (hthen : Asks files call thenFields.askedInside thenResult
    (thenFields.inferBranch (lists files call) outer)) :
    Asks files call (asked ⟨condition, thenFields, none⟩) ⟨condition, thenResult, none⟩
      (inferBranches (lists files call) outer ⟨condition, thenFields, none⟩) := by
  rw [asked, branches, Option.toList_none, List.flatMap_singleton]
  exact hthen.map _

/-- A conditional with two branches asks for what the first asks for, and then for what the second
does. -/
theorem asks_inferBranches_some
    (hthen : Asks files call thenFields.askedInside thenResult
      (thenFields.inferBranch (lists files call) outer))
    (helse : Asks files call elseFields.askedInside elseResult
      (elseFields.inferBranch (lists files call) outer)) :
    Asks files call (asked ⟨condition, thenFields, some elseFields⟩)
      ⟨condition, thenResult, some elseResult⟩
      (inferBranches (lists files call) outer ⟨condition, thenFields, some elseFields⟩) := by
  rw [asked, branches, Option.toList_some, List.flatMap_cons, List.flatMap_singleton]
  exact hthen.bind (helse.map _)

end Conditional

namespace Rearrangement

variable (r : Rearrangement)

theorem withOther_scope (fields : FieldSet) (other : List String) :
    (r.scope fields).withOther other = r.scope (fields.withOther other) := by
  rw [FieldSet.withOther, FieldSet.withOther, scope, FieldSet.mapConditionals_withModules,
    FieldSet.texts_mapConditionals, FieldSet.generated_mapConditionals]

/-- What a scope finds by itself depends on what it declares, and not on the order of its
conditionals. -/
theorem exists_asks_inferOther (files : String → Option (List String)) (call : String → m Unit)
    (outer : List String) (fields : FieldSet) :
    ∃ other, Asks files call fields.askedFirst other
        (fields.inferOther (lists files call) outer) ∧
      Asks files call (r.scope fields).askedFirst other
        ((r.scope fields).inferOther (lists files call) outer) := by
  have htexts? : (r.scope fields).texts? "other-modules" = fields.texts? "other-modules" :=
    fields.texts?_mapConditionals ..
  have htexts : (r.scope fields).texts "source-dirs" = fields.texts "source-dirs" :=
    fields.texts_mapConditionals ..
  rw [FieldSet.askedFirst, FieldSet.askedFirst, FieldSet.inferOther, FieldSet.inferOther, htexts?,
    htexts, r.conditionals_scope]
  cases hgiven : fields.texts? "other-modules" with
  | some other => exact ⟨other, .pure other, .pure other⟩
  | none =>
    cases hdirs : (fields.texts "source-dirs").isEmpty with
    | true => exact ⟨[], .pure [], .pure []⟩
    | false =>
      exact r.exists_asks_claimed outer (fields.declared_mapConditionals r.conditionals)
        fields.conditionals (asksFor_unclaimed (fields.texts "source-dirs"))
        fun _ _ ↦ unclaimed_congr_claims (fields.texts "source-dirs")

/-- Whether a branch gets what it gets when its conditionals are rearranged, rearranged in the same
way. -/
def Keeps (files : String → Option (List String)) (call : String → m Unit) (outer : List String)
    (r : Rearrangement) (fields : FieldSet) : Prop :=
  ∃ result, Asks files call fields.askedInside result
      (fields.inferBranch (lists files call) outer) ∧
    Asks files call (r.scope fields).askedInside (r.scope result)
      ((r.scope fields).inferBranch (lists files call) outer)

/-- Whether some conditionals get what they get when they are rearranged, rearranged in the same
way. -/
def KeepsAll (files : String → Option (List String)) (call : String → m Unit) (outer : List String)
    (r : Rearrangement) (given : List Conditional) : Prop :=
  ∃ results, Asks files call (askedIn given) results
      (Conditional.inferAll (lists files call) outer given) ∧
    Asks files call (askedIn (r.conditionals given)) (r.conditionals results)
      (Conditional.inferAll (lists files call) outer (r.conditionals given))

variable {r}

/-- By induction on the rearrangement, nested scopes find what they found before, each in its new
place. -/
theorem exists_asks_inferNested {outer : List String} {given : List Conditional} {result : FieldSet}
    (h : KeepsAll files call (outer ++ result.declared) r given) :
    ∃ final, Asks files call (askedIn given) final
        (FieldSet.inferNested (lists files call) outer given result) ∧
      Asks files call (askedIn (r.conditionals given)) (r.scope final)
        (FieldSet.inferNested (lists files call) outer (r.conditionals given) (r.scope result)) := by
  have hdeclared : (r.scope result).declared = result.declared := result.declared_mapConditionals _
  rw [FieldSet.inferNested, FieldSet.inferNested, isEmpty_conditionals, hdeclared]
  split
  · next hempty =>
    rw [List.isEmpty_iff.1 hempty, conditionals_nil, Conditional.askedIn]
    exact ⟨result, .pure result, .pure _⟩
  · obtain ⟨nested, hnested, hnested'⟩ := h
    refine ⟨_, hnested.map fun nested ↦ result.insert "when" (.conditionals nested), ?_⟩
    rw [scope, FieldSet.mapConditionals_insert_when]
    exact hnested'.map fun nested ↦ (r.scope result).insert "when" (.conditionals nested)

/-- A branch keeps what its conditionals keep. -/
theorem Keeps.of_forall {outer : List String} {fields : FieldSet}
    (h : ∀ outer, KeepsAll files call outer r fields.conditionals) :
    Keeps files call outer r fields := by
  obtain ⟨other, hother, hother'⟩ := r.exists_asks_inferOther files call outer fields
  obtain ⟨final, hfinal, hfinal'⟩ :=
    exists_asks_inferNested (h (outer ++ (fields.withOther other).declared))
  refine ⟨final, ?_, ?_⟩
  · rw [FieldSet.askedInside_eq, FieldSet.inferBranch_eq]
    exact hother.bind hfinal
  · rw [FieldSet.askedInside_eq, FieldSet.inferBranch_eq, r.conditionals_scope]
    refine hother'.bind ?_
    rw [r.withOther_scope]
    exact hfinal'

/-- A conditional keeps what its branches keep, be they exchanged or not. -/
theorem exists_asks_inferBranches {outer : List String} (inside : Bool → Rearrangement)
    (h : ∀ isElse fields, Keeps files call outer (inside isElse) fields) (exchanges : Bool)
    (conditional : Conditional) :
    ∃ result, Asks files call conditional.asked result
        (conditional.inferBranches (lists files call) outer) ∧
      Asks files call (conditional.moved exchanges fun isElse ↦ (inside isElse).scope).asked
        (result.moved exchanges fun isElse ↦ (inside isElse).scope)
        ((conditional.moved exchanges fun isElse ↦ (inside isElse).scope).inferBranches
          (lists files call) outer) := by
  obtain ⟨condition, thenFields, - | elseFields⟩ := conditional
  · obtain ⟨thenResult, hthen, hthen'⟩ := h false thenFields
    exact ⟨_, Conditional.asks_inferBranches_none condition hthen,
      Conditional.asks_inferBranches_none condition hthen'⟩
  · obtain ⟨thenResult, hthen, hthen'⟩ := h false thenFields
    obtain ⟨elseResult, helse, helse'⟩ := h true elseFields
    refine ⟨_, Conditional.asks_inferBranches_some condition hthen helse, ?_⟩
    cases exchanges with
    | false => exact Conditional.asks_inferBranches_some condition hthen' helse'
    | true => exact Conditional.asks_inferBranches_some condition helse' hthen'

/-- Conditionals keep what they get, in any arrangement. -/
theorem keepsAll (files : String → Option (List String)) (call : String → m Unit)
    (r : Rearrangement) (outer : List String) (given : List Conditional) :
    KeepsAll files call outer r given := by
  induction r generalizing outer given with
  | keep =>
    obtain ⟨results, hresults⟩ : AsksFor files call _ _ :=
      Conditional.asksFor_inferAll outer given
    exact ⟨results, hresults, hresults⟩
  | change order exchanges inside ih =>
    have hinside (turn : Turn) (fields : FieldSet) : Keeps files call outer (inside turn) fields :=
      .of_forall fun outer ↦ ih turn outer fields.conditionals
    -- Each conditional gets something of its own, wherever it stands.
    choose result hresult hmoved using fun place : Fin given.length ↦
      exists_asks_inferBranches (fun isElse ↦ inside (place, isElse))
        (fun isElse ↦ hinside (place, isElse)) (exchanges place) (given.get place)
    refine ⟨List.ofFn result, ?_, ?_⟩
    · rw [Conditional.askedIn_eq_gathered, Conditional.inferAll_eq_mapM]
      refine .of_forall₂ Conditional.asked (List.forall₂_iff_get.2 ⟨?_, ?_⟩)
      · rw [List.length_ofFn]
      · intro i hi hi'
        rw [List.get_ofFn]
        exact hresult ⟨i, hi⟩
    · rw [Conditional.askedIn_eq_gathered, Conditional.inferAll_eq_mapM,
        conditionals_change rfl, conditionals_change (List.length_ofFn ..)]
      refine .of_forall₂ Conditional.asked ?_
      rw [List.ofFn_eq_map, List.ofFn_eq_map, List.forall₂_map_left_iff, List.forall₂_map_right_iff,
        List.forall₂_same]
      intro i _
      rw [List.get_ofFn]
      exact hmoved (order given.length i)

end Rearrangement

/-! ### Sections -/

variable (files : String → Option (List String)) (call : String → m Unit)

/-- The module lists of a section are the same with its conditionals rearranged. -/
theorem Rearrangement.exists_asks_infer (r : Rearrangement) (dirs : List String) (fields : FieldSet)
    (given : List Conditional) (exposes : Bool) (pathsModule : Option String) :
    let infers := (exposes && (fields.texts? "exposed-modules").isNone) ||
      (fields.texts? "other-modules").isNone
    ∃ modules, Asks files call (if infers then dirsIn given ++ dirs else []) modules
        (infer (lists files call) dirs fields given exposes pathsModule) ∧
      Asks files call (if infers then dirsIn (r.conditionals given) ++ dirs else []) modules
        (infer (lists files call) dirs fields (r.conditionals given) exposes pathsModule) := by
  intro infers
  rw [infer, infer]
  simp only [infers]
  split
  · refine r.exists_asks_claimed [] rfl given (fun claims ↦ ?_) fun claims claims' hcontains ↦ ?_
    · simp only [pure_bind]
      exact (asksFor_unclaimed dirs claims).map _
    · simp only [unclaimed_congr_claims dirs hcontains, hcontains]
  · simp only [pure_bind]
    exact ⟨_, .pure _, .pure _⟩

/-- A section that is rearranged asks for the same directories. -/
theorem Section.asked_rearrange_perm (part : Section) (r : Rearrangement) :
    (part.rearrange r).asked.Perm part.asked := by
  rw [asked, asked]
  by_cases hkind : part.kind = .customSetup
  · rw [if_pos hkind, if_pos (show (part.rearrange r).kind = _ from hkind)]
  · rw [if_neg hkind, if_neg (show (part.rearrange r).kind ≠ _ from hkind)]
    refine .append ?_ (r.askedIn_perm part.conditionals)
    have hinfers : (part.rearrange r).infersModules = part.infersModules := rfl
    rw [hinfers]
    split
    · exact (r.dirsIn_perm part.conditionals).append_right _
    · exact .refl _

/-- A section that is rearranged is inferred as before, with its results rearranged. -/
theorem Section.exists_asks_inferWith (package : String) (part : Section) (r : Rearrangement) :
    ∃ result, Asks files call part.asked result
        (part.inferWith (lists files call) package) ∧
      Asks files call (part.rearrange r).asked (result.rearrange r)
        ((part.rearrange r).inferWith (lists files call) package) := by
  rw [asked, asked, inferWith, inferWith]
  by_cases hkind : part.kind = .customSetup
  · rw [if_pos hkind, if_pos (show (part.rearrange r).kind = _ from hkind), if_pos hkind,
      if_pos (show (part.rearrange r).kind = _ from hkind)]
    exact ⟨part, .pure part, .pure _⟩
  · rw [if_neg hkind, if_neg (show (part.rearrange r).kind ≠ _ from hkind), if_neg hkind,
      if_neg (show (part.rearrange r).kind ≠ _ from hkind)]
    obtain ⟨modules, hmodules, hmodules'⟩ := r.exists_asks_infer files call
      (part.fields.texts "source-dirs") part.fields part.conditionals part.kind.exposesModules
      (some (ModuleName.pathsModule package))
    obtain ⟨nested, hnested, hnested'⟩ := r.keepsAll files call
      (part.fields.withModules modules).declared part.conditionals
    exact ⟨{ part with fields := part.fields.withModules modules, conditionals := nested },
      hmodules.bind (hnested.map _), hmodules'.bind (hnested'.map _)⟩

/-- Wherever the conditionals of a section stand, and whichever of their branches are exchanged, at any
depth, inference makes the same of the section and of each branch: what it gives of the section that is
rearranged is what it gives of the section, rearranged in the same way. That is so whatever was listed
before. The same source directories are asked for, in another order perhaps. -/
theorem Section.inferWith_rearrange (package : String) (part : Section) (r : Rearrangement) :
    (part.rearrange r).asked.Perm part.asked ∧ ∃ result, ∀ known,
      (part.inferWith (lists files call) package).run (after files known) = (do
        forM (unlisted known part.asked) call
        return (result, after files (known ++ unlisted known part.asked))) ∧
      ((part.rearrange r).inferWith (lists files call) package).run (after files known) = (do
        forM (unlisted known (part.rearrange r).asked) call
        return (result.rearrange r,
          after files (known ++ unlisted known (part.rearrange r).asked))) := by
  obtain ⟨result, hresult, hresult'⟩ := part.exists_asks_inferWith files call package r
  exact ⟨part.asked_rearrange_perm r, result, fun known ↦ ⟨hresult known, hresult' known⟩⟩

/-- A scope with a source directory. -/
def scopeOf (dir : String) : FieldSet := ⟨[("source-dirs", .texts [dir])]⟩

/-- A scope of one directory has this directory only. -/
theorem dirsInside_scopeOf (dir : String) : (scopeOf dir).dirsInside = [dir] := by
  have hconditionals : (scopeOf dir).conditionals = [] := rfl
  rw [FieldSet.dirsInside, hconditionals, Conditional.dirsIn]
  rfl

theorem askedInside_scopeOf (dir : String) : (scopeOf dir).askedInside = [dir] := by
  have hconditionals : (scopeOf dir).conditionals = [] := rfl
  rw [FieldSet.askedInside, hconditionals, Conditional.dirsIn, Conditional.askedIn]
  rfl

/-- A library with sources of its own for two systems and for a flag. -/
def branchingLibrary : Section :=
  ⟨.library, none, scopeOf "src",
    [⟨"os(windows)", scopeOf "win", some (scopeOf "unix")⟩, ⟨"flag(gui)", scopeOf "gui", none⟩], []⟩

/-- The other way round. -/
def Rearrangement.mirror : Rearrangement := .change (fun _ ↦ Fin.revPerm) (fun _ ↦ true) fun _ ↦ .keep

/-- The mirror image has its conditionals in the opposite order, with their branches exchanged. -/
theorem Section.rearrange_mirror : branchingLibrary.rearrange .mirror = ⟨.library, none, scopeOf "src",
    [⟨"flag(gui)", scopeOf "gui", none⟩, ⟨"os(windows)", scopeOf "unix", some (scopeOf "win")⟩], []⟩ :=
  rfl

/-- Files of the library, which has the same modules for both systems. -/
def branchingFiles : String → Option (List String)
  | "win" | "unix" => some ["System.hs"]
  | "gui" => some ["Window.hs"]
  | _ => some ["Library.hs", "System.hs"]

theorem Section.inferWith_rearrange_mirror :
    let inferred (part : Section) :=
      ((part.inferWith (noting branchingFiles) "foo").run start).run []
    LawfulMonad (StateM (List String)) ∧ ∃ result,
      inferred branchingLibrary =
        ((result, after branchingFiles ["win", "unix", "gui", "src"]), ["win", "unix", "gui", "src"]) ∧
      inferred (branchingLibrary.rearrange .mirror) =
        ((result.rearrange .mirror, after branchingFiles ["gui", "unix", "win", "src"]),
          ["gui", "unix", "win", "src"]) := by
  obtain ⟨-, result, hruns⟩ := Section.inferWith_rearrange branchingFiles
    (fun dir ↦ (modify (· ++ [dir]) : StateM (List String) Unit)) "foo" branchingLibrary .mirror
  obtain ⟨hrun, hrun'⟩ := hruns []
  have hasked : branchingLibrary.asked.eraseDups = ["win", "unix", "gui", "src"] := by
    simp only [asked, branchingLibrary, Conditional.dirsIn, Conditional.askedIn, dirsInside_scopeOf,
      askedInside_scopeOf]
    rfl
  have hasked' : (branchingLibrary.rearrange .mirror).asked.eraseDups = ["gui", "unix", "win", "src"] := by
    simp only [rearrange_mirror, asked, Conditional.dirsIn, Conditional.askedIn, dirsInside_scopeOf,
      askedInside_scopeOf]
    rfl
  rw [unlisted_nil_left, hasked, after_nil] at hrun
  rw [unlisted_nil_left, hasked', after_nil] at hrun'
  refine ⟨inferInstance, result, ?_, ?_⟩ <;> simp only [noting]
  · rw [hrun, StateT.run_bind, forM_note]
    rfl
  · rw [hrun', StateT.run_bind, forM_note]
    rfl

end CabalManifest
