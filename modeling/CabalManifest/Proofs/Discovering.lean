import CabalManifest.Discovery
import CabalManifest.Proofs.Reading
import Mathlib.Data.List.Forall2

/-!
# What is found

Finding modules remembers what it has found, and what it remembers never changes what is found later:
memory *shows* the same modules for a directory before and after (`Discovery.Meets`). So a result
depends on what is shown at the start only, and finding fails only where the lister does.
-/

namespace CabalManifest

/-! ### Items without repetitions -/

/-- Items are left out before or after their repetitions are. -/
theorem filter_eraseDups (p : String → Bool) : ∀ items : List String,
    items.eraseDups.filter p = (items.filter p).eraseDups
  | [] => rfl
  | item :: items => by
    -- What is left of the rest is shorter, as the repetitions of the item are gone.
    have hrest := filter_eraseDups p (items.filter fun other ↦ !other == item)
    rw [List.eraseDups_cons]
    by_cases hitem : p item = true
    · rw [List.filter_cons_of_pos hitem, List.filter_cons_of_pos hitem, List.eraseDups_cons, hrest,
        List.filter_filter, List.filter_filter]
      simp only [Bool.and_comm]
    · rw [List.filter_cons_of_neg hitem, List.filter_cons_of_neg hitem, hrest, List.filter_filter]
      refine congrArg _ (List.filter_congr fun other _ ↦ ?_)
      by_cases hsame : other = item
      · simp [hsame, hitem]
      · simp [hsame]
termination_by items => items.length
decreasing_by exact Nat.lt_succ_of_le (List.length_filter_le _ _)

theorem nodup_eraseDups : ∀ items : List String, items.eraseDups.Nodup
  | [] => List.nodup_nil
  | item :: items => by
    rw [List.eraseDups_cons, List.nodup_cons, List.mem_eraseDups]
    exact ⟨by simp, nodup_eraseDups (items.filter fun other ↦ !other == item)⟩
termination_by items => items.length
decreasing_by exact Nat.lt_succ_of_le (List.length_filter_le _ _)

namespace Discovery

variable {lister : Lister} {view : String → List String} {α β : Type}

/-- The modules that a lister gives for a directory. -/
def listed (lister : Lister) (dir : String) : List String :=
  match lister dir with
  | .ok files? => modulesOf (files?.getD [])
  | .error _ => []

/-- The modules of a directory: those that are remembered, or else those that the lister gives. -/
def shown (lister : Lister) (state : Discovery) (dir : String) : List String :=
  (state.found.get? dir).getD (listed lister dir)

/-- The modules under several directories. -/
def under (view : String → List String) (dirs : List String) : List String :=
  (dirs.map view).flatten.eraseDups

/-- Whether a lister cannot list some directory. -/
def CannotList (lister : Lister) (failure : Failure) : Prop := ∃ dir, lister dir = .error failure

/-- Whether a computation, started where memory shows certain modules, keeps them shown and gives
results that pass a test, or fails where the lister does. -/
def Meets (lister : Lister) (view : String → List String) (p : α → Prop) (m : Finder α) : Prop :=
  ∀ s, shown lister s = view →
    Yields (CannotList lister) (fun (a, t) ↦ shown lister t = view ∧ p a) (m.run s)

namespace Meets

variable {p : α → Prop} {q : β → Prop} {m : Finder α}

theorem imp (h : Meets lister view p m) {p' : α → Prop} (hp : ∀ a, p a → p' a) :
    Meets lister view p' m :=
  fun s hs ↦ (h s hs).imp fun _ ⟨ht, ha⟩ ↦ ⟨ht, hp _ ha⟩

theorem pure {a : α} (h : p a) : Meets lister view p (Pure.pure a) := fun _ hs ↦ .ok ⟨hs, h⟩

theorem bind {k : α → Finder β} (h : Meets lister view p m)
    (hk : ∀ a, p a → Meets lister view q (k a)) : Meets lister view q (m >>= k) := by
  intro s hs
  rw [StateT.run_bind]
  exact (h s hs).bind fun (a, t) ⟨ht, ha⟩ ↦ hk a ha t ht

/-- Computations that are run for each item of a list give what they should, item by item. -/
theorem mapM {f : β → Finder α} {r : β → α → Prop} {items : List β}
    (h : ∀ item ∈ items, Meets lister view (r item) (f item)) :
    Meets lister view (List.Forall₂ r items) (items.mapM f) := by
  induction items with
  | nil => exact pure .nil
  | cons item items ih =>
    rw [List.forall_mem_cons] at h
    rw [List.mapM_cons]
    exact h.1.bind fun a ha ↦ (ih h.2).bind fun rest hrest ↦ pure (.cons ha hrest)

/-- Computations that are run for each item of a list give nothing but what they should. -/
theorem forall_mapM {f : β → Finder α} {items : List β}
    (h : ∀ item ∈ items, Meets lister view p (f item)) :
    Meets lister view (fun results ↦ ∀ a ∈ results, p a) (items.mapM f) := by
  induction items with
  | nil => exact pure (List.forall_mem_nil _)
  | cons item items ih =>
    rw [List.forall_mem_cons] at h
    rw [List.mapM_cons]
    exact h.1.bind fun a ha ↦ (ih h.2).bind fun rest hrest ↦
      pure (List.forall_mem_cons.2 ⟨ha, hrest⟩)

end Meets

/-! ### Runs that give a result -/

theorem exists_of_bind_run {finder : Finder α} {next : α → Finder β}
    {start done : Discovery} {result : β}
    (h : (finder >>= next).run start = .ok (result, done)) :
    ∃ found middle, finder.run start = .ok (found, middle) ∧
      (next found).run middle = .ok (result, done) := by
  rw [StateT.run_bind] at h
  cases hfinder : finder.run start with
  | error failure =>
    rw [hfinder] at h
    cases h
  | ok pair =>
    rw [hfinder] at h
    exact ⟨pair.1, pair.2, rfl, h⟩

theorem eq_of_pure_run {start done : Discovery} {item result : α}
    (h : (pure item : Finder α).run start = .ok (result, done)) : result = item := by
  cases h
  rfl

/-- What is found item by item keeps what is kept of every item. -/
theorem map_eq_of_mapM_run {kept : α → β} {find : α → Finder α}
    (hkept : ∀ item start result done, (find item).run start = .ok (result, done) →
      kept result = kept item) :
    ∀ {items results : List α} {start done : Discovery},
      (items.mapM find).run start = .ok (results, done) → results.map kept = items.map kept := by
  intro items
  induction items with
  | nil =>
    intro results start done h
    rw [List.mapM_nil] at h
    rw [eq_of_pure_run h]
  | cons item items ih =>
    intro results start done h
    rw [List.mapM_cons] at h
    obtain ⟨first, middle, hfirst, h⟩ := exists_of_bind_run h
    obtain ⟨rest, last, hrest, h⟩ := exists_of_bind_run h
    rw [eq_of_pure_run h, List.map_cons, List.map_cons, hkept _ _ _ _ hfirst, ih hrest]

/-! ### What finding shows -/

/-- Remembering what the lister gives for a directory changes nothing that is shown. -/
theorem shown_insert {s : Discovery} {dir : String} (hnew : s.found.get? dir = none)
    (warnings : List Warning) :
    shown lister ⟨s.found.insert dir (listed lister dir), warnings⟩ = shown lister s := by
  funext other
  rw [shown, shown, Entries.get?_insert]
  split
  · next heq =>
    subst heq
    rw [hnew]
    rfl
  · rfl

theorem meets_modulesIn (dir : String) :
    Meets lister view (· = view dir) (modulesIn lister dir) := by
  intro s hs
  have hview : view dir = (s.found.get? dir).getD (listed lister dir) := by rw [← hs, shown]
  rw [modulesIn, StateT.run_bind, StateT.run_get]
  show Yields _ _ (StateT.run _ s)
  split
  · next modules hfound =>
    rw [hfound] at hview
    exact .ok ⟨hs, hview.symm⟩
  · next hnew =>
    -- The directory is listed now, and memory shows of it what it showed before.
    rw [hnew] at hview
    rw [StateT.run_bind]
    cases hlister : lister dir with
    | error failure => exact .error ⟨dir, hlister⟩
    | ok files? =>
      have hlisted : listed lister dir = modulesOf (files?.getD []) := by rw [listed, hlister]
      refine .ok ⟨?_, hlisted.symm.trans hview.symm⟩
      rw [← hs, ← shown_insert hnew, hlisted]

/-- What is found under some directories is what memory shows for them. -/
theorem meets_discover (dirs : List String) :
    Meets lister view (· = under view dirs) (discover lister dirs) := by
  refine (Meets.mapM fun dir _ ↦ meets_modulesIn dir).bind fun modules hmodules ↦ .pure ?_
  have hmap : modules = dirs.map view := by
    induction hmodules with
    | nil => rfl
    | cons hdir _ ih => rw [hdir, ih, List.map_cons]
  rw [hmap, under]

end Discovery

end CabalManifest
