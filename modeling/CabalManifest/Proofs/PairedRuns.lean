import CabalManifest.Proofs.Reading
import Mathlib.Data.List.Forall2

/-!
# Paired runs

Two computations that read manifests are *paired* if they go alike from states that agree: both give
results that belong together, or both fail in ways that belong together; the warnings belong together
one by one, and the states agree again (`Decode.Paired`). What belongs together is up to a *pairing*,
so that the runs may see different documents, or the same one at different places.
-/

namespace CabalManifest

/-! ### Results in pairs -/

/-- Two results that belong together, or two failures that do. -/
inductive Matches {α β : Type} (fails : Failure → Failure → Prop) (p : α → β → Prop) :
    Except Failure α → Except Failure β → Prop
  | ok {a : α} {b : β} (h : p a b) : Matches fails p (.ok a) (.ok b)
  | error {failure failure' : Failure} (h : fails failure failure') :
    Matches fails p (.error failure) (.error failure')

namespace Matches

variable {α β γ δ : Type} {fails : Failure → Failure → Prop} {p : α → β → Prop} {q : γ → δ → Prop}
  {result : Except Failure α} {result' : Except Failure β}

theorem of_error {failure failure' : Failure}
    (h : Matches fails p (.error failure) (.error failure')) : fails failure failure' := by
  cases h
  assumption

theorem allow (h : Matches fails p result result') {fails' : Failure → Failure → Prop}
    (hfails : ∀ failure failure', fails failure failure' → fails' failure failure') :
    Matches fails' p result result' := by
  cases h with
  | ok h => exact .ok h
  | error h => exact .error (hfails _ _ h)

theorem bind {next : α → Except Failure γ} {next' : β → Except Failure δ}
    (h : Matches fails p result result')
    (hnext : ∀ a b, p a b → Matches fails q (next a) (next' b)) :
    Matches fails q (result >>= next) (result' >>= next') := by
  cases h with
  | ok h => exact hnext _ _ h
  | error h => exact .error h

theorem map {f : α → γ} {g : β → δ} (h : Matches fails p result result')
    (hf : ∀ a b, p a b → q (f a) (g b)) : Matches fails q (result.map f) (result'.map g) := by
  cases h with
  | ok h => exact .ok (hf _ _ h)
  | error h => exact .error h

/-- Equal results are mapped to equal results. -/
theorem map_eq {result result' : Except Failure α} (h : Matches fails Eq result result') (f : α → γ) :
    Matches fails Eq (result.map f) (result'.map f) :=
  h.map fun _ _ ↦ congrArg f

/-- A result belongs to itself if all that it can be does. -/
theorem refl {p : α → α → Prop} (hfails : ∀ failure, fails failure failure) (hp : ∀ a, p a a)
    (result : Except Failure α) : Matches fails p result result := by
  cases result with
  | ok a => exact .ok (hp a)
  | error failure => exact .error (hfails failure)

end Matches

/-! ### Computations in pairs -/

variable {σ τ α β γ δ : Type}

/-- Whether two computations go alike from states that agree. -/
def PairedRun (agrees : σ → τ → Prop) (fails : Failure → Failure → Prop) (p : α → β → Prop)
    (m : ExceptT Failure (StateM σ) α) (n : ExceptT Failure (StateM τ) β) : Prop :=
  ∀ s t, agrees s t → agrees (m.run s).2 (n.run t).2 ∧ Matches fails p (m.run s).1 (n.run t).1

namespace PairedRun

variable {agrees : σ → τ → Prop} {fails : Failure → Failure → Prop} {p : α → β → Prop}
  {q : γ → δ → Prop} {m : ExceptT Failure (StateM σ) α} {n : ExceptT Failure (StateM τ) β}

theorem pure {a : α} {b : β} (h : p a b) :
    PairedRun agrees fails p (Pure.pure a) (Pure.pure b) := fun _ _ hst ↦ ⟨hst, .ok h⟩

theorem throw {failure failure' : Failure} (h : fails failure failure') :
    PairedRun agrees fails p (MonadExcept.throw failure) (MonadExcept.throw failure') :=
  fun _ _ hst ↦ ⟨hst, .error h⟩

theorem bind {k : α → ExceptT Failure (StateM σ) γ} {l : β → ExceptT Failure (StateM τ) δ}
    (h : PairedRun agrees fails p m n)
    (hk : ∀ a b, p a b → PairedRun agrees fails q (k a) (l b)) :
    PairedRun agrees fails q (m >>= k) (n >>= l) := by
  intro s t hst
  obtain ⟨hagrees, hmatches⟩ := h s t hst
  rcases hm : m.run s with ⟨result, s'⟩
  rcases hn : n.run t with ⟨result', t'⟩
  rw [hm, hn] at hagrees hmatches
  cases hmatches with
  | ok h =>
    rw [run_bind_of_ok hm, run_bind_of_ok hn]
    exact hk _ _ h s' t' hagrees
  | error h =>
    rw [run_bind_of_error hm, run_bind_of_error hn]
    exact ⟨hagrees, .error h⟩

/-- Computations with equal results go on with the same result. -/
theorem bind_eq {m : ExceptT Failure (StateM σ) α} {n : ExceptT Failure (StateM τ) α}
    {k : α → ExceptT Failure (StateM σ) γ} {l : α → ExceptT Failure (StateM τ) δ}
    (h : PairedRun agrees fails Eq m n) (hk : ∀ a, PairedRun agrees fails q (k a) (l a)) :
    PairedRun agrees fails q (m >>= k) (n >>= l) :=
  h.bind fun a _ hab ↦ hab ▸ hk a

theorem mapM {f : α → ExceptT Failure (StateM σ) β} {g : α → ExceptT Failure (StateM τ) β}
    (items : List α) (h : ∀ item, PairedRun agrees fails Eq (f item) (g item)) :
    PairedRun agrees fails Eq (items.mapM f) (items.mapM g) := by
  induction items with
  | nil => exact pure rfl
  | cons item items ih =>
    rw [List.mapM_cons, List.mapM_cons]
    exact (h item).bind_eq fun a ↦ ih.bind_eq fun rest ↦ pure rfl

end PairedRun

/-! ### Reading in pairs -/

/-- What belongs together in two runs that read: the states of their services, their warnings and
their failures. -/
structure Pairing (σ τ : Type) where
  ties : σ → τ → Prop
  tells : Warning → Warning → Prop
  fails : Failure → Failure → Prop

variable {pairing : Pairing σ τ}

/-- Whether all that two runs have done so far belongs together. -/
structure Pairing.Agrees (pairing : Pairing σ τ) (s : Progress σ) (t : Progress τ) : Prop where
  ties : pairing.ties s.state t.state
  warnings : List.Forall₂ pairing.tells s.warnings t.warnings

namespace Decode

/-- Whether two computations that read go alike from states that agree. -/
abbrev Paired (pairing : Pairing σ τ) (p : α → β → Prop) (m : Decode σ α) (n : Decode τ β) : Prop :=
  PairedRun pairing.Agrees pairing.fails p m n

namespace Paired

theorem ofExcept {p : α → β → Prop} {result : Except Failure α} {result' : Except Failure β}
    (h : Matches pairing.fails p result result') :
    (Decode.ofExcept result : Decode σ α).Paired pairing p (Decode.ofExcept result') := by
  cases h with
  | ok h => exact .pure h
  | error h => exact .throw h

theorem warnAll {warnings warnings' : List Warning}
    (h : List.Forall₂ pairing.tells warnings warnings') :
    (Decode.warnAll warnings : Decode σ Unit).Paired pairing (fun _ _ ↦ True)
      (Decode.warnAll warnings') :=
  fun _ _ hst ↦ ⟨⟨hst.ties, List.rel_append hst.warnings h⟩, .ok trivial⟩

theorem warn {warning warning' : Warning} (h : pairing.tells warning warning') :
    (Decode.warn warning : Decode σ Unit).Paired pairing (fun _ _ ↦ True) (Decode.warn warning') :=
  warnAll (.cons h .nil)

end Paired

end Decode

end CabalManifest
