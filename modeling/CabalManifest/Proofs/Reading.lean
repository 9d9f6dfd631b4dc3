import CabalManifest.Manifest.Context

/-!
# How reading goes

A computation that reads a manifest is held to a *contract*: it goes on in certain states only, it
moves from a state to one that follows it, and it stops with a failure only where that is allowed.
What it reads passes a test (`Decode.Meets`). Some tests are passed in all states, whatever the
contract (`Decode.Gives`), and a computation that asks for nothing even leaves the state as it is
(`Decode.Reads`).

Two computations are *alike* if both do the same wherever the contract holds (`Decode.Alike`). So a
part of a computation can be replaced by one that does the same in all states that occur.
-/

namespace CabalManifest

/-! ### Failures -/

/-- A failure that reports a cycle. -/
def Failure.IsCycle : Failure → Prop
  | .cyclicDefaults _ => True
  | _ => False

/-- A failure that reports none. -/
abbrev Failure.NotCycle (failure : Failure) : Prop := ¬failure.IsCycle

/-- A failure that a document is to blame for: something in it is wrong, or it has an integer with
too many digits to be written. `writable` tells that it has none of these. -/
def Failure.IsFaultOf (writable : Bool) : Failure → Prop
  | .invalid .. => True
  | .longInteger _ => writable = false
  | _ => False

namespace Failure.IsFaultOf

variable {failure : Failure} {writable writable' : Bool}

/-- A fault is no cycle. -/
theorem not_isCycle (h : failure.IsFaultOf writable) : ¬failure.IsCycle := by
  cases failure <;> first | exact id | exact h.elim

/-- A fault of a value that can be written is one of any value. -/
theorem imp (h : failure.IsFaultOf writable) (hwritable : writable' = true → writable = true) :
    failure.IsFaultOf writable' := by
  cases failure with
  | longInteger =>
    have hfalse : writable = false := h
    rw [hfalse] at hwritable
    show writable' = false
    exact Bool.eq_false_iff.2 fun hw ↦ Bool.false_ne_true (hwritable hw)
  | _ => exact h

end Failure.IsFaultOf

/-! ### Results -/

/-- A result that passes a test, or a failure that is allowed. -/
inductive Yields {α : Type} (allowed : Failure → Prop) (p : α → Prop) : Except Failure α → Prop
  | ok {a : α} (h : p a) : Yields allowed p (.ok a)
  | error {failure : Failure} (h : allowed failure) : Yields allowed p (.error failure)

namespace Yields

variable {α β : Type} {allowed : Failure → Prop} {p : α → Prop} {q : β → Prop}
  {result : Except Failure α}

/-- What comes of a success passes the test. -/
theorem of_ok {a : α} (h : Yields allowed p (.ok a)) : p a := by
  cases h
  assumption

/-- Only what is allowed comes of a failure. -/
theorem of_error {failure : Failure} (h : Yields allowed p (.error failure)) : allowed failure := by
  cases h
  assumption

theorem imp (h : Yields allowed p result) {p' : α → Prop} (hp : ∀ a, p a → p' a) :
    Yields allowed p' result := by
  cases h with
  | ok h => exact .ok (hp _ h)
  | error h => exact .error h

theorem allow (h : Yields allowed p result) {allowed' : Failure → Prop}
    (hallowed : ∀ failure, allowed failure → allowed' failure) : Yields allowed' p result := by
  cases h with
  | ok h => exact .ok h
  | error h => exact .error (hallowed _ h)

/-- Steps that each yield what the next one needs yield together. -/
theorem bind {next : α → Except Failure β} (h : Yields allowed p result)
    (hnext : ∀ a, p a → Yields allowed q (next a)) : Yields allowed q (result >>= next) := by
  cases h with
  | ok h => exact hnext _ h
  | error h => exact .error h

theorem map {f : α → β} (h : Yields allowed p result) (hf : ∀ a, p a → q (f a)) :
    Yields allowed q (result.map f) := by
  cases h with
  | ok h => exact .ok (hf _ h)
  | error h => exact .error h

/-- A part of a document is to blame for no more than the document is. -/
theorem ofPart {writable writable' : Bool} (h : Yields (Failure.IsFaultOf writable) p result)
    (hwritable : writable' = true → writable = true) :
    Yields (Failure.IsFaultOf writable') p result :=
  h.allow fun _ hfault ↦ hfault.imp hwritable

end Yields

/-! ### Computations in steps -/

section

variable {τ α β : Type} {m : ExceptT Failure (StateM τ) α}

/-- After a success the next step goes on from the state that is left. -/
theorem run_bind_of_ok {s t : τ} {a : α} (h : m.run s = (.ok a, t))
    (k : α → ExceptT Failure (StateM τ) β) : (m >>= k).run s = (k a).run t := by
  show (ExceptT.bindCont k (m.run s).1 : StateM _ _) (m.run s).2 = _
  rw [h]
  rfl

/-- After a failure no further step is taken. -/
theorem run_bind_of_error {s t : τ} {failure : Failure} (h : m.run s = (.error failure, t))
    (k : α → ExceptT Failure (StateM τ) β) : (m >>= k).run s = (.error failure, t) := by
  show (ExceptT.bindCont k (m.run s).1 : StateM _ _) (m.run s).2 = _
  rw [h]
  rfl

theorem run_bind_congr {n : ExceptT Failure (StateM τ) α} {s : τ} (h : m.run s = n.run s)
    (k : α → ExceptT Failure (StateM τ) β) : (m >>= k).run s = (n >>= k).run s := by
  rcases hn : n.run s with ⟨failure | a, t⟩
  · rw [run_bind_of_error hn, run_bind_of_error (h.trans hn)]
  · rw [run_bind_of_ok hn, run_bind_of_ok (h.trans hn)]

/-- A computation in two steps that gives a result does so in both. -/
theorem exists_of_run_bind {k : α → ExceptT Failure (StateM τ) β} {s u : τ} {b : β}
    (h : (m >>= k).run s = (.ok b, u)) :
    ∃ a t, m.run s = (.ok a, t) ∧ (k a).run t = (.ok b, u) := by
  rcases hm : m.run s with ⟨failure | a, t⟩
  · rw [run_bind_of_error hm] at h
    cases h
  · rw [run_bind_of_ok hm] at h
    exact ⟨a, t, rfl, h⟩

end

/-! ### Contracts -/

/-- What reading is held to. -/
structure Contract (σ : Type) where
  /-- The states in which reading goes on. -/
  holds : σ → Prop
  /-- How a state can come after another. -/
  follows : σ → σ → Prop
  /-- The failures that can stop reading, with the state in which they do. -/
  allows : Failure → σ → Prop
  refl : ∀ s, follows s s
  trans : ∀ {s t u}, follows s t → follows t u → follows s u
  /-- Only cycles can be forbidden. -/
  allows_of_not_isCycle : ∀ failure s, ¬failure.IsCycle → allows failure s

/-- The failures that a contract allows in all states. -/
def Contract.Tolerates {σ : Type} (contract : Contract σ) (failure : Failure) : Prop :=
  ∀ s, contract.allows failure s

namespace Decode

variable {σ : Type} {contract : Contract σ} {α β : Type}

/-- The result of a computation with the state in which it ends. -/
abbrev Outcome (σ α : Type) := Except Failure α × Progress σ

/-- Whether an outcome is as it should be, given the state before and a test of results. -/
def Outcome.IsRight (contract : Contract σ) (p : α → Prop) (start : σ) : Outcome σ α → Prop
  | (.ok result, s) => contract.holds s.state ∧ contract.follows start s.state ∧ p result
  | (.error failure, s) =>
    contract.holds s.state ∧ contract.follows start s.state ∧ contract.allows failure s.state

/-- Whether a computation keeps to a contract, and its results pass a test. -/
def Meets (contract : Contract σ) (p : α → Prop) (m : Decode σ α) : Prop :=
  ∀ s, contract.holds s.state → Outcome.IsRight contract p s.state (m.run s)

/-- Whether a computation keeps to a contract, and another one does the same. -/
def Alike (contract : Contract σ) (p : α → Prop) (m n : Decode σ α) : Prop :=
  m.Meets contract p ∧ ∀ s, contract.holds s.state → m.run s = n.run s

/-! ### Computations that keep to a contract -/

namespace Meets

variable {p : α → Prop} {q : β → Prop} {m : Decode σ α}

theorem imp (h : m.Meets contract p) {p' : α → Prop} (hp : ∀ a, p a → p' a) :
    m.Meets contract p' := by
  intro s hs
  have hm := h s hs
  rcases hrun : m.run s with ⟨failure | a, t⟩ <;> rw [hrun] at hm
  · exact hm
  · exact ⟨hm.1, hm.2.1, hp a hm.2.2⟩

theorem pure {a : α} (h : p a) : (Pure.pure a : Decode σ α).Meets contract p :=
  fun _ hs ↦ ⟨hs, contract.refl _, h⟩

theorem throw {failure : Failure} (h : ¬failure.IsCycle) :
    (MonadExcept.throw failure : Decode σ α).Meets contract p :=
  fun _ hs ↦ ⟨hs, contract.refl _, contract.allows_of_not_isCycle _ _ h⟩

/-- Two steps that keep a contract keep it together, as a contract can be chained. -/
theorem bind {k : α → Decode σ β} (h : m.Meets contract p)
    (hk : ∀ a, p a → (k a).Meets contract q) : (m >>= k).Meets contract q := by
  intro s hs
  have hm := h s hs
  rcases hrun : m.run s with ⟨failure | a, t⟩
  · rw [run_bind_of_error hrun]
    rwa [hrun] at hm
  · rw [hrun] at hm
    rw [run_bind_of_ok hrun]
    obtain ⟨ht, hfollows, ha⟩ := hm
    have hka := hk a ha t ht
    rcases hnext : (k a).run t with ⟨failure | b, u⟩ <;> rw [hnext] at hka
    · exact ⟨hka.1, contract.trans hfollows hka.2.1, hka.2.2⟩
    · exact ⟨hka.1, contract.trans hfollows hka.2.1, hka.2.2⟩

/-- A fault keeps every contract, because it is no cycle. -/
theorem ofExcept {result : Except Failure α} {writable : Bool}
    (h : Yields (Failure.IsFaultOf writable) p result) :
    (Decode.ofExcept result : Decode σ α).Meets contract p := by
  cases h with
  | ok h => exact pure h
  | error h => exact throw h.not_isCycle

theorem warn (warning : Warning) : (Decode.warn warning).Meets contract fun _ ↦ True :=
  fun _ hs ↦ ⟨hs, contract.refl _, trivial⟩

theorem warnAll (warnings : List Warning) : (Decode.warnAll warnings).Meets contract fun _ ↦ True :=
  fun _ hs ↦ ⟨hs, contract.refl _, trivial⟩

/-- Computations that are run for each item of a list keep to a contract together. -/
theorem mapM {f : β → Decode σ α} {items : List β} (h : ∀ item ∈ items, (f item).Meets contract p) :
    (items.mapM f).Meets contract fun results ↦ ∀ result ∈ results, p result := by
  induction items with
  | nil => exact pure (List.forall_mem_nil _)
  | cons item items ih =>
    rw [List.forall_mem_cons] at h
    rw [List.mapM_cons]
    refine h.1.bind fun a ha ↦ (ih h.2).bind fun rest hrest ↦ pure ?_
    exact List.forall_mem_cons.2 ⟨ha, hrest⟩

/-- Where a computation that keeps to a contract ends. -/
theorem of_run (h : m.Meets contract p) {s t : Progress σ} (hs : contract.holds s.state) {a : α}
    (hrun : m.run s = (.ok a, t)) : contract.holds t.state ∧ contract.follows s.state t.state ∧ p a := by
  have hm := h s hs
  rwa [hrun] at hm

end Meets

/-! ### Computations that go alike -/

namespace Alike

variable {p : α → Prop} {q : β → Prop} {m n : Decode σ α}

/-- What keeps a contract is like itself. -/
theorem refl (h : m.Meets contract p) : m.Alike contract p m := ⟨h, fun _ _ ↦ rfl⟩

theorem imp (h : m.Alike contract p n) {p' : α → Prop} (hp : ∀ a, p a → p' a) :
    m.Alike contract p' n :=
  ⟨h.1.imp hp, h.2⟩

theorem pure {a : α} (h : p a) :
    (Pure.pure a : Decode σ α).Alike contract p (Pure.pure a) :=
  refl (.pure h)

/-- A computation can be replaced by one that does the same. -/
theorem of_run {m' : Decode σ α} (h : m'.Alike contract p n)
    (hrun : ∀ s, contract.holds s.state → m.run s = m'.run s) : m.Alike contract p n := by
  refine ⟨fun s hs ↦ ?_, fun s hs ↦ (hrun s hs).trans (h.2 s hs)⟩
  rw [hrun s hs]
  exact h.1 s hs

/-- Steps that are alike for what the first ones give are alike together. -/
theorem bind {k l : α → Decode σ β} (h : m.Alike contract p n)
    (hk : ∀ a, p a → (k a).Alike contract q (l a)) : (m >>= k).Alike contract q (n >>= l) := by
  refine ⟨h.1.bind fun a ha ↦ (hk a ha).1, fun s hs ↦ ?_⟩
  have hm := h.1 s hs
  have hsame := h.2 s hs
  rcases hrun : m.run s with ⟨failure | a, t⟩
  · rw [run_bind_of_error hrun, run_bind_of_error (hsame.symm.trans hrun)]
  · rw [hrun] at hm
    rw [run_bind_of_ok hrun, run_bind_of_ok (hsame.symm.trans hrun)]
    exact (hk a hm.2.2).2 t hm.1

/-- If a first step goes like one whose results are only mapped, the mapping can be done later. -/
theorem bind_map {γ : Type} {f : γ → α} {l : Decode σ γ} {r : γ → Prop}
    (h : m.Alike contract p (f <$> l)) (hl : l.Meets contract r) {k : α → Decode σ β}
    {k' : γ → Decode σ β} (hk : ∀ c, r c → (k (f c)).Alike contract q (k' c)) :
    (m >>= k).Alike contract q (l >>= k') := by
  refine ((refl hl).bind hk).of_run fun s hs ↦ ?_
  have hmap : (l >>= fun c ↦ k (f c)) = (f <$> l) >>= k := by simp only [bind_map_left]
  rw [hmap]
  exact run_bind_congr (h.2 s hs) k

end Alike

/-! ### Computations in any state -/

/-- Whether a computation gives results that pass a test, or fails in allowed ways, in all states. -/
def Gives (allowed : Failure → Prop) (p : α → Prop) (m : Decode σ α) : Prop :=
  ∀ s, Yields allowed p (m.run s).1

namespace Gives

variable {allowed : Failure → Prop} {p : α → Prop} {q : β → Prop} {m : Decode σ α}

theorem imp (h : m.Gives allowed p) {p' : α → Prop} (hp : ∀ a, p a → p' a) :
    m.Gives allowed p' :=
  fun s ↦ (h s).imp hp

theorem pure {a : α} (h : p a) : (Pure.pure a : Decode σ α).Gives allowed p := fun _ ↦ .ok h

theorem throw {failure : Failure} (h : allowed failure) :
    (MonadExcept.throw failure : Decode σ α).Gives allowed p :=
  fun _ ↦ .error h

/-- A step that gives what the next one needs lets both give what the next one gives. -/
theorem bind {k : α → Decode σ β} (h : m.Gives allowed p)
    (hk : ∀ a, p a → (k a).Gives allowed q) : (m >>= k).Gives allowed q := by
  intro s
  have hyields := h s
  rcases hrun : m.run s with ⟨failure | a, t⟩ <;> rw [hrun] at hyields
  · rw [run_bind_of_error hrun]
    exact .error hyields.of_error
  · rw [run_bind_of_ok hrun]
    exact hk a hyields.of_ok t

/-- What a result passes. -/
theorem of_run (h : m.Gives allowed p) {s t : Progress σ} {a : α} (hrun : m.run s = (.ok a, t)) :
    p a := by
  have hyields := h s
  rw [hrun] at hyields
  exact hyields.of_ok

end Gives

/-! ### Computations that ask for nothing -/

/-- Whether a computation leaves the state of the services as it is, in all of them. -/
def Reads (allowed : Failure → Prop) (p : α → Prop) (m : Decode σ α) : Prop :=
  ∀ s, (m.run s).2.state = s.state ∧ Yields allowed p (m.run s).1

namespace Reads

variable {allowed : Failure → Prop} {p : α → Prop} {q : β → Prop} {m : Decode σ α}

theorem pure {a : α} (h : p a) : (Pure.pure a : Decode σ α).Reads allowed p :=
  fun _ ↦ ⟨rfl, .ok h⟩

theorem throw {failure : Failure} (h : allowed failure) :
    (MonadExcept.throw failure : Decode σ α).Reads allowed p :=
  fun _ ↦ ⟨rfl, .error h⟩

theorem bind {k : α → Decode σ β} (h : m.Reads allowed p)
    (hk : ∀ a, p a → (k a).Reads allowed q) : (m >>= k).Reads allowed q := by
  intro s
  obtain ⟨hstate, hyields⟩ := h s
  rcases hrun : m.run s with ⟨failure | a, t⟩ <;> rw [hrun] at hstate hyields
  · rw [run_bind_of_error hrun]
    exact ⟨hstate, .error hyields.of_error⟩
  · rw [run_bind_of_ok hrun]
    obtain ⟨hnext, hyields'⟩ := hk a hyields.of_ok t
    exact ⟨hnext.trans hstate, hyields'⟩

theorem ofExcept {result : Except Failure α} (h : Yields allowed p result) :
    (Decode.ofExcept result : Decode σ α).Reads allowed p := by
  cases h with
  | ok h => exact pure h
  | error h => exact throw h

theorem warn (warning : Warning) :
    (Decode.warn warning : Decode σ Unit).Reads allowed fun _ ↦ True :=
  fun _ ↦ ⟨rfl, .ok trivial⟩

theorem warnAll (warnings : List Warning) :
    (Decode.warnAll warnings : Decode σ Unit).Reads allowed fun _ ↦ True :=
  fun _ ↦ ⟨rfl, .ok trivial⟩

/-- Reading all items of a list gives what reading each one gives. -/
theorem mapM {f : β → Decode σ α} {items : List β} (h : ∀ item ∈ items, (f item).Reads allowed p) :
    (items.mapM f).Reads allowed fun results ↦ ∀ result ∈ results, p result := by
  induction items with
  | nil => exact pure (List.forall_mem_nil _)
  | cons item items ih =>
    rw [List.forall_mem_cons] at h
    rw [List.mapM_cons]
    refine h.1.bind fun a ha ↦ (ih h.2).bind fun rest hrest ↦ pure ?_
    exact List.forall_mem_cons.2 ⟨ha, hrest⟩

/-- What is read gives the same from every state. -/
theorem gives (h : m.Reads allowed p) : m.Gives allowed p := fun s ↦ (h s).2

/-- A computation that asks for nothing keeps to every contract that allows its failures. -/
theorem meets (h : m.Reads allowed p)
    (hallowed : ∀ failure, allowed failure → contract.Tolerates failure) :
    m.Meets contract p := by
  intro s hs
  obtain ⟨hstate, hyields⟩ := h s
  rcases hrun : m.run s with ⟨failure | a, t⟩ <;> rw [hrun] at hstate hyields <;>
    simp only at hstate
  · refine ⟨hstate ▸ hs, hstate ▸ contract.refl _, hallowed _ hyields.of_error _⟩
  · refine ⟨hstate ▸ hs, hstate ▸ contract.refl _, hyields.of_ok⟩

end Reads

end Decode

/-- Whether services fail to find files only in allowed ways. -/
def Services.CanGlob {σ : Type} (services : Services σ) (allowed : Failure → Prop) : Prop :=
  ∀ pattern s failure, services.glob pattern s = .error failure → allowed failure

namespace Context

variable {σ : Type} (context : Context σ)

/-- Resolving a reference is asking the service for it. -/
theorem run_resolve {resolve : Reference → List String → PosixPath → σ → Except Failure Document × σ}
    (h : context.services.resolve? = some resolve) (reference : Reference) (s : Progress σ) :
    (context.resolve reference).run s =
      ((resolve reference context.visited context.directory s.state).1,
        { s with state := (resolve reference context.visited context.directory s.state).2 }) := by
  rw [Context.resolve, h]
  show (Decode.ofExcept (resolve reference context.visited context.directory s.state).1 :
    Decode σ Document).run _ = _
  cases (resolve reference context.visited context.directory s.state).1 <;> rfl

/-- Without a resolver no reference can be resolved. -/
theorem run_resolve_of_none (h : context.services.resolve? = none) (reference : Reference)
    (s : Progress σ) : (context.resolve reference).run s = (.error .noResolver, s) := by
  rw [Context.resolve, h]
  rfl

end Context

end CabalManifest
