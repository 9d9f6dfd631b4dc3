import CabalManifest.Inference
import CabalManifest.Proofs.Discovering

/-!
# Nested scopes

A scope in a section is addressed by its *path*: which branches to enter, from the section down. The
scopes along one chain are those whose paths are prefixes of each other.

What the conditionals of a scope name, and what is found under their source directories, is what some
scope in them names or finds (`Conditional.mem_mentionedIn_iff`, `Conditional.meets_foundIn`).
-/

namespace CabalManifest

/-- A branch of some conditionals: the position of its conditional, and whether it is the one for
`else`. -/
abbrev Turn := Nat × Bool

namespace Conditional

/-- One of the two branches of a conditional. -/
def branch? (conditional : Conditional) (isElse : Bool) : Option FieldSet :=
  if isElse then conditional.elseFields else some conditional.thenFields

/-- A branch of some conditionals. -/
def branchAt? (conditionals : List Conditional) (turn : Turn) : Option FieldSet :=
  conditionals[turn.1]?.bind fun conditional ↦ conditional.branch? turn.2

end Conditional

/-- The scope at a path from a scope. -/
def FieldSet.at? (fields : FieldSet) : List Turn → Option FieldSet
  | [] => some fields
  | turn :: path =>
    (Conditional.branchAt? fields.conditionals turn).bind fun branch ↦ branch.at? path

/-- The scope at a path from a root with some conditionals. -/
def Conditional.scopeAt? (root : FieldSet) (conditionals : List Conditional) :
    List Turn → Option FieldSet
  | [] => some root
  | turn :: path => (branchAt? conditionals turn).bind fun branch ↦ branch.at? path

/-- The scope at a path from a section. -/
def Section.at? (part : Section) : List Turn → Option FieldSet :=
  Conditional.scopeAt? part.fields part.conditionals

/-- Whether a scope stands somewhere in some conditionals. -/
def Conditional.Contains (conditionals : List Conditional) (scope : FieldSet) : Prop :=
  ∃ turn branch path, Conditional.branchAt? conditionals turn = some branch ∧
    branch.at? path = some scope

/-! ### Branches -/

theorem FieldSet.at?_eq (fields : FieldSet) :
    fields.at? = Conditional.scopeAt? fields fields.conditionals := by
  funext path
  cases path <;> rfl

/-- A scope below a branch, seen from above the branch. -/
theorem Conditional.scopeAt?_cons (root : FieldSet) {conditionals : List Conditional} {turn : Turn}
    {branch : FieldSet} (hbranch : branchAt? conditionals turn = some branch) (path : List Turn) :
    scopeAt? root conditionals (turn :: path) = branch.at? path := by
  rw [scopeAt?, hbranch, Option.bind_some]

/-- What holds of all scopes from a root holds of all scopes from a branch. -/
theorem Conditional.forall_branch {p : FieldSet → Prop} {root : FieldSet}
    {conditionals : List Conditional}
    (h : ∀ path scope, scopeAt? root conditionals path = some scope → p scope) {turn : Turn}
    {branch : FieldSet} (hbranch : branchAt? conditionals turn = some branch) :
    ∀ path scope, branch.at? path = some scope → p scope :=
  fun path scope hscope ↦ h (turn :: path) scope ((scopeAt?_cons root hbranch path).trans hscope)

/-- A scope below another one is that one itself or stands in its conditionals. -/
theorem FieldSet.exists_at?_iff {fields scope : FieldSet} :
    (∃ path, fields.at? path = some scope) ↔
      fields = scope ∨ Conditional.Contains fields.conditionals scope := by
  constructor
  · rintro ⟨path, hscope⟩
    cases path with
    | nil => exact .inl (Option.some.inj hscope)
    | cons turn path =>
      obtain ⟨branch, hbranch, hscope⟩ := Option.bind_eq_some_iff.1 hscope
      exact .inr ⟨turn, branch, path, hbranch, hscope⟩
  · rintro (rfl | ⟨turn, branch, path, hbranch, hscope⟩)
    · exact ⟨[], rfl⟩
    · refine ⟨turn :: path, ?_⟩
      rw [FieldSet.at?, hbranch, Option.bind_some, hscope]

namespace Conditional

theorem exists_branch?_iff {conditional : Conditional} {branch : FieldSet} :
    (∃ isElse, conditional.branch? isElse = some branch) ↔ branch ∈ conditional.branches := by
  simp [branch?, branches, Bool.exists_bool, eq_comm]

theorem mem_of_branchAt? {conditionals : List Conditional} {turn : Turn} {branch : FieldSet}
    (h : branchAt? conditionals turn = some branch) :
    ∃ conditional ∈ conditionals, branch ∈ conditional.branches := by
  obtain ⟨conditional, hconditional, hbranch⟩ := Option.bind_eq_some_iff.1 h
  exact ⟨conditional, List.mem_of_getElem? hconditional, exists_branch?_iff.1 ⟨turn.2, hbranch⟩⟩

theorem branchAt?_cons_succ (conditional : Conditional) (rest : List Conditional) (n : Nat)
    (isElse : Bool) :
    branchAt? (conditional :: rest) (n + 1, isElse) = branchAt? rest (n, isElse) := by
  simp [branchAt?]

theorem branchAt?_nil (turn : Turn) : branchAt? [] turn = none := by
  simp [branchAt?]

/-- A branch of some conditionals is one of the first conditional or of the others. -/
theorem exists_branchAt?_cons {conditional : Conditional} {rest : List Conditional}
    {branch : FieldSet} :
    (∃ turn, branchAt? (conditional :: rest) turn = some branch) ↔
      branch ∈ conditional.branches ∨ ∃ turn, branchAt? rest turn = some branch := by
  rw [← exists_branch?_iff]
  constructor
  · rintro ⟨⟨n, isElse⟩, hbranch⟩
    cases n with
    | zero => exact .inl ⟨isElse, hbranch⟩
    | succ n => exact .inr ⟨(n, isElse), branchAt?_cons_succ conditional rest n isElse ▸ hbranch⟩
  · rintro (⟨isElse, hbranch⟩ | ⟨⟨n, isElse⟩, hbranch⟩)
    · exact ⟨(0, isElse), hbranch⟩
    · exact ⟨(n + 1, isElse), (branchAt?_cons_succ conditional rest n isElse).trans hbranch⟩

theorem contains_iff {conditionals : List Conditional} {scope : FieldSet} :
    Contains conditionals scope ↔ ∃ branch, (∃ turn, branchAt? conditionals turn = some branch) ∧
      (branch = scope ∨ Contains branch.conditionals scope) := by
  constructor
  · rintro ⟨turn, branch, path, hbranch, hscope⟩
    exact ⟨branch, ⟨turn, hbranch⟩, FieldSet.exists_at?_iff.1 ⟨path, hscope⟩⟩
  · rintro ⟨branch, ⟨turn, hbranch⟩, hscope⟩
    obtain ⟨path, hpath⟩ := FieldSet.exists_at?_iff.2 hscope
    exact ⟨turn, branch, path, hbranch, hpath⟩

theorem not_contains_nil (scope : FieldSet) : ¬Contains [] scope := by
  rintro ⟨turn, branch, path, hbranch, -⟩
  cases (branchAt?_nil turn).symm.trans hbranch

/-- What stands in some conditionals stands in a branch of the first one or in the others. -/
theorem contains_cons {conditional : Conditional} {rest : List Conditional} {scope : FieldSet} :
    Contains (conditional :: rest) scope ↔
      (∃ branch ∈ conditional.branches, branch = scope ∨ Contains branch.conditionals scope) ∨
        Contains rest scope := by
  rw [contains_iff, contains_iff]
  simp only [exists_branchAt?_cons, or_and_right, exists_or]

end Conditional

/-! ### What conditionals name and find -/

/-- Whether something is among what some scope gives. -/
def Conditional.Gives (conditionals : List Conditional) (gives : FieldSet → List String)
    (m : String) : Prop :=
  ∃ scope, Conditional.Contains conditionals scope ∧ m ∈ gives scope

variable {gives : FieldSet → List String} {m : String}

theorem Conditional.not_gives_nil : ¬Gives [] gives m := by
  rintro ⟨scope, hscope, -⟩
  exact not_contains_nil scope hscope

theorem Conditional.gives_cons {conditional : Conditional} {rest : List Conditional} :
    Gives (conditional :: rest) gives m ↔
      (∃ branch ∈ conditional.branches, m ∈ gives branch ∨ Gives branch.conditionals gives m) ∨
        Gives rest gives m := by
  simp only [Gives, contains_cons, or_and_right, exists_or]
  refine or_congr_left ⟨?_, ?_⟩
  -- What gives the module is the branch itself, or a scope in it.
  · rintro ⟨scope, ⟨branch, hbranch, rfl | hscope⟩, hm⟩
    · exact ⟨branch, hbranch, .inl hm⟩
    · exact ⟨branch, hbranch, .inr ⟨scope, hscope, hm⟩⟩
  · rintro ⟨branch, hbranch, hm | ⟨scope, hscope, hm⟩⟩
    · exact ⟨branch, ⟨branch, hbranch, .inl rfl⟩, hm⟩
    · exact ⟨scope, ⟨branch, hbranch, .inr hscope⟩, hm⟩

/-- What a branch gives, or a scope in it, the conditionals give. -/
theorem Conditional.Gives.of_branchAt? {conditionals : List Conditional} {turn : Turn}
    {branch : FieldSet} (hbranch : branchAt? conditionals turn = some branch)
    (h : m ∈ gives branch ∨ Gives branch.conditionals gives m) : Gives conditionals gives m := by
  obtain hm | ⟨scope, hscope, hm⟩ := h
  · exact ⟨branch, contains_iff.2 ⟨branch, ⟨turn, hbranch⟩, .inl rfl⟩, hm⟩
  · exact ⟨scope, contains_iff.2 ⟨branch, ⟨turn, hbranch⟩, .inr hscope⟩, hm⟩

mutual

theorem FieldSet.mem_mentioned_iff (fields : FieldSet) :
    m ∈ fields.mentioned ↔
      m ∈ fields.declared ∨ Conditional.Gives fields.conditionals FieldSet.declared m := by
  rw [FieldSet.mentioned, List.mem_append, Conditional.mem_mentionedIn_iff]
termination_by sizeOf fields
decreasing_by exact fields.sizeOf_conditionals_lt

/-- The modules that conditionals name are those that some scope in them declares. -/
theorem Conditional.mem_mentionedIn_iff (conditionals : List Conditional) :
    m ∈ Conditional.mentionedIn conditionals ↔
      Conditional.Gives conditionals FieldSet.declared m := by
  match conditionals with
  | [] =>
    rw [Conditional.mentionedIn]
    exact iff_of_false List.not_mem_nil Conditional.not_gives_nil
  | ⟨_, thenFields, none⟩ :: rest =>
    rw [Conditional.mentionedIn, List.mem_append, FieldSet.mem_mentioned_iff thenFields,
      Conditional.mem_mentionedIn_iff rest, Conditional.gives_cons]
    simp [Conditional.branches]
  | ⟨_, thenFields, some elseFields⟩ :: rest =>
    rw [Conditional.mentionedIn, List.mem_append, List.mem_append,
      FieldSet.mem_mentioned_iff thenFields, FieldSet.mem_mentioned_iff elseFields,
      Conditional.mem_mentionedIn_iff rest, Conditional.gives_cons]
    simp [Conditional.branches]
termination_by sizeOf conditionals

end

open Discovery

/-- The modules under the source directories of a scope. -/
def FieldSet.found (view : String → List String) (fields : FieldSet) : List String :=
  under view (fields.texts "source-dirs")

variable {lister : Lister} {view : String → List String}

mutual

theorem FieldSet.meets_foundInside (fields : FieldSet) :
    Meets lister view (fun modules ↦ ∀ m, m ∈ modules ↔
        m ∈ fields.found view ∨ Conditional.Gives fields.conditionals (FieldSet.found view) m)
      (fields.foundInside lister) := by
  rw [FieldSet.foundInside]
  refine (meets_discover _).bind fun own hown ↦ ?_
  refine (Conditional.meets_foundIn fields.conditionals).bind fun inside hinside ↦ .pure fun m ↦ ?_
  rw [List.mem_append, hinside, hown, FieldSet.found]
termination_by sizeOf fields
decreasing_by exact fields.sizeOf_conditionals_lt

/-- The modules that are found under conditionals are those that some scope in them finds. -/
theorem Conditional.meets_foundIn (conditionals : List Conditional) :
    Meets lister view (fun modules ↦ ∀ m, m ∈ modules ↔
        Conditional.Gives conditionals (FieldSet.found view) m)
      (Conditional.foundIn lister conditionals) := by
  match conditionals with
  | [] =>
    rw [Conditional.foundIn]
    exact .pure fun m ↦ iff_of_false List.not_mem_nil Conditional.not_gives_nil
  | ⟨_, thenFields, none⟩ :: rest =>
    rw [Conditional.foundIn]
    refine (FieldSet.meets_foundInside thenFields).bind fun inThen hthen ↦ ?_
    refine (Conditional.meets_foundIn rest).bind fun inRest hrest ↦ .pure fun m ↦ ?_
    rw [List.mem_append, hthen, hrest, Conditional.gives_cons]
    simp [Conditional.branches]
  | ⟨_, thenFields, some elseFields⟩ :: rest =>
    -- What is found in one branch leaves unchanged what is shown for the next.
    rw [Conditional.foundIn]
    refine (FieldSet.meets_foundInside thenFields).bind fun inThen hthen ↦ ?_
    refine (FieldSet.meets_foundInside elseFields).bind fun inElse helse ↦ ?_
    refine (Conditional.meets_foundIn rest).bind fun inRest hrest ↦ .pure fun m ↦ ?_
    rw [List.mem_append, List.mem_append, hthen, helse, hrest, Conditional.gives_cons]
    simp [Conditional.branches]
termination_by sizeOf conditionals

end

end CabalManifest
