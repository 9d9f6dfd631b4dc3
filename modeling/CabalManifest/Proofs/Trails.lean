import CabalManifest.Proofs.ReadingScopes
import Mathlib.Data.List.Nodup
import Mathlib.Data.List.Perm.Subperm

/-!
# Trails of documents

A scope that is being read leads to the documents that it refers to, and these lead on to others. A
*trail* is a chain of documents, each of which refers to the next one. Where services follow the
references as a library says, the chain that a context knows is a trail without repetitions; so it
has no more documents than there are, and a bound at least as large as their number never matters
(`Library.alike_scope_document`). A failure that reports a cycle reports a trail that ends where it
starts.
-/

namespace CabalManifest

/-- The fields of documents, by their absolute paths. -/
abbrev Documents := String → Option (List (String × Value))

/-- A scope that is being read: its registries and fields, and the directory from which its
references are seen. -/
structure Site where
  registries : Registries
  entries : List (String × Value)
  directory : PosixPath

/-- What references lead to, as a service finds it in its states. -/
structure Library (σ : Type) where
  /-- The absolute path of the document that a reference names, seen from a directory. -/
  target : PosixPath → Reference → String
  /-- The directory from which the references of that document are seen. -/
  folder : PosixPath → Reference → PosixPath
  /-- The documents that have been found. -/
  known : σ → Documents
  /-- The states that occur. -/
  holds : σ → Prop
  /-- The absolute paths of all documents there can be. -/
  paths : List String

namespace Library

variable {σ : Type} (library : Library σ)

/-! ### Trails -/

/-- A scope leads to a document that one of its references names. -/
inductive Leads (documents : Documents) : Site → String → Site → Prop
  | mk {site : Site} {inner : Registries} {value : Value} {reference : Reference}
    {entries : List (String × Value)} (hrefers : Refers site.registries site.entries inner value)
    (hnames : value.Names reference)
    (hknown : documents (library.target site.directory reference) = some entries) :
    Leads documents site (library.target site.directory reference)
      ⟨inner, entries, library.folder site.directory reference⟩

/-- A chain of documents, by their absolute paths, each of which leads to the next one. -/
inductive Trail (documents : Documents) : Site → List String → Site → Prop
  | nil (site : Site) : Trail documents site [] site
  | cons {site next last : Site} {path : String} {paths : List String}
    (h : library.Leads documents site path next) (h' : Trail documents next paths last) :
    Trail documents site (path :: paths) last

variable {library} {documents documents' : Documents} {site next last : Site} {path : String}
  {paths paths' : List String}

theorem Trail.append (h : library.Trail documents site paths next)
    (h' : library.Trail documents next paths' last) :
    library.Trail documents site (paths ++ paths') last := by
  induction h with
  | nil => exact h'
  | cons hleads _ ih => exact .cons hleads (ih h')

theorem Trail.concat (h : library.Trail documents site paths next)
    (h' : library.Leads documents next path last) :
    library.Trail documents site (paths ++ [path]) last :=
  h.append (.cons h' (.nil last))

/-- A trail can be cut anywhere. -/
theorem Trail.exists_of_append (h : library.Trail documents site (paths ++ paths') last) :
    ∃ next, library.Trail documents site paths next ∧
      library.Trail documents next paths' last := by
  induction paths generalizing site with
  | nil => exact ⟨site, .nil site, h⟩
  | cons path paths ih =>
    obtain _ | ⟨hleads, hrest⟩ := h
    obtain ⟨next, hfirst, hsecond⟩ := ih hrest
    exact ⟨next, .cons hleads hfirst, hsecond⟩

/-! ### Finding more documents -/

/-- Whether all documents are still found. -/
def Grow (documents documents' : Documents) : Prop :=
  ∀ path entries, documents path = some entries → documents' path = some entries

theorem Grow.refl (documents : Documents) : Grow documents documents := fun _ _ h ↦ h

theorem Grow.trans {documents documents' documents'' : Documents} (h : Grow documents documents')
    (h' : Grow documents' documents'') : Grow documents documents'' :=
  fun path entries hknown ↦ h' path entries (h path entries hknown)

theorem Leads.mono (h : library.Leads documents site path next) (hgrow : Grow documents documents') :
    library.Leads documents' site path next := by
  obtain ⟨hrefers, hnames, hknown⟩ := h
  exact ⟨hrefers, hnames, hgrow _ _ hknown⟩

theorem Trail.mono (h : library.Trail documents site paths last)
    (hgrow : Grow documents documents') : library.Trail documents' site paths last := by
  induction h with
  | nil => exact .nil _
  | cons hleads _ ih => exact .cons (hleads.mono hgrow) ih

/-! ### Cycles -/

/-- Whether paths are those of a cycle: they end with the path that they start with, are distinct
apart from that, and each leads to the next one. Some trail leads to the first of them. -/
def IsCycle (library : Library σ) (documents : Documents) (root : Site) (cycle : List String) :
    Prop :=
  ∃ path paths, cycle = path :: (paths ++ [path]) ∧ (path :: paths).Nodup ∧
    ∃ before site last, library.Trail documents root (before ++ [path]) site ∧
      library.Trail documents site (paths ++ [path]) last

/-- The end of a trail that leads back to it is a cycle. -/
theorem isCycle_cycleTo {root : Site} (h : library.Trail documents root paths site)
    (hnodup : paths.Nodup) (hleads : library.Leads documents site path next) (hmem : path ∈ paths) :
    library.IsCycle documents root (Resolver.cycleTo path paths) := by
  obtain ⟨before, after, rfl, hnew⟩ := List.eq_append_cons_of_mem hmem
  refine ⟨path, after, ?_, (List.nodup_append.1 hnodup).2.1, ?_⟩
  · have hbefore : ∀ other ∈ before, (other != path) = true := by
      intro other hother
      rw [bne_iff_ne]
      rintro rfl
      exact hnew hother
    rw [Resolver.cycleTo, List.dropWhile_append_of_pos hbefore, List.dropWhile_cons_of_neg (by simp)]
    rfl
  · rw [List.append_cons] at h
    obtain ⟨first, hfirst, hrest⟩ := h.exists_of_append
    exact ⟨before, first, next, hfirst, hrest.concat hleads⟩

/-! ### Services -/

/-- Whether a document is the one that a reference names, and none of the chain that leads to it. -/
structure Finds (library : Library σ) (directory : PosixPath) (reference : Reference)
    (visited : List String) (s : σ) (document : Document) : Prop where
  canonical_eq : document.canonical = library.target directory reference
  directory_eq : document.directory = library.folder directory reference
  not_mem : document.canonical ∉ visited
  mem_paths : document.canonical ∈ library.paths
  known_eq : library.known s document.canonical = some document.value

/-- Whether a result of resolving a reference is as the library says: the document that the reference
names, or a failure. A cycle is only reported if the document is one of the chain. -/
def Answers (library : Library σ) (directory : PosixPath) (reference : Reference)
    (visited : List String) (s : σ) : Except Failure Document → Prop
  | .ok document => library.Finds directory reference visited s document
  | .error failure => ∀ cycle, failure = .cyclicDefaults cycle →
    library.target directory reference ∈ visited ∧
      cycle = Resolver.cycleTo (library.target directory reference) visited

/-- Whether services follow references as a library says. -/
structure Serves (library : Library σ) (services : Services σ) : Prop where
  glob : ∀ pattern s failure, services.glob pattern s = .error failure → ¬failure.IsCycle
  resolve : ∀ resolve ∈ services.resolve?, ∀ reference : Reference, reference.IsProper →
    ∀ visited directory s, library.holds s →
      library.holds (resolve reference visited directory s).2 ∧
        Grow (library.known s) (library.known (resolve reference visited directory s).2) ∧
          library.Answers directory reference visited (resolve reference visited directory s).2
            (resolve reference visited directory s).1

/-- The contract of reading below a scope: no document is forgotten, and a reported cycle is one. -/
def contract (library : Library σ) (root : Site) (base : σ) : Contract σ where
  holds s := library.holds s ∧ Grow (library.known base) (library.known s)
  follows s t := Grow (library.known s) (library.known t)
  allows failure s :=
    ∀ cycle, failure = .cyclicDefaults cycle → library.IsCycle (library.known s) root cycle
  refl s := .refl (library.known s)
  trans := .trans
  allows_of_not_isCycle := by
    rintro failure s h cycle rfl
    exact (h trivial).elim

theorem Trail.exists_known (h : library.Trail documents site paths last) (hmem : path ∈ paths) :
    ∃ entries, documents path = some entries := by
  induction h with
  | nil => cases hmem
  | cons hleads _ ih =>
    rcases List.mem_cons.1 hmem with rfl | hrest
    · obtain ⟨-, -, hknown⟩ := hleads
      exact ⟨_, hknown⟩
    · exact ih hrest

/-- Where a context stands: the chain that it knows is a trail to a scope, without repetitions. -/
structure Stands (library : Library σ) (root : Site) (s : σ) (context : Context σ) (site : Site) :
    Prop where
  directory_eq : context.directory = site.directory
  trail : library.Trail (library.known s) root context.visited site
  nodup : context.visited.Nodup
  subset : context.visited ⊆ library.paths

variable {root : Site} {base : σ} {context : Context σ}

theorem canGlob_contract (hserves : library.Serves context.services) :
    context.services.CanGlob (library.contract root base).Tolerates := by
  intro pattern s failure hglob t
  exact (library.contract root base).allows_of_not_isCycle _ t (hserves.glob _ _ _ hglob)

/-- A chain is not longer than there are documents. -/
theorem Stands.length_le (h : library.Stands root base context site) :
    context.visited.length ≤ library.paths.length :=
  (h.nodup.subperm h.subset).length_le

/-- Resolving a proper reference answers as the library says. -/
theorem answers_of_run (hserves : library.Serves context.services) {reference : Reference}
    (hproper : reference.IsProper) {s t : Progress σ} (hs : library.holds s.state)
    {result : Except Failure Document} (hrun : (context.resolve reference).run s = (result, t)) :
    library.holds t.state ∧ Grow (library.known s.state) (library.known t.state) ∧
      library.Answers context.directory reference context.visited t.state result := by
  cases hresolve : context.services.resolve? with
  | none =>
    rw [context.run_resolve_of_none hresolve] at hrun
    cases hrun
    exact ⟨hs, .refl _, fun _ hcycle ↦ by cases hcycle⟩
  | some resolve =>
    rw [context.run_resolve hresolve] at hrun
    cases hrun
    exact hserves.resolve resolve hresolve reference hproper _ _ _ hs

section

variable (hserves : library.Serves context.services) (hstands : library.Stands root base context site)
  {inner : Registries} {value : Value} {reference : Reference}
  (hrefers : Refers site.registries site.entries inner value) (hnames : value.Names reference)
  {s t : Progress σ} (hs : (library.contract root base).holds s.state)
include hserves hstands hrefers hnames hs

/-- A context that enters a document stands there. -/
theorem Stands.enter {document : Document}
    (hrun : (context.resolve reference).run s = (.ok document, t)) :
    library.holds t.state ∧ Grow (library.known s.state) (library.known t.state) ∧
      library.Finds site.directory reference context.visited t.state document ∧
        library.Stands root t.state (context.enter document)
          ⟨inner, document.value, document.directory⟩ := by
  obtain ⟨hholds, hgrow, hfinds⟩ := answers_of_run hserves hnames.isProper hs.1 hrun
  rw [hstands.directory_eq] at hfinds
  refine ⟨hholds, hgrow, hfinds, rfl, ?_, ?_, ?_⟩
  · have hknown := hfinds.known_eq
    rw [hfinds.canonical_eq] at hknown
    have hleads := Leads.mk hrefers hnames hknown
    rw [← hfinds.canonical_eq, ← hfinds.directory_eq] at hleads
    exact (hstands.trail.mono (hs.2.trans hgrow)).concat hleads
  · show (context.visited ++ [document.canonical]).Nodup
    rw [← List.concat_eq_append]
    exact hstands.nodup.concat hfinds.not_mem
  · exact List.append_subset.2 ⟨hstands.subset, by simp [hfinds.mem_paths]⟩

/-- A failure to enter a document reports no cycle that is none. -/
theorem Stands.allows_of_error {failure : Failure}
    (hrun : (context.resolve reference).run s = (.error failure, t)) :
    library.holds t.state ∧ Grow (library.known s.state) (library.known t.state) ∧
      (library.contract root base).allows failure t.state := by
  obtain ⟨hholds, hgrow, hanswers⟩ := answers_of_run hserves hnames.isProper hs.1 hrun
  rw [hstands.directory_eq] at hanswers
  refine ⟨hholds, hgrow, fun cycle hcycle ↦ ?_⟩
  obtain ⟨hmem, rfl⟩ := hanswers cycle hcycle
  obtain ⟨entries, hentries⟩ := hstands.trail.exists_known hmem
  have hlater := hs.2.trans hgrow
  have hleads := Leads.mk hrefers hnames (hlater _ _ hentries)
  exact isCycle_cycleTo (hstands.trail.mono hlater) hstands.nodup hleads hmem

end

/-! ### Reading along trails -/

/-- What is right for a later state is right for an earlier one. -/
theorem isRight_of_later {α : Type} {p : α → Prop} {s t : σ}
    (hbase : Grow (library.known base) (library.known s))
    (hgrow : Grow (library.known s) (library.known t)) {outcome : Decode.Outcome σ α}
    (h : Decode.Outcome.IsRight (library.contract root t) p t outcome) :
    Decode.Outcome.IsRight (library.contract root base) p s outcome := by
  have hlater := hbase.trans hgrow
  obtain ⟨failure | result, u⟩ := outcome
  all_goals
    obtain ⟨⟨hholds, hbefore⟩, hfollows, hrest⟩ := h
    exact ⟨⟨hholds, hlater.trans hbefore⟩, hgrow.trans hfollows, hrest⟩

/-- A document that a scope refers to is read alike, if the documents beyond it are. -/
theorem readAlike_of_enter (hserves : library.Serves context.services)
    (hstands : library.Stands root base context site) {inner : Registries} {value : Value}
    {reference : Reference} (hrefers : Refers site.registries site.entries inner value)
    (hnames : value.Names reference) {read read' : ReadDocument σ}
    (h : ∀ (t : σ) (document : Document),
      library.Stands root t (context.enter document) ⟨inner, document.value, document.directory⟩ →
        (read context inner document).Alike (library.contract root t) (fun _ ↦ True)
          (read' context inner document)) :
    context.ReadAlike (library.contract root base) False read read' inner reference := by
  have hstep : ∀ s : Progress σ, (library.contract root base).holds s.state →
      Decode.Outcome.IsRight (library.contract root base) (fun _ ↦ True) s.state
        ((context.resolve reference >>= read context inner).run s) ∧
      (context.resolve reference >>= read context inner).run s =
        (context.resolve reference >>= read' context inner).run s := by
    intro s hs
    rcases hrun : (context.resolve reference).run s with ⟨failure | document, t⟩
    · rw [run_bind_of_error hrun, run_bind_of_error hrun]
      obtain ⟨hholds, hgrow, hallows⟩ := hstands.allows_of_error hserves hrefers hnames hs hrun
      exact ⟨⟨⟨hholds, hs.2.trans hgrow⟩, hgrow, hallows⟩, rfl⟩
    · rw [run_bind_of_ok hrun, run_bind_of_ok hrun]
      obtain ⟨hholds, hgrow, -, henter⟩ := hstands.enter hserves hrefers hnames hs hrun
      obtain ⟨hmeets, hsame⟩ := h t.state document henter
      have ht : (library.contract root t.state).holds t.state := ⟨hholds, .refl _⟩
      exact ⟨isRight_of_later hs.2 hgrow (hmeets t ht), hsame t ht⟩
  have hmeets : (context.resolve reference >>= read context inner).Meets
      (library.contract root base) fun _ ↦ True := fun s hs ↦ (hstep s hs).1
  exact ⟨hmeets.imp fun _ _ hstrict ↦ hstrict.elim, fun s hs ↦ (hstep s hs).2⟩

/-- A scope is read alike, if the documents are to which it leads. -/
theorem alike_scope_of_enter (hserves : library.Serves context.services)
    (hstands : library.Stands root base context site) (hscope : site.registries.IsScope)
    {read read' : ReadDocument σ}
    (h : ∀ inner : Registries, inner.IsScope → ∀ (t : σ) (document : Document),
      library.Stands root t (context.enter document) ⟨inner, document.value, document.directory⟩ →
        (read context inner document).Alike (library.contract root t) (fun _ ↦ True)
          (read' context inner document)) (place : Place) :
    (Context.scope read context site.registries place site.entries).Alike
      (library.contract root base) (fun _ ↦ True)
      (Context.scope read' context site.registries place site.entries) := by
  have hreads : ∀ inner value, Refers site.registries site.entries inner value →
      context.ReadsAlike (library.contract root base) False read read' inner value :=
    fun inner value hrefers ↦ .of_names fun reference hnames ↦
      readAlike_of_enter hserves hstands hrefers hnames (h inner (hrefers.isScope hscope))
  exact (Context.alike_scope _ (canGlob_contract hserves) hscope.isFlat place _ hreads).imp
    fun _ _ ↦ trivial

/-- Reading a document does not depend on the bound, if that is at least the number of documents that
the chain before it lacks. -/
theorem alike_document (hserves : library.Serves context.services) {document : Document}
    {inner : Registries} (hinner : inner.IsScope)
    (henter : library.Stands root base (context.enter document)
      ⟨inner, document.value, document.directory⟩)
    {bound bound' : Nat} (hbound : library.paths.length ≤ context.visited.length + bound)
    (hbound' : library.paths.length ≤ context.visited.length + bound') :
    (Context.document bound context inner document).Alike (library.contract root base) (fun _ ↦ True)
      (Context.document bound' context inner document) := by
  have hvisited : (context.enter document).visited.length = context.visited.length + 1 := by
    simp [Context.enter]
  have hlength := henter.length_le
  induction bound generalizing bound' base context document inner with
  | zero => omega
  | succ bound ih =>
    obtain _ | bound' := bound'
    · omega
    · have hinside : library.Serves (context.enter document).services := hserves
      rw [Context.document, Context.document]
      refine alike_scope_of_enter hinside henter hinner (fun inner hinner t next hnext ↦ ?_) Place.top
      refine ih hinside hinner hnext (by omega) (by omega) ?_ hnext.length_le
      simp [Context.enter]

/-- Reading a scope does not depend on the bound either, and a cycle that it reports is one. -/
theorem alike_scope_document (hserves : library.Serves context.services)
    (hstands : library.Stands root base context site) (hscope : site.registries.IsScope)
    {bound bound' : Nat} (hbound : library.paths.length ≤ context.visited.length + bound)
    (hbound' : library.paths.length ≤ context.visited.length + bound') (place : Place) :
    (Context.scope (Context.document bound) context site.registries place site.entries).Alike
      (library.contract root base) (fun _ ↦ True)
      (Context.scope (Context.document bound') context site.registries place site.entries) :=
  alike_scope_of_enter hserves hstands hscope
    (fun _ hinner _ _ henter ↦ alike_document hserves hinner henter hbound hbound') place

end Library

end CabalManifest
