import CabalManifest.Proofs.Descents
import CabalManifest.Proofs.FetchedDocuments
import CabalManifest.Proofs.KnownDocuments

/-!
# Defaults without cycles

Reading a manifest ends whatever its documents refer to: beyond the number of documents the bound on
chains does not matter. It succeeds only if no document on a trail from the manifest comes back, and
a cycle that it reports is one (`Context.package_acyclic`).
-/

namespace CabalManifest

/-- The scope of a manifest in the directory of its package. -/
def Site.ofManifest (entries : List (String × Value)) (directory : PosixPath) : Site :=
  ⟨.package, entries, directory⟩

namespace Context

variable (source : String) (directory : PosixPath) (resolver : Resolver) {start : World}
  {s : Progress (Cache × World)} {bound : Nat}

/-- The context of a manifest stands at its scope. -/
theorem stands_ofPackage (start : World) (entries : List (String × Value)) (state : Cache × World) :
    (resolver.library start).Stands (.ofManifest entries directory) state
      (ofPackage source directory (some resolver)) (.ofManifest entries directory) :=
  ⟨rfl, .nil _, List.nodup_nil, List.nil_subset _⟩

/-- Reading a manifest ends: the bound, if it is at least that of the first world, does not matter.
Where it succeeds, the documents on every trail from the manifest are distinct and all that they
refer to are found. Where it reports a cycle, that is one, and a trail from the manifest leads
there. -/
theorem package_acyclic (hplaced : start.IsPlaced) (hs : (resolver.library start).holds s.state)
    (hbound : start.documentBound ≤ bound) (value : Value) :
    let library := resolver.library start
    let context := ofPackage source directory (some resolver)
    (context.package bound value).run s = (context.package start.documentBound value).run s ∧
    (∀ fields t, (context.package bound value).run s = (.ok fields, t) →
      ∀ entries, value = .object entries → ∀ paths last,
        library.Trail (library.known t.state) (.ofManifest entries directory) paths last →
          paths.Nodup ∧ ∀ inner target reference,
            Refers last.registries last.entries inner target → target.Names reference →
              (library.known t.state (library.target last.directory reference)).isSome) ∧
    ∀ cycle t, (context.package bound value).run s = (.error (.cyclicDefaults cycle), t) →
      ∃ entries, value = .object entries ∧
        library.IsCycle (library.known t.state) (.ofManifest entries directory) cycle := by
  intro library context
  have hserves : library.Serves context.services := resolver.serves_library hplaced directory
  have hlength : library.paths.length < start.documentBound :=
    start.length_documentPaths_lt resolver.store
  cases value with
  | scalar | array =>
    exact ⟨rfl, fun _ _ _ entries hentries ↦ (by cases hentries), fun _ _ hrun ↦ by cases hrun⟩
  | object entries =>
    have hstands := stands_ofPackage source directory resolver start entries s.state
    have hscope : (Site.ofManifest entries directory).registries.IsScope := .inl rfl
    have hchain : library.paths.length ≤ context.visited.length + bound := by omega
    have hchain' : library.paths.length ≤ context.visited.length + start.documentBound := by omega
    have hholds : (library.contract (.ofManifest entries directory) s.state).holds s.state :=
      ⟨hs, .refl _⟩
    obtain ⟨hmeets, hsame⟩ :=
      Library.alike_scope_document hserves hstands hscope hchain hchain' Place.top
    refine ⟨hsame s hholds, ?_, fun cycle t hrun ↦ ⟨entries, rfl, ?_⟩⟩
    · rintro fields t hrun _ ⟨⟩ paths last htrail
      exact (hstands.of_trail hserves hscope hchain hholds hrun (.refl _) htrail).2
    · have hfailed := hmeets s hholds
      have hscoped : (scope (document bound) context (Site.ofManifest entries directory).registries
        Place.top (Site.ofManifest entries directory).entries).run s = _ := hrun
      rw [hscoped] at hfailed
      exact hfailed.2.2 cycle rfl

/-! ### A document that refers to itself -/

/-- The fields of a document, or of a manifest, that refers to a document next to it. -/
def loopFields : List (String × Value) := [("defaults", .object [("local", .text "loop.yaml")])]

/-- A world with this document. -/
def loopWorld : World :=
  ⟨⟨[(["home"], .directory), (["home", "loop.yaml"], .file .empty)]⟩, [], ⟨.slash, ["home"]⟩, [],
    [], [], .silent, []⟩

/-- The state in which the document is known. -/
def loopState : Progress (Cache × World) := ⟨[], [("/home/loop.yaml", loopFields)], loopWorld⟩

/-- The resolver of the manifest. -/
def loopResolver : Resolver := ⟨⟨.slash, ["store"]⟩, none⟩

/-- The context of a document in this directory, after some others. -/
def loopContext (source : String) (visited : List String) : Context (Cache × World) :=
  ⟨.ofPackage ⟨.slash, ["home"]⟩ (some loopResolver), source, ⟨.slash, ["home"]⟩, visited⟩

theorem run_scope_loop (source : String) (visited : List String)
    (read : ReadDocument (Cache × World)) :
    (scope read (loopContext source visited) .package Place.top loopFields).run loopState =
      (do return (← inherit read (loopContext source visited) .package .empty
        [.onDisk "loop.yaml"]).merge ⟨[]⟩ : Decode _ _).run loopState := by
  have hown : (fields read (loopContext source visited) .package (fun _ ↦ false) Place.top
      loopFields).run loopState = (.ok [], loopState) := by
    simp only [loopFields, fields]
    rfl
  have hdefaults : ((loopContext source visited).defaults read .package (Place.top.key "defaults")
      (.object [("local", .text "loop.yaml")])).run loopState =
        (inherit read (loopContext source visited) .package .empty [.onDisk "loop.yaml"]).run
          loopState := by
    have hlist : Reference.listOf source (Place.top.key "defaults")
        (.object [("local", .text "loop.yaml")]) = ([], .ok [.onDisk "loop.yaml"]) := rfl
    have hwarn : (Decode.warnAll [] : Decode (Cache × World) Unit).run loopState =
      (.ok (), loopState) := rfl
    have hresolve : (loopContext source visited).services.resolve?.isNone = false := rfl
    have hsource : (loopContext source visited).source = source := rfl
    rw [defaults, hsource, hlist]
    simp only [Decode.ofExcept, pure_bind, hresolve, Bool.false_eq_true, if_false]
    exact run_bind_of_ok hwarn _
  rw [scope, run_bind_of_ok hown]
  exact run_bind_congr hdefaults _

/-- The document is known, so it is found unless the reference closes a cycle. -/
theorem run_resolve_loop (source : String) (visited : List String) :
    ((loopContext source visited).resolve (.onDisk "loop.yaml")).run loopState =
      (if "/home/loop.yaml" ∈ visited then
        .error (.cyclicDefaults (Resolver.cycleTo "/home/loop.yaml" visited))
      else .ok ⟨loopFields, "/home/loop.yaml", "/home/loop.yaml", ⟨.slash, ["home"]⟩⟩,
        loopState) := by
  have hlocate : loopResolver.locate ⟨.slash, ["home"]⟩ (.onDisk "loop.yaml") loopWorld =
      .ok (⟨.slash, ["home", "loop.yaml"]⟩, "/home/loop.yaml") :=
    Resolver.locate_of_checkPath rfl (World.checkPath_of_notMem (by decide) (by decide))
  have htarget : loopResolver.target loopWorld ⟨.slash, ["home"]⟩ (.onDisk "loop.yaml") =
      "/home/loop.yaml" := rfl
  have hknown : loopState.state.1.get? "/home/loop.yaml" = some loopFields := rfl
  have hresolver := @Resolver.run_resolve loopResolver (.onDisk "loop.yaml") visited
    ⟨.slash, ["home"]⟩ loopState.state.1 loopWorld
  rw [Context.run_resolve _ rfl]
  split
  · next h =>
    simp only [hlocate, htarget, if_pos h] at hresolver
    have hfound := @Services.eq_settle ⟨.slash, ["home"]⟩ _ _ rfl _ _ _ _ _ _ _ hresolver
    exact congrArg (fun found ↦ (found.1, (⟨[], found.2⟩ : Progress (Cache × World)))) hfound
  · next h =>
    simp only [hlocate, htarget, if_neg h, hknown] at hresolver
    have hfound := @Services.eq_settle ⟨.slash, ["home"]⟩ _ _ rfl _ _ _ _ _ _ _ hresolver
    exact congrArg (fun found ↦ (found.1, (⟨[], found.2⟩ : Progress (Cache × World)))) hfound

/-- The document is found first, and leads back to itself then. -/
theorem run_package_loop :
    ((ofPackage "package.yaml" ⟨.slash, ["home"]⟩ (some loopResolver)).package
      loopWorld.documentBound (.object loopFields)).run loopState =
        (.error (.cyclicDefaults ["/home/loop.yaml", "/home/loop.yaml"]), loopState) := by
  have hfirst : ((loopContext "package.yaml" []).resolve (.onDisk "loop.yaml")).run loopState =
      (.ok ⟨loopFields, "/home/loop.yaml", "/home/loop.yaml", ⟨.slash, ["home"]⟩⟩, loopState) :=
    run_resolve_loop "package.yaml" []
  have hsecond : ((loopContext "/home/loop.yaml" ["/home/loop.yaml"]).resolve
      (.onDisk "loop.yaml")).run loopState =
        (.error (.cyclicDefaults ["/home/loop.yaml", "/home/loop.yaml"]), loopState) :=
    run_resolve_loop "/home/loop.yaml" ["/home/loop.yaml"]
  show (scope (document 3) (loopContext "package.yaml" []) .package Place.top loopFields).run
    loopState = _
  rw [run_scope_loop, inherit, bind_assoc, run_bind_of_ok hfirst, bind_assoc]
  refine run_bind_of_error ?_ _
  show (scope (document 2) (loopContext "/home/loop.yaml" ["/home/loop.yaml"]) .package Place.top
    loopFields).run loopState = _
  rw [run_scope_loop, inherit, bind_assoc, run_bind_of_error hsecond]

/-- So the manifest fails with a cycle, and the document leads to itself. -/
theorem package_acyclic_loop :
    (loopResolver.library loopWorld).IsCycle (Entries.get? [("/home/loop.yaml", loopFields)])
      (.ofManifest loopFields ⟨.slash, ["home"]⟩) ["/home/loop.yaml", "/home/loop.yaml"] := by
  have hplaced : loopWorld.IsPlaced := rfl
  have hholds : (loopResolver.library loopWorld).holds loopState.state := by
    refine ⟨World.isLater_self loopWorld _, ?_⟩
    decide
  have hacyclic := package_acyclic "package.yaml" ⟨.slash, ["home"]⟩ loopResolver hplaced hholds
    le_rfl (.object loopFields)
  obtain ⟨entries, hentries, hcycle⟩ := hacyclic.2.2 _ _ run_package_loop
  cases hentries
  exact hcycle

end Context

end CabalManifest
