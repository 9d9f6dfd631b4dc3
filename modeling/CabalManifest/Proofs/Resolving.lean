import CabalManifest.Manifest
import CabalManifest.Proofs.KeyedValues
import CabalManifest.Proofs.Reading

/-!
# How references resolve

A reference is resolved in one of five ways (`Resolver.resolves`): its file has no name in messages,
it leads back to a document of the chain, its document is known, or the document has to be read,
which can fail. So whatever resolving keeps, it keeps in each of these ways.
-/

namespace CabalManifest

theorem Run.run_reading {α : Type} (read : World → Except Failure α) (world : World) :
    (Run.reading read).run world = (read world, world) := by
  have hget : (get : Run World).run world = (.ok world, world) := rfl
  rw [Run.reading, run_bind_of_ok hget]
  cases read world <;> rfl

theorem Run.run_reading_of_eq {α : Type} {read : World → Except Failure α} {world : World}
    {result : Except Failure α} (h : read world = result) :
    (Run.reading read).run world = (result, world) := by
  rw [run_reading, h]

/-- A computation that starts by reading and gives a result has read something. -/
theorem Run.exists_of_run_reading {α β : Type} {read : World → Except Failure α}
    {k : α → Run β} {world world' : World} {b : β}
    (h : (Run.reading read >>= k).run world = (.ok b, world')) :
    ∃ a, read world = .ok a ∧ (k a).run world = (.ok b, world') := by
  obtain ⟨a, between, hread, h⟩ := exists_of_run_bind h
  rw [Run.run_reading] at hread
  obtain ⟨hresult, rfl⟩ := Prod.mk.inj hread
  exact ⟨a, hresult, h⟩

namespace Resolver

/-- The absolute path of the document that a reference names, seen from a directory. -/
def target (resolver : Resolver) (world : World) (base : PosixPath) (reference : Reference) :
    String :=
  (world.resolve (resolver.fileOf base reference)).text

/-- The document that a reference names, once its name in messages and its fields are known. -/
def documentOf (resolver : Resolver) (world : World) (base : PosixPath) (reference : Reference)
    (label : String) (value : List (String × Value)) : Document :=
  ⟨value, label, resolver.target world base reference, (resolver.fileOf base reference).parent⟩

/-- The ways in which a reference can be resolved, with the cache and the world in which each ends. -/
inductive Resolves (resolver : Resolver) (reference : Reference) (visited : List String)
    (base : PosixPath) (cache : Cache) (world : World) :
    Except Failure (Document × Cache) → World → Prop
  | unnamed {failure : Failure} (h : resolver.locate base reference world = .error failure) :
    Resolves resolver reference visited base cache world (.error failure) world
  | cyclic (hvisited : resolver.target world base reference ∈ visited) :
    Resolves resolver reference visited base cache world
      (.error (.cyclicDefaults (cycleTo (resolver.target world base reference) visited))) world
  | known {label : String} {value : List (String × Value)}
    (hnew : resolver.target world base reference ∉ visited)
    (hvalue : cache.get? (resolver.target world base reference) = some value) :
    Resolves resolver reference visited base cache world
      (.ok (resolver.documentOf world base reference label value, cache)) world
  | unread {label : String} {failure : Failure} {world' : World}
    (hload : (resolver.load (resolver.fileOf base reference) label reference).run world =
      (.error failure, world')) :
    Resolves resolver reference visited base cache world (.error failure) world'
  | read {label : String} {value : List (String × Value)} {world' : World}
    (hnew : resolver.target world base reference ∉ visited)
    (hvalue : cache.get? (resolver.target world base reference) = none)
    (hload : (resolver.load (resolver.fileOf base reference) label reference).run world =
      (.ok value, world')) :
    Resolves resolver reference visited base cache world
      (.ok (resolver.documentOf world base reference label value,
        cache.insert (resolver.target world base reference) value)) world'

variable (resolver : Resolver) (reference : Reference) (visited : List String) (base : PosixPath)
  (cache : Cache) (world : World)

theorem eq_fileOf_of_locate {resolver : Resolver} {reference : Reference} {base : PosixPath}
    {world : World} {file : PosixPath} {label : String}
    (h : resolver.locate base reference world = .ok (file, label)) :
    file = resolver.fileOf base reference := by
  rw [locate] at h
  cases hshorten : world.shorten (resolver.fileOf base reference) resolver.displayRoot with
  | error failure => rw [hshorten] at h; cases h
  | ok shown => rw [hshorten] at h; cases h; rfl

/-- Where messages show no path relative to a directory, they show the absolute one. -/
theorem locate_of_checkPath {resolver : Resolver} {reference : Reference} {base : PosixPath}
    {world : World} (hroot : resolver.displayRoot = none)
    (hcheck : World.checkPath (resolver.fileOf base reference) = .ok ()) :
    resolver.locate base reference world = .ok (resolver.fileOf base reference,
      (world.resolve (resolver.fileOf base reference)).text) := by
  rw [locate, World.shorten, hcheck, hroot]
  rfl

/-- The content of a document on disk is that of its file. -/
theorem run_content_onDisk {resolver : Resolver} (file : PosixPath) (label path : String)
    (world : World) :
    (resolver.content file label (.onDisk path)).run world =
      (match world.readBytes file with
      | .ok content => .ok content
      | .error (.noFile _) => .error (.missingDefaults label true)
      | .error failure => .error failure, world) := by
  have hget : (get : Run World).run world = (.ok world, world) := rfl
  rw [content, run_bind_of_ok hget]
  rcases world.readBytes file with failure | content
  · cases failure <;> rfl
  · rfl

/-- How a reference is resolved. -/
theorem run_resolve :
    ((resolver.resolve reference visited base).run cache).run world =
      match resolver.locate base reference world with
      | .error failure => (.error failure, world)
      | .ok (_, label) =>
        if resolver.target world base reference ∈ visited then
          (.error (.cyclicDefaults (cycleTo (resolver.target world base reference) visited)), world)
        else match cache.get? (resolver.target world base reference) with
          | some value => (.ok (resolver.documentOf world base reference label value, cache), world)
          | none =>
            match (resolver.load (resolver.fileOf base reference) label reference).run world with
            | (.error failure, world') => (.error failure, world')
            | (.ok value, world') =>
              (.ok (resolver.documentOf world base reference label value,
                cache.insert (resolver.target world base reference) value), world') := by
  have hread := Run.run_reading (resolver.locate base reference) world
  have hworld : ((getThe World : Resolving World).run cache).run world =
      (.ok (world, cache), world) := rfl
  have hcache : ((getThe Cache : Resolving Cache).run cache).run world =
      (.ok (cache, cache), world) := rfl
  rw [resolve]
  simp only [StateT.run_bind, StateT.run_monadLift, bind_assoc, pure_bind, monadLift_self]
  cases hlocate : resolver.locate base reference world with
  | error failure =>
    rw [hlocate] at hread
    rw [run_bind_of_error hread]
  | ok located =>
    obtain ⟨file, label⟩ := located
    rw [hlocate] at hread
    have htarget : (world.resolve (resolver.fileOf base reference)).text =
        resolver.target world base reference := rfl
    rw [run_bind_of_ok hread, run_bind_of_ok hworld, eq_fileOf_of_locate hlocate]
    simp only [htarget]
    by_cases hvisited : resolver.target world base reference ∈ visited
    · rw [if_pos hvisited, if_pos (List.contains_iff_mem.2 hvisited)]
      rfl
    · rw [if_neg hvisited, if_neg fun hmem ↦ hvisited (List.contains_iff_mem.1 hmem),
        StateT.run_bind, run_bind_of_ok hcache]
      simp only
      cases cache.get? (resolver.target world base reference) with
      | some value => rfl
      | none =>
        simp only [StateT.run_bind, StateT.run_monadLift, bind_assoc, pure_bind, monadLift_self]
        rcases hload : (resolver.load (resolver.fileOf base reference) label reference).run world with
          ⟨failure | value, world'⟩
        · rw [run_bind_of_error hload]
        · rw [run_bind_of_ok hload]
          rfl

/-- Every reference is resolved in one of these ways. -/
theorem resolves :
    Resolves resolver reference visited base cache world
      (((resolver.resolve reference visited base).run cache).run world).1
      (((resolver.resolve reference visited base).run cache).run world).2 := by
  rw [run_resolve]
  split
  · next hlocate => exact .unnamed hlocate
  · split
    · next hvisited => exact .cyclic hvisited
    · next hnew =>
      split
      · next hvalue => exact .known hnew hvalue
      · next hvalue =>
        split
        · next hload => exact .unread hload
        · next hload => exact .read hnew hvalue hload

/-- What is loaded has every key once. -/
theorem areKeyed_of_load {resolver : Resolver} {file : PosixPath} {label : String}
    {reference : Reference} {world world' : World} {value : List (String × Value)}
    (h : (resolver.load file label reference).run world = (.ok value, world')) :
    Value.areKeyed value := by
  rw [load] at h
  obtain ⟨content, world₁, -, h⟩ := exists_of_run_bind h
  obtain ⟨document, world₂, hdocument, h⟩ := exists_of_run_bind h
  rw [Run.run_reading] at hdocument
  have hkeyed := Yaml.isKeyed_of_readBytes (Prod.mk.inj hdocument).1
  split at h
  · cases h
    exact hkeyed
  · cases h

/-- What a service gives after resolving, given the cache before; a failure leaves it alone. -/
def settle (cache : Cache) (world : World) :
    Except Failure (Document × Cache) → Except Failure Document × (Cache × World)
  | .ok (document, cache') => (.ok document, (cache', world))
  | .error failure => (.error failure, (cache, world))

end Resolver

namespace Services

variable {directory : PosixPath} {resolver : Resolver}
  {resolve : Reference → List String → PosixPath → Cache × World →
    Except Failure Document × (Cache × World)}

/-- The service of a resolver gives what resolving gives. -/
theorem eq_settle (hresolve : resolve ∈ (Services.ofPackage directory (some resolver)).resolve?)
    (reference : Reference) (visited : List String) (base : PosixPath) (cache : Cache)
    (world : World) {outcome : Except Failure (Document × Cache)} {world' : World}
    (h : ((resolver.resolve reference visited base).run cache).run world = (outcome, world')) :
    resolve reference visited base (cache, world) = Resolver.settle cache world' outcome := by
  obtain rfl := Option.some.inj hresolve
  change (resolver.resolve reference visited base).run cache world = (outcome, world') at h
  simp only [h]
  obtain failure | ⟨document, cache'⟩ := outcome <;> rfl

/-- The service of a resolver gives what one of the ways to resolve a reference gives. -/
theorem exists_resolves
    (hresolve : resolve ∈ (Services.ofPackage directory (some resolver)).resolve?)
    (reference : Reference) (visited : List String) (base : PosixPath) (s : Cache × World) :
    ∃ outcome world', resolver.Resolves reference visited base s.1 s.2 outcome world' ∧
      resolve reference visited base s = Resolver.settle s.1 world' outcome := by
  have hresolves := resolver.resolves reference visited base s.1 s.2
  rcases hrun : ((resolver.resolve reference visited base).run s.1).run s.2 with ⟨outcome, world'⟩
  rw [hrun] at hresolves
  exact ⟨outcome, world', hresolves, eq_settle hresolve reference visited base s.1 s.2 hrun⟩

end Services

end CabalManifest
