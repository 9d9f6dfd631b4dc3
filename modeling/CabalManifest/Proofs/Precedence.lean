import CabalManifest.Proofs.FetchedDocuments
import CabalManifest.Proofs.ReadingScopes
import CabalManifest.Proofs.Resolving

/-!
# The order of precedence

A scope with the documents it refers to is a list of field sets, its *layers*: those of the documents
in their order, each with its own documents first, and the scope's own fields last. Reading the scope
merges its layers from the first to the last (`Context.alike_scope_layers`), however the references
are nested and however often a document is reached. So a field that is replaced has the value of the
last layer that sets it, and a list has the items of all layers in order (`Context.scope_layers`).
-/

namespace CabalManifest

/-! ### Services -/

/-- The contract to keep a property of the state. -/
def Contract.keeping {σ : Type} (keeps : σ → Prop) : Contract σ where
  holds := keeps
  follows _ _ := True
  allows _ _ := True
  refl _ := trivial
  trans _ _ := trivial
  allows_of_not_isCycle _ _ _ := trivial

/-- Whether services keep a property of their state, and in every document that they give all objects
have every key once. -/
def Services.GiveKeyed {σ : Type} (services : Services σ) (keeps : σ → Prop) : Prop :=
  ∀ resolve ∈ services.resolve?, ∀ reference visited directory s, keeps s →
    keeps (resolve reference visited directory s).2 ∧
      ∀ document, (resolve reference visited directory s).1 = .ok document →
        Value.areKeyed document.value

/-- In the world, all objects have every key once if they do in the documents that are known. -/
theorem Services.giveKeyed_ofPackage (directory : PosixPath) (resolver? : Option Resolver) :
    (Services.ofPackage directory resolver?).GiveKeyed fun s ↦
      ∀ entry ∈ s.1, Value.areKeyed entry.2 := by
  obtain _ | resolver := resolver?
  · intro resolve hresolve
    cases hresolve
  · intro resolve hresolve reference visited base s hs
    obtain ⟨outcome, world', hresolves, hrun⟩ :=
      Services.exists_resolves hresolve reference visited base s
    rw [hrun]
    cases hresolves with
    | unnamed | cyclic | unread => exact ⟨hs, fun _ hdocument ↦ by cases hdocument⟩
    | known hnew hvalue =>
      refine ⟨hs, fun _ hdocument ↦ ?_⟩
      cases hdocument
      exact hs _ (Entries.mem_of_get?_eq_some hvalue)
    | read hnew hvalue hload =>
      have hkeyed := Resolver.areKeyed_of_load hload
      refine ⟨fun entry hentry ↦ ?_, fun _ hdocument ↦ ?_⟩
      · rcases Entries.mem_insert hentry with rfl | hmem
        · exact hkeyed
        · exact hs entry hmem
      · cases hdocument
        exact hkeyed

namespace Context

variable {σ : Type} {context : Context σ} {keeps : σ → Prop}

theorem meets_resolve (h : context.services.GiveKeyed keeps) (reference : Reference) :
    (context.resolve reference).Meets (.keeping keeps) fun document ↦
      Value.areKeyed document.value := by
  intro s hs
  cases hresolve : context.services.resolve? with
  | none =>
    rw [context.run_resolve_of_none hresolve]
    exact ⟨hs, trivial, trivial⟩
  | some resolve =>
    have hresult := h resolve hresolve reference context.visited context.directory s.state hs
    rw [context.run_resolve hresolve]
    generalize resolve reference context.visited context.directory s.state = result at hresult ⊢
    obtain ⟨_ | document, t⟩ := result
    · exact ⟨hresult.1, trivial, trivial⟩
    · exact ⟨hresult.1, trivial, hresult.2 document rfl⟩

/-- The services of a context that keep a property can find files. -/
theorem canGlob_keeping : context.services.CanGlob (Contract.keeping keeps).Tolerates :=
  fun _ _ _ _ _ ↦ trivial

/-- Whether a reader of documents makes formed field sets of them. -/
def ReadsFormed (context : Context σ) (keeps : σ → Prop) (read : ReadDocument σ) : Prop :=
  ∀ registries : Registries, registries.IsScope → ∀ document : Document,
    Value.areKeyed document.value →
      (read context registries document).Meets (.keeping keeps) FieldSet.IsFormed

theorem ReadsFormed.readsAlike (h : context.services.GiveKeyed keeps) {read : ReadDocument σ}
    (hread : context.ReadsFormed keeps read) {registries : Registries}
    (hscope : registries.IsScope) {entries : List (String × Value)} (inner : Registries)
    (target : Value) (hrefers : Refers registries entries inner target) :
    context.ReadsAlike (.keeping keeps) True read read inner target := by
  refine .of_names fun reference _ ↦ .refl ((meets_resolve h reference).bind fun document hkeyed ↦ ?_)
  exact (hread inner (hrefers.isScope hscope) document hkeyed).imp fun _ hfields _ ↦ hfields

/-- A scope that refers to documents which are read into formed field sets is read so itself. -/
theorem meets_scope (h : context.services.GiveKeyed keeps) {read : ReadDocument σ}
    (hread : context.ReadsFormed keeps read) {registries : Registries}
    (hscope : registries.IsScope) (place : Place) {entries : List (String × Value)}
    (hkeyed : Value.areKeyed entries) :
    (scope read context registries place entries).Meets (.keeping keeps) FieldSet.IsFormed := by
  have hreads := alike_scope _ canGlob_keeping hscope.isFlat place entries (hread.readsAlike h hscope)
  exact hreads.1.imp fun _ hformed ↦ hformed trivial hscope.isUsual hkeyed

/-- The own fields of such a scope are formed. -/
theorem meets_fields (h : context.services.GiveKeyed keeps) {read : ReadDocument σ}
    (hread : context.ReadsFormed keeps read) {registries : Registries}
    (hscope : registries.IsScope) (skip : String → Bool) (place : Place)
    {entries : List (String × Value)} (hkeyed : Value.areKeyed entries) :
    (fields read context registries skip place entries).Meets (.keeping keeps)
      fun own ↦ FieldSet.IsFormed ⟨own⟩ := by
  have hreads := alike_fields _ canGlob_keeping hscope.isFlat skip place entries
    (.of_refers (hread.readsAlike h hscope))
  exact hreads.1.imp fun _ hown ↦ hown.isFormed trivial hscope.isUsual hkeyed

/-- Documents are read into formed field sets. -/
theorem readsFormed_document (h : context.services.GiveKeyed keeps) (bound : Nat) :
    context.ReadsFormed keeps (document bound) := by
  intro registries hscope document hkeyed
  induction bound generalizing context registries document with
  | zero => exact fun _ hs ↦ ⟨hs, trivial, trivial⟩
  | succ bound ih =>
    have henter : (context.enter document).services.GiveKeyed keeps := h
    exact meets_scope henter (ih henter) hscope Place.top hkeyed

/-! ### Layers -/

/-- The documents that a scope refers to itself, in their order. -/
def references (context : Context σ) (registries : Registries) (place : Place)
    (entries : List (String × Value)) : Decode σ (List Reference) :=
  match Entries.get? entries "defaults", registries.own.find? "defaults" with
  | some value, some _ => do
    let (warnings, references) := Reference.listOf context.source (place.key "defaults") value
    Decode.warnAll warnings
    let references ← Decode.ofExcept references
    if context.services.resolve?.isNone then throw .noResolver
    return references
  | _, _ => return []

theorem meets_references (context : Context σ) {contract : Contract σ} (registries : Registries)
    (place : Place) (entries : List (String × Value)) :
    (context.references registries place entries).Meets contract fun _ ↦ True := by
  rw [references]
  split
  · next value field hvalue hfield =>
    have hyields := Reference.yields_listOf context.source (place.key "defaults") value
    rcases hlist : Reference.listOf context.source (place.key "defaults") value with
      ⟨warnings, result⟩
    rw [hlist] at hyields
    refine (Decode.Meets.warnAll warnings).bind fun _ _ ↦ ?_
    refine (Decode.Meets.ofExcept hyields).bind fun references _ ↦ ?_
    split
    · exact (Decode.Meets.throw (p := fun _ ↦ False) id).bind fun _ h ↦ h.elim
    · exact .pure trivial
  · exact .pure trivial

/-- The layers of a scope, given those of a document: first those of the documents that it refers
to, in their order, and its own fields last. -/
def scopeLayers (layersOf : Document → Decode σ (List FieldSet)) (read : ReadDocument σ)
    (context : Context σ) (registries : Registries) (place : Place)
    (entries : List (String × Value)) : Decode σ (List FieldSet) := do
  let own ← fields read context registries (fun _ ↦ false) place entries
  let references ← context.references registries place entries
  let inherited ← references.mapM fun reference ↦ context.resolve reference >>= layersOf
  return inherited.flatten ++ [⟨own⟩]

/-- The layers of a document that a scope refers to, the bound being the number of documents that a
chain can still have. -/
def documentLayers (bound : Nat) (context : Context σ) (registries : Registries)
    (document : Document) : Decode σ (List FieldSet) :=
  match bound with
  | 0 => throw (.cyclicDefaults context.visited)
  | bound + 1 =>
    let inner := context.enter document
    scopeLayers (documentLayers bound inner registries) (Context.document bound) inner registries
      Place.top document.value

/-- The layers of a whole document or of the body of a section. -/
def layers (bound : Nat) (context : Context σ) (registries : Registries) (place : Place)
    (entries : List (String × Value)) : Decode σ (List FieldSet) :=
  scopeLayers (documentLayers bound context registries) (document bound) context registries place
    entries

/-! ### Merging the layers -/

/-- Whether documents are read by merging their layers. -/
def MergesLayers (context : Context σ) (keeps : σ → Prop) (read : ReadDocument σ)
    (registries : Registries) (layersOf : Document → Decode σ (List FieldSet)) : Prop :=
  ∀ document : Document, Value.areKeyed document.value →
    (layersOf document).Meets (.keeping keeps) (∀ layer ∈ ·, layer.IsFormed) ∧
      (read context registries document).Alike (.keeping keeps) FieldSet.IsFormed
        (FieldSet.mergeAll <$> layersOf document)

section

variable {read : ReadDocument σ} {registries : Registries}
  {layersOf : Document → Decode σ (List FieldSet)}

theorem MergesLayers.meets_mapM (hlayers : context.MergesLayers keeps read registries layersOf)
    (h : context.services.GiveKeyed keeps) (references : List Reference) :
    (references.mapM fun reference ↦ context.resolve reference >>= layersOf).Meets (.keeping keeps)
      fun inherited ↦ ∀ layer ∈ inherited.flatten, layer.IsFormed := by
  refine (Decode.Meets.mapM fun reference _ ↦ (meets_resolve h reference).bind fun document hkeyed ↦
    (hlayers document hkeyed).1).imp fun inherited hinherited layer hlayer ↦ ?_
  obtain ⟨layers, hlayers, hmem⟩ := List.mem_flatten.1 hlayer
  exact hinherited layers hlayers layer hmem

/-- Merging the documents of some references in turn is merging their layers. -/
theorem MergesLayers.alike_inherit (hlayers : context.MergesLayers keeps read registries layersOf)
    (h : context.services.GiveKeyed keeps) (references : List Reference) {earlier : List FieldSet}
    (hearlier : ∀ layer ∈ earlier, layer.IsFormed) :
    (inherit read context registries (FieldSet.mergeAll earlier) references).Alike (.keeping keeps)
      FieldSet.IsFormed (do
        let inherited ← references.mapM fun reference ↦ context.resolve reference >>= layersOf
        return FieldSet.mergeAll (earlier ++ inherited.flatten)) := by
  induction references generalizing earlier with
  | nil =>
    rw [inherit, List.mapM_nil, pure_bind, List.flatten_nil, List.append_nil]
    exact .pure (FieldSet.isFormed_mergeAll hearlier)
  | cons reference references ih =>
    rw [inherit, List.mapM_cons]
    simp only [bind_assoc, pure_bind, List.flatten_cons]
    refine (Decode.Alike.refl (meets_resolve h reference)).bind fun document hkeyed ↦ ?_
    obtain ⟨hmeets, hread⟩ := hlayers document hkeyed
    refine hread.bind_map hmeets fun layers hformed ↦ ?_
    -- The layers of this document come after the earlier ones and before those still to come.
    rw [← FieldSet.mergeAll_append hearlier hformed]
    simp only [← List.append_assoc]
    exact ih (List.forall_mem_append.2 ⟨hearlier, hformed⟩)

/-- Own fields have precedence over those of the documents. -/
theorem MergesLayers.alike_inherit_own
    (hlayers : context.MergesLayers keeps read registries layersOf)
    (h : context.services.GiveKeyed keeps) {own : FieldSet} (hown : own.IsFormed)
    (references : List Reference) :
    Decode.Alike (.keeping keeps) FieldSet.IsFormed
      (do return (← inherit read context registries .empty references).merge own)
      (do
        let inherited ← references.mapM fun reference ↦ context.resolve reference >>= layersOf
        return FieldSet.mergeAll (inherited.flatten ++ [own])) := by
  have hinherit := hlayers.alike_inherit h references (List.forall_mem_nil _)
  simp only [List.nil_append, ← map_eq_pure_bind] at hinherit
  refine hinherit.bind_map (hlayers.meets_mapM h references) fun inherited hinherited ↦ ?_
  rw [FieldSet.mergeAll_concat]
  exact .pure ((FieldSet.isFormed_mergeAll hinherited).merge hown)

theorem MergesLayers.alike_scope (hlayers : context.MergesLayers keeps read registries layersOf)
    (h : context.services.GiveKeyed keeps) (hformed : context.ReadsFormed keeps read)
    (hscope : registries.IsScope) (place : Place) {entries : List (String × Value)}
    (hkeyed : Value.areKeyed entries) :
    (scope read context registries place entries).Alike (.keeping keeps) FieldSet.IsFormed
      (FieldSet.mergeAll <$> scopeLayers layersOf read context registries place entries) := by
  rw [scope, scopeLayers]
  simp only [map_eq_pure_bind, bind_assoc, pure_bind]
  refine (Decode.Alike.refl (meets_fields h hformed hscope _ place hkeyed)).bind fun own hown ↦ ?_
  have hinherit := hlayers.alike_inherit_own h hown
  have hnone := hinherit []
  simp only [inherit, pure_bind, FieldSet.empty_merge hown.nodup] at hnone
  rw [references]
  cases hvalue : Entries.get? entries "defaults" with
  | none => exact hnone
  | some value =>
    cases registries.own.find? "defaults" with
    | none => exact hnone
    | some field =>
      simp only [defaults]
      have hyields := Reference.yields_listOf context.source (place.key "defaults") value
      rcases hlist : Reference.listOf context.source (place.key "defaults") value with
        ⟨warnings, result⟩
      rw [hlist] at hyields
      simp only [bind_assoc]
      refine (Decode.Alike.refl (.warnAll warnings)).bind fun _ _ ↦ ?_
      refine (Decode.Alike.refl (.ofExcept hyields)).bind fun references _ ↦ ?_
      split
      · exact .refl ((Decode.Meets.throw (p := fun _ ↦ False) id).bind fun _ h ↦ h.elim)
      · exact hinherit references

theorem MergesLayers.meets_scopeLayers
    (hlayers : context.MergesLayers keeps read registries layersOf)
    (h : context.services.GiveKeyed keeps) (hformed : context.ReadsFormed keeps read)
    (hscope : registries.IsScope) (place : Place) {entries : List (String × Value)}
    (hkeyed : Value.areKeyed entries) :
    (scopeLayers layersOf read context registries place entries).Meets (.keeping keeps)
      (∀ layer ∈ ·, layer.IsFormed) := by
  rw [scopeLayers]
  refine (meets_fields h hformed hscope _ place hkeyed).bind fun own hown ↦ ?_
  refine (context.meets_references registries place entries).bind fun references _ ↦ ?_
  refine (hlayers.meets_mapM h references).bind fun inherited hinherited ↦ .pure ?_
  exact List.forall_mem_append.2 ⟨hinherited, List.forall_mem_singleton.2 hown⟩

end

/-- Every document is read by merging its layers. -/
theorem mergesLayers_document (h : context.services.GiveKeyed keeps) (bound : Nat)
    {registries : Registries} (hscope : registries.IsScope) :
    context.MergesLayers keeps (document bound) registries
      (documentLayers bound context registries) := by
  induction bound generalizing context with
  | zero =>
    exact fun _ _ ↦
      ⟨fun _ hs ↦ ⟨hs, trivial, trivial⟩, fun _ hs ↦ ⟨hs, trivial, trivial⟩, fun _ _ ↦ rfl⟩
  | succ bound ih =>
    intro document hkeyed
    have henter : (context.enter document).services.GiveKeyed keeps := h
    have hformed := readsFormed_document henter bound
    rw [documentLayers]
    exact ⟨(ih henter).meets_scopeLayers henter hformed hscope Place.top hkeyed,
      (ih henter).alike_scope henter hformed hscope Place.top hkeyed⟩

/-- A scope is read by merging its layers from the first to the last. So a field that is replaced
has the value of the last layer that sets it, and a list has the items of all layers in order. -/
theorem scope_layers (h : context.services.GiveKeyed keeps) (bound : Nat) {registries : Registries}
    (hscope : registries.IsScope) (place : Place) {entries : List (String × Value)}
    (hkeyed : Value.areKeyed entries) {s t : Progress σ} (hs : keeps s.state) {result : FieldSet}
    (hrun : (scope (document bound) context registries place entries).run s = (.ok result, t)) :
    ∃ found, (layers bound context registries place entries).run s = (.ok found, t) ∧
      result = found.foldl FieldSet.merge .empty ∧
      (∀ key, result.has key = found.any (·.has key)) ∧
      (∀ key, Field.mergingOf key = .replace →
        result.get? key = (found.filterMap (·.get? key)).getLast?) ∧
      ∀ key, Field.mergingOf key = .concat → result.items key = found.flatMap (·.items key) := by
  have hlayers := mergesLayers_document h bound hscope
  have hformed := readsFormed_document h bound
  have hmeets := hlayers.meets_scopeLayers h hformed hscope place hkeyed
  rw [(hlayers.alike_scope h hformed hscope place hkeyed).2 s hs, map_eq_pure_bind] at hrun
  obtain ⟨found, u, hfound, hmerge⟩ := exists_of_run_bind hrun
  cases hmerge
  have hall := (hmeets.of_run hs hfound).2.2
  exact ⟨found, hfound, rfl, FieldSet.has_mergeAll hall,
    fun _ ↦ FieldSet.get?_mergeAll_of_replace hall, fun _ ↦ FieldSet.items_mergeAll hall⟩

/-! ### A manifest with shared defaults -/

/-- The fields of a document that several packages share. -/
def sharedFields : List (String × Value) :=
  [("license", .text "BSD3"), ("ghc-options", .text "-Wall")]

/-- A manifest that refers to this document and overrides its license. -/
def sharingFields : List (String × Value) :=
  [("defaults", .object [("local", .text "shared.yaml")]), ("license", .text "MIT"),
    ("ghc-options", .text "-O2")]

/-- The state in which the document is known. -/
def sharedState : Progress (Cache × World) where
  warnings := []
  state := ([("/home/shared.yaml", sharedFields)],
    ⟨.empty, [], ⟨.slash, ["home"]⟩, [], [], [], .silent, []⟩)

/-- The context of the manifest. -/
def sharingContext : Context (Cache × World) :=
  .ofPackage "package.yaml" ⟨.slash, ["home"]⟩ (some ⟨⟨.slash, ["store"]⟩, none⟩)

theorem run_resolve_shared :
    (sharingContext.resolve (.onDisk "shared.yaml")).run sharedState =
      (.ok ⟨sharedFields, "/home/shared.yaml", "/home/shared.yaml", ⟨.slash, ["home"]⟩⟩,
        sharedState) := by
  have hlocate : Resolver.locate ⟨⟨.slash, ["store"]⟩, none⟩ ⟨.slash, ["home"]⟩
      (.onDisk "shared.yaml") sharedState.state.2 =
        .ok (⟨.slash, ["home", "shared.yaml"]⟩, "/home/shared.yaml") :=
    Resolver.locate_of_checkPath rfl (World.checkPath_of_notMem (by decide) (by decide))
  have hresolver := @Resolver.run_resolve ⟨⟨.slash, ["store"]⟩, none⟩ (.onDisk "shared.yaml") []
    ⟨.slash, ["home"]⟩ sharedState.state.1 sharedState.state.2
  rw [hlocate] at hresolver
  have hfound := @Services.eq_settle ⟨.slash, ["home"]⟩ _ _ rfl _ _ _ _ _ _ _ hresolver
  rw [Context.run_resolve sharingContext rfl]
  exact congrArg (fun found ↦ (found.1, (⟨[], found.2⟩ : Progress (Cache × World)))) hfound

theorem run_document_shared (context : Context (Cache × World)) (document : Document)
    (h : document.value = sharedFields) :
    (Context.document 1 context .package document).run sharedState =
      (.ok ⟨[("license", .text "BSD3"), ("ghc-options", .texts ["-Wall"])]⟩, sharedState) := by
  simp only [Context.document, h, sharedFields, scope, fields, fieldValue]
  rfl

/-- The manifest has precedence over the document that it refers to. -/
theorem run_scope_sharing :
    (scope (document 1) sharingContext .package Place.top sharingFields).run sharedState =
      (.ok ⟨[("license", .text "MIT"), ("ghc-options", .texts ["-Wall", "-O2"])]⟩,
        sharedState) := by
  have hown : (fields (document 1) sharingContext .package (fun _ ↦ false) Place.top
      sharingFields).run sharedState =
        (.ok [("license", .text "MIT"), ("ghc-options", .texts ["-O2"])], sharedState) := by
    simp only [sharingFields, fields, fieldValue]
    rfl
  have hinherit : (inherit (document 1) sharingContext .package .empty
      [.onDisk "shared.yaml"]).run sharedState =
        (.ok ⟨[("license", .text "BSD3"), ("ghc-options", .texts ["-Wall"])]⟩, sharedState) := by
    rw [inherit, run_bind_of_ok run_resolve_shared, run_bind_of_ok (run_document_shared _ _ rfl)]
    with_unfolding_all rfl
  have hdefaults : (sharingContext.defaults (document 1) .package (Place.top.key "defaults")
      (.object [("local", .text "shared.yaml")])).run sharedState = _ := hinherit
  rw [scope, run_bind_of_ok hown]
  show (sharingContext.defaults (document 1) .package (Place.top.key "defaults")
    (.object [("local", .text "shared.yaml")]) >>= fun inherited ↦
      pure (inherited.merge ⟨[("license", .text "MIT"), ("ghc-options", .texts ["-O2"])]⟩)).run
        sharedState = _
  rw [run_bind_of_ok hdefaults]
  with_unfolding_all rfl

/-- The license is that of the manifest, and its options come after those of the document. -/
theorem scope_layers_sharing :
    ∃ found, (layers 1 sharingContext .package Place.top sharingFields).run sharedState =
        (.ok found, sharedState) ∧
      ⟨[("license", .text "MIT"), ("ghc-options", .texts ["-Wall", "-O2"])]⟩ =
        found.foldl FieldSet.merge .empty ∧
      some (.text "MIT") = (found.filterMap (·.get? "license")).getLast? ∧
      [.text "-Wall", .text "-O2"] = found.flatMap (·.items "ghc-options") := by
  obtain ⟨found, hfound, hfold, -, hreplace, hconcat⟩ :=
    scope_layers (Services.giveKeyed_ofPackage _ _) 1 (.inl rfl) Place.top
      (by decide) (by decide) run_scope_sharing
  exact ⟨found, hfound, hfold, hreplace "license" (by decide), hconcat "ghc-options" (by decide)⟩

end Context

end CabalManifest
