import CabalManifest.Proofs.KnownDocuments
import CabalManifest.Proofs.SplitTexts

/-!
# How paths are spelled

The names of a path that was read from a text are neither empty nor a single dot, and no slash is in
them (`PosixPath.IsSpelled`); so its text tells them apart (`PosixPath.IsSpelled.names_eq`). The parts
of a *plain* document of a repository are made of proper names, with slashes between them: its place
in a store adds these names to the store, and its address tells them too.
-/

namespace CabalManifest

/-! ### Proper names -/

namespace PosixPath

/-- A text is read as the names in it if these are proper ones. -/
theorem ofString_of_proper {text : String}
    (h : ∀ name ∈ (List.splitOn '/' text.toList).map String.ofList, name ≠ "" ∧ name ≠ ".") :
    ofString text = ⟨.relative, (List.splitOn '/' text.toList).map String.ofList⟩ := by
  have hroot : rootOf text.toList = .relative := by
    match htext : text.toList with
    | [] => rfl
    | c :: cs =>
      have hc : c ≠ '/' := by
        rintro rfl
        rw [htext, Text.splitOn_cons_self] at h
        exact (h "" List.mem_cons_self).1 rfl
      unfold rootOf
      split <;> simp_all
  rw [ofString, hroot, namesOf, List.filter_eq_self.2]
  intro name hname
  simp [(h name hname).1, (h name hname).2]

theorem ofString_of_notMem {name : String} (hslash : '/' ∉ name.toList) (hempty : name ≠ "")
    (hdot : name ≠ ".") : ofString name = ⟨.relative, [name]⟩ := by
  have hnames : (List.splitOn '/' name.toList).map String.ofList = [name] := by
    rw [List.splitOn_eq_singleton hslash, List.map_singleton, String.ofList_toList]
  rw [ofString_of_proper (by rw [hnames]; exact List.forall_mem_singleton.2 ⟨hempty, hdot⟩), hnames]

theorem foldl_follow_of_proper {names : List String}
    (h : ∀ name ∈ names, name ≠ "." ∧ name ≠ "..") (base : List String) :
    names.foldl follow base = base ++ names := by
  induction names generalizing base with
  | nil => rw [List.foldl_nil, List.append_nil]
  | cons name names ih =>
    rw [List.forall_mem_cons] at h
    rw [List.foldl_cons, follow, if_neg h.1.1, if_neg h.1.2, ih h.2, List.append_assoc]
    rfl

/-- Proper names lead further down from where the names before them lead. -/
theorem names_resolve_append (place : PosixPath) (root : Root) (names : List String)
    {more : List String} (h : ∀ name ∈ more, name ≠ "." ∧ name ≠ "..") :
    (place.resolve ⟨root, names ++ more⟩).names = (place.resolve ⟨root, names⟩).names ++ more := by
  have hfold : ∀ before, normalizeNames (before ++ more) = normalizeNames before ++ more :=
    fun before ↦ by
      rw [normalizeNames, List.foldl_append]
      exact foldl_follow_of_proper h _
  cases root with
  | relative =>
    show normalizeNames (place.names ++ (names ++ more)) = _
    rw [← List.append_assoc]
    exact hfold _
  | slash | doubleSlash => exact hfold names

/-! ### Spelled paths -/

/-- Whether a path has names as paths that are read from texts have: none is empty or a single dot,
or has a slash in it. -/
def IsSpelled (path : PosixPath) : Prop :=
  ∀ name ∈ path.names, name ≠ "" ∧ name ≠ "." ∧ '/' ∉ name.toList

instance (path : PosixPath) : Decidable path.IsSpelled := List.decidableBAll _ path.names

theorem isSpelled_ofString (text : String) : (ofString text).IsSpelled := by
  intro name hname
  obtain ⟨hmem, hproper⟩ := List.mem_filter.1 hname
  obtain ⟨piece, hpiece, rfl⟩ := List.mem_map.1 hmem
  simp only [bne_iff_ne, Bool.and_eq_true] at hproper
  refine ⟨hproper.1, hproper.2, fun hslash ↦ ?_⟩
  rw [String.toList_ofList] at hslash
  exact (Text.mem_and_ne_of_mem_splitOn hpiece hslash).2 rfl

namespace IsSpelled

variable {base path : PosixPath}

theorem dot_notMem (h : path.IsSpelled) : "." ∉ path.names := fun hmem ↦ (h _ hmem).2.1 rfl

theorem join (hbase : base.IsSpelled) (hpath : path.IsSpelled) : (base.join path).IsSpelled := by
  rw [PosixPath.join]
  split
  · exact hpath
  · exact List.forall_mem_append.2 ⟨hbase, hpath⟩

theorem below (hbase : base.IsSpelled) (text : String) : (base.below text).IsSpelled :=
  hbase.join (isSpelled_ofString text)

theorem parent (h : path.IsSpelled) : path.parent.IsSpelled :=
  fun name hname ↦ h name (List.dropLast_subset _ hname)

theorem foldl_follow {names location : List String}
    (hnames : ∀ name ∈ names, name ≠ "" ∧ name ≠ "." ∧ '/' ∉ name.toList)
    (hlocation : ∀ name ∈ location, name ≠ "" ∧ name ≠ "." ∧ '/' ∉ name.toList) :
    ∀ name ∈ names.foldl follow location, name ≠ "" ∧ name ≠ "." ∧ '/' ∉ name.toList := by
  induction names generalizing location with
  | nil => exact hlocation
  | cons name names ih =>
    rw [List.forall_mem_cons] at hnames
    refine ih hnames.2 ?_
    rw [follow, if_neg hnames.1.2.1]
    split
    · exact fun name hname ↦ hlocation name (List.dropLast_subset _ hname)
    · exact List.forall_mem_append.2 ⟨hlocation, List.forall_mem_singleton.2 hnames.1⟩

theorem resolve (hplace : base.IsSpelled) (hpath : path.IsSpelled) :
    (base.resolve path).IsSpelled :=
  foldl_follow (hplace.join hpath) (List.forall_mem_nil _)

/-- The names of a spelled path are read back from its text. -/
theorem namesOf_text {names : List String} (h : IsSpelled ⟨.slash, names⟩) :
    namesOf (text ⟨.slash, names⟩).toList = names := by
  have htext : (text ⟨.slash, names⟩).toList =
      '/' :: ['/'].intercalate (names.map String.toList) := by
    rw [text, if_neg (by simp [here]), String.toList_append, String.toList_intercalate]
    simp [rootText]
  have hkept : names.filter (fun name ↦ name != "" && name != ".") = names :=
    List.filter_eq_self.2 fun name hname ↦ by simp [(h name hname).1, (h name hname).2.1]
  rw [namesOf, htext, Text.splitOn_cons_self, List.map_cons, List.filter_cons_of_neg (by decide)]
  cases names with
  | nil => rfl
  | cons name names =>
    rw [List.splitOn_intercalate, List.map_map]
    · simpa [Function.comp_def] using hkept
    · exact List.forall_mem_map.2 fun name hname ↦ (h name hname).2.2
    · simp

/-- So the text of a spelled path tells its names. -/
theorem names_eq {names names' : List String} (h : IsSpelled ⟨.slash, names⟩)
    (h' : IsSpelled ⟨.slash, names'⟩) (htext : text ⟨.slash, names⟩ = text ⟨.slash, names'⟩) :
    names = names' := by
  rw [← h.namesOf_text, htext, h'.namesOf_text]

end IsSpelled

end PosixPath

/-! ### Plain documents -/

namespace Repository

/-- The names in the parts of a document, in order. -/
def segments (document : Repository) : List String :=
  [document.owner, document.repo, document.ref, document.path].flatMap fun part ↦
    (List.splitOn '/' part.toList).map String.ofList

/-- Whether all names in the parts of a document are proper ones: no part starts or ends with a
slash, has two slashes in a row, or a name that is a single dot or a pair of dots. -/
def IsPlain (document : Repository) : Prop :=
  ∀ name ∈ document.segments, name ≠ "" ∧ name ≠ "." ∧ name ≠ ".."

instance (document : Repository) : Decidable document.IsPlain :=
  List.decidableBAll _ document.segments

/-- The place of a plain document is below the store, under its names. -/
theorem location_eq {document : Repository} (h : document.IsPlain) (store : PosixPath) :
    document.location store = ⟨store.root, store.names ++ document.segments⟩ := by
  have hpart : ∀ part ∈ [document.owner, document.repo, document.ref, document.path],
      PosixPath.ofString part = ⟨.relative, (List.splitOn '/' part.toList).map String.ofList⟩ := by
    refine fun part hpart ↦ PosixPath.ofString_of_proper fun name hname ↦ ?_
    have hproper := h name (List.mem_flatMap.2 ⟨part, hpart, hname⟩)
    exact ⟨hproper.1, hproper.2.1⟩
  simp only [List.forall_mem_cons] at hpart
  obtain ⟨howner, hrepo, href, hpath, -⟩ := hpart
  simp only [location, PosixPath.below, howner, hrepo, href, hpath, PosixPath.join,
    PosixPath.isAbsolute]
  simp [segments]

theorem segments_of_notMem {document : Repository}
    (h : ∀ part ∈ [document.owner, document.repo, document.ref, document.path], '/' ∉ part.toList) :
    document.segments = [document.owner, document.repo, document.ref, document.path] := by
  simp only [List.forall_mem_cons] at h
  obtain ⟨howner, hrepo, href, hpath, -⟩ := h
  simp [segments, List.splitOn_eq_singleton howner, List.splitOn_eq_singleton hrepo,
    List.splitOn_eq_singleton href, List.splitOn_eq_singleton hpath]

theorem segments_ne_nil (document : Repository) : document.segments ≠ [] := by
  obtain ⟨piece, pieces, hcut⟩ := List.exists_cons_of_ne_nil
    (List.splitOn_ne_nil '/' document.owner.toList)
  simp [segments, hcut]

/-- A plain document has its place strictly below the store. -/
theorem names_resolve_location {document : Repository} (h : document.IsPlain)
    (place store : PosixPath) : (place.resolve (document.location store)).names =
      (place.resolve store).names ++ document.segments := by
  rw [location_eq h]
  exact place.names_resolve_append _ _ fun name hname ↦ (h name hname).2

theorem segments_eq (document : Repository) :
    document.segments = (List.splitOn '/' (document.owner ++ "/" ++ document.repo ++ "/" ++
      document.ref ++ "/" ++ document.path).toList).map String.ofList := by
  simp [segments, List.splitOn_append_cons_self]

/-- An address is a host with the parts of its document, with slashes between them. -/
theorem exists_url_eq : ∃ host, ∀ document : Repository, document.url = host ++
    (document.owner ++ "/" ++ document.repo ++ "/" ++ document.ref ++ "/" ++ document.path) := by
  refine ⟨"https://raw.githubusercontent.com/", fun document ↦ ?_⟩
  rw [url_eq]
  generalize "https://raw.githubusercontent.com/" = host
  simp only [String.append_assoc]

/-- Documents have the same names exactly if they have the same address. -/
theorem segments_eq_iff {document document' : Repository} :
    document.segments = document'.segments ↔ document.url = document'.url := by
  have hofList : Function.Injective String.ofList := fun _ _ ↦ String.ofList_injective
  obtain ⟨host, hhost⟩ := exists_url_eq
  rw [segments_eq, segments_eq, (List.map_injective_iff.2 hofList).eq_iff,
    (Text.splitOn_injective '/').eq_iff, String.toList_inj, hhost document, hhost document',
    String.append_right_inj]

theorem isSpelled_location {store : PosixPath} (h : store.IsSpelled) (document : Repository) :
    (document.location store).IsSpelled :=
  (((h.below _).below _).below _).below _

end Repository

end CabalManifest
