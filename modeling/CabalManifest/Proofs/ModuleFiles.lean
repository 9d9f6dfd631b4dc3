import CabalManifest.ModuleName
import CabalManifest.Proofs.LegibleFields
import CabalManifest.Proofs.SpelledPaths

/-!
# Modules and their files

A module and its file are told from each other: the components of its name are the names of the
path, but for a suffix of the last one (`ModuleName.names_correspond_paths`). A component has neither
dots nor slashes in it, so that joining components with either of them can be undone, and the suffix
of a path starts at its last dot.
-/

namespace CabalManifest

/-- Texts that are joined by a character that is in none of them are the pieces around it. -/
theorem Text.map_splitOn_intercalate {separator : Char} {text : String}
    (htext : text.toList = [separator]) {names : List String}
    (h : ∀ name ∈ names, separator ∉ name.toList) (hne : names ≠ []) :
    ((text.intercalate names).toList.splitOn separator).map String.ofList = names := by
  rw [String.toList_intercalate, htext, List.splitOn_intercalate separator
    (List.forall_mem_map.2 h) (by simpa using hne), List.map_map]
  simp [Function.comp_def]

theorem Text.intercalate_concat (separator : String) {front : List String} (hne : front ≠ [])
    (last : String) :
    separator.intercalate (front ++ [last]) = separator.intercalate front ++ separator ++ last := by
  rw [String.intercalate_append_of_ne_nil hne (List.cons_ne_nil _ _), String.intercalate_singleton]

theorem Text.intercalate_concat_append (separator : String) (front : List String)
    (last ending : String) :
    separator.intercalate (front ++ [last]) ++ ending =
      separator.intercalate (front ++ [last ++ ending]) := by
  by_cases hfront : front = []
  · subst hfront
    simp
  · rw [intercalate_concat _ hfront, intercalate_concat _ hfront, String.append_assoc]

/-! ### Stem and suffix -/

namespace PosixPath

/-- A name is cut at its last dot. -/
theorem splitName_append_dot {front ending : List Char} (hfront : front ≠ []) (hending : ending ≠ [])
    (hdot : '.' ∉ ending) : splitName (front ++ '.' :: ending) = (front, '.' :: ending) := by
  obtain ⟨rest, c, rfl⟩ := (List.eq_nil_or_concat front).resolve_left hfront
  have hreverse : (rest.concat c ++ '.' :: ending).reverse =
      ending.reverse ++ '.' :: c :: rest.reverse := by
    simp
  have hother : ∀ d ∈ ending.reverse, (d != '.') = true := fun d hd ↦
    bne_iff_ne.2 (ne_of_mem_of_not_mem (List.mem_reverse.1 hd) hdot)
  rw [splitName, hreverse]
  simp [List.takeWhile_append_of_pos hother, List.dropWhile_append_of_pos hother, hending]

/-- A name without dots has no suffix. -/
theorem splitName_of_notMem {name : List Char} (h : '.' ∉ name) : splitName name = (name, []) := by
  have hother : ∀ d ∈ name.reverse, (d != '.') = true := fun d hd ↦
    bne_iff_ne.2 (ne_of_mem_of_not_mem (List.mem_reverse.1 hd) h)
  rw [splitName]
  simp only [List.dropWhile_eq_nil_iff.2 hother]

/-- Stem and suffix make up the last name of a path. -/
theorem stem_append_suffix (path : PosixPath) : path.stem ++ path.suffix = path.name := by
  rw [stem, suffix, ← String.ofList_append, splitName_append, String.ofList_toList]

theorem name_concat (root : Root) (front : List String) (last : String) :
    (PosixPath.mk root (front ++ [last])).name = last :=
  List.getLastD_concat

theorem parent_concat (root : Root) (front : List String) (last : String) :
    (PosixPath.mk root (front ++ [last])).parent = ⟨root, front⟩ :=
  congrArg (PosixPath.mk root) List.dropLast_concat

/-- Proper names that are joined by slashes are the names of a path. -/
theorem IsSpelled.ofString_intercalate {names : List String} (h : IsSpelled ⟨.relative, names⟩)
    (hne : names ≠ []) : ofString ("/".intercalate names) = ⟨.relative, names⟩ := by
  have hsplit : (List.splitOn '/' ("/".intercalate names).toList).map String.ofList = names :=
    Text.map_splitOn_intercalate rfl (fun name hname ↦ (h name hname).2.2) hne
  rw [ofString_of_proper, hsplit]
  rw [hsplit]
  exact fun name hname ↦ ⟨(h name hname).1, (h name hname).2.1⟩

/-- The characters of a name are those of the text that it was read from. -/
theorem mem_of_mem_names {text name : String} (h : name ∈ (ofString text).names) {c : Char}
    (hc : c ∈ name.toList) : c ∈ text.toList := by
  obtain ⟨piece, hpiece, rfl⟩ := List.mem_map.1 (List.mem_filter.1 h).1
  exact (Text.mem_and_ne_of_mem_splitOn hpiece (by simpa using hc)).1

end PosixPath

namespace ModuleName

/-! ### Components and functions -/

/-- Whether a text is the name of a function: a small letter or an underscore, and characters of
components. -/
def isFunction : List Char → Bool
  | [] => false
  | c :: cs => (c.isLower || c == '_') && cs.all isComponentChar

theorem isComponentChar_of_isAlpha {c : Char} (h : c.isAlpha = true) : isComponentChar c = true := by
  simp [isComponentChar, Char.isAlphanum, h]

/-- Components and names of functions are made of the same characters. -/
theorem isComponentChar_of_mem {cs : List Char} (h : isCapitalized cs = true ∨ isFunction cs = true)
    {c : Char} (hc : c ∈ cs) : isComponentChar c = true := by
  cases cs with
  | nil => cases hc
  | cons first rest =>
    have hword : isComponentChar first = true ∧ rest.all isComponentChar = true := by
      rcases h with h | h
      · rw [isCapitalized, Bool.and_eq_true] at h
        exact ⟨isComponentChar_of_isAlpha (Bool.or_eq_true_iff.2 (.inl h.1)), h.2⟩
      · rw [isFunction, Bool.and_eq_true, Bool.or_eq_true, beq_iff_eq] at h
        refine ⟨?_, h.2⟩
        rcases h.1 with hlower | rfl
        · exact isComponentChar_of_isAlpha (Bool.or_eq_true_iff.2 (.inr hlower))
        · rfl
    rcases List.mem_cons.1 hc with rfl | hc
    · exact hword.1
    · exact List.all_eq_true.1 hword.2 c hc

/-- Without a line feed, a component is a capitalized text. -/
theorem isComponent_iff {text : String} (h : '\n' ∉ text.toList) :
    isComponent text = isCapitalized text.toList := by
  -- The pattern of components passes over a line feed at the end, and there is none.
  have hlast : text.toList.getLast? ≠ some '\n' := fun hlast ↦ h (List.mem_of_getLast? hlast)
  rw [isComponent]
  simp only [if_neg hlast]

theorem isComponent_of_isCapitalized {text : String} (h : isCapitalized text.toList = true) :
    isComponent text = true := by
  rw [isComponent_iff fun hc ↦ absurd (isComponentChar_of_mem (.inl h) hc) (by decide)]
  exact h

theorem isUpper_eq_false_of_isLower {c : Char} (h : c.isLower = true) : c.isUpper = false := by
  have hupper : c.isUpper = decide (c.val ≥ 'A'.val ∧ c.val ≤ 'Z'.val) := rfl
  have hlower : c.isLower = (decide (c.val ≥ 'a'.val) && decide (c.val ≤ 'z'.val)) := rfl
  have hletters : 'Z'.val.toNat < 'a'.val.toNat := by decide
  rw [hlower, Bool.and_eq_true, decide_eq_true_eq, ge_iff_le, UInt32.le_iff_toNat_le] at h
  rw [hupper, decide_eq_false_iff_not, UInt32.le_iff_toNat_le (b := 'Z'.val)]
  omega

/-- No function is taken for a component. -/
theorem isComponent_of_isFunction {text : String} (h : isFunction text.toList = true) :
    isComponent text = false := by
  rw [isComponent_iff fun hc ↦ absurd (isComponentChar_of_mem (.inr h) hc) (by decide)]
  cases hcs : text.toList with
  | nil => rfl
  | cons c cs =>
    rw [hcs, isFunction, Bool.and_eq_true, Bool.or_eq_true, beq_iff_eq] at h
    rw [isCapitalized, Bool.and_eq_false_iff]
    rcases h.1 with hlower | rfl
    · exact .inl (isUpper_eq_false_of_isLower hlower)
    · exact .inl rfl

/-! ### Dotted names -/

/-- Whether some names can be told from what they are joined to by dots or slashes. -/
def AreParts (names : List String) : Prop :=
  ∀ name ∈ names, name ≠ "" ∧ '.' ∉ name.toList ∧ '/' ∉ name.toList

theorem areParts_of_words {names : List String}
    (h : ∀ name ∈ names, isCapitalized name.toList = true ∨ isFunction name.toList = true) :
    AreParts names := by
  intro name hname
  have hchars : ∀ c ∈ name.toList, isComponentChar c = true :=
    fun c hc ↦ isComponentChar_of_mem (h name hname) hc
  refine ⟨?_, fun hc ↦ absurd (hchars _ hc) (by decide), fun hc ↦ absurd (hchars _ hc) (by decide)⟩
  rintro rfl
  rcases h "" hname with h | h <;> cases h

theorem areParts_of_isCapitalized {components : List String}
    (h : ∀ component ∈ components, isCapitalized component.toList = true) : AreParts components :=
  areParts_of_words fun component hcomponent ↦ .inl (h component hcomponent)

/-- The parts of a dotted name are what it was joined from. -/
theorem AreParts.parts_intercalate {names : List String} (h : AreParts names) (hne : names ≠ []) :
    parts (".".intercalate names) = names :=
  Text.map_splitOn_intercalate rfl (fun name hname ↦ (h name hname).2.1) hne

/-- A dotted name is not empty, and more than a dot. -/
theorem AreParts.intercalate_ne {names : List String} (h : AreParts names) (hne : names ≠ []) :
    ".".intercalate names ≠ "" ∧ ".".intercalate names ≠ "." := by
  have hparts := h.parts_intercalate hne
  constructor <;> intro heq <;> rw [heq] at hparts
  · exact (h "" (hparts ▸ (by decide : "" ∈ parts ""))).1 rfl
  · exact (h "" (hparts ▸ (by decide : "" ∈ parts "."))).1 rfl

/-- A dotted name is no path of several names. -/
theorem AreParts.ofString_intercalate {names : List String} (h : AreParts names) (hne : names ≠ []) :
    PosixPath.ofString (".".intercalate names) = ⟨.relative, [".".intercalate names]⟩ := by
  have hproper := h.intercalate_ne hne
  refine PosixPath.ofString_of_notMem (fun hc ↦ ?_) hproper.1 hproper.2
  rw [String.toList_intercalate] at hc
  rcases Text.mem_intercalate hc with hc | ⟨piece, hpiece, hc⟩
  · exact absurd hc (by decide)
  · obtain ⟨name, hname, rfl⟩ := List.mem_map.1 hpiece
    exact (h name hname).2.2 hc

/-- Every suffix starts with its only dot, and what is behind it is no component. -/
theorem exists_of_mem_suffixes {suffix : String} (h : suffix ∈ suffixes) :
    ∃ ending, suffix.toList = '.' :: ending ∧ ending ≠ [] ∧ '.' ∉ ending ∧ '/' ∉ ending ∧
      isCapitalized ending = false := by
  simp only [suffixes, List.mem_cons, List.not_mem_nil, or_false] at h
  rcases h with rfl | rfl | rfl | rfl | rfl | rfl | rfl <;>
    exact ⟨_, rfl, by decide, by decide, by decide, by decide⟩

theorem notMem_suffixes_of_isCapitalized {component : String}
    (h : isCapitalized component.toList = true) : "." ++ component ∉ suffixes := by
  intro hmem
  obtain ⟨ending, hending, -, -, -, hother⟩ := exists_of_mem_suffixes hmem
  have heq : component.toList = ending := by
    rw [String.toList_append] at hending
    exact (List.cons.inj hending).2
  rw [heq, hother] at h
  cases h

/-- The suffix of a dotted name is its last part, if there is another one. -/
theorem AreParts.suffix_intercalate {front : List String} {last : String}
    (h : AreParts (front ++ [last])) :
    (PosixPath.ofString (".".intercalate (front ++ [last]))).suffix ∈ ["", "." ++ last] := by
  rw [h.ofString_intercalate (by simp)]
  change String.ofList (PosixPath.splitName (".".intercalate (front ++ [last])).toList).2 ∈ _
  obtain ⟨hne, hdot, -⟩ := h last (List.mem_append_right _ List.mem_cons_self)
  by_cases hfront : front = []
  -- A part alone has no dot in it that a suffix could start with.
  · subst hfront
    rw [List.nil_append, String.intercalate_singleton, PosixPath.splitName_of_notMem hdot]
    exact List.mem_cons_self
  · have hparts : AreParts front := fun name hname ↦ h name (List.mem_append_left _ hname)
    have htext : (".".intercalate (front ++ [last])).toList =
        (".".intercalate front).toList ++ '.' :: last.toList := by
      rw [Text.intercalate_concat _ hfront, String.toList_append, String.toList_append,
        List.append_assoc]
      rfl
    have hlast : String.ofList ('.' :: last.toList) = "." ++ last :=
      String.toList_inj.1 (by rw [String.toList_ofList, String.toList_append]; rfl)
    have hfrontText : (".".intercalate front).toList ≠ [] :=
      mt String.toList_eq_nil_iff.1 (hparts.intercalate_ne hfront).1
    rw [htext, PosixPath.splitName_append_dot hfrontText (mt String.toList_eq_nil_iff.1 hne) hdot,
      hlast]
    exact List.mem_cons_of_mem _ List.mem_cons_self

/-- A dotted name whose last part is not taken for a suffix is a module if this part is a component,
and otherwise the function of the module in front of it. -/
theorem AreParts.splitMain_intercalate {front : List String} {last : String}
    (h : AreParts (front ++ [last])) (hlast : "." ++ last ∉ suffixes) :
    splitMain (".".intercalate (front ++ [last])) =
      ("/".intercalate (if isComponent last then front ++ [last] else front) ++ ".hs",
        some (".".intercalate (front ++ [last]))) := by
  have hsuffix : suffixes.contains
      (PosixPath.ofString (".".intercalate (front ++ [last]))).suffix = false := by
    rcases List.mem_pair.1 h.suffix_intercalate with heq | heq <;> rw [heq]
    · decide
    · simpa using hlast
  rw [splitMain, if_neg (by rw [hsuffix]; exact Bool.false_ne_true)]
  simp only [h.parts_intercalate (by simp),
    List.getLastD_concat, List.dropLast_concat]

/-! ### Paths -/

/-- The module of a file is told by what its path is read as. -/
theorem ofPath?_eq {path : String} {front : List String} {last suffix : String}
    (h : PosixPath.ofString path = ⟨.relative, front ++ [last ++ suffix]⟩) (hlast : last ≠ "")
    (hsuffix : suffix ∈ suffixes) :
    ofPath? path = if (front ++ [last]).all isComponent then some (".".intercalate (front ++ [last]))
      else none := by
  obtain ⟨ending, hending, hne, hdot, -⟩ := exists_of_mem_suffixes hsuffix
  have hcut : PosixPath.splitName (last ++ suffix).toList = (last.toList, suffix.toList) := by
    rw [String.toList_append, hending]
    exact PosixPath.splitName_append_dot (by simpa using hlast) hne hdot
  have hstem : (PosixPath.mk .relative (front ++ [last ++ suffix])).stem = last := by
    rw [PosixPath.stem, PosixPath.name_concat, hcut, String.ofList_toList]
  have hpathSuffix : (PosixPath.mk .relative (front ++ [last ++ suffix])).suffix = suffix := by
    rw [PosixPath.suffix, PosixPath.name_concat, hcut, String.ofList_toList]
  have hcontains : suffixes.contains suffix = true := by simpa using hsuffix
  have hrelative : (PosixPath.mk .relative (front ++ [last ++ suffix])).isAbsolute = false := rfl
  rw [ofPath?, h]
  simp only [hstem, hpathSuffix, PosixPath.parent_concat, hcontains, hrelative, Bool.not_false,
    Bool.true_and]

/-- Parts with a suffix at their end are the names of a path. -/
theorem AreParts.isSpelled {front : List String} {last suffix : String}
    (h : AreParts (front ++ [last])) (hsuffix : suffix ∈ suffixes) :
    PosixPath.IsSpelled ⟨.relative, front ++ [last ++ suffix]⟩ := by
  obtain ⟨ending, hending, -, -, hslash, -⟩ := exists_of_mem_suffixes hsuffix
  refine List.forall_mem_append.2 ⟨fun name hname ↦ ?_, List.forall_mem_singleton.2 ?_⟩
  · obtain ⟨hne, hdot, hslash⟩ := h name (List.mem_append_left _ hname)
    refine ⟨hne, ?_, hslash⟩
    rintro rfl
    exact hdot (by decide)
  · obtain ⟨hlast, -, hlastSlash⟩ := h last (by simp)
    have htext : (last ++ suffix).toList = last.toList ++ '.' :: ending := by
      rw [String.toList_append, hending]
    refine ⟨fun heq ↦ ?_, fun heq ↦ ?_, ?_⟩
    · rw [heq] at htext
      simp at htext
    · rw [heq] at htext
      simp [List.singleton_eq_append_iff, hlast] at htext
    · rw [htext, List.mem_append, List.mem_cons]
      rintro (hmem | hmem | hmem)
      · exact hlastSlash hmem
      · exact absurd hmem (by decide)
      · exact hslash hmem

/-- A path with the components of a module, and a suffix at its end, is that of the module. -/
theorem ofPath?_intercalate {components : List String} (hne : components ≠ [])
    (h : ∀ component ∈ components, isCapitalized component.toList = true) {suffix : String}
    (hsuffix : suffix ∈ suffixes) :
    ofPath? ("/".intercalate components ++ suffix) = some (".".intercalate components) := by
  obtain ⟨front, last, rfl⟩ := (List.eq_nil_or_concat' components).resolve_left hne
  have hparts := areParts_of_isCapitalized h
  have hspelled := hparts.isSpelled hsuffix
  rw [Text.intercalate_concat_append, ofPath?_eq (hspelled.ofString_intercalate (by simp))
    (hparts last (by simp)).1 hsuffix, if_pos]
  exact List.all_eq_true.2 fun component hcomponent ↦ isComponent_of_isCapitalized (h _ hcomponent)

/-! ### From paths to names -/

/-- What is known of a path, in one line, that is the file of a module. -/
theorem exists_of_ofPath? {path name : String} (hline : '\n' ∉ path.toList)
    (h : ofPath? path = some name) :
    ∃ components, components ≠ [] ∧
      (∀ component ∈ components, isCapitalized component.toList = true) ∧
        name = ".".intercalate components ∧ ∃ suffix ∈ suffixes,
          (PosixPath.ofString path).text = "/".intercalate components ++ suffix := by
  have hnames : ∀ name ∈ (PosixPath.ofString path).names, '\n' ∉ name.toList :=
    fun name hname hmem ↦ hline (PosixPath.mem_of_mem_names hname hmem)
  rw [ofPath?] at h
  generalize PosixPath.ofString path = file at h hnames ⊢
  obtain ⟨root, names⟩ := file
  split at h
  · next hfile =>
    cases h
    simp only [Bool.and_eq_true, Bool.not_eq_true', List.all_eq_true, List.contains_iff_mem] at hfile
    obtain ⟨⟨hsuffix, hrelative⟩, hcomponents⟩ := hfile
    obtain rfl : root = .relative := by simpa [PosixPath.isAbsolute] using hrelative
    have hne : names ≠ [] := by
      rintro rfl
      exact absurd hsuffix (by decide)
    obtain ⟨front, last, rfl⟩ := (List.eq_nil_or_concat' names).resolve_left hne
    -- Of the last name of the path, only that it is a stem and a suffix is used from here on.
    have hlast := PosixPath.stem_append_suffix ⟨.relative, front ++ [last]⟩
    rw [PosixPath.name_concat] at hlast
    rw [PosixPath.parent_concat] at hcomponents ⊢
    generalize PosixPath.stem ⟨.relative, front ++ [last]⟩ = stem at hlast hcomponents ⊢
    generalize PosixPath.suffix ⟨.relative, front ++ [last]⟩ = suffix at hlast hsuffix
    subst hlast
    refine ⟨front ++ [stem], by simp, fun component hcomponent ↦ ?_, rfl, suffix, hsuffix, ?_⟩
    · rw [← isComponent_iff]
      · exact hcomponents component hcomponent
      · rcases List.mem_append.1 hcomponent with hmem | hmem
        · exact hnames component (List.mem_append_left _ hmem)
        · obtain rfl := List.mem_singleton.1 hmem
          have hwhole := hnames (component ++ suffix) (by simp)
          rw [String.toList_append, List.mem_append, not_or] at hwhole
          exact hwhole.1
    · rw [Text.intercalate_concat_append, PosixPath.text, if_neg (by simp [PosixPath.here])]
      exact String.empty_append
  · cases h

/-! ### Main files -/

theorem splitMain_module {components : List String} (hne : components ≠ [])
    (h : ∀ component ∈ components, isCapitalized component.toList = true) :
    splitMain (".".intercalate components) =
      ("/".intercalate components ++ ".hs", some (".".intercalate components)) := by
  obtain ⟨front, last, rfl⟩ := (List.eq_nil_or_concat' components).resolve_left hne
  have hlast : isCapitalized last.toList = true := h last (by simp)
  rw [(areParts_of_isCapitalized h).splitMain_intercalate (notMem_suffixes_of_isCapitalized hlast),
    isComponent_of_isCapitalized hlast, if_pos rfl]

theorem splitMain_function {components : List String} (hne : components ≠ [])
    (h : ∀ component ∈ components, isCapitalized component.toList = true) {function : String}
    (hfunction : isFunction function.toList = true) (hsuffix : "." ++ function ∉ suffixes) :
    splitMain (".".intercalate components ++ "." ++ function) =
      ("/".intercalate components ++ ".hs", some (".".intercalate components ++ "." ++ function)) := by
  have hparts : AreParts (components ++ [function]) :=
    areParts_of_words (List.forall_mem_append.2 ⟨fun component hcomponent ↦ .inl (h _ hcomponent),
      List.forall_mem_singleton.2 (.inr hfunction)⟩)
  rw [← Text.intercalate_concat _ hne, hparts.splitMain_intercalate hsuffix,
    isComponent_of_isFunction hfunction, if_neg Bool.false_ne_true]

/-- Modules and paths correspond. The components of a module, joined by slashes and with any suffix of
a source file, are a path that gives the module back; as a main file, the module stands for this path
with the first suffix, and so does each function of it, unless its name looks like a suffix. Conversely,
a path in one line that gives a module is read as the components of that module with a suffix, so that
paths that give the same module are the same but for their suffixes. -/
theorem names_correspond_paths :
    (∀ components : List String, components ≠ [] →
      (∀ component ∈ components, isCapitalized component.toList = true) →
        let name := ".".intercalate components
        let path := "/".intercalate components
        (∀ suffix ∈ suffixes, ofPath? (path ++ suffix) = some name) ∧
          splitMain name = (path ++ ".hs", some name) ∧ ofMain? name = some name ∧
            ∀ function : String, isFunction function.toList = true → "." ++ function ∉ suffixes →
              ofMain? (name ++ "." ++ function) = some name ∧
                (splitMain (name ++ "." ++ function)).1 = path ++ ".hs") ∧
      (∀ path name : String, '\n' ∉ path.toList → ofPath? path = some name →
        (∀ component ∈ parts name, isCapitalized component.toList = true) ∧
          ∃ suffix ∈ suffixes,
            (PosixPath.ofString path).text = "/".intercalate (parts name) ++ suffix) ∧
      ∀ path path' name : String, '\n' ∉ path.toList → '\n' ∉ path'.toList →
        ofPath? path = some name → ofPath? path' = some name →
          ∃ stem, ∃ suffix ∈ suffixes, ∃ suffix' ∈ suffixes,
            (PosixPath.ofString path).text = stem ++ suffix ∧
              (PosixPath.ofString path').text = stem ++ suffix' := by
  have hparts : ∀ path name : String, '\n' ∉ path.toList → ofPath? path = some name →
      (∀ component ∈ parts name, isCapitalized component.toList = true) ∧ ∃ suffix ∈ suffixes,
        (PosixPath.ofString path).text = "/".intercalate (parts name) ++ suffix := by
    intro path name hline h
    obtain ⟨components, hne, hcomponents, rfl, hpath⟩ := exists_of_ofPath? hline h
    rw [(areParts_of_isCapitalized hcomponents).parts_intercalate hne]
    exact ⟨hcomponents, hpath⟩
  refine ⟨fun components hne h ↦ ?_, hparts, fun path path' name hline hline' h h' ↦ ?_⟩
  · have hfile :
        ofPath? ("/".intercalate components ++ ".hs") = some (".".intercalate components) :=
      ofPath?_intercalate hne h (by decide)
    refine ⟨fun suffix ↦ ofPath?_intercalate hne h, splitMain_module hne h, ?_,
      fun function hfunction hsuffix ↦ ?_⟩
    · rw [ofMain?, splitMain_module hne h, hfile]
    · rw [ofMain?, splitMain_function hne h hfunction hsuffix]
      exact ⟨hfile, rfl⟩
  · obtain ⟨suffix, hsuffix, hpath⟩ := (hparts path name hline h).2
    obtain ⟨suffix', hsuffix', hpath'⟩ := (hparts path' name hline' h').2
    exact ⟨_, suffix, hsuffix, suffix', hsuffix', hpath, hpath'⟩

/-- A module two directories down, one of its functions, and two of its paths. -/
theorem names_correspond_paths_nested :
    ofPath? "Data/Text'/IO_2.hsc" = some "Data.Text'.IO_2" ∧
      splitMain "Data.Text'.IO_2" = ("Data/Text'/IO_2.hs", some "Data.Text'.IO_2") ∧
      ofMain? "Data.Text'.IO_2.run" = some "Data.Text'.IO_2" ∧
      ∃ stem, ∃ suffix ∈ suffixes, ∃ suffix' ∈ suffixes,
        (PosixPath.ofString "./Data//Text'/IO_2.hsc").text = stem ++ suffix ∧
          (PosixPath.ofString "Data/Text'/./IO_2.y").text = stem ++ suffix' := by
  obtain ⟨hmodule, -, hpaths⟩ := names_correspond_paths
  obtain ⟨hpath, hmain, -, hfunction⟩ := hmodule ["Data", "Text'", "IO_2"] (by decide) (by decide)
  refine ⟨hpath ".hsc" (by decide), hmain, (hfunction "run" (by decide) (by decide)).1,
    hpaths _ _ "Data.Text'.IO_2" (by decide) (by decide) ?_ ?_⟩
  · decide
  · decide

end ModuleName

end CabalManifest
