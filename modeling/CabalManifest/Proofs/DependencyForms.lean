import CabalManifest.Dependency
import CabalManifest.Proofs.LegiblePieces

/-!
# The forms of dependencies

A dependency is read back from its own text (`Dependency.ofText_text`), and a list of dependencies is
the same in whatever form it is written (`Dependency.listOf_forms`). Both rest on where a text is cut
into a name and a constraint: the name ends in front of the first blank, and blanks are all that the
normal form of a constraint does not keep (`Constraint.normalize_congr`).
-/

namespace CabalManifest

/-- A trimmed text has no new characters. -/
theorem Text.trim_subset (cs : List Char) : Text.trim cs ⊆ cs := by
  intro c hc
  have hleft : c ∈ (Text.trimLeft cs).reverse :=
    (List.dropWhile_suffix _).subset (List.mem_reverse.1 hc)
  exact (List.dropWhile_suffix _).subset (List.mem_reverse.1 hleft)

/-! ### Constraints -/

namespace Constraint

open Text (isBlank trim trimLeft trimRight)

/-- Texts in turn are compacted one by one. -/
@[simp]
theorem compact_append (xs ys : List Char) : compact (xs ++ ys) = compact xs ++ compact ys :=
  List.filter_append xs ys

/-- A text of blanks is compacted to nothing. -/
theorem compact_eq_nil {cs : List Char} (h : ∀ c ∈ cs, isBlank c = true) : compact cs = [] :=
  List.filter_eq_nil_iff.2 fun c hc ↦ by simp [h c hc]

/-- A compact text has no blank. -/
theorem isBlank_of_mem_compact {c : Char} {cs : List Char} (h : c ∈ compact cs) :
    isBlank c = false := by
  simpa using (List.mem_filter.1 h).2

/-- The spaces around operators are all that the normal form adds. -/
theorem compact_spaceOperators (cs : List Char) : compact (spaceOperators cs) = compact cs := by
  fun_induction spaceOperators cs with
  | case1 => rfl
  | case2 cs ih => exact congrArg ('&' :: '&' :: ·) ih
  | case3 cs ih => exact congrArg ('|' :: '|' :: ·) ih
  | case4 c cs _ _ ih =>
    rw [compact, compact, List.filter_cons, List.filter_cons]
    rw [compact, compact] at ih
    rw [ih]

/-- Spacing the operators adds nothing but spaces. -/
theorem mem_spaceOperators {c : Char} {cs : List Char} (h : c ∈ spaceOperators cs) :
    c = ' ' ∨ c ∈ cs := by
  fun_induction spaceOperators cs with
  | case1 => cases h
  | case2 cs ih => grind
  | case3 cs ih => grind
  | case4 d cs _ _ ih => grind

/-- Blanks at the start do not matter to a compact text. -/
theorem compact_trimLeft (cs : List Char) : compact (trimLeft cs) = compact cs := by
  have hsplit : cs.takeWhile isBlank ++ trimLeft cs = cs := List.takeWhile_append_dropWhile
  conv => rhs; rw [← hsplit, compact_append, compact_eq_nil fun c hc ↦ List.mem_takeWhile_imp hc]
  rfl

/-- Nor do blanks at the end. -/
theorem compact_trimRight (cs : List Char) : compact (trimRight cs) = compact cs := by
  have hreverse : compact (trimLeft cs.reverse) = compact cs.reverse := compact_trimLeft _
  have := congrArg List.reverse hreverse
  simpa [compact, trimRight, Text.dropRight, trimLeft, List.filter_reverse] using this

/-- Blanks on either side of a constraint do not matter. -/
theorem compact_trim (cs : List Char) : compact (trim cs) = compact cs := by
  rw [trim, compact_trimRight, compact_trimLeft]

/-- A constraint is normalized by compacting it and spacing its operators. -/
theorem normalize_eq (constraint : String) :
    normalize constraint = if compact constraint.toList = [] then none
      else some (String.ofList (spaceOperators (compact constraint.toList))) := by
  rw [normalize]
  cases compact constraint.toList <;> rfl

/-- Constraints that differ in blanks only have one normal form. -/
theorem normalize_congr {constraint constraint' : String}
    (h : compact constraint.toList = compact constraint'.toList) :
    normalize constraint = normalize constraint' := by
  rw [normalize_eq, normalize_eq, h]

/-- A normal form is one of its own. -/
theorem normalize_of_normalize {constraint normal : String} (h : normalize constraint = some normal) :
    normalize normal = some normal := by
  rw [← h]
  apply normalize_congr
  rw [normalize_eq] at h
  split at h
  · cases h
  · cases h
    rw [String.toList_ofList, compact_spaceOperators, compact, compact, List.filter_filter]
    simp

/-- No normal form is empty: that would mean any version. -/
theorem ne_empty_of_normalize {constraint normal : String} (h : normalize constraint = some normal) :
    normal ≠ "" := by
  rintro rfl
  cases normalize_of_normalize h

/-- The only blanks of a normal form are single spaces. -/
theorem eq_space_of_normalize {constraint normal : String} (h : normalize constraint = some normal)
    {c : Char} (hc : c ∈ normal.toList) (hblank : isBlank c = true) : c = ' ' := by
  rw [normalize_eq] at h
  split at h
  · cases h
  · cases h
    rw [String.toList_ofList] at hc
    refine (mem_spaceOperators hc).resolve_right fun hcompact ↦ ?_
    rw [isBlank_of_mem_compact hcompact] at hblank
    cases hblank

end Constraint

/-! ### The text form -/

namespace Dependency

/-- Whether a text is the name of a package: a letter or a digit, and characters of names. -/
def isName : List Char → Bool
  | [] => false
  | c :: cs => isNameStart c && cs.all isNameChar

/-- A name does not start with a blank. -/
theorem isBlank_of_isNameStart {c : Char} (h : isNameStart c = true) : Text.isBlank c = false := by
  refine LayoutHints.isBlank_of_isNameChar ?_
  rw [isNameStart] at h
  simp [LayoutHints.isNameChar, h]

/-- What is read from a text is a name and what normalizes to its constraint, in one line. -/
theorem exists_of_ofText? {text : String} {dependency : Dependency}
    (h : ofText? text = some dependency) :
    isName dependency.name.toList ∧ ∃ constraint : String,
      '\n' ∉ constraint.toList ∧ dependency.constraint = Constraint.normalize constraint := by
  rw [ofText?] at h
  split at h
  · cases h
  · next c cs hname =>
    simp only at h
    split at h
    · next hstart =>
      split at h
      · cases h
      · next hline =>
        cases h
        refine ⟨?_, _, ?_, rfl⟩
        · rw [String.toList_ofList, isName, hstart, Bool.true_and, List.all_eq_true]
          exact fun d hd ↦ List.mem_takeWhile_imp hd
        · simpa using hline
    · cases h

/-- A name and the rest of a text behind it are read apart if the name cannot go on there. -/
theorem ofText?_append {name : String} (hname : isName name.toList) {rest : String}
    (hrest : ∀ c ∈ rest.toList.head?, isNameChar c = false) (hline : '\n' ∉ rest.toList) :
    ofText? (name ++ rest) = some ⟨name, Constraint.normalize rest⟩ := by
  obtain ⟨c, cs, hcs⟩ : ∃ c cs, name.toList = c :: cs := by
    cases hcs : name.toList with
    | nil =>
      rw [hcs] at hname
      cases hname
    | cons c cs => exact ⟨c, cs, rfl⟩
  rw [hcs, isName, Bool.and_eq_true, List.all_eq_true] at hname
  obtain ⟨hstart, hchars⟩ := hname
  have htext : Text.trimLeft (name ++ rest).toList = c :: (cs ++ rest.toList) := by
    rw [String.toList_append, hcs]
    exact List.dropWhile_cons_of_neg (by simp [isBlank_of_isNameStart hstart])
  have hcut : rest.toList.takeWhile isNameChar = [] ∧
      rest.toList.dropWhile isNameChar = rest.toList := by
    cases htail : rest.toList with
    | nil => exact ⟨rfl, rfl⟩
    | cons d ds =>
      have hd : ¬isNameChar d = true := by simp [hrest d (by rw [htail]; rfl)]
      exact ⟨List.takeWhile_cons_of_neg hd, List.dropWhile_cons_of_neg hd⟩
  have htrim : (Text.trim rest.toList).contains '\n' = false := by
    simpa using fun hmem ↦ hline (Text.trim_subset _ hmem)
  -- The rest is trimmed before it is normalized, and its normal form does not show that.
  have hconstraint : Constraint.normalize (String.ofList (Text.trim rest.toList)) =
      Constraint.normalize rest :=
    Constraint.normalize_congr (by rw [String.toList_ofList, Constraint.compact_trim])
  rw [ofText?, htext]
  simp only [hstart, if_true, List.takeWhile_append_of_pos hchars,
    List.dropWhile_append_of_pos hchars, hcut.1, hcut.2, List.append_nil, htrim, Bool.false_eq_true,
    if_false, hconstraint, ← hcs, String.ofList_toList]

/-- A name that stands alone is a dependency on any version. -/
theorem ofText?_name {name : String} (h : isName name.toList) : ofText? name = some ⟨name, none⟩ := by
  have hempty := @ofText?_append name h "" (by simp) (by simp)
  rwa [String.append_empty] at hempty

/-- A name and a constraint are read apart at the space between them, whatever the constraint is. -/
theorem ofText?_constraint {name constraint : String} (h : isName name.toList)
    (hline : '\n' ∉ constraint.toList) :
    ofText? (name ++ " " ++ constraint) = some ⟨name, Constraint.normalize constraint⟩ := by
  have hspace : (" " ++ constraint).toList = ' ' :: constraint.toList := by simp
  have hblank : Constraint.normalize (" " ++ constraint) = Constraint.normalize constraint := by
    refine Constraint.normalize_congr ?_
    rw [hspace]
    rfl
  rw [String.append_assoc, ofText?_append h, hblank]
  · rw [hspace]
    rintro c ⟨⟩
    rfl
  · rw [hspace, List.mem_cons, not_or]
    exact ⟨by decide, hline⟩

/-- A text is accepted as a dependency if it can be split into a name and a constraint. -/
theorem ofText_eq_ok_iff {source : String} {place : Place} {text : String}
    {dependency : Dependency} :
    ofText source place text = .ok dependency ↔ ofText? text = some dependency := by
  rw [ofText]
  split
  · next h => rw [h, Except.ok.injEq, Option.some.injEq]
  · next h => simp [h]

/-- A dependency that was read from a text is read back from its own text, wherever that stands. -/
theorem ofText_text {source : String} {place : Place} {text : String} {dependency : Dependency}
    (h : ofText source place text = .ok dependency) (source' : String) (place' : Place) :
    ofText source' place' dependency.text = .ok dependency := by
  obtain ⟨name, constraint⟩ := dependency
  obtain ⟨hname, rest, hline, hconstraint⟩ := exists_of_ofText? (ofText_eq_ok_iff.1 h)
  rw [ofText_eq_ok_iff]
  cases constraint with
  | none => exact ofText?_name hname
  | some normal =>
    have hnormal : normal ≠ "" := Constraint.ne_empty_of_normalize hconstraint.symm
    have htext : Dependency.text ⟨name, some normal⟩ = name ++ " " ++ normal := by
      simp [Dependency.text]
    -- A line feed would be a blank, and the only blanks here are spaces.
    have hline : '\n' ∉ normal.toList := fun hmem ↦
      absurd (Constraint.eq_space_of_normalize hconstraint.symm hmem rfl) (by decide)
    rw [htext, ofText?_constraint hname hline,
      Constraint.normalize_of_normalize hconstraint.symm]

/-- A constraint in odd spacing, with an operator at its end. -/
theorem ofText_text_spaced :
    ofText "package.yaml" .top " base>= 4&&\t<5 ||" = .ok ⟨"base", some ">=4 && <5 || "⟩ ∧
      ofText "package.yaml" .top (Dependency.text ⟨"base", some ">=4 && <5 || "⟩) =
        .ok ⟨"base", some ">=4 && <5 || "⟩ := by
  have hread : ofText "package.yaml" .top " base>= 4&&\t<5 ||" =
      .ok ⟨"base", some ">=4 && <5 || "⟩ := ofText_eq_ok_iff.2 (by decide)
  exact ⟨hread, ofText_text hread _ _⟩

/-! ### Document values -/

/-- Whether a value is a constraint in some form: a text, or an object that holds one under
`version`. -/
inductive IsConstraint (constraint : String) : Value → Prop
  | text : IsConstraint constraint (.text constraint)
  | version {entries : List (String × Value)} {value : Value}
    (hversion : Entries.get? entries "version" = some value) (h : IsConstraint constraint value) :
    IsConstraint constraint (.object entries)

/-- Whether an item is a dependency in some form: a text, or an object with the name and the
constraint. -/
inductive IsItem (name constraint : String) : Value → Prop
  | text : IsItem name constraint (.text (name ++ " " ++ constraint))
  | object {entries : List (String × Value)} {value : Value}
    (hname : Entries.get? entries "name" = some (.text name))
    (hversion : Entries.get? entries "version" = some value) (h : IsConstraint constraint value) :
    IsItem name constraint (.object entries)

variable (source : String) (place : Place)

/-- The version of an object is the constraint under its key. -/
theorem versionOf_eq_of_get? {entries : List (String × Value)} {value : Value}
    (h : Entries.get? entries "version" = some value) :
    versionOf source place entries = constraintOf source (place.key "version") value := by
  induction entries with
  | nil => cases h
  | cons entry entries ih =>
    obtain ⟨key, other⟩ := entry
    rw [Entries.get?_cons] at h
    rw [versionOf]
    split at h
    · next hkey =>
      cases h
      rw [if_pos hkey]
    · next hkey => rw [if_neg hkey, ih h]

/-- Each form of a constraint is normalized to the same text. -/
theorem constraintOf_of_isConstraint {constraint : String} {value : Value}
    (h : IsConstraint constraint value) :
    constraintOf source place value = .ok (Constraint.normalize constraint) := by
  induction h generalizing place with
  | text => rw [constraintOf]
  | version hversion _ ih => rw [constraintOf, versionOf_eq_of_get? _ _ hversion, ih]

/-- Each form of an item is read as the same dependency. -/
theorem ofItem_of_isItem {name constraint : String} {item : Value} (h : IsItem name constraint item)
    (hname : isName name.toList) (hline : '\n' ∉ constraint.toList) :
    ofItem source place item = .ok ⟨name, Constraint.normalize constraint⟩ := by
  cases h with
  | text => rw [ofItem, ofText_eq_ok_iff, ofText?_constraint hname hline]
  | object hget hversion hconstraint =>
    rw [ofItem, hget]
    simp only [versionOf_eq_of_get? _ _ hversion, constraintOf_of_isConstraint _ _ hconstraint]
    rfl

/-- A name with a constraint, as it is read. -/
def normal (pair : String × String) : Dependency := ⟨pair.1, Constraint.normalize pair.2⟩

/-- So is a list of items, in order. -/
theorem ofItems_of_areItems {pairs : List (String × String)} {items : List Value}
    (h : List.Forall₂ (fun pair ↦ IsItem pair.1 pair.2) pairs items)
    (hpairs : ∀ pair ∈ pairs, isName pair.1.toList ∧ '\n' ∉ pair.2.toList) (position : Nat) :
    ofItems source place position items = .ok (pairs.map normal) := by
  induction h generalizing position with
  | nil => rfl
  | cons hitem _ ih =>
    rw [List.forall_mem_cons] at hpairs
    rw [ofItems, ofItem_of_isItem _ _ hitem hpairs.1.1 hpairs.1.2]
    simp only [ih hpairs.2]
    rfl

/-- So are the entries of an object. -/
theorem ofEntries_of_areConstraints {pairs : List (String × String)}
    {entries : List (String × Value)}
    (h : List.Forall₂ (fun pair entry ↦ entry.1 = pair.1 ∧ IsConstraint pair.2 entry.2) pairs entries) :
    ofEntries source place entries = .ok (pairs.map normal) := by
  induction h with
  | nil => rfl
  | @cons pair entry _ _ hentry _ ih =>
    obtain ⟨name, value⟩ := entry
    obtain ⟨rfl, hvalue⟩ := hentry
    rw [ofEntries, constraintOf_of_isConstraint _ _ hvalue]
    simp only [ih]
    rfl

/-- All forms of a list of dependencies are read alike: names and constraints give the same
dependencies in the same order, and as many of one name as there are, as an array whose items are
texts and objects in any mixture, as an object from names to constraints, and, if there is only one,
as a text. -/
theorem listOf_forms {pairs : List (String × String)}
    (h : ∀ pair ∈ pairs, isName pair.1.toList ∧ '\n' ∉ pair.2.toList) :
    (∀ items, List.Forall₂ (fun pair ↦ IsItem pair.1 pair.2) pairs items →
        listOf source place (.array items) = .ok (pairs.map normal)) ∧
      (∀ entries, List.Forall₂ (fun pair entry ↦ entry.1 = pair.1 ∧ IsConstraint pair.2 entry.2)
          pairs entries →
        listOf source place (.object entries) = .ok (pairs.map normal)) ∧
      ∀ pair, pairs = [pair] →
        listOf source place (.text (pair.1 ++ " " ++ pair.2)) = .ok (pairs.map normal) := by
  refine ⟨fun items hitems ↦ ?_, fun entries hentries ↦ ?_, ?_⟩
  · exact ofItems_of_areItems source place hitems h 0
  · exact ofEntries_of_areConstraints source place hentries
  · rintro pair rfl
    obtain ⟨hname, hline⟩ := List.forall_mem_singleton.1 h
    have hread : ofText source place (pair.1 ++ " " ++ pair.2) = .ok (normal pair) :=
      ofText_eq_ok_iff.2 (ofText?_constraint hname hline)
    rw [listOf, hread]
    rfl

/-- One name three times, with constraints that are empty, start like a name and have odd blanks. -/
theorem listOf_forms_repeated :
    let pairs := [("base", ""), ("base", "4x"), ("base", "\x1c>= 4&&\t<5 ")]
    (∀ pair ∈ pairs, isName pair.1.toList ∧ '\n' ∉ pair.2.toList) ∧
      listOf "package.yaml" (Place.top.key "dependencies") (.array [.text "base ",
        .object [("version", .object [("version", .text "4x")]), ("name", .text "base")],
        .text "base \x1c>= 4&&\t<5 "]) =
        .ok [⟨"base", none⟩, ⟨"base", some "4x"⟩, ⟨"base", some ">=4 && <5"⟩] := by
  intro pairs
  have hpairs : ∀ pair ∈ pairs, isName pair.1.toList ∧ '\n' ∉ pair.2.toList := by
    decide
  have hnormal : pairs.map normal =
      [⟨"base", none⟩, ⟨"base", some "4x"⟩, ⟨"base", some ">=4 && <5"⟩] := by
    decide
  refine ⟨hpairs, hnormal ▸ (listOf_forms _ _ hpairs).1 _ ?_⟩
  exact .cons .text (.cons (.object rfl rfl (.version rfl .text)) (.cons .text .nil))

end Dependency

end CabalManifest
