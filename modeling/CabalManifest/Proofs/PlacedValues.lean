import CabalManifest.Manifest.FieldValue
import CabalManifest.Proofs.OrderedEntries
import CabalManifest.Proofs.PairedRuns

/-!
# Values at their places

What is read from a value does not depend on the place at which it stands; only failures and warnings
tell the place. So two runs that read the same value at two places give the same, and what they report
differs in the place alone. A *placing* says which places belong together, and of which value: it
follows the runs from an object or an array to its parts.

Whatever a failure says that it encountered is what stands at the place that it reports, and a warning
about a key is about a key that stands there (`Placing.Blames`, `Placing.Tells`).
-/

namespace CabalManifest

/-- Which places in documents of a name belong together in two runs, the value being that of the first
run. The second run may find the value a step deeper: as the only item of an array, or in the first
branch of a conditional. -/
structure Placing where
  relates : String → Place → Place → Value → Prop
  key : ∀ {source place place' entries name value}, relates source place place' (.object entries) →
    (name, value) ∈ entries → relates source (place.key name) (place'.key name) value
  index : ∀ {source place place' items position value},
    relates source place place' (.array items) → items[position]? = some value →
      relates source (place.index position) (place'.index position) value
  lone : ∀ {source place place' value}, relates source place place' value →
    relates source place (place'.index 0) value
  branch : ∀ {source place place' value}, relates source place place' value →
    relates source place (place'.key "then") value

namespace Placing

/-- Failures that belong together: about a value at places that belong together, or the same. -/
inductive Blames (placing : Placing) : Failure → Failure → Prop
  | fault {source : String} {place place' : Place} {value : Value} {fault : Fault}
    (h : placing.relates source place place' value)
    (hfault : ∀ what found, fault = .expected what found → value.shape = found) :
    Blames placing (.invalid source place fault) (.invalid source place' fault)
  | other {failure : Failure}
    (h : ∀ source place what found, failure ≠ .invalid source place (.expected what found)) :
    Blames placing failure failure

/-- Warnings that belong together: about a key of an object at places that belong together, or the
same. -/
inductive Tells (placing : Placing) : Warning → Warning → Prop
  | unrecognized {source : String} {place place' : Place} {entries : List (String × Value)}
    {key : String} (h : placing.relates source place place' (.object entries))
    (hkey : key ∈ Entries.keys entries) (hprivate : isPrivate key = false) :
    Tells placing (.unrecognized source (place.key key)) (.unrecognized source (place'.key key))
  | other {warning : Warning} (h : ∀ source place, warning ≠ .unrecognized source place) :
    Tells placing warning warning

/-- The pairing of runs whose places belong together. -/
def pairing {σ : Type} (placing : Placing) (ties : σ → σ → Prop) : Pairing σ σ :=
  ⟨ties, placing.Tells, placing.Blames⟩

theorem blames_noResolver (placing : Placing) : placing.Blames .noResolver .noResolver := .other nofun

variable {placing : Placing} {source : String} {place place' : Place} {value : Value}

/-! ### Parts -/

/-- Whether some entries are those of an object, all or some, at places that belong together. -/
def Covers (placing : Placing) (source : String) (place place' : Place)
    (entries : List (String × Value)) : Prop :=
  ∃ whole, placing.relates source place place' (.object whole) ∧ entries ⊆ whole

/-- Whether some items are those of an array from a position on, at places that belong together. -/
def CoversFrom (placing : Placing) (source : String) (place place' : Place) (position : Nat)
    (items : List Value) : Prop :=
  ∃ whole, placing.relates source place place' (.array whole) ∧ whole.drop position = items

/-- Places that are related for an object are related for all of its entries. -/
theorem covers {entries : List (String × Value)}
    (h : placing.relates source place place' (.object entries)) :
    placing.Covers source place place' entries :=
  ⟨entries, h, List.Subset.refl _⟩

/-- Places that are related for a list are related for all of its items. -/
theorem coversFrom {items : List Value} (h : placing.relates source place place' (.array items)) :
    placing.CoversFrom source place place' 0 items :=
  ⟨items, h, rfl⟩

namespace Covers

variable {name : String} {entries entries' : List (String × Value)}

/-- Fewer entries are covered, too. -/
theorem mono (h : placing.Covers source place place' entries) (hsubset : entries' ⊆ entries) :
    placing.Covers source place place' entries' := by
  obtain ⟨whole, hwhole, hentries⟩ := h
  exact ⟨whole, hwhole, List.Subset.trans hsubset hentries⟩

/-- What is covered as the entries of a conditional is covered as those of its branch. -/
theorem branch (h : placing.Covers source place place' entries) :
    placing.Covers source place (place'.key "then") entries := by
  obtain ⟨whole, hwhole, hentries⟩ := h
  exact ⟨whole, placing.branch hwhole, hentries⟩

/-- Places of an entry that is covered are related. -/
theorem of_mem (h : placing.Covers source place place' entries) (hmem : (name, value) ∈ entries) :
    placing.relates source (place.key name) (place'.key name) value := by
  obtain ⟨whole, hwhole, hentries⟩ := h
  exact placing.key hwhole (hentries hmem)

theorem head (h : placing.Covers source place place' ((name, value) :: entries)) :
    placing.relates source (place.key name) (place'.key name) value :=
  h.of_mem List.mem_cons_self

theorem tail {entry : String × Value}
    (h : placing.Covers source place place' (entry :: entries)) :
    placing.Covers source place place' entries :=
  h.mono (List.subset_cons_self _ _)

/-- Places of a value that is covered under its name are related. -/
theorem of_get? (h : placing.Covers source place place' entries)
    (hvalue : Entries.get? entries name = some value) :
    placing.relates source (place.key name) (place'.key name) value :=
  h.of_mem (Entries.mem_of_get?_eq_some hvalue)

/-- A warning about one of the keys. -/
theorem tells (h : placing.Covers source place place' entries)
    (hmem : (name, value) ∈ entries) (hprivate : isPrivate name = false) :
    placing.Tells (.unrecognized source (place.key name))
      (.unrecognized source (place'.key name)) := by
  obtain ⟨whole, hwhole, hentries⟩ := h
  exact .unrecognized hwhole (List.mem_map_of_mem (hentries hmem)) hprivate

/-- Warnings about all of the keys that are unknown. -/
theorem forall₂_tells (h : placing.Covers source place place' entries) (keys : List String) :
    List.Forall₂ placing.Tells
      ((entries.filter fun (key, _) ↦ !keys.contains key && !isPrivate key).map
        fun (key, _) ↦ .unrecognized source (place.key key))
      ((entries.filter fun (key, _) ↦ !keys.contains key && !isPrivate key).map
        fun (key, _) ↦ .unrecognized source (place'.key key)) := by
  rw [List.forall₂_map_left_iff, List.forall₂_map_right_iff, List.forall₂_same]
  rintro ⟨name, value⟩ hentry
  obtain ⟨hmem, hunknown⟩ := List.mem_filter.1 hentry
  exact h.tells hmem (by simpa using (Bool.and_eq_true_iff.1 hunknown).2)

end Covers

namespace CoversFrom

variable {position : Nat} {items : List Value}

theorem head (h : placing.CoversFrom source place place' position (value :: items)) :
    placing.relates source (place.index position) (place'.index position) value := by
  obtain ⟨whole, hwhole, hitems⟩ := h
  have hfirst : (whole.drop position)[0]? = some value := by rw [hitems]; rfl
  exact placing.index hwhole (by simpa using hfirst)

theorem tail (h : placing.CoversFrom source place place' position (value :: items)) :
    placing.CoversFrom source place place' (position + 1) items := by
  obtain ⟨whole, hwhole, hitems⟩ := h
  refine ⟨whole, hwhole, ?_⟩
  rw [← List.drop_drop, hitems]
  rfl

end CoversFrom

/-! ### Faults -/

section

variable {α β : Type} {p : α → β → Prop}

/-- A value of another shape than the one that is expected. -/
theorem matches_expected (h : placing.relates source place place' value) (what : String) :
    Matches placing.Blames p (.error (.invalid source place (.expected what value.shape)))
      (.error (.invalid source place' (.expected what value.shape))) :=
  .error (.fault h fun _ _ hfault ↦ (Fault.expected.inj hfault).2)

/-- Another fault of a value. -/
theorem matches_fault (h : placing.relates source place place' value) {fault : Fault}
    (hfault : ∀ what found, fault ≠ .expected what found) :
    Matches placing.Blames p (.error (.invalid source place fault))
      (.error (.invalid source place' fault)) :=
  .error (.fault h fun what found heq ↦ absurd heq (hfault what found))

/-- A failure that names no place. -/
theorem matches_other {failure : Failure}
    (h : ∀ source place what found, failure ≠ .invalid source place (.expected what found)) :
    Matches placing.Blames p (.error failure) (.error failure) :=
  .error (.other h)

end

end Placing

variable {placing : Placing} {source : String} {place place' : Place} {value : Value}

/-! ### Dependencies -/

namespace Dependency

/-- A dependency in one text is read alike at both places. -/
theorem matches_ofText (text : String) (h : placing.relates source place place' (.text text)) :
    Matches placing.Blames Eq (ofText source place text) (ofText source place' text) := by
  rw [ofText, ofText]
  split
  · exact .ok rfl
  · exact Placing.matches_fault h nofun

mutual

/-- The constraint of a dependency is read alike at both places, whatever shape it has. -/
theorem matches_constraintOf {place place' : Place} :
    ∀ {value : Value}, placing.relates source place place' value →
      Matches placing.Blames Eq (constraintOf source place value) (constraintOf source place' value)
  | .scalar .null, _ => .ok rfl
  | .scalar (.bool _), h => Placing.matches_expected h _
  | .scalar (.int _), _ => by
    rw [constraintOf, constraintOf]
    split
    · exact .ok rfl
    · exact Placing.matches_other nofun
  | .scalar (.float _), _ => .ok rfl
  | .scalar (.text _), _ => .ok rfl
  | .array _, h => Placing.matches_expected h _
  | .object entries, h => by
    rw [constraintOf, constraintOf]
    exact matches_versionOf entries (Placing.covers h)

/-- The version in an object is read alike at both places. -/
theorem matches_versionOf {place place' : Place} :
    ∀ entries : List (String × Value), placing.Covers source place place' entries →
      Matches placing.Blames Eq (versionOf source place entries) (versionOf source place' entries)
  | [], _ => .ok rfl
  | (key, value) :: entries, h => by
    rw [versionOf, versionOf]
    split
    · next hkey =>
      subst hkey
      exact matches_constraintOf h.head
    · exact matches_versionOf entries h.tail

end

theorem matches_ofItem (h : placing.relates source place place' value) :
    Matches placing.Blames Eq (ofItem source place value) (ofItem source place' value) := by
  rw [ofItem.eq_def, ofItem.eq_def]
  split
  · exact matches_ofText _ h
  · split
    · exact (matches_versionOf _ (Placing.covers h)).bind fun _ _ hversion ↦ .ok (by rw [hversion])
    · exact Placing.matches_fault h nofun
  · exact Placing.matches_expected h _

/-- The dependencies of a list are read alike, one after another. -/
theorem matches_ofItems {position : Nat} (items : List Value)
    (h : placing.CoversFrom source place place' position items) :
    Matches placing.Blames Eq (ofItems source place position items)
      (ofItems source place' position items) := by
  induction items generalizing position with
  | nil => exact .ok rfl
  | cons item items ih =>
    refine (matches_ofItem h.head).bind fun dependency _ hitem ↦ ?_
    exact (ih h.tail).bind fun rest _ hrest ↦ .ok (by rw [hitem, hrest])

/-- The dependencies of an object are read alike, one after another. -/
theorem matches_ofEntries (entries : List (String × Value))
    (h : placing.Covers source place place' entries) :
    Matches placing.Blames Eq (ofEntries source place entries) (ofEntries source place' entries) := by
  induction entries with
  | nil => exact .ok rfl
  | cons entry entries ih =>
    refine (matches_constraintOf h.head).bind fun constraint _ hvalue ↦ ?_
    exact (ih h.tail).bind fun rest _ hrest ↦ .ok (by rw [hvalue, hrest])

/-- Dependencies are read alike in all of their forms. -/
theorem matches_listOf (h : placing.relates source place place' value) :
    Matches placing.Blames Eq (listOf source place value) (listOf source place' value) := by
  rw [listOf.eq_def, listOf.eq_def]
  split
  · exact (matches_ofText _ h).bind fun _ _ htext ↦ .ok (by rw [htext])
  · exact matches_ofItems _ (Placing.coversFrom h)
  · exact matches_ofEntries _ (Placing.covers h)
  · exact Placing.matches_expected h _

/-- A text is read like the array of it. -/
theorem matches_listOf_lone {text : String} (h : placing.relates source place place' (.text text)) :
    Matches placing.Blames Eq (listOf source place (.text text))
      (listOf source place' (.array [.text text])) := by
  refine (matches_ofText text (placing.lone h)).bind fun _ _ htext ↦ ?_
  rw [htext]
  exact .ok rfl

end Dependency

/-! ### References -/

namespace Reference

theorem matches_textOf (h : placing.relates source place place' value) :
    Matches placing.Blames Eq (textOf source place value) (textOf source place' value) := by
  rw [textOf.eq_def, textOf.eq_def]
  split
  · exact .ok rfl
  · exact Placing.matches_expected h _

/-- A reference to a repository is read alike at both places. -/
theorem matches_ofRepositoryEntries {entries : List (String × Value)} {names : Value}
    (h : placing.relates source place place' (.object entries))
    (hnames : Entries.get? entries "github" = some names) :
    Matches placing.Blames Eq (ofRepositoryEntries source place entries names)
      (ofRepositoryEntries source place' entries names) := by
  have hcovers := Placing.covers h
  rw [ofRepositoryEntries.eq_def, ofRepositoryEntries.eq_def]
  simp only
  split
  · cases names.isWritable with
    | true => exact Placing.matches_fault (hcovers.of_get? hnames) nofun
    | false => exact Placing.matches_other nofun
  · split
    · exact Placing.matches_fault h nofun
    · exact Placing.matches_fault h nofun
    · next ref _ href =>
      refine (matches_textOf (hcovers.of_get? href)).bind fun ref _ hsame ↦ ?_
      subst hsame
      split
      · exact .ok rfl
      · next path hpath =>
        refine (matches_textOf (hcovers.of_get? hpath)).bind fun path _ hsame ↦ ?_
        subst hsame
        exact .ok rfl

theorem matches_ofEntries {entries : List (String × Value)}
    (h : placing.relates source place place' (.object entries)) :
    Matches placing.Blames Eq (ofEntries source place entries) (ofEntries source place' entries) := by
  have hcovers := Placing.covers h
  rw [ofEntries, ofEntries]
  split
  · exact Placing.matches_fault h nofun
  · next path hpath => exact (matches_textOf (hcovers.of_get? hpath)).map_eq _
  · exact Placing.matches_fault h nofun
  · next names hnames _ => exact (matches_ofRepositoryEntries h hnames).map_eq _

/-- Results with the warnings before them that belong together. -/
def Tallies (placing : Placing) {α : Type} (warned warned' : Warned α) : Prop :=
  List.Forall₂ placing.Tells warned.1 warned'.1 ∧ Matches placing.Blames Eq warned.2 warned'.2

/-- A reference is read with the same warnings at both places, and to the same result. -/
theorem tallies_ofValue (h : placing.relates source place place' value) :
    Tallies placing (ofValue source place value) (ofValue source place' value) := by
  rw [ofValue.eq_def, ofValue.eq_def]
  split
  · split
    · exact ⟨.nil, .ok rfl⟩
    · exact ⟨.nil, Placing.matches_fault h nofun⟩
  · exact ⟨(Placing.covers h).forall₂_tells keys, matches_ofEntries h⟩
  · exact ⟨.nil, Placing.matches_expected h _⟩

theorem tallies_ofItems {position : Nat} (items : List Value)
    (h : placing.CoversFrom source place place' position items) :
    Tallies placing (ofItems source place position items) (ofItems source place' position items) := by
  induction items generalizing position with
  | nil => exact ⟨.nil, .ok rfl⟩
  | cons item items ih =>
    have hitem := tallies_ofValue h.head
    have hrest := ih h.tail
    rw [ofItems, ofItems]
    generalize ofValue source (place.index position) item = first at hitem ⊢
    generalize ofValue source (place'.index position) item = first' at hitem ⊢
    obtain ⟨warnings, result⟩ := first
    obtain ⟨warnings', result'⟩ := first'
    obtain ⟨htells, hmatches⟩ := hitem
    simp only at htells hmatches
    cases hmatches with
    | ok hsame =>
      subst hsame
      exact ⟨List.rel_append htells hrest.1, hrest.2.map_eq _⟩
    | error hfails => exact ⟨htells, .error hfails⟩

/-- References are read with the same warnings at both places, and to the same result. -/
theorem tallies_listOf (h : placing.relates source place place' value) :
    Tallies placing (listOf source place value) (listOf source place' value) := by
  rw [listOf.eq_def, listOf.eq_def]
  split
  · exact tallies_ofItems _ (Placing.coversFrom h)
  · obtain ⟨htells, hmatches⟩ := tallies_ofValue h
    exact ⟨htells, hmatches.map_eq _⟩

/-- A reference is read like the array of it. -/
theorem tallies_listOf_lone (h : placing.relates source place place' value)
    (hvalue : value.shape ≠ .array) :
    Tallies placing (listOf source place value) (listOf source place' (.array [value])) := by
  have hlone : listOf source place' (.array [value]) =
      ((ofValue source (place'.index 0) value).1,
        (ofValue source (place'.index 0) value).2.map ([·])) := by
    rw [listOf, ofItems]
    rcases ofValue source (place'.index 0) value with ⟨warnings, failure | reference⟩
    · rfl
    · simp [ofItems, Except.map]
  obtain ⟨htells, hmatches⟩ := tallies_ofValue (placing.lone h)
  rw [hlone, listOf.eq_def]
  split
  · exact absurd rfl hvalue
  · exact ⟨htells, hmatches.map_eq _⟩

end Reference

/-- Whether services that are in states that are tied find the same files, or fail in ways that
belong together. -/
def Services.GlobsAlike {σ : Type} (services : Services σ) (ties : σ → σ → Prop)
    (fails : Failure → Failure → Prop) : Prop :=
  ∀ pattern s t, ties s t → Matches fails Eq (services.glob pattern s) (services.glob pattern t)

namespace Context

variable {σ : Type} {context : Context σ}

/-! ### Texts -/

/-- A value of a wrong shape is at fault at both places. -/
theorem matches_mismatch {α β : Type} {p : α → β → Prop}
    (h : placing.relates context.source place place' value) (what : String) :
    Matches placing.Blames p (context.mismatch place what value)
      (context.mismatch place' what value) :=
  Placing.matches_expected h what

/-- A text is read alike at both places. -/
theorem matches_text (nullable : Bool) (h : placing.relates context.source place place' value) :
    Matches placing.Blames Eq (context.text nullable place value)
      (context.text nullable place' value) := by
  rw [text.eq_def, text.eq_def]
  split
  · exact .ok rfl
  · split
    · exact .ok rfl
    · exact matches_mismatch h _

/-- A version is read alike at both places. -/
theorem matches_version (h : placing.relates context.source place place' value) :
    Matches placing.Blames Eq (context.version place value) (context.version place' value) := by
  rw [version.eq_def, version.eq_def]
  split
  · exact .ok rfl
  · split
    · exact .ok rfl
    · exact Placing.matches_other nofun
  · exact .ok rfl
  · exact matches_mismatch h _

theorem matches_bool (h : placing.relates context.source place place' value) :
    Matches placing.Blames Eq (context.bool place value) (context.bool place' value) := by
  rw [bool.eq_def, bool.eq_def]
  split
  · exact .ok rfl
  · exact matches_mismatch h _

/-- A word out of a list is read alike at both places. -/
theorem matches_keyword (accepted : List String)
    (h : placing.relates context.source place place' value) :
    Matches placing.Blames Eq (context.keyword accepted place value)
      (context.keyword accepted place' value) := by
  rw [keyword.eq_def, keyword.eq_def]
  split
  · split
    · exact .ok rfl
    · exact Placing.matches_fault h nofun
  · exact Placing.matches_fault h nofun

theorem matches_items {position : Nat} (values : List Value)
    (h : placing.CoversFrom context.source place place' position values) :
    Matches placing.Blames Eq (context.items place position values)
      (context.items place' position values) := by
  induction values generalizing position with
  | nil => exact .ok rfl
  | cons value values ih =>
    rw [items.eq_def, items.eq_def]
    split
    · exact .ok rfl
    · next heq =>
      cases heq
      exact (ih h.tail).bind fun _ _ hrest ↦ .ok (by rw [hrest])
    · next heq =>
      cases heq
      exact matches_mismatch h.head _

/-- Texts are read alike at both places, as a list or one alone. -/
theorem matches_texts (h : placing.relates context.source place place' value) :
    Matches placing.Blames Eq (context.texts place value) (context.texts place' value) := by
  rw [texts.eq_def, texts.eq_def]
  split
  · exact .ok rfl
  · exact matches_items _ (Placing.coversFrom h)
  · exact matches_mismatch h _

theorem matches_textsOrNull (nullable : Bool)
    (h : placing.relates context.source place place' value) :
    Matches placing.Blames Eq (context.textsOrNull nullable place value)
      (context.textsOrNull nullable place' value) := by
  rw [textsOrNull, textsOrNull]
  split
  · exact .ok rfl
  · exact (matches_texts h).map_eq _

/-- A text is read like the array of it. -/
theorem matches_textsOrNull_lone (nullable : Bool) (s : String) :
    Matches placing.Blames Eq (context.textsOrNull nullable place (.text s))
      (context.textsOrNull nullable place' (.array [.text s])) := by
  cases nullable <;> exact .ok rfl

/-! ### Overrides -/

theorem matches_overrideEntries (entries : List (String × Value))
    (h : placing.Covers context.source place place' entries) :
    Matches placing.Blames Eq (context.overrideEntries place entries)
      (context.overrideEntries place' entries) := by
  induction entries with
  | nil => exact .ok rfl
  | cons entry entries ih =>
    rw [overrideEntries.eq_def, overrideEntries.eq_def]
    split
    · exact .ok rfl
    · next heq =>
      cases heq
      exact (ih h.tail).bind fun _ _ hrest ↦ .ok (by rw [hrest])
    · next heq =>
      cases heq
      exact matches_mismatch h.head _

/-- An override is read alike at both places. -/
theorem matches_overrideOf (h : placing.relates context.source place place' value) :
    Matches placing.Blames Eq (context.overrideOf place value) (context.overrideOf place' value) := by
  rw [overrideOf.eq_def, overrideOf.eq_def]
  split
  · exact .ok rfl
  · exact (matches_overrideEntries _ (Placing.covers h)).map_eq _
  · exact matches_mismatch h _

theorem matches_overrideItems {position : Nat} (values : List Value)
    (h : placing.CoversFrom context.source place place' position values) :
    Matches placing.Blames Eq (context.overrideItems place position values)
      (context.overrideItems place' position values) := by
  induction values generalizing position with
  | nil => exact .ok rfl
  | cons value values ih =>
    refine (matches_overrideOf h.head).bind fun entry _ hentry ↦ ?_
    exact (ih h.tail).bind fun rest _ hrest ↦ .ok (by rw [hentry, hrest])

/-- Overrides are read alike at both places, as a list or one alone. -/
theorem matches_verbatim (h : placing.relates context.source place place' value) :
    Matches placing.Blames Eq (context.verbatim place value) (context.verbatim place' value) := by
  rw [verbatim.eq_def, verbatim.eq_def]
  split
  · exact matches_overrideItems _ (Placing.coversFrom h)
  · exact (matches_overrideOf h).map_eq _

/-- An override is read like the array of it. -/
theorem matches_verbatim_lone (h : placing.relates context.source place place' value)
    (hvalue : value.shape ≠ .array) :
    Matches placing.Blames Eq (context.verbatim place value)
      (context.verbatim place' (.array [value])) := by
  rw [verbatim.eq_def]
  split
  · exact absurd rfl hvalue
  · have hlone : Matches placing.Blames Eq (context.overrideOf place value)
        (context.overrideOf (place'.index 0) value) := matches_overrideOf (placing.lone h)
    rw [verbatim, overrideItems]
    generalize context.overrideOf place value = first at hlone ⊢
    generalize context.overrideOf (place'.index 0) value = first' at hlone ⊢
    cases hlone with
    | ok hsame =>
      subst hsame
      exact .ok rfl
    | error hfails => exact .error hfails

/-! ### Flags -/

/-- A flag is read alike at both places. -/
theorem matches_flagOf (name : String) {entries : List (String × Value)}
    (h : placing.relates context.source place place' (.object entries)) :
    Matches placing.Blames Eq (context.flagOf name place entries)
      (context.flagOf name place' entries) := by
  have hcovers := Placing.covers h
  rw [flagOf, flagOf]
  split
  · exact Placing.matches_fault h nofun
  · exact Placing.matches_fault h nofun
  · next manual default hmanual hdefault =>
    have hrest : ∀ description : Option String, Matches placing.Blames Eq (do
          let manual ← context.bool (place.key "manual") manual
          let default ← context.bool (place.key "default") default
          return (⟨name, manual, default, description⟩ : Flag)) (do
          let manual ← context.bool (place'.key "manual") manual
          let default ← context.bool (place'.key "default") default
          return (⟨name, manual, default, description⟩ : Flag)) := by
      intro description
      refine (matches_bool (hcovers.of_get? hmanual)).bind fun manual _ hsame ↦ ?_
      subst hsame
      refine (matches_bool (hcovers.of_get? hdefault)).bind fun default _ hsame ↦ ?_
      subst hsame
      exact .ok rfl
    split
    · exact hrest none
    · exact hrest none
    · exact hrest (some _)
    · next hdescription => exact (matches_mismatch (hcovers.of_get? hdescription) _)

variable {ties : σ → σ → Prop}

/-- All flags are read alike at both places. -/
theorem paired_flags (entries : List (String × Value))
    (h : placing.Covers context.source place place' entries) :
    (context.flags place entries).Paired (placing.pairing ties) Eq
      (context.flags place' entries) := by
  induction entries with
  | nil => exact .pure rfl
  | cons entry entries ih =>
    rw [flags.eq_def, flags.eq_def]
    split
    · exact .pure rfl
    · next heq =>
      cases heq
      have hunknown := (Placing.covers h.head).forall₂_tells flagKeys
      refine (Decode.Paired.warnAll hunknown).bind fun _ _ _ ↦ ?_
      refine (Decode.Paired.ofExcept (matches_flagOf _ h.head)).bind_eq fun flag ↦ ?_
      exact (ih h.tail).bind_eq fun rest ↦ .pure rfl
    · next heq =>
      cases heq
      exact .ofExcept (matches_mismatch h.head _)

/-! ### All forms -/

theorem paired_glob (hglob : context.services.GlobsAlike ties placing.Blames) (pattern : String) :
    (context.glob pattern).Paired (placing.pairing ties) Eq (context.glob pattern) :=
  fun s t hst ↦ Decode.Paired.ofExcept (hglob pattern s.state t.state hst.ties) s t hst

/-- Patterns match the same files, wherever they stand. -/
theorem paired_files (hglob : context.services.GlobsAlike ties placing.Blames) (field : String)
    (patterns : List String) :
    (context.files field patterns).Paired (placing.pairing ties) Eq
      (context.files field patterns) := by
  refine (PairedRun.mapM patterns fun pattern ↦ ?_).bind_eq fun found ↦ .pure rfl
  refine (paired_glob hglob pattern).bind_eq fun found ↦ ?_
  split
  · have htells : placing.Tells (.unmatched pattern field) (.unmatched pattern field) := .other nofun
    exact (Decode.Paired.warn htells).bind fun _ _ _ ↦ .pure rfl
  · exact .pure rfl

/-- A value is read alike at places that belong together. -/
theorem paired_value (hglob : context.services.GlobsAlike ties placing.Blames) (field : Field)
    (h : placing.relates context.source place place' value) :
    (context.value field place value).Paired (placing.pairing ties) Eq
      (context.value field place' value) := by
  rw [Context.value.eq_def, Context.value.eq_def]
  cases field.form with
  | text nullable => exact .ofExcept (matches_text nullable h)
  | version => exact .ofExcept (matches_version h)
  | bool => exact .ofExcept ((matches_bool h).map_eq _)
  | keyword accepted => exact .ofExcept (matches_keyword accepted h)
  | texts nullable => exact .ofExcept (matches_textsOrNull nullable h)
  | globs =>
    refine (Decode.Paired.ofExcept (matches_texts h)).bind_eq fun patterns ↦ ?_
    exact (paired_files hglob field.key patterns).bind_eq fun _ ↦ .pure rfl
  | dependencies => exact .ofExcept ((Dependency.matches_listOf h).map_eq _)
  | verbatim => exact .ofExcept ((matches_verbatim h).map_eq _)
  | flags =>
    cases value with
    | object entries => exact (paired_flags entries (Placing.covers h)).bind_eq fun _ ↦ .pure rfl
    | scalar | array => exact .ofExcept (matches_mismatch h _)
  | conditionals | defaults | body | bodies => exact .pure rfl

end Context

end CabalManifest
