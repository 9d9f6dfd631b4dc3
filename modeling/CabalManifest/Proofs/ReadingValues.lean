import CabalManifest.Manifest.FieldValue
import CabalManifest.Package
import CabalManifest.Proofs.KeyedValues
import CabalManifest.Proofs.MergedFields
import CabalManifest.Proofs.Reading
import Mathlib.Data.List.TakeWhile

/-!
# Reading values

What is read for a field that holds no further fields has the form of the field, and reading it
reports no cycle (`Context.meets_value`).
-/

namespace CabalManifest

/-- Whether a value of a form holds no further fields. -/
def Form.isLeaf : Form → Bool
  | .conditionals | .defaults | .body _ | .bodies _ => false
  | _ => true

/-- Whether the scalars that a value has to be written with have a text. -/
def FieldValue.HoldsWritable : FieldValue → Prop
  | .verbatim entries => ∀ entry ∈ entries, entry.isWritable
  | _ => True

/-- Only overrides hold values that might not be written. -/
theorem FieldValue.HoldsWritable.of_hasForm {value : FieldValue} {form : Form}
    (h : value.HasForm form) (hform : form ≠ .verbatim) : value.HoldsWritable := by
  cases value with
  | verbatim => exact absurd h hform
  | _ => trivial

/-! ### Dependencies -/

namespace Dependency

variable (source : String)

/-- A dependency in one text is read, or the text is at fault. -/
theorem yields_ofText (place : Place) (text : String) {writable : Bool} :
    Yields (Failure.IsFaultOf writable) (fun _ ↦ True) (ofText source place text) := by
  rw [ofText]
  split
  · exact .ok trivial
  · exact .error trivial

mutual

/-- A constraint is read, or it is at fault; a number in it has to be written. -/
theorem yields_constraintOf (place : Place) (value : Value) :
    Yields (Failure.IsFaultOf value.isWritable) (fun _ ↦ True)
      (constraintOf source place value) := by
  cases value with
  | scalar scalar =>
    cases scalar with
    | null => exact .ok trivial
    | bool => exact .error trivial
    | int n =>
      rw [constraintOf]
      split
      · exact .ok trivial
      · next h => exact .error (Bool.eq_false_iff.2 h)
    | float => exact .ok trivial
    | text => exact .ok trivial
  | array items => exact .error trivial
  | object entries =>
    rw [constraintOf]
    exact yields_versionOf place entries

/-- A version is read, or it is at fault; a number has to be written for it. -/
theorem yields_versionOf (place : Place) (entries : List (String × Value)) :
    Yields (Failure.IsFaultOf (Value.writableEntries entries)) (fun _ ↦ True)
      (versionOf source place entries) := by
  cases entries with
  | nil => exact .ok trivial
  | cons entry entries =>
    obtain ⟨key, value⟩ := entry
    rw [versionOf]
    split
    · exact (yields_constraintOf _ value).ofPart fun h ↦ (Bool.and_eq_true_iff.1 h).1
    · exact (yields_versionOf place entries).ofPart fun h ↦ (Bool.and_eq_true_iff.1 h).2

end

theorem yields_ofItem (place : Place) (value : Value) :
    Yields (Failure.IsFaultOf value.isWritable) (fun _ ↦ True) (ofItem source place value) := by
  rw [ofItem.eq_def]
  split
  · exact yields_ofText source place _
  · split
    · exact (yields_versionOf source place _).bind fun _ _ ↦ .ok trivial
    · exact .error trivial
  · exact .error trivial

/-- A list of dependencies is read, or one of its items is at fault. -/
theorem yields_ofItems (place : Place) (position : Nat) (items : List Value) :
    Yields (Failure.IsFaultOf (Value.writableItems items)) (fun _ ↦ True)
      (ofItems source place position items) := by
  induction items generalizing position with
  | nil => exact .ok trivial
  | cons item items ih =>
    have hitem := (yields_ofItem source (place.index position) item).ofPart
      fun h : Value.writableItems (item :: items) ↦ (Bool.and_eq_true_iff.1 h).1
    have hitems := (ih (position + 1)).ofPart
      fun h : Value.writableItems (item :: items) ↦ (Bool.and_eq_true_iff.1 h).2
    exact hitem.bind fun _ _ ↦ hitems.bind fun _ _ ↦ .ok trivial

/-- Dependencies by their names are read, or one of them is at fault. -/
theorem yields_ofEntries (place : Place) (entries : List (String × Value)) :
    Yields (Failure.IsFaultOf (Value.writableEntries entries)) (fun _ ↦ True)
      (ofEntries source place entries) := by
  induction entries with
  | nil => exact .ok trivial
  | cons entry entries ih =>
    have hvalue := (yields_constraintOf source (place.key entry.1) entry.2).ofPart
      fun h : Value.writableEntries (entry :: entries) ↦ (Bool.and_eq_true_iff.1 h).1
    have hentries := ih.ofPart
      fun h : Value.writableEntries (entry :: entries) ↦ (Bool.and_eq_true_iff.1 h).2
    exact hvalue.bind fun _ _ ↦ hentries.bind fun _ _ ↦ .ok trivial

/-- Dependencies in any form are read, or there is a fault in them. -/
theorem yields_listOf (place : Place) (value : Value) :
    Yields (Failure.IsFaultOf value.isWritable) (fun _ ↦ True) (listOf source place value) := by
  rw [listOf.eq_def]
  split
  · exact (yields_ofText source place _).bind fun _ _ ↦ .ok trivial
  · exact yields_ofItems source place 0 _
  · exact yields_ofEntries source place _
  · exact .error trivial

end Dependency

/-! ### References -/

namespace Repository

/-- Whether owner and repository have names that can stand in a reference. -/
def IsProper (document : Repository) : Prop :=
  (∀ c ∈ document.owner.toList, isNameChar c) ∧ ∀ c ∈ document.repo.toList, isNameChar c

/-- The two names of a repository are made of characters of names. -/
theorem isNameChar_of_splitNames? {cs rest : List Char} {owner repo : String}
    (h : splitNames? cs = some (owner, repo, rest)) :
    (∀ c ∈ owner.toList, isNameChar c) ∧ ∀ c ∈ repo.toList, isNameChar c := by
  rw [splitNames?] at h
  split at h
  · simp only at h
    split at h
    · cases h
    · cases h
      simp only [String.toList_ofList]
      exact ⟨fun c hc ↦ List.mem_takeWhile_imp hc, fun c hc ↦ List.mem_takeWhile_imp hc⟩
  · cases h

/-- A repository that is named in short form has a proper name. -/
theorem isProper_of_ofShorthand? {text : String} {document : Repository}
    (h : ofShorthand? text = some document) : document.IsProper := by
  rw [ofShorthand?] at h
  split at h
  · next owner repo c ref hsplit =>
    split at h
    · cases h
    · cases h
      exact isNameChar_of_splitNames? hsplit
  · cases h

theorem isNameChar_of_names? {text owner repo : String} (h : names? text = some (owner, repo)) :
    (∀ c ∈ owner.toList, isNameChar c) ∧ ∀ c ∈ repo.toList, isNameChar c := by
  rw [names?] at h
  split at h
  · next hsplit =>
    cases h
    exact isNameChar_of_splitNames? hsplit
  · cases h
end Repository

namespace Reference

/-- Whether a reference to a repository has names that can stand in it. -/
def IsProper : Reference → Prop
  | .github document => document.IsProper
  | .onDisk _ => True

variable (source : String)

theorem yields_textOf (place : Place) (value : Value) :
    Yields (Failure.IsFaultOf false) (fun _ ↦ True) (textOf source place value) := by
  rw [textOf.eq_def]
  split
  · exact .ok trivial
  · exact .error trivial

/-- A reference to a repository is read to a proper one, or it is at fault. -/
theorem yields_ofRepositoryEntries (place : Place) (entries : List (String × Value))
    (names : Value) :
    Yields (Failure.IsFaultOf false) Repository.IsProper
      (ofRepositoryEntries source place entries names) := by
  rw [ofRepositoryEntries.eq_def]
  simp only
  split
  · split
    · exact .error trivial
    · exact .error rfl
  · next owner repo hsplit =>
    have hproper : (∀ c ∈ owner.toList, Repository.isNameChar c) ∧
        ∀ c ∈ repo.toList, Repository.isNameChar c := by
      split at hsplit
      · exact Repository.isNameChar_of_names? hsplit
      · cases hsplit
    split
    · exact .error trivial
    · exact .error trivial
    · refine (yields_textOf source _ _).bind fun ref _ ↦ ?_
      split
      · exact .ok hproper
      · exact (yields_textOf source _ _).bind fun _ _ ↦ .ok hproper

theorem yields_ofEntries (place : Place) (entries : List (String × Value)) :
    Yields (Failure.IsFaultOf false) IsProper (ofEntries source place entries) := by
  rw [ofEntries]
  split
  · exact .error trivial
  · exact (yields_textOf source _ _).map fun _ _ ↦ trivial
  · exact .error trivial
  · exact (yields_ofRepositoryEntries source place entries _).map fun _ hproper ↦ hproper

/-- A reference is read to a proper one, or it is at fault. -/
theorem yields_ofValue (place : Place) (value : Value) :
    Yields (Failure.IsFaultOf false) IsProper (ofValue source place value).2 := by
  rw [ofValue.eq_def]
  split
  · split
    · next document hdocument => exact .ok (Repository.isProper_of_ofShorthand? hdocument)
    · exact .error trivial
  · exact yields_ofEntries source place _
  · exact .error trivial

/-- A list of references is read to proper ones, or one of its items is at fault. -/
theorem yields_ofItems (place : Place) (position : Nat) (items : List Value) :
    Yields (Failure.IsFaultOf false)
      (fun references ↦ ∀ reference ∈ references, reference.IsProper)
      (ofItems source place position items).2 := by
  induction items generalizing position with
  | nil => exact .ok (List.forall_mem_nil _)
  | cons item items ih =>
    have hitem := yields_ofValue source (place.index position) item
    rw [ofItems]
    split
    · next hvalue =>
      rw [hvalue] at hitem
      exact .error hitem.of_error
    · next hvalue =>
      rw [hvalue] at hitem
      exact (ih _).map fun _ hrest ↦ List.forall_mem_cons.2 ⟨hitem.of_ok, hrest⟩

/-- The references of a list are proper. -/
theorem yields_listOf (place : Place) (value : Value) :
    Yields (Failure.IsFaultOf false)
      (fun references ↦ ∀ reference ∈ references, reference.IsProper)
      (listOf source place value).2 := by
  rw [listOf.eq_def]
  split
  · exact yields_ofItems source place 0 _
  · exact (yields_ofValue source place _).map fun _ hproper ↦ List.forall_mem_singleton.2 hproper

theorem toOption_bind {α β : Type} (result : Except Failure α) (next : α → Except Failure β) :
    (result >>= next).toOption = result.toOption.bind fun a ↦ (next a).toOption := by
  cases result <;> rfl

theorem toOption_map {α β : Type} (result : Except Failure α) (f : α → β) :
    (result.map f).toOption = result.toOption.map f := by
  cases result <;> rfl

variable (source' : String)

/-- Whether a text can be read does not depend on its place. -/
theorem toOption_textOf (place place' : Place) (value : Value) :
    (textOf source place value).toOption = (textOf source' place' value).toOption := by
  rw [textOf.eq_def, textOf.eq_def]
  split <;> rfl

theorem toOption_ofRepositoryEntries (place place' : Place) (entries : List (String × Value))
    (names : Value) :
    (ofRepositoryEntries source place entries names).toOption =
      (ofRepositoryEntries source' place' entries names).toOption := by
  rw [ofRepositoryEntries.eq_def, ofRepositoryEntries.eq_def]
  simp only
  split
  · cases names.isWritable <;> rfl
  · split
    · rfl
    · rfl
    · next ref _ _ =>
      rw [toOption_bind, toOption_bind,
        toOption_textOf source source' (place.key "ref") (place'.key "ref")]
      refine congrArg _ (funext fun ref ↦ ?_)
      split
      · rfl
      · next path _ =>
        rw [toOption_bind, toOption_bind,
          toOption_textOf source source' (place.key "path") (place'.key "path")]

/-- Whether an object is a reference does not depend on its place. -/
theorem toOption_ofEntries (place place' : Place) (entries : List (String × Value)) :
    (ofEntries source place entries).toOption = (ofEntries source' place' entries).toOption := by
  rw [ofEntries, ofEntries]
  split
  · rfl
  · rw [toOption_map, toOption_map, toOption_textOf]
  · rfl
  · rw [toOption_map, toOption_map, toOption_ofRepositoryEntries]

/-- Whether a value is a reference does not depend on its place. -/
theorem toOption_ofValue (place place' : Place) (value : Value) :
    (ofValue source place value).2.toOption = (ofValue source' place' value).2.toOption := by
  rw [ofValue.eq_def, ofValue.eq_def]
  split
  · split <;> rfl
  · exact toOption_ofEntries source source' place place' _
  · rfl

/-- Whether values are references does not depend on their places. -/
theorem toOption_ofItems (place place' : Place) (position position' : Nat) (items : List Value) :
    (ofItems source place position items).2.toOption =
      (ofItems source' place' position' items).2.toOption := by
  induction items generalizing position position' with
  | nil => rfl
  | cons item items ih =>
    have hitem := toOption_ofValue source source' (place.index position) (place'.index position') item
    have hrest := ih (position + 1) (position' + 1)
    rw [ofItems, ofItems]
    generalize ofValue source (place.index position) item = first at hitem ⊢
    generalize ofValue source' (place'.index position') item = first' at hitem ⊢
    obtain ⟨warnings, failure | reference⟩ := first <;>
      obtain ⟨warnings', failure' | reference'⟩ := first'
    · rfl
    · cases hitem
    · cases hitem
    · cases hitem
      simp only
      rw [toOption_map, toOption_map, hrest]

/-- What a value names does not depend on where it stands. -/
theorem toOption_listOf (place place' : Place) (value : Value) :
    (listOf source place value).2.toOption = (listOf source' place' value).2.toOption := by
  rw [listOf.eq_def, listOf.eq_def]
  split
  · exact toOption_ofItems source source' place place' 0 0 _
  · simp only
    rw [toOption_map, toOption_map, toOption_ofValue]

end Reference

namespace Context

variable {σ : Type} (context : Context σ)

/-! ### Texts -/

section

variable {writable : Bool}

/-- A text is read as one, or it is at fault. -/
theorem yields_text (nullable : Bool) (place : Place) (value : Value) :
    Yields (Failure.IsFaultOf writable) (FieldValue.HasForm (.text nullable))
      (context.text nullable place value) := by
  rw [text.eq_def]
  split
  · exact .ok (.inl ⟨nullable, rfl⟩)
  · split
    · next h => exact .ok (.inl (by simp [(Bool.and_eq_true_iff.1 h).1]))
    · exact .error trivial

/-- A version is read as a text, or it is at fault; a number has to be written for it. -/
theorem yields_version (place : Place) (value : Value) :
    Yields (Failure.IsFaultOf value.isWritable) (FieldValue.HasForm .version)
      (context.version place value) := by
  rw [version.eq_def]
  split
  · exact .ok (.inr (.inl rfl))
  · split
    · exact .ok (.inr (.inl rfl))
    · next h => exact .error (Bool.eq_false_iff.2 h)
  · exact .ok (.inr (.inl rfl))
  · exact .error trivial

theorem yields_bool (place : Place) (value : Value) :
    Yields (Failure.IsFaultOf writable) (fun _ ↦ True) (context.bool place value) := by
  rw [bool.eq_def]
  split
  · exact .ok trivial
  · exact .error trivial

/-- A word is read as one that is accepted, or it is at fault. -/
theorem yields_keyword (accepted : List String) (place : Place) (value : Value) :
    Yields (Failure.IsFaultOf writable) (FieldValue.HasForm (.keyword accepted))
      (context.keyword accepted place value) := by
  rw [keyword.eq_def]
  split
  · split
    · exact .ok (.inr (.inr ⟨accepted, rfl⟩))
    · exact .error trivial
  · exact .error trivial

/-! ### Lists -/

theorem yields_items (place : Place) (position : Nat) (values : List Value) :
    Yields (Failure.IsFaultOf writable) (fun _ ↦ True) (context.items place position values) := by
  induction values generalizing position with
  | nil => exact .ok trivial
  | cons value values ih =>
    rw [items.eq_def]
    split
    · exact .ok trivial
    · next heq =>
      cases heq
      exact (ih _).bind fun _ _ ↦ .ok trivial
    · exact .error trivial

/-- Texts are read in both forms, or one of them is at fault. -/
theorem yields_texts (place : Place) (value : Value) :
    Yields (Failure.IsFaultOf writable) (fun _ ↦ True) (context.texts place value) := by
  rw [texts.eq_def]
  split
  · exact .ok trivial
  · exact context.yields_items place 0 _
  · exact .error trivial

/-- Texts, or none, are read, or one of them is at fault. -/
theorem yields_textsOrNull (nullable : Bool) (place : Place) (value : Value) :
    Yields (Failure.IsFaultOf writable) (FieldValue.HasForm (.texts nullable))
      (context.textsOrNull nullable place value) := by
  rw [textsOrNull]
  split
  · next h => exact .ok (.inr (by simp [(Bool.and_eq_true_iff.1 h).1]))
  · exact (context.yields_texts place value).map fun _ _ ↦ .inl ⟨nullable, rfl⟩

/-! ### Overrides -/

/-- The entries of an override are read, and can be written if the values can. -/
theorem yields_overrideEntries (place : Place) (entries : List (String × Value)) :
    Yields (Failure.IsFaultOf writable)
      (fun fields ↦ Value.writableEntries entries → ∀ entry ∈ fields, entry.2.isWritable)
      (context.overrideEntries place entries) := by
  induction entries with
  | nil => exact .ok fun _ ↦ List.forall_mem_nil _
  | cons entry entries ih =>
    rw [overrideEntries.eq_def]
    split
    · next heq => cases heq
    · next heq =>
      cases heq
      refine ih.bind fun fields hfields ↦ .ok fun hwritable ↦ ?_
      obtain ⟨hfirst, hrest⟩ := Bool.and_eq_true_iff.1 hwritable
      exact List.forall_mem_cons.2 ⟨hfirst, hfields hrest⟩
    · exact .error trivial

/-- An override is read, and can be written if its values can. -/
theorem yields_overrideOf (place : Place) (value : Value) :
    Yields (Failure.IsFaultOf writable) (fun entry ↦ value.isWritable → entry.isWritable)
      (context.overrideOf place value) := by
  rw [overrideOf.eq_def]
  split
  · exact .ok fun _ ↦ rfl
  · refine (context.yields_overrideEntries place _).map fun fields hfields hwritable ↦ ?_
    exact List.all_eq_true.2 (hfields hwritable)
  · exact .error trivial

/-- Overrides are read one after another, or one of them is at fault. -/
theorem yields_overrideItems (place : Place) (position : Nat) (values : List Value) :
    Yields (Failure.IsFaultOf writable)
      (fun entries ↦ Value.writableItems values → ∀ entry ∈ entries, entry.isWritable)
      (context.overrideItems place position values) := by
  induction values generalizing position with
  | nil => exact .ok fun _ ↦ List.forall_mem_nil _
  | cons value values ih =>
    refine (context.yields_overrideOf _ value).bind fun entry hentry ↦ ?_
    refine (ih _).bind fun entries hentries ↦ .ok fun hwritable ↦ ?_
    obtain ⟨hfirst, hrest⟩ := Bool.and_eq_true_iff.1 hwritable
    exact List.forall_mem_cons.2 ⟨hentry hfirst, hentries hrest⟩

/-- The scalars of overrides are those of the document. -/
theorem yields_verbatim (place : Place) (value : Value) :
    Yields (Failure.IsFaultOf writable)
      (fun entries ↦ value.isWritable → ∀ entry ∈ entries, entry.isWritable)
      (context.verbatim place value) := by
  rw [verbatim.eq_def]
  split
  · exact context.yields_overrideItems place 0 _
  · refine (context.yields_overrideOf place _).map fun entry hentry hwritable ↦ ?_
    exact List.forall_mem_singleton.2 (hentry hwritable)

/-! ### Flags -/

/-- A flag is read under its name, or there is a fault in it. -/
theorem yields_flagOf (name : String) (place : Place) (entries : List (String × Value)) :
    Yields (Failure.IsFaultOf writable) (fun flag ↦ flag.name = name)
      (context.flagOf name place entries) := by
  rw [flagOf]
  split
  · exact .error trivial
  · exact .error trivial
  · next manual default _ _ =>
    have hrest : ∀ description : Option String,
        Yields (Failure.IsFaultOf writable) (fun flag ↦ flag.name = name) (do
          let manual ← context.bool (place.key "manual") manual
          let default ← context.bool (place.key "default") default
          return (⟨name, manual, default, description⟩ : Flag)) := fun description ↦
      (context.yields_bool _ _).bind fun _ _ ↦ (context.yields_bool _ _).bind fun _ _ ↦ .ok rfl
    split
    · exact hrest none
    · exact hrest none
    · exact hrest (some _)
    · exact .error trivial

end

variable {allowed : Failure → Prop} {contract : Contract σ}

/-- Every flag is read under its name. -/
theorem reads_flags (hinvalid : ∀ failure, failure.IsFaultOf true → allowed failure) (place : Place)
    (entries : List (String × Value)) :
    (context.flags place entries).Reads allowed fun flags ↦
      Entries.keys flags = Entries.keys entries ∧ ∀ entry ∈ flags, entry.2.name = entry.1 := by
  induction entries with
  | nil => exact .pure ⟨rfl, List.forall_mem_nil _⟩
  | cons entry entries ih =>
    rw [flags.eq_def]
    split
    · next heq => cases heq
    · next heq =>
      cases heq
      refine (Decode.Reads.warnAll _).bind fun _ _ ↦ ?_
      refine (Decode.Reads.ofExcept ((context.yields_flagOf _ _ _).allow hinvalid)).bind
        fun flag hname ↦ ?_
      refine ih.bind fun flags hflags ↦ .pure ?_
      exact ⟨congrArg _ hflags.1, List.forall_mem_cons.2 ⟨hname, hflags.2⟩⟩
    · exact .throw (hinvalid _ trivial)

/-! ### All forms -/

theorem reads_glob (h : context.services.CanGlob allowed) (pattern : String) :
    (context.glob pattern).Reads allowed fun _ ↦ True := by
  intro s
  have hrun : (context.glob pattern).run s =
      (Decode.ofExcept (context.services.glob pattern s.state) : Decode σ _).run s := rfl
  rw [hrun]
  cases hglob : context.services.glob pattern s.state with
  | error failure => exact ⟨rfl, .error (h _ _ _ hglob)⟩
  | ok files => exact ⟨rfl, .ok trivial⟩

/-- Patterns are matched one after another; only the services can fail in this. -/
theorem reads_files (h : context.services.CanGlob allowed) (field : String)
    (patterns : List String) : (context.files field patterns).Reads allowed fun _ ↦ True := by
  refine Decode.Reads.bind (p := fun _ ↦ ∀ result ∈ _, True)
    (Decode.Reads.mapM fun pattern _ ↦ ?_) fun found _ ↦ .pure trivial
  refine (context.reads_glob h pattern).bind fun found _ ↦ ?_
  split
  · exact (Decode.Reads.warn _).bind fun _ _ ↦ .pure trivial
  · exact .pure trivial

/-- What is read for a field has the form of the field. Flags have distinct names only if objects
have every key once. -/
theorem reads_value (h : context.services.CanGlob allowed) {field : Field}
    (hleaf : field.form.isLeaf) (place : Place) (value : Value)
    (hfault : ∀ failure, failure.IsFaultOf value.isWritable → allowed failure) :
    (context.value field place value).Reads allowed fun read ↦
      (field.form ≠ .flags → read.HasForm field.form) ∧
        (field.form = .flags →
          ∃ flags, read = .flags flags ∧ (value.isKeyed → (Entries.keys flags).Nodup) ∧
            ∀ entry ∈ flags, entry.2.name = entry.1) ∧
        (value.isWritable → read.HoldsWritable) := by
  have hinvalid : ∀ failure, failure.IsFaultOf true → allowed failure := fun failure hinvalid ↦
    hfault failure (hinvalid.imp fun _ ↦ rfl)
  rw [Context.value.eq_def]
  generalize field.form = form at hleaf
  cases form with
  | text nullable =>
    refine .ofExcept (((context.yields_text nullable place value).allow hinvalid).imp ?_)
    exact fun _ hread ↦ ⟨fun _ ↦ hread, nofun, fun _ ↦ .of_hasForm hread nofun⟩
  | version =>
    refine .ofExcept (((context.yields_version place value).allow hfault).imp ?_)
    exact fun _ hread ↦ ⟨fun _ ↦ hread, nofun, fun _ ↦ .of_hasForm hread nofun⟩
  | bool =>
    refine .ofExcept (((context.yields_bool place value).allow hinvalid).map ?_)
    exact fun _ _ ↦ ⟨fun _ ↦ rfl, nofun, fun _ ↦ trivial⟩
  | keyword words =>
    refine .ofExcept (((context.yields_keyword words place value).allow hinvalid).imp ?_)
    exact fun _ hread ↦ ⟨fun _ ↦ hread, nofun, fun _ ↦ .of_hasForm hread nofun⟩
  | texts nullable =>
    refine .ofExcept (((context.yields_textsOrNull nullable place value).allow hinvalid).imp ?_)
    exact fun _ hread ↦ ⟨fun _ ↦ hread, nofun, fun _ ↦ .of_hasForm hread nofun⟩
  | globs =>
    have hpatterns := (context.yields_texts place value).allow hinvalid
    refine (Decode.Reads.ofExcept hpatterns).bind fun patterns _ ↦ ?_
    refine (context.reads_files h field.key patterns).bind fun files _ ↦ .pure ?_
    exact ⟨fun _ ↦ .inr rfl, nofun, fun _ ↦ trivial⟩
  | dependencies =>
    refine .ofExcept (((Dependency.yields_listOf context.source place value).allow hfault).map ?_)
    exact fun _ _ ↦ ⟨fun _ ↦ rfl, nofun, fun _ ↦ trivial⟩
  | verbatim =>
    refine .ofExcept (((context.yields_verbatim place value).allow hinvalid).map ?_)
    exact fun _ hentries ↦ ⟨fun _ ↦ rfl, nofun, hentries⟩
  | flags =>
    cases value with
    | object entries =>
      refine (context.reads_flags hinvalid place entries).bind fun flags hflags ↦ .pure ?_
      refine ⟨fun hne ↦ absurd rfl hne, fun _ ↦ ⟨flags, rfl, fun hkeyed ↦ ?_, hflags.2⟩,
        fun _ ↦ trivial⟩
      exact hflags.1 ▸ (Value.areKeyed_iff.1 hkeyed).1
    | scalar | array => exact .throw (hinvalid _ trivial)
  | conditionals | defaults | body | bodies => cases hleaf

/-- So reading a value keeps to every contract under which files can be found. -/
theorem meets_value (h : context.services.CanGlob contract.Tolerates) {field : Field}
    (hleaf : field.form.isLeaf) (place : Place) (value : Value) :
    (context.value field place value).Meets contract fun read ↦
      value.isKeyed → read.HasForm field.form := by
  have hfault : ∀ failure, failure.IsFaultOf value.isWritable → contract.Tolerates failure :=
    fun failure hfault s ↦ contract.allows_of_not_isCycle failure s hfault.not_isCycle
  refine ((context.reads_value h hleaf place value hfault).meets fun _ ↦ id).imp
    fun read hread hkeyed ↦ ?_
  by_cases hform : field.form = .flags
  · obtain ⟨flags, rfl, hnodup, hnames⟩ := hread.2.1 hform
    exact ⟨hform, hnodup hkeyed, hnames⟩
  · exact hread.1 hform

end Context

end CabalManifest
