import CabalManifest.Build
import CabalManifest.Proofs.FetchedDocuments

/-!
# Descriptions in their place

Putting a description in its place ends in one of a few ways (`Manifest.installs`), and only two of
them change a file: the description is written, or its file is emptied because no bytes stand for the
description.

A text without carriage returns and halves is read back from its file as it was written
(`Text.IsFaithful`).
-/

namespace CabalManifest

/-! ### Texts that are read back -/

namespace Text

/-- Without carriage returns, line ends are unified already. -/
theorem unifyNewlines_of_notMem {cs : List Char} (h : '\r' ∉ cs) : unifyNewlines cs = cs := by
  induction cs with
  | nil => rfl
  | cons c cs ih =>
    rw [List.mem_cons, not_or] at h
    have hc : c ≠ '\r' := fun heq ↦ h.1 heq.symm
    rw [unifyNewlines, if_neg hc, ih h.2]
    rintro rest rfl
    exact absurd rfl hc

/-- Whether a text is read back from a file as it was written. -/
def IsFaithful (text : String) : Prop :=
  ∀ c ∈ text.toList, c ≠ '\r' ∧ c ≠ halfMark

instance (text : String) : Decidable (IsFaithful text) :=
  List.decidableBAll _ text.toList

namespace IsFaithful

variable {text other : String}

/-- For a text that is given by its characters these are looked at one by one. -/
theorem ofList {cs : List Char} (h : cs.all fun c ↦ c != '\r' && c != halfMark) :
    IsFaithful (String.ofList cs) := by
  simpa [IsFaithful] using h

/-- Faithful texts in turn are faithful. -/
theorem append (h : IsFaithful text) (hother : IsFaithful other) : IsFaithful (text ++ other) := by
  intro c hc
  rw [String.toList_append, List.mem_append] at hc
  exact hc.elim (h c) (hother c)

/-- A faithful text has no carriage return. -/
theorem return_notMem (h : IsFaithful text) : '\r' ∉ text.toList := fun hmem ↦
  (h _ hmem).1 rfl

/-- A faithful text has no mark of half a surrogate pair. -/
theorem halfMark_notMem (h : IsFaithful text) : halfMark ∉ text.toList := fun hmem ↦
  (h _ hmem).2 rfl

/-- Unifying line ends leaves a faithful text as it is. -/
theorem unifyNewlines (h : IsFaithful text) :
    String.ofList (Text.unifyNewlines text.toList) = text := by
  rw [unifyNewlines_of_notMem h.return_notMem, String.ofList_toList]

/-- A faithful text can be encoded. -/
theorem encode? (h : IsFaithful text) : Text.encode? text = .ok (encode text) := by
  rw [Text.encode?, firstHalves?_codes_of_notMem h.halfMark_notMem]

end IsFaithful

/-- A text that can be encoded is encoded as its bytes. -/
theorem encode_eq_of_encode? {text : String} {content : ByteArray}
    (h : encode? text = .ok content) : content = encode text := by
  rw [encode?] at h
  split at h
  · cases h
  · exact (Except.ok.inj h).symm

end Text

/-- The header of generated descriptions is faithful. -/
theorem isFaithful_generatedHeader : Text.IsFaithful generatedHeader := by
  have hempty : Text.IsFaithful "" := .ofList rfl
  exact (((hempty.append (.ofList (by decide))).append (.ofList (by decide))).append
    (.ofList (by decide))).append (.ofList (by decide))

/-! ### Files that are read -/

namespace World

variable {world : World}

/-- A message only grows the log. -/
theorem say_eq (world : World) (level : Level) (message : String) :
    ∃ log, world.say level message = { world with log := log } := by
  rw [say]
  split
  · exact ⟨_, rfl⟩
  · exact ⟨world.log, rfl⟩

/-- The text of a file, if there is one. -/
def readText? (world : World) (path : PosixPath) : Except Failure (Option String) := do
  if ← world.isFile path then some <$> world.readText path else return none

/-- A text that is found is read with its line ends unified. -/
theorem readText_of_find {path : PosixPath} {text : String} (hcheck : checkPath path = .ok ())
    (hfind : world.find path = .ok (.file (Text.encode text))) :
    world.readText path = .ok (String.ofList (Text.unifyNewlines text.toList)) := by
  rw [readText, readBytes_of_find hcheck hfind]
  show (do
    let text ← (Text.decode (Text.encode text)).mapError Failure.undecodable
    return String.ofList (Text.unifyNewlines text.toList) : Except Failure String) = _
  rw [Text.decode_encode]
  rfl

/-- So it is where it may be missing. -/
theorem readText?_of_find {path : PosixPath} {text : String} (hcheck : checkPath path = .ok ())
    (hfind : world.find path = .ok (.file (Text.encode text))) :
    world.readText? path = .ok (some (String.ofList (Text.unifyNewlines text.toList))) := by
  rw [readText?, isFile_of_find hcheck hfind]
  show some <$> world.readText path = _
  rw [readText_of_find hcheck hfind]
  rfl

/-- What is logged does not matter to the text of a file. -/
theorem readText?_log (world : World) (log : List (Level × String)) (path : PosixPath) :
    World.readText? { world with log := log } path = world.readText? path := by
  unfold readText?
  simp only [readText, readBytes, isFile, find?, find, follow, startOf]
end World

namespace Manifest

/-! ### Descriptions that are there -/

/-- To say something only grows the log. -/
theorem run_say (level : Level) (message : String) (world : World) :
    ∃ log, (Run.say level message).run world = (.ok (), { world with log := log }) := by
  obtain ⟨log, hlog⟩ := world.say_eq level message
  exact ⟨log, hlog ▸ rfl⟩

/-- Without a target of its own, the previous text is that of the description. -/
theorem run_previousText (target : PosixPath) (world : World) :
    (previousText none target).run world = (world.readText? target, world) := by
  have hfile := Run.run_reading (·.isFile target) world
  have htext := Run.run_reading (·.readText target) world
  rw [World.readText?]
  show (Run.reading (·.isFile target) >>= fun found ↦
    if found then some <$> Run.reading (·.readText target) else pure none).run world = _
  cases hfound : world.isFile target with
  | error failure =>
    rw [hfound] at hfile
    exact run_bind_of_error hfile _
  | ok found =>
    rw [hfound] at hfile
    rw [run_bind_of_ok hfile]
    cases found with
    | false => rfl
    | true =>
      simp only [if_true, map_eq_pure_bind]
      cases hread : world.readText target with
      | error failure =>
        rw [hread] at htext
        exact run_bind_of_error htext _
      | ok text =>
        rw [hread] at htext
        exact run_bind_of_ok htext _

/-- A description that was generated was not written by hand. -/
theorem isHandwritten_output (compiled : Compiled) : isHandwritten compiled.output = false := by
  rw [isHandwritten, Bool.not_eq_false', String.startsWith_string_iff, Compiled.output,
    String.toList_append]
  exact List.prefix_append _ _

/-! ### Putting descriptions in their place -/

/-- Whether a description may be replaced: nothing that was written by hand is, unless that is
forced. -/
def MayReplace (world : World) (target : PosixPath) (force : Bool) : Prop :=
  ∀ text, world.readText? target = .ok (some text) → isHandwritten text → force = true

/-- The ways in which a compiled description can be put in its place, with the world in which each
ends. -/
inductive Installs (compiled : Compiled) (force : Bool) (world : World) :
    Except Failure Outcome → World → Prop
  | unread {failure : Failure} (h : world.readText? compiled.target = .error failure) :
    Installs compiled force world (.error failure) world
  | upToDate (log : List (Level × String))
    (h : world.readText? compiled.target = .ok (some compiled.output)) :
    Installs compiled force world (.ok .upToDate) { world with log := log }
  | modified {text : String} (log : List (Level × String))
    (h : world.readText? compiled.target = .ok (some text)) (htext : isHandwritten text)
    (hforce : force = false) :
    Installs compiled force world (.ok .modified) { world with log := log }
  | unwritten (failure : Failure) (hmay : MayReplace world compiled.target force) :
    Installs compiled force world (.error failure) world
  | emptied {fault : Unencodable} {location : Location}
    (h : Text.encode? compiled.output = .error fault)
    (hfollow : world.follow compiled.target = .ok location)
    (hfile : world.tree.get? location ≠ some .directory)
    (hmay : MayReplace world compiled.target force) :
    Installs compiled force world (.error (.unencodable fault))
      { world with tree := world.tree.insert location (.file .empty) }
  | generated {content : ByteArray} {location : Location} (log : List (Level × String))
    (h : Text.encode? compiled.output = .ok content)
    (hcheck : World.checkPath compiled.target = .ok ())
    (hfollow : world.follow compiled.target = .ok location)
    (hfile : world.tree.get? location ≠ some .directory)
    (hmay : MayReplace world compiled.target force) :
    Installs compiled force world (.ok .generated)
      { world with tree := world.tree.insert location (.file content), log := log }

/-- Writing a text fails and changes nothing, or writes a file: the bytes of the text, or none if no
bytes stand for it. -/
theorem run_writeText (path : PosixPath) (text : String) (world : World) :
    (∃ failure, (Run.writeText path text).run world = (.error failure, world)) ∨
      World.checkPath path = .ok () ∧ ∃ location content, world.follow path = .ok location ∧
        world.tree.get? location ≠ some .directory ∧
        ((Text.encode? text = .ok content ∧ (Run.writeText path text).run world =
            (.ok (), { world with tree := world.tree.insert location (.file content) })) ∨
          ∃ fault, Text.encode? text = .error fault ∧ content = .empty ∧
            (Run.writeText path text).run world = (.error (.unencodable fault),
              { world with tree := world.tree.insert location (.file content) })) := by
  have hchanging := fun content ↦ Run.run_changing (·.writeBytes path content) world
  cases hencode : Text.encode? text with
  | ok content =>
    have hwrite := hchanging content
    simp only [Run.writeText, hencode]
    cases hresult : world.writeBytes path content with
    | error failure =>
      rw [hresult] at hwrite
      exact .inl ⟨failure, hwrite⟩
    | ok world' =>
      obtain ⟨hcheck, location, hfollow, hfile, rfl⟩ := World.exists_of_writeBytes hresult
      rw [hresult] at hwrite
      exact .inr ⟨hcheck, location, content, hfollow, hfile, .inl ⟨rfl, hwrite⟩⟩
  | error fault =>
    have hwrite := hchanging .empty
    simp only [Run.writeText, hencode]
    cases hresult : world.writeBytes path .empty with
    | error failure =>
      rw [hresult] at hwrite
      exact .inl ⟨failure, run_bind_of_error hwrite _⟩
    | ok world' =>
      obtain ⟨hcheck, location, hfollow, hfile, rfl⟩ := World.exists_of_writeBytes hresult
      rw [hresult] at hwrite
      exact .inr ⟨hcheck, location, .empty, hfollow, hfile,
        .inr ⟨fault, rfl, rfl, run_bind_of_ok hwrite _⟩⟩

/-- Whatever is compiled, installing it does one of these. -/
theorem installs (compiled : Compiled) (force : Bool) (world : World) :
    Installs compiled force world ((install compiled force).run world).1
      ((install compiled force).run world).2 := by
  have hpresent := run_previousText compiled.target world
  have hsay : ∀ (world : World) (level : Level) (message : String) (outcome : Outcome),
      ∃ log, (do Run.say level message; return outcome : Run Outcome).run world =
        (.ok outcome, { world with log := log }) := fun world level message outcome ↦ by
    obtain ⟨log, hlog⟩ := run_say level message world
    exact ⟨log, run_bind_of_ok hlog _⟩
  rw [install]
  cases htext : world.readText? compiled.target with
  | error failure =>
    rw [htext] at hpresent
    rw [run_bind_of_error hpresent]
    exact .unread htext
  | ok present =>
    rw [htext] at hpresent
    rw [run_bind_of_ok hpresent]
    split
    · next hsame =>
      obtain ⟨log, hrun⟩ := hsay world .info (compiled.target.name ++ " is up-to-date") .upToDate
      rw [hrun]
      exact .upToDate log (hsame ▸ htext)
    · split
      · next hkept =>
        obtain ⟨log, hrun⟩ := hsay world .warning (compiled.target.name ++
          " was modified manually, please use --force to overwrite.") .modified
        rw [Bool.and_eq_true, Bool.not_eq_true', Option.any_eq_true] at hkept
        obtain ⟨⟨text, rfl, hhand⟩, hforce⟩ := hkept
        rw [hrun]
        exact .modified log htext hhand hforce
      · next hkept =>
        have hmay : MayReplace world compiled.target force := by
          intro text htext' hhand
          obtain rfl := Except.ok.inj (htext.symm.trans htext')
          simpa [hhand] using hkept
        rcases run_writeText compiled.target compiled.output world with
          ⟨failure, hrun⟩ | ⟨hcheck, location, content, hfollow, hfile, hwritten⟩
        · rw [run_bind_of_error hrun]
          exact .unwritten failure hmay
        · rcases hwritten with ⟨hencode, hrun⟩ | ⟨fault, hencode, rfl, hrun⟩
          · rw [run_bind_of_ok hrun]
            obtain ⟨log, hrun⟩ := hsay _ .info ("Generated " ++ compiled.target.name) .generated
            rw [hrun]
            exact .generated log hencode hcheck hfollow hfile hmay
          · rw [run_bind_of_error hrun]
            exact .emptied hencode hfollow hfile hmay

variable {compiled : Compiled} {force : Bool} {world world' : World}
  {result : Except Failure Outcome}

namespace Installs

/-- Putting a description in its place changes at most its file. -/
theorem tree_eq (h : Installs compiled force world result world') :
    world'.tree = world.tree ∧ result ≠ .ok .generated ∨
      ∃ location content, world.follow compiled.target = .ok location ∧
        world.tree.get? location ≠ some .directory ∧ MayReplace world compiled.target force ∧
        world'.tree = world.tree.insert location (.file content) ∧
        (result = .ok .generated ∧ Text.encode? compiled.output = .ok content ∨
          ∃ fault, result = .error (.unencodable fault) ∧
            Text.encode? compiled.output = .error fault ∧ content = .empty) := by
  cases h with
  | unread | upToDate | modified | unwritten => exact .inl ⟨rfl, nofun⟩
  | emptied hencode hfollow hfile hmay =>
    exact .inr ⟨_, _, hfollow, hfile, hmay, rfl, .inr ⟨_, rfl, hencode, rfl⟩⟩
  | generated log hencode _ hfollow hfile hmay =>
    exact .inr ⟨_, _, hfollow, hfile, hmay, rfl, .inl ⟨rfl, hencode⟩⟩

/-- Installing asks no address. -/
theorem requests_eq (h : Installs compiled force world result world') :
    world'.requests = world.requests := by
  cases h <;> rfl

/-- A description is left as it was modified exactly if it was written by hand and nothing is
forced. -/
theorem modified_iff (h : Installs compiled force world result world') :
    result = .ok .modified ↔ force = false ∧ ∃ text,
      world.readText? compiled.target = .ok (some text) ∧ isHandwritten text := by
  have hmay : MayReplace world compiled.target force → ¬(force = false ∧ ∃ text,
      world.readText? compiled.target = .ok (some text) ∧ isHandwritten text) := by
    rintro hmay ⟨hforce, text, htext, hhand⟩
    exact Bool.eq_false_iff.1 hforce (hmay text htext hhand)
  cases h with
  | modified log htext hhand hforce => exact ⟨fun _ ↦ ⟨hforce, _, htext, hhand⟩, fun _ ↦ rfl⟩
  | unread hfailed =>
    refine ⟨nofun, ?_⟩
    rintro ⟨-, text, htext, -⟩
    cases hfailed.symm.trans htext
  | upToDate log hsame =>
    refine ⟨nofun, ?_⟩
    rintro ⟨-, text, htext, hhand⟩
    obtain rfl := Option.some.inj (Except.ok.inj (hsame.symm.trans htext))
    rw [isHandwritten_output] at hhand
    cases hhand
  | unwritten failure hmay' => exact ⟨nofun, fun hright ↦ (hmay hmay' hright).elim⟩
  | emptied _ _ _ hmay' => exact ⟨nofun, fun hright ↦ (hmay hmay' hright).elim⟩
  | generated log _ _ _ _ hmay' => exact ⟨nofun, fun hright ↦ (hmay hmay' hright).elim⟩

end Installs

/-- A description that is there already is not written. -/
theorem run_install_of_present (compiled : Compiled) (force : Bool)
    (h : world.readText? compiled.target = .ok (some compiled.output)) :
    ∃ log, (install compiled force).run world = (.ok .upToDate, { world with log := log }) := by
  obtain ⟨log, hlog⟩ := run_say .info (compiled.target.name ++ " is up-to-date") world
  have hpresent := run_previousText compiled.target world
  rw [h] at hpresent
  refine ⟨log, ?_⟩
  rw [install, run_bind_of_ok hpresent, if_pos rfl, run_bind_of_ok hlog]
  rfl

/-- A description that is not there yet is written, unless it would replace one that was written by
hand. -/
theorem run_install_of_new (compiled : Compiled) (force : Bool) {present : Option String}
    {content : ByteArray} {location : Location}
    (hpresent : world.readText? compiled.target = .ok present)
    (hnew : present ≠ some compiled.output)
    (hmay : (present.any isHandwritten && !force) = false)
    (hencode : Text.encode? compiled.output = .ok content)
    (hcheck : World.checkPath compiled.target = .ok ())
    (hfollow : world.follow compiled.target = .ok location)
    (hfile : world.tree.get? location ≠ some .directory) :
    ∃ log, (install compiled force).run world =
      (.ok .generated,
        { world with tree := world.tree.insert location (.file content), log := log }) := by
  have htext := run_previousText compiled.target world
  rw [hpresent] at htext
  have hwritten : (Run.writeText compiled.target compiled.output).run world =
      (.ok (), { world with tree := world.tree.insert location (.file content) }) := by
    have hchanging := Run.run_changing (·.writeBytes compiled.target content) world
    rw [World.writeBytes_of_follow hcheck hfollow hfile] at hchanging
    simp only [Run.writeText, hencode]
    exact hchanging
  obtain ⟨log, hlog⟩ := run_say .info ("Generated " ++ compiled.target.name)
    { world with tree := world.tree.insert location (.file content) }
  refine ⟨log, ?_⟩
  rw [install, run_bind_of_ok htext, if_neg hnew, hmay, if_neg Bool.false_ne_true,
    run_bind_of_ok hwritten, run_bind_of_ok hlog]
  rfl

end Manifest

end CabalManifest
