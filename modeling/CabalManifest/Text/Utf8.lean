import CabalManifest.Text.Surrogate

/-!
# Bytes and text

Bytes are text in UTF-8 or no text at all. For bytes that are no text, `firstFault?` finds the first
byte sequence that is wrong and says why: a byte that cannot start a character, a character that
breaks off before a byte that cannot continue it, or one that the end of the data cuts off.

Every text has its bytes, unless it holds half of a surrogate pair (`firstHalves?_eq_none_iff`).
-/

namespace CabalManifest

/-- The fault of bytes that are no text: where it is, and what is wrong there. -/
structure Undecodable where
  first : Nat
  last : Nat
  byte : UInt8
  reason : String
  deriving DecidableEq, Repr

/-- The first run of code points in a text for which no bytes stand: where it is, and the first of
them. -/
structure Unencodable where
  first : Nat
  last : Nat
  code : Nat
  deriving DecidableEq, Repr

namespace Text

/-- Whether a byte can continue a character. -/
def isContinuation (b : UInt8) : Bool := 0x80 ≤ b && b ≤ 0xBF

/-- The number of bytes after a first byte, and the range the second must lie in. -/
def utf8Shape? (b : UInt8) : Option (Nat × UInt8 × UInt8) :=
  if b < 0x80 then some (0, 0x80, 0xBF)
  else if 0xC2 ≤ b && b ≤ 0xDF then some (1, 0x80, 0xBF)
  else if b = 0xE0 then some (2, 0xA0, 0xBF)
  else if b = 0xED then some (2, 0x80, 0x9F)
  else if 0xE1 ≤ b && b ≤ 0xEF then some (2, 0x80, 0xBF)
  else if b = 0xF0 then some (3, 0x90, 0xBF)
  else if 0xF1 ≤ b && b ≤ 0xF3 then some (3, 0x80, 0xBF)
  else if b = 0xF4 then some (3, 0x80, 0x8F)
  else none

/-- What stands at the beginning of some bytes: a character of a number of bytes, or a fault that
spans a number of bytes. -/
inductive Utf8Step where
  | character (c : Char) (width : Nat)
  | fault (width : Nat) (reason : String)

/-- Reads the first character of `b :: rest`. -/
def utf8Step (b : UInt8) (rest : List UInt8) : Utf8Step :=
  match utf8Shape? b with
  | none => .fault 1 "invalid start byte"
  | some (0, _, _) => .character (Char.ofNat b.toNat) 1
  | some (more, low, high) =>
    let tail := rest.take more
    let good := match tail with
      | [] => []
      | second :: others =>
        if low ≤ second && second ≤ high then second :: others.takeWhile isContinuation else []
    if good.length = more then
      let lead := b.toNat % Nat.pow 2 (6 - more)
      .character (Char.ofNat (good.foldl (fun n c ↦ n * 64 + c.toNat % 64) lead)) (more + 1)
    else if good.length < tail.length then .fault (1 + good.length) "invalid continuation byte"
    else .fault (1 + good.length) "unexpected end of data"

/-- The first wrong byte sequence, counting positions from `position`; the bound is the number of
bytes. -/
def firstFaultFrom : Nat → Nat → List UInt8 → Option Undecodable
  | 0, _, _ => none
  | _, _, [] => none
  | bound + 1, position, b :: rest =>
    match utf8Step b rest with
    | .character _ width => firstFaultFrom bound (position + width) (rest.drop (width - 1))
    | .fault width reason => some ⟨position, position + width - 1, b, reason⟩

/-- The first wrong byte sequence. -/
def firstFault? (bytes : ByteArray) : Option Undecodable :=
  let bytes := bytes.data.toList
  firstFaultFrom bytes.length 0 bytes

/-- Reads bytes as text. -/
def decode (bytes : ByteArray) : Except Undecodable String :=
  match String.fromUTF8? bytes with
  | some text => .ok text
  | none => .error ((firstFault? bytes).getD ⟨0, 0, 0, ""⟩)

/-- Reads bytes as text with a replacement character for every wrong sequence; the bound is the
number of bytes. -/
def decodeLossyFrom : Nat → List UInt8 → List Char
  | 0, _ => []
  | _, [] => []
  | bound + 1, b :: rest =>
    match utf8Step b rest with
    | .character c width => c :: decodeLossyFrom bound (rest.drop (width - 1))
    | .fault width _ => '\uFFFD' :: decodeLossyFrom bound (rest.drop (width - 1))

/-- Reads bytes as text with a replacement character for every wrong sequence. -/
def decodeLossy (bytes : List UInt8) : String :=
  String.ofList (decodeLossyFrom bytes.length bytes)

/-- The bytes of a text. -/
def encode (text : String) : ByteArray := text.toUTF8

/-- The first run of surrogate halves among some code points. -/
def firstHalves? (codes : List Nat) : Option Unencodable :=
  let before := codes.takeWhile fun code ↦ !isHalf code
  match codes.drop before.length with
  | [] => none
  | code :: rest =>
    let further := rest.takeWhile isHalf
    some ⟨before.length, before.length + further.length, code⟩

/-- The bytes of a text, or what is wrong with it. A text that has the two characters that are kept
for a surrogate half is taken for one with the half, and refused. -/
def encode? (text : String) : Except Unencodable ByteArray :=
  match firstHalves? (codes text.toList) with
  | some fault => .error fault
  | none => .ok (encode text)

theorem firstHalves?_eq_none_iff {codes : List Nat} :
    firstHalves? codes = none ↔ ∀ code ∈ codes, isHalf code = false := by
  induction codes with
  | nil => simp [firstHalves?]
  | cons code codes ih =>
    cases h : isHalf code with
    | true => simp [firstHalves?, h]
    | false =>
      rw [List.forall_mem_cons, ← ih]
      simp only [firstHalves?, h, Bool.not_false, List.takeWhile_cons_of_pos, List.length_cons,
        List.drop_succ_cons, true_and]
      cases codes.drop (codes.takeWhile fun code ↦ !isHalf code).length <;> simp

/-- In a text without the mark of a half there are no halves. -/
theorem firstHalves?_codes_of_notMem {cs : List Char} (h : halfMark ∉ cs) :
    firstHalves? (codes cs) = none := by
  refine firstHalves?_eq_none_iff.2 fun code hcode ↦ ?_
  rw [codes_of_notMem h] at hcode
  obtain ⟨c, -, rfl⟩ := List.mem_map.1 hcode
  exact isHalf_toNat c

/-- The bytes of a text read back as that text. -/
theorem decode_encode (text : String) : decode (encode text) = .ok text := by
  have h : String.fromUTF8? text.toUTF8 = some text := by
    unfold String.fromUTF8?
    split
    · rfl
    · next h => exact absurd text.isValidUTF8 h
  rw [decode, encode, h]

end Text

end CabalManifest
