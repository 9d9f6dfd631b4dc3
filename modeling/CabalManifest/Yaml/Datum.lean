import CabalManifest.Yaml.MemberOrder
import CabalManifest.Yaml.Moment

/-!
# Data

What the nodes of a document denote. The keys of a mapping can be data of any kind without parts;
they are texts only in a document value.
-/

namespace CabalManifest.Yaml

/-- What a node denotes, before keys are turned into texts. -/
inductive Datum where
  | null
  | bool (b : Bool)
  | int (n : Int)
  | float (x : Float)
  | text (s : String)
  | bytes (bs : List UInt8)
  | moment (m : Moment)
  | list (items : List Datum)
  | map (entries : List (Datum × Datum))
  | set (members : List Datum)

namespace Datum

instance : Inhabited Datum := ⟨null⟩

/-! ### Keys -/

/-- Whether a float is a given integer. -/
def floatIsInt (x : Float) (n : Int) : Bool :=
  match Decimal.magnitude? x with
  | none => false
  | some ⟨m, e⟩ =>
    let value := if Decimal.isNegative x then -(m : Int) else m
    if e < 0 then value == n * Decimal.pow2 (-e).toNat else value * Decimal.pow2 e.toNat == n

/-- The integer that a boolean or integer key is equal to. -/
def asInt? : Datum → Option Int
  | bool b => some (if b then 1 else 0)
  | int n => some n
  | _ => none

/-- Whether two keys are the same. Numbers and booleans are compared by value. -/
def sameKey : Datum → Datum → Bool
  | null, null => true
  | text a, text b => a == b
  | bytes a, bytes b => a == b
  | moment a, moment b => a.same b
  | float a, float b => a == b || (a != a && b != b)
  | float a, b => (b.asInt?.map (floatIsInt a)).getD false
  | a, float b => (a.asInt?.map (floatIsInt b)).getD false
  | a, b => match a.asInt?, b.asInt? with
    | some m, some n => m == n
    | _, _ => false

/-- A byte in a quoted byte string. -/
def quotedByte (mark : Char) (b : UInt8) : List Char :=
  let c := Char.ofNat b.toNat
  if c = mark || c = '\\' then ['\\', c]
  else if c = '\n' then ['\\', 'n']
  else if c = '\r' then ['\\', 'r']
  else if c = '\t' then ['\\', 't']
  else if 0x20 ≤ b && b < 0x7F then [c]
  else '\\' :: 'x' :: Text.hexDigits 2 b.toNat

/-- A byte string in quotes. -/
def quotedBytes (bs : List UInt8) : String :=
  let mark := Text.quoteMark (bs.map fun b ↦ Char.ofNat b.toNat)
  String.ofList ('b' :: mark :: bs.flatMap (quotedByte mark) ++ [mark])

/-- The text that a key becomes; a long integer has none. -/
def keyText : Datum → Except Error String
  | null => .ok "None"
  | bool b => .ok (if b then "True" else "False")
  | int n => if Decimal.isWritable n then .ok (toString n) else .error (.longInteger none)
  | float x => .ok (Decimal.text x)
  | text s => .ok s
  | bytes bs => .ok (quotedBytes bs)
  | moment m => .ok (m.text " ")
  | list _ | map _ | set _ => .ok ""

/-- A member of a set, as the text of the set shows it. -/
def memberText : Datum → Except Error String
  | text s => .ok (Text.quote s)
  | moment m => .ok m.quoted
  | datum => datum.keyText

/-- The hash of a number or truth value. -/
def hash? : Datum → Option Int
  | float x => MemberOrder.ofFloat? x
  | datum => datum.asInt?.map MemberOrder.ofInt

/-- The members of a set in the order in which they are shown: numbers in the order of their hashes.
Any other set is left as it is written. -/
def shownMembers (members : List Datum) : List Datum :=
  match members.mapM fun member ↦ member.hash?.map (member, ·) with
  | some members => MemberOrder.sort members
  | none => members

/-- The text that a set becomes. -/
def setText (members : List Datum) : Except Error String := do
  if members.isEmpty then return "set()"
  return "\x7b" ++ ", ".intercalate (← (shownMembers members).mapM memberText) ++ "\x7d"

/-- Puts a value under a key; a key that is present keeps its first form and its place. -/
def insert (key value : Datum) : List (Datum × Datum) → List (Datum × Datum)
  | [] => [(key, value)]
  | (k, v) :: rest => if k.sameKey key then (k, value) :: rest else (k, v) :: insert key value rest

/-! ### Document values -/

mutual

/-- The document value of a datum: keys, dates and sets become texts. -/
def toValue : Datum → Except Error Value
  | null => .ok .null
  | bool b => .ok (.bool b)
  | int n => .ok (.int n)
  | float x => .ok (.float x)
  | text s => .ok (.text s)
  | bytes bs => .ok (.text (Text.decodeLossy bs))
  | moment m => .ok (.text (m.text "T"))
  | list items => do return .array (← itemValues items)
  | map entries => do return .object (Entries.ofList (← entryValues entries))
  | set members => do return .text (← setText members)

/-- The document values of items. -/
def itemValues : List Datum → Except Error (List Value)
  | [] => .ok []
  | item :: items => do
    let value ← item.toValue
    return value :: (← itemValues items)

/-- The document values of entries, under their texts. -/
def entryValues : List (Datum × Datum) → Except Error (List (String × Value))
  | [] => .ok []
  | (key, value) :: entries => do
    let text ← key.keyText
    let value ← value.toValue
    return (text, value) :: (← entryValues entries)

end

end Datum

end CabalManifest.Yaml
