import CabalManifest.Text.Blank
import CabalManifest.Text.Digit
import CabalManifest.Text.Lowercase
import CabalManifest.Yaml.Lexer
import CabalManifest.Yaml.Tag

/-!
# Numbers and truth values

What the text of a number or a truth value denotes. The forms are those of the standard schema, but
a tag that is written in front of a text can ask for a number where there is none, or for one in a
form of its own.
-/

namespace CabalManifest.Yaml.Number

/-- A sign and a number without underscores. -/
def signed (text : String) : Bool × List Char :=
  Decimal.splitSign (text.toList.filter (· != '_'))

/-- Reads a nonempty run of digits below `base`. -/
def digits? (base : Nat) (cs : List Char) : Option Nat :=
  let digit (c : Char) : Nat := Lexer.hexValue [c]
  if !cs.isEmpty && cs.all fun c ↦ isHexDigit c && digit c < base then
    some (cs.foldl (fun n c ↦ base * n + digit c) 0)
  else none

/-- The most characters of a text that a message about an integer shows, the opening quote counted. -/
def shownLimit : Nat := 200

/-- The fault of a text that is no number to a base. -/
def badInteger {α : Type} (base : Nat) (cs : List Char) : Except Error α :=
  let shown := String.ofList ((Text.quote (String.ofList cs)).toList.take shownLimit)
  .error (.meaningless
    ("invalid literal for int() with base " ++ toString base ++ ": " ++ shown))

/-- The letter that may stand after a zero in front of digits to a base. -/
def baseLetter : Nat → List Char
  | 2 => ['b', 'B']
  | 8 => ['o', 'O']
  | 16 => ['x', 'X']
  | _ => []

/-- Digits to a base without the zero and the letter in front of them. -/
def dropBase (base : Nat) : List Char → List Char
  | '0' :: c :: cs => if (baseLetter base).contains c then cs else '0' :: c :: cs
  | cs => cs

/-- White space that may stand around a number. The ASCII separators are not among it. -/
def isPadding (c : Char) : Bool := Text.isBlank c && !(0x1C ≤ c.toNat && c.toNat ≤ 0x1F)

/-- A number as it is read: without the white space around it, and with plain digits. -/
def plainNumber (cs : List Char) : List Char :=
  (Text.dropRight isPadding (cs.dropWhile isPadding)).map Text.plainDigit

/-- Reads digits to a base, with a sign of their own and white space around them. That a decimal has
too many digits counts more than what may come after them. -/
def digits (base : Nat) (cs : List Char) : Except Error Int :=
  let (negative, unsigned) := Decimal.splitSign (plainNumber cs)
  let count := (unsigned.takeWhile Char.isDigit).length
  if base == 10 && Decimal.digitLimit < count then .error (.longInteger (some count))
  else match digits? base (dropBase base unsigned) with
    | some n => .ok (if negative then -(n : Int) else n)
    | none => badInteger base cs

/-- The integer that a text denotes. -/
def integer (text : String) : Except Error Int := do
  if text.toList.all (· == '_') then throw (.misfit .emptyNumber)
  let (negative, cs) := signed text
  let magnitude ← match cs with
    | [] => throw (.misfit .emptyNumber)
    | ['0'] => pure 0
    | '0' :: 'b' :: rest => digits 2 rest
    | '0' :: 'x' :: rest => digits 16 rest
    | '0' :: _ => digits 8 cs
    | _ =>
      if cs.contains ':' then do
        let groups ← (Plain.colonGroups cs).mapM (digits 10)
        pure (groups.foldl (fun n group ↦ 60 * n + group) 0)
      else digits 10 cs
  return if negative then -magnitude else magnitude

/-- Reads one decimal, with white space around it. -/
def decimal (cs : List Char) : Except Error Float :=
  match Decimal.readFloat? (String.ofList (plainNumber cs)) with
  | some x => .ok x
  | none => .error (.meaningless ("could not convert string to float: " ++
    Text.quote (String.ofList cs)))

/-- The number that digit groups to the base sixty denote, the last group first. The weight of each
group has to be in the range of floats, even that of a zero. -/
def sexagesimal (groups : List Float) : Except Error Float := do
  let (sum, _) ← groups.foldlM
    (fun (sum, weight) group ↦
      if Decimal.pow2 1024 ≤ weight then .error (Error.misfit .outOfRange)
      else .ok (sum + group * Float.ofNat weight, weight * 60))
    ((0.0 : Float), 1)
  return sum

/-- The floating point number that a text denotes. -/
def float (text : String) : Except Error Float := do
  let cs := Text.lowercaseAll (text.toList.filter (· != '_'))
  if cs.isEmpty then throw (.misfit .emptyNumber)
  let (negative, cs) := Decimal.splitSign cs
  let magnitude ←
    if cs = ".inf".toList then pure Decimal.infinity
    else if cs = ".nan".toList then return Decimal.notANumber
    else if cs.contains ':' then do
      let groups ← (Plain.colonGroups cs).mapM decimal
      sexagesimal groups.reverse
    else decimal cs
  return if negative then -magnitude else magnitude

/-- The truth value that a word denotes. -/
def boolean (text : String) : Except Error Bool :=
  let word := String.ofList (Text.lowercaseAll text.toList)
  if ["yes", "true", "on"].contains word then .ok true
  else if ["no", "false", "off"].contains word then .ok false
  else .error (.misfit (.otherWord word))

end CabalManifest.Yaml.Number
