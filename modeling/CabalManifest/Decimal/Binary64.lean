/-!
# Binary floating point numbers as exact fractions

A finite double is a sign and a value `significand * 2 ^ exponent`. This module takes a double apart
in that form and, in the other direction, finds the double nearest to a decimal number, ties going
to the even significand. Both directions are exact arithmetic on natural numbers.
-/

namespace CabalManifest.Decimal

/-- A power of two. -/
def pow2 (n : Nat) : Nat := Nat.pow 2 n

/-- A power of ten. -/
def pow10 (n : Nat) : Nat := Nat.pow 10 n

/-- The magnitude of a finite double: `significand * 2 ^ exponent`. -/
structure Magnitude where
  significand : Nat
  exponent : Int
  deriving DecidableEq, Repr

/-- Whether a double carries the minus sign, zeros and infinities included. -/
def isNegative (x : Float) : Bool := x.toBits.toNat / pow2 63 == 1

/-- Takes a finite double apart; infinities and not-a-number have no magnitude. -/
def magnitude? (x : Float) : Option Magnitude :=
  let bits := x.toBits.toNat
  let fraction : Nat := bits % pow2 52
  let field : Nat := bits / pow2 52 % pow2 11
  if field = 2047 then none
  else if field = 0 then some ⟨fraction, -1074⟩
  else some ⟨pow2 52 + fraction, (field : Int) - 1075⟩

/-- The double with the given bit pattern and sign. -/
def ofBits (negative : Bool) (bits : Nat) : Float :=
  Float.ofBits (UInt64.ofNat (if negative then pow2 63 + bits else bits))

/-- The natural number nearest to a fraction; a tie goes to the even one. -/
def roundEven (num den : Nat) : Nat :=
  let quotient := num / den
  let twice := 2 * (num % den)
  if twice < den then quotient
  else if twice = den then quotient + quotient % 2
  else quotient + 1

/-- The fraction `num / den` divided by a power of two, as a fraction. -/
def scale (num den : Nat) (exponent : Int) : Nat × Nat :=
  if exponent < 0 then (num * pow2 (-exponent).toNat, den) else (num, den * pow2 exponent.toNat)

/-- The bits of the double nearest to the positive fraction `num / den`. -/
def nearestBits (num den : Nat) : Nat :=
  let guess : Int := (num.log2 : Int) - den.log2 - 52
  let (a, b) := scale num den guess
  let exponent := max (if a / b < pow2 52 then guess - 1 else guess) (-1074)
  let (a, b) := scale num den exponent
  -- a significand that rounds up to the next power of two carries into the exponent by itself
  let significand := roundEven a b
  if exponent > 971 then 2047 * pow2 52
  else min (2047 * pow2 52) ((exponent + 1074).toNat * pow2 52 + significand)

/-- The double nearest to `digits * 10 ^ exponent`. Exponents far outside the range of doubles are
settled by counting digits, so that no large power is ever computed for them. -/
def nearest (negative : Bool) (digits : Nat) (exponent : Int) : Float :=
  let leading := exponent + (digits.log2 : Int) / 4
  let bits :=
    if digits = 0 then 0
    else if leading > 400 then 2047 * pow2 52
    else if exponent + (digits.log2 : Int) < -400 then 0
    else if exponent < 0 then nearestBits digits (pow10 (-exponent).toNat)
    else nearestBits (digits * pow10 exponent.toNat) 1
  ofBits negative bits

/-- Positive infinity. -/
def infinity : Float := ofBits false (2047 * pow2 52)

/-- Not-a-number. -/
def notANumber : Float := ofBits false (2047 * pow2 52 + pow2 51)

/-! ### Reading decimal text -/

/-- The number a list of ASCII digits denotes. -/
def digitsValue (cs : List Char) : Nat :=
  cs.foldl (fun n c ↦ 10 * n + (c.toNat - '0'.toNat)) 0

/-- Splits a sign off a number. -/
def splitSign : List Char → Bool × List Char
  | '-' :: cs => (true, cs)
  | '+' :: cs => (false, cs)
  | cs => (false, cs)

/-- Reads the exponent of a decimal: nothing, or `e` followed by a signed number. -/
def readExponent? : List Char → Option Int
  | [] => some 0
  | c :: cs =>
    let (negative, digits) := splitSign cs
    if (c = 'e' || c = 'E') && !digits.isEmpty && digits.all Char.isDigit then
      some (if negative then -(digitsValue digits : Int) else digitsValue digits)
    else none

/-- Reads a decimal such as `1`, `.5`, `1.`, `2.5e-3`, `inf` or `nan`, with an optional sign. -/
def readFloat? (text : String) : Option Float :=
  let (negative, cs) := splitSign text.toList
  if cs = "inf".toList || cs = "infinity".toList then some (if negative then -infinity else infinity)
  else if cs = "nan".toList then some notANumber
  else
    let whole := cs.takeWhile Char.isDigit
    let rest := cs.dropWhile Char.isDigit
    let (fraction, rest) := match rest with
      | '.' :: rest => (rest.takeWhile Char.isDigit, rest.dropWhile Char.isDigit)
      | rest => ([], rest)
    if whole.isEmpty && fraction.isEmpty then none
    else (readExponent? rest).map fun exponent ↦
      nearest negative (digitsValue (whole ++ fraction)) (exponent - fraction.length)

end CabalManifest.Decimal
