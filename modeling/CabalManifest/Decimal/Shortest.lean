import CabalManifest.Decimal.Binary64

/-!
# The shortest decimal of a double

Among the decimals that read back as a given double, the *shortest* has the fewest digits, and of
those it is the one nearest to the double. It is found by scanning decimal grids from coarse to
fine: on each grid only the two neighbours of the double can lie in the interval of numbers that
round to it, and the first grid with a hit wins.

`Decimal.text` fixes how such a decimal is written: positional while the exponent of the leading
digit is at least -4 and below 16, with `.0` added to whole numbers, otherwise with an exponent of
at least two digits.
-/

namespace CabalManifest.Decimal

/-- The numbers that round to one double, on a common denominator: the double itself, and the two
ends of the interval, which belong to it when `closed`. -/
structure Rounding where
  low : Nat
  value : Nat
  high : Nat
  den : Nat
  closed : Bool

/-- The rounding interval of a magnitude. Below a power of two the neighbouring doubles lie closer
together. -/
def Magnitude.rounding (x : Magnitude) : Rounding :=
  let m := x.significand
  let gap := if m = pow2 52 && x.exponent > -1074 then 1 else 2
  let up := pow2 (x.exponent - 2).toNat
  { low := (4 * m - gap) * up
    value := 4 * m * up
    high := (4 * m + 2) * up
    den := pow2 (2 - x.exponent).toNat
    closed := m % 2 == 0 }

/-- Whether `digits * 10 ^ exponent` lies in the interval. -/
def Rounding.contains (r : Rounding) (digits : Nat) (exponent : Int) : Bool :=
  let a := pow10 (-exponent).toNat
  let c := digits * (r.den * pow10 exponent.toNat)
  if r.closed then r.low * a ≤ c && c ≤ r.high * a else r.low * a < c && c < r.high * a

/-- The point of a decimal grid that lies in the interval and is nearest to the value, if any; of
two equally near ones the even one. -/
def Rounding.hit? (r : Rounding) (exponent : Int) : Option Nat :=
  let a := pow10 (-exponent).toNat
  let b := r.den * pow10 exponent.toNat
  let below := r.value * a / b
  let nearest := roundEven (r.value * a) b
  let other := if nearest = below then below + 1 else below
  [nearest, other].find? fun n ↦ n > 0 && r.contains n exponent

/-- The shortest decimal `digits * 10 ^ exponent` of a nonzero magnitude. -/
def Magnitude.shortest (x : Magnitude) : Nat × Int :=
  let r := x.rounding
  let grid (i : Nat) : Option (Nat × Int) :=
    let exponent : Int := 309 - i
    (r.hit? exponent).map (·, exponent)
  ((List.range 640).findSome? grid).getD (0, 0)

/-- The decimal digits of a natural number. -/
def digits (n : Nat) : List Char := (toString n).toList

/-- Writes `d.ddd` or `ddd.d`, given the digits and how many of them stand before the point. -/
def positional (ds : List Char) (point : Int) : List Char :=
  if point ≤ 0 then "0.".toList ++ List.replicate (-point).toNat '0' ++ ds
  else
    let n := point.toNat
    if ds.length ≤ n then ds ++ List.replicate (n - ds.length) '0' ++ ".0".toList
    else ds.take n ++ '.' :: ds.drop n

/-- Writes `d.ddde+XX`, given the digits and the exponent of the first. -/
def scientific (ds : List Char) (leading : Int) : List Char :=
  let power := digits leading.natAbs
  ds.take 1 ++ (if ds.length ≤ 1 then [] else '.' :: ds.drop 1) ++
    ['e', if leading < 0 then '-' else '+'] ++
    (if power.length < 2 then '0' :: power else power)

/-- The text of a double. -/
def text (x : Float) : String :=
  let sign := if isNegative x then "-" else ""
  match magnitude? x with
  | none => if x == x then sign ++ "inf" else "nan"
  | some ⟨0, _⟩ => sign ++ "0.0"
  | some m =>
    let (d, exponent) := m.shortest
    let ds := digits d
    let leading := exponent + ds.length - 1
    let body := if -4 ≤ leading && leading < 16 then positional ds (leading + 1)
      else scientific ds leading
    sign ++ String.ofList body

end CabalManifest.Decimal
