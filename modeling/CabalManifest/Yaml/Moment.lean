import CabalManifest.Yaml.Problem
import CabalManifest.Yaml.Tag

/-!
# Dates and times

What a timestamp scalar denotes: a day, or a day with a time that may have an offset from universal
time. A timestamp can have the right form and still denote nothing, as the thirtieth of February.
-/

namespace CabalManifest.Yaml

/-- A time of day: hour, minute, second, microsecond, and the offset in minutes if it is known. -/
structure Clock where
  hour : Nat
  minute : Nat
  second : Nat
  micro : Nat
  offset : Option Int
  deriving DecidableEq, Repr

/-- A day, or a time of a day. -/
structure Moment where
  year : Nat
  month : Nat
  day : Nat
  clock : Option Clock
  deriving DecidableEq, Repr

namespace Moment

/-! ### Calendar -/

/-- Whether a year has a leap day. -/
def isLeap (year : Nat) : Bool := year % 4 == 0 && (year % 100 != 0 || year % 400 == 0)

/-- The number of days of a month. -/
def daysIn (year month : Nat) : Nat :=
  if month = 2 then (if isLeap year then 29 else 28)
  else if [4, 6, 9, 11].contains month then 30
  else 31

/-- The number of days before a day, counted from the beginning of year 1. -/
def ordinal (year month day : Nat) : Nat :=
  let past := year - 1
  let months := (List.range (month - 1)).foldl (fun days m ↦ days + daysIn year (m + 1)) 0
  past * 365 + past / 4 - past / 100 + past / 400 + months + day

/-- What is wrong with a date, if anything. -/
def dateFault? (year month day : Nat) : Option String :=
  if year = 0 || year > 9999 then some ("year " ++ toString year ++ " is out of range")
  else if month = 0 || month > 12 then some "month must be in 1..12"
  else if day = 0 || day > daysIn year month then some "day is out of range for month"
  else none

/-- What is wrong with a time of day, if anything. -/
def clockFault? (hour minute second : Nat) : Option String :=
  if hour > 23 then some "hour must be in 0..23"
  else if minute > 59 then some "minute must be in 0..59"
  else if second > 59 then some "second must be in 0..59"
  else none

/-- A span of minutes, in days and seconds, as a message shows it. -/
def spanText (minutes : Int) : String :=
  let days := minutes / 1440
  let seconds := minutes % 1440 * 60
  let parts := (if days = 0 then [] else ["days=" ++ toString days]) ++
    (if seconds = 0 then [] else ["seconds=" ++ toString seconds])
  "datetime.timedelta(" ++ ", ".intercalate parts ++ ")"

/-- What is wrong with an offset, if anything. -/
def offsetFault? (minutes : Int) : Option String :=
  if minutes.natAbs < 1440 then none
  else some ("offset must be a timedelta strictly between -timedelta(hours=24) and " ++
    "timedelta(hours=24), not " ++ spanText minutes ++ ".")

/-! ### Reading -/

/-- The offset of a zone, in minutes. -/
def offset? (time : Plain.Time) : Option Int :=
  match time.zone with
  | none => none
  | some 'Z' => some 0
  | some sign =>
    let minutes : Int := Decimal.digitsValue time.zoneHour * 60 + Decimal.digitsValue time.zoneMinute
    some (if sign = '-' then -minutes else minutes)

/-- Microseconds from the digits of a fraction of a second. -/
def microseconds (fraction : List Char) : Nat :=
  Decimal.digitsValue ((fraction ++ List.replicate 6 '0').take 6)

/-- Stops at a fault. -/
def check : Option String → Except Error Unit
  | none => .ok ()
  | some words => .error (.meaningless words)

/-- The moment that the text of a timestamp denotes. -/
def ofText (text : String) : Except Error Moment := do
  match Plain.splitDate? (Plain.dropFinalNewline text.toList) with
  | none => throw (.misfit .otherDate)
  | some (year, month, day, rest) =>
    let (year, month, day) :=
      (Decimal.digitsValue year, Decimal.digitsValue month, Decimal.digitsValue day)
    if rest.isEmpty then
      check (dateFault? year month day)
      return ⟨year, month, day, none⟩
    match Plain.splitTime? rest with
    | none => throw (.misfit .otherDate)
    | some time =>
      let offset := offset? time
      check (offset.bind offsetFault?)
      check (dateFault? year month day)
      let (hour, minute, second) := (Decimal.digitsValue time.hour,
        Decimal.digitsValue time.minute, Decimal.digitsValue time.second)
      check (clockFault? hour minute second)
      return ⟨year, month, day, some ⟨hour, minute, second, microseconds time.fraction, offset⟩⟩

/-! ### Writing -/

/-- A number in at least a number of digits. -/
def padded (width n : Nat) : String :=
  let ds := Decimal.digits n
  String.ofList (List.replicate (width - ds.length) '0' ++ ds)

/-- An offset as hours and minutes. -/
def offsetText (minutes : Int) : String :=
  (if minutes < 0 then "-" else "+") ++ padded 2 (minutes.natAbs / 60) ++ ":" ++
    padded 2 (minutes.natAbs % 60)

/-- A moment in the international notation, with a separator between day and time. -/
def text (separator : String) (m : Moment) : String :=
  let date := padded 4 m.year ++ "-" ++ padded 2 m.month ++ "-" ++ padded 2 m.day
  match m.clock with
  | none => date
  | some c =>
    date ++ separator ++ padded 2 c.hour ++ ":" ++ padded 2 c.minute ++ ":" ++ padded 2 c.second ++
      (if c.micro = 0 then "" else "." ++ padded 6 c.micro) ++
      (c.offset.map offsetText).getD ""

/-- A moment as the text of a collection shows it: its parts in order, those of a time without the
seconds and microseconds at its end that are zero. -/
def quoted (m : Moment) : String :=
  let date := [m.year, m.month, m.day]
  let parts (numbers : List Nat) : String := ", ".intercalate (numbers.map toString)
  match m.clock with
  | none => "datetime.date(" ++ parts date ++ ")"
  | some c =>
    let ending :=
      if c.micro != 0 then [c.second, c.micro] else if c.second != 0 then [c.second] else []
    let zone := match c.offset with
      | none => ""
      | some 0 => ", tzinfo=datetime.timezone.utc"
      | some minutes => ", tzinfo=datetime.timezone(" ++ spanText minutes ++ ")"
    "datetime.datetime(" ++ parts (date ++ [c.hour, c.minute] ++ ending) ++ zone ++ ")"

/-- The microseconds from the beginning of year 1, at the offset of the moment. -/
def instant (m : Moment) : Int :=
  match m.clock with
  | none => ordinal m.year m.month m.day
  | some c =>
    let minutes : Int := (ordinal m.year m.month m.day * 24 + c.hour) * 60 + c.minute
    ((minutes - c.offset.getD 0) * 60 + c.second) * 1000000 + c.micro

/-- Whether two moments are the same: two times with offsets are compared by the instant. -/
def same (a b : Moment) : Bool :=
  match a.clock, b.clock with
  | some c, some d => c.offset.isSome == d.offset.isSome && a.instant == b.instant
  | none, none => a == b
  | _, _ => false

end Moment

end CabalManifest.Yaml
