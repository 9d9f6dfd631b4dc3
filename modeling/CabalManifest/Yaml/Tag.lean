/-!
# Tags

The tags of the standard schema, and the tag of a plain scalar that has none: its text alone decides
whether it is a boolean, a number, a null, a date or, failing all of these, a text.
-/

namespace CabalManifest.Yaml

/-- A tag of the standard schema. -/
def standardTag (name : String) : String := "tag:yaml.org,2002:" ++ name

namespace Plain

/-- A text without the line feed at its end, if something stands before that. -/
def dropFinalNewline : List Char → List Char
  | [] => []
  | [c] => [c]
  | [c, '\n'] => [c]
  | c :: cs => c :: dropFinalNewline cs

/-- Digits and the underscores that may stand among them. -/
def isDigitOrUnderscore (c : Char) : Bool := c.isDigit || c == '_'

/-- A number without its sign. -/
def unsigned : List Char → List Char
  | '-' :: cs => cs
  | '+' :: cs => cs
  | cs => cs

/-- A nonempty text in a class of characters. -/
def run (p : Char → Bool) (cs : List Char) : Bool := !cs.isEmpty && cs.all p

/-- The words for true and false. -/
def booleans : List String :=
  ["yes", "Yes", "YES", "no", "No", "NO", "true", "True", "TRUE", "false", "False", "FALSE",
    "on", "On", "ON", "off", "Off", "OFF"]

/-- A later digit group of a number to the base sixty. -/
def isSixtieth : List Char → Bool
  | [a] => a.isDigit
  | [a, b] => '0' ≤ a && a ≤ '5' && b.isDigit
  | _ => false

/-- The groups of a text between its colons. -/
def colonGroups (cs : List Char) : List (List Char) :=
  cs.foldr
    (fun c groups ↦ match groups with
      | [] => [[c]]
      | group :: rest => if c = ':' then [] :: group :: rest else (c :: group) :: rest)
    [[]]

/-- Several groups to the base sixty, the first of which is in a class of its own. -/
def isSexagesimal (first : List Char → Bool) (cs : List Char) : Bool :=
  match colonGroups cs with
  | group :: rest => first group && !rest.isEmpty && rest.all isSixtieth
  | [] => false

/-- Digits and underscores, starting with a digit. -/
def isDigits : List Char → Bool
  | c :: cs => c.isDigit && cs.all isDigitOrUnderscore
  | [] => false

/-- Digits and underscores, starting with a digit other than zero. -/
def isPositive (cs : List Char) : Bool := isDigits cs && cs.head? != some '0'

/-- Whether a text has the form of an integer. -/
def isInteger (cs : List Char) : Bool :=
  let cs := unsigned cs
  match cs with
  | '0' :: 'b' :: rest => run (fun c ↦ c == '0' || c == '1' || c == '_') rest
  | '0' :: 'x' :: rest =>
    run (fun c ↦ isDigitOrUnderscore c || ('a' ≤ c && c ≤ 'f') || ('A' ≤ c && c ≤ 'F')) rest
  | '0' :: rest => rest.all fun c ↦ ('0' ≤ c && c ≤ '7') || c == '_'
  | cs => isPositive cs || isSexagesimal isPositive cs

/-- Whether a text is empty or an exponent with a sign. -/
def isExponent : List Char → Bool
  | [] => true
  | e :: sign :: digits =>
    (e == 'e' || e == 'E') && (sign == '-' || sign == '+') && run Char.isDigit digits
  | _ => false

/-- Whether a text has the form of a number with a decimal point. -/
def isDecimal (cs : List Char) : Bool :=
  let whole := (unsigned cs).takeWhile (· != '.')
  match (unsigned cs).dropWhile (· != '.') with
  | '.' :: rest =>
    let fraction := rest.takeWhile isDigitOrUnderscore
    let exponent := rest.dropWhile isDigitOrUnderscore
    if whole.isEmpty then
      (cs.head? == some '.' && isDigits fraction && isExponent exponent) ||
        ["inf", "Inf", "INF"].contains (String.ofList rest) ||
        (cs.head? == some '.' && ["nan", "NaN", "NAN"].contains (String.ofList rest))
    else
      (isDigits whole && isExponent exponent) ||
        (isSexagesimal isDigits whole && exponent.isEmpty)
  | _ => false

/-- The parts of a date: a year of four digits, then month and day, and what is left. -/
def splitDate? (cs : List Char) : Option (List Char × List Char × List Char × List Char) :=
  let year := cs.takeWhile Char.isDigit
  match cs.dropWhile Char.isDigit with
  | '-' :: rest =>
    let month := rest.takeWhile Char.isDigit
    match rest.dropWhile Char.isDigit with
    | '-' :: rest =>
      let day := rest.takeWhile Char.isDigit
      let short (part : List Char) : Bool := part.length == 1 || part.length == 2
      if year.length == 4 && short month && short day then
        some (year, month, day, rest.dropWhile Char.isDigit)
      else none
    | _ => none
  | _ => none

/-- The parts of a time of day. A missing part is empty; the zone is `Z`, or a sign, hours and
minutes. -/
structure Time where
  hour : List Char
  minute : List Char
  second : List Char
  fraction : List Char
  zone : Option Char
  zoneHour : List Char
  zoneMinute : List Char

/-- The zone at the end of a time. -/
def zone? : List Char → Option (Option Char × List Char × List Char)
  | [] => some (none, [], [])
  | ['Z'] => some (some 'Z', [], [])
  | sign :: cs =>
    let hour := cs.takeWhile Char.isDigit
    let short := hour.length == 1 || hour.length == 2
    if !(sign == '-' || sign == '+') || !short then none
    else match cs.dropWhile Char.isDigit with
      | [] => some (some sign, hour, [])
      | [':', a, b] => if a.isDigit && b.isDigit then some (some sign, hour, [a, b]) else none
      | _ => none

/-- The time of day after a date, with the letter or the blanks before it. -/
def splitTime? (cs : List Char) : Option Time :=
  let isBlank (c : Char) : Bool := c == ' ' || c == '\t'
  let body? := match cs with
    | c :: rest =>
      if c == 'T' || c == 't' then some rest
      else if isBlank c then some (rest.dropWhile isBlank) else none
    | [] => none
  body?.bind fun body ↦
    let hour := body.takeWhile Char.isDigit
    match body.dropWhile Char.isDigit with
    | ':' :: m1 :: m2 :: ':' :: s1 :: s2 :: rest =>
      let short := hour.length == 1 || hour.length == 2
      if !short || !(List.all [m1, m2, s1, s2] Char.isDigit) then none
      else
        let (fraction, rest) := match rest with
          | '.' :: rest => (rest.takeWhile Char.isDigit, rest.dropWhile Char.isDigit)
          | rest => ([], rest)
        let blanks := rest.takeWhile isBlank
        let rest := rest.dropWhile isBlank
        -- blanks may only stand before a zone
        if rest.isEmpty && !blanks.isEmpty then none
        else (zone? rest).map fun (zone, zoneHour, zoneMinute) ↦
          ⟨hour, [m1, m2], [s1, s2], fraction, zone, zoneHour, zoneMinute⟩
    | _ => none

/-- Whether a text has the form of a date, alone or with a time. A date alone has two digits for
month and day. -/
def isTimestamp (cs : List Char) : Bool :=
  match splitDate? cs with
  | some (_, month, day, []) => month.length == 2 && day.length == 2
  | some (_, _, _, rest) => (splitTime? rest).isSome
  | none => false

/-- The tag of a scalar that has none, from its text. A line feed at the end makes no difference; only
quoted scalars and block scalars can have one. -/
def tag (text : String) : String :=
  let cs := dropFinalNewline text.toList
  let text := String.ofList cs
  standardTag <|
    if booleans.contains text then "bool"
    else if isDecimal cs then "float"
    else if isInteger cs then "int"
    else if text == "<<" then "merge"
    else if ["", "~", "null", "Null", "NULL"].contains text then "null"
    else if isTimestamp cs then "timestamp"
    else if text == "=" then "value"
    else if ["!", "&", "*"].contains text then "yaml"
    else "str"

end Plain

end CabalManifest.Yaml
