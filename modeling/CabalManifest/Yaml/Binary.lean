import CabalManifest.Yaml.Problem

/-!
# Binary scalars

Bytes written in base 64. Characters outside the alphabet are passed over, and reading stops at the
padding that completes a group of four.
-/

namespace CabalManifest.Yaml.Binary

/-- The value of a character of the alphabet. -/
def sextet? (c : Char) : Option Nat :=
  if 'A' ≤ c && c ≤ 'Z' then some (c.toNat - 'A'.toNat)
  else if 'a' ≤ c && c ≤ 'z' then some (c.toNat - 'a'.toNat + 26)
  else if c.isDigit then some (c.toNat - '0'.toNat + 52)
  else if c == '+' then some 62
  else if c == '/' then some 63
  else none

/-- The data characters before the final padding, and whether such a padding was found. -/
def dataBefore : Nat → Nat → List Char → List Nat × Bool
  | _, _, [] => ([], false)
  | position, pads, c :: rest =>
    if c == '=' then
      if position ≥ 2 && position + pads + 1 ≥ 4 then ([], true)
      else dataBefore position (if position ≥ 2 then pads + 1 else pads) rest
    else match sextet? c with
      | none => dataBefore position pads rest
      | some n =>
        let (data, padded) := dataBefore ((position + 1) % 4) 0 rest
        (n :: data, padded)

/-- The bytes of groups of four data characters; of an incomplete group, its whole bytes. -/
def bytes : List Nat → List UInt8
  | a :: b :: c :: d :: rest =>
    UInt8.ofNat (a * 4 + b / 16) :: UInt8.ofNat (b % 16 * 16 + c / 4) ::
      UInt8.ofNat (c % 4 * 64 + d) :: bytes rest
  | [a, b, c] => [UInt8.ofNat (a * 4 + b / 16), UInt8.ofNat (b % 16 * 16 + c / 4)]
  | [a, b] => [UInt8.ofNat (a * 4 + b / 16)]
  | _ => []

/-- What is wrong with the first code points outside ASCII, if there are any. -/
def nonAscii? (codes : List Nat) : Option String :=
  let first := (codes.takeWhile (· < 128)).length
  match (codes.drop first).takeWhile (128 ≤ ·) with
  | [] => none
  | [code] =>
    let shown := String.ofList (Text.escapeCode code)
    some ("'ascii' codec can't encode character '" ++ shown ++ "' in position " ++ toString first ++
      ": ordinal not in range(128)")
  | run =>
    some ("'ascii' codec can't encode characters in position " ++ toString first ++ "-" ++
      toString (first + run.length - 1) ++ ": ordinal not in range(128)")

/-- The bytes that a text denotes, or what is wrong with it. -/
def ofText (text : String) : Except Problem (List UInt8) :=
  let cs := text.toList
  match nonAscii? (Text.codes cs) with
  | some words => .error (.nonAsciiBinary words)
  | none =>
    let (data, padded) := dataBefore 0 0 cs
    if padded || data.length % 4 = 0 then .ok (bytes data)
    else if data.length % 4 = 1 then
      .error (.badBinary ("Invalid base64-encoded string: number of data characters (" ++
        toString data.length ++ ") cannot be 1 more than a multiple of 4"))
    else .error (.badBinary "Incorrect padding")

end CabalManifest.Yaml.Binary
