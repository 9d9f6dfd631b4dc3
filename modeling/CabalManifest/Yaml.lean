import CabalManifest.Yaml.Meaning

/-!
# Reading documents

A document is text in YAML 1.1, or bytes that hold such text in UTF-8. Reading it gives a document
value or the failure that names the document by its source.
-/

namespace CabalManifest.Yaml

/-- Whether a document may contain a character. -/
def isAcceptable (c : Char) : Bool :=
  let n := c.toNat
  c == '\t' || c == '\n' || c == '\r' || (0x20 ≤ n && n ≤ 0x7E) || n == 0x85 ||
    (0xA0 ≤ n && n ≤ 0xD7FF) || (0xE000 ≤ n && n ≤ 0xFFFD) || 0x10000 ≤ n

/-- The first character that no document may contain, with its position. -/
def unacceptable? (text : List Char) : Option Error :=
  let before := text.takeWhile isAcceptable
  (text[before.length]?).map fun c ↦ .unacceptable c before.length

/-- The value of a text. A text without a document is null. -/
def parse (text : String) : Except Error Value := do
  let text := text.toList
  if let some error := unacceptable? text then throw error
  match ← NodeGraph.ofText? text with
  | none => return .null
  | some graph => (← Meaning.ofGraph graph).toValue

/-- The value of the document text of a source. -/
def readText (source text : String) : Except Failure Value :=
  (parse text).mapError (Error.failure source)

/-- The value of the document bytes of a source. -/
def readBytes (source : String) (bytes : ByteArray) : Except Failure Value := do
  let text ← (Text.decode bytes).mapError Failure.undecodable
  readText source text

end CabalManifest.Yaml
