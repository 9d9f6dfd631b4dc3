import CabalManifest.Yaml.Problem

/-!
# Tokens

The lexical units of a YAML document. Block structure, which the text shows by indentation alone, is
explicit in the tokens: a block collection has a start and an end, and a key that is recognised by
the colon after it has a key token in front.
-/

namespace CabalManifest.Yaml

/-- The value of a directive. -/
inductive Directive where
  | version (major : Nat)
  | handle (name leading : String)
  | other

/-- What a token is. -/
inductive TokenKind where
  | streamEnd
  | directive (directive : Directive)
  | documentStart
  | documentEnd
  | blockSequenceStart
  | blockMappingStart
  | blockEnd
  | flowSequenceStart
  | flowSequenceEnd
  | flowMappingStart
  | flowMappingEnd
  | blockEntry
  | flowEntry
  | key
  | value
  | aliasOf (name : String)
  | anchor (name : String)
  | tag (handle : Option String) (suffix : String)
  | scalar (text : String) (plain : Bool)

/-- The name of a kind of token in messages. -/
def TokenKind.name : TokenKind → String
  | streamEnd => "<stream end>"
  | directive _ => "<directive>"
  | documentStart => "<document start>"
  | documentEnd => "<document end>"
  | blockSequenceStart => "<block sequence start>"
  | blockMappingStart => "<block mapping start>"
  | blockEnd => "<block end>"
  | flowSequenceStart => "["
  | flowSequenceEnd => "]"
  | flowMappingStart => "\x7b"
  | flowMappingEnd => "\x7d"
  | blockEntry => "-"
  | flowEntry => ","
  | key => "?"
  | value => ":"
  | aliasOf _ => "<alias>"
  | anchor _ => "<anchor>"
  | tag _ _ => "<tag>"
  | scalar _ _ => "<scalar>"

/-- A token and the marks of its beginning and end. -/
structure Token where
  kind : TokenKind
  start : Mark
  stop : Mark

/-- A token without extent. -/
def Token.at (kind : TokenKind) (mark : Mark) : Token := ⟨kind, mark, mark⟩

end CabalManifest.Yaml
