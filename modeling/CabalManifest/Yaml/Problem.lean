import CabalManifest.Failure
import CabalManifest.Yaml.Cursor

/-!
# Problems of document syntax

What can be wrong with a YAML document, from its characters up to the values its scalars denote, and
the wording of each problem. Most problems stand at a mark, which the message gives with line and
column counted from one.
-/

namespace CabalManifest.Yaml

/-- What is wrong at some mark of a document. -/
inductive Problem where
  -- characters
  | cannotStart (found : Char)
  | expected (what : String) (found : Char)
  | zeroIndentation
  | unknownEscape (found : Char)
  | endOfStream
  | documentSeparator
  | undecodableEscape (fault : Undecodable)
  -- layout
  | missingColon
  | notAllowedHere (what : String)
  -- structure
  | expectedToken (what : String) (found : String)
  | expectedInFlow (what : String) (found : String)
  | duplicateVersion
  | incompatibleVersion
  | duplicateHandle (handle : String)
  | undefinedHandle (handle : String)
  -- references
  | undefinedAlias (name : String)
  | duplicateAnchor
  | recursiveNode
  | anotherDocument
  -- meaning
  | unknownTag (tag : String)
  | wrongKind (wanted found : String)
  | severalItems (count : Nat)
  | unhashableKey
  | nonAsciiBinary (words : String)
  | badBinary (words : String)

/-- What a problem says. -/
def Problem.message : Problem → String
  | cannotStart found =>
    "found character " ++ Text.quote (String.singleton found) ++ " that cannot start any token"
  | expected what found =>
    "expected " ++ what ++ ", but found " ++ Text.quote (String.singleton found)
  | zeroIndentation => "expected indentation indicator in the range 1-9, but found 0"
  | unknownEscape found =>
    "found unknown escape character " ++ Text.quote (String.singleton found)
  | endOfStream => "found unexpected end of stream"
  | documentSeparator => "found unexpected document separator"
  | undecodableEscape fault => fault.message
  | missingColon => "could not find expected ':'"
  | notAllowedHere what => what ++ " are not allowed here"
  | expectedToken what found => "expected " ++ what ++ ", but found " ++ Text.quote found
  | expectedInFlow what found => "expected " ++ what ++ ", but got " ++ Text.quote found
  | duplicateVersion => "found duplicate YAML directive"
  | incompatibleVersion => "found incompatible YAML document (version 1.* is required)"
  | duplicateHandle handle => "duplicate tag handle " ++ Text.quote handle
  | undefinedHandle handle => "found undefined tag handle " ++ Text.quote handle
  | undefinedAlias name => "found undefined alias " ++ Text.quote name
  | duplicateAnchor => "second occurrence"
  | recursiveNode => "found unconstructable recursive node"
  | anotherDocument => "but found another document"
  | unknownTag tag => "could not determine a constructor for the tag " ++ Text.quote tag
  | wrongKind wanted found => "expected " ++ wanted ++ ", but found " ++ found
  | severalItems count => "expected a single mapping item, but found " ++ toString count ++ " items"
  | unhashableKey => "found unhashable key"
  | nonAsciiBinary words => "failed to convert base64 data into ascii: " ++ words
  | badBinary words => "failed to decode base64 data: " ++ words

/-- Why a text is no document. -/
inductive Error where
  /-- A problem at a mark. -/
  | at (problem : Problem) (mark : Mark)
  /-- A character that no document may contain. -/
  | unacceptable (found : Char) (position : Nat)
  /-- A scalar that has the form of a number or a date, and denotes none. -/
  | meaningless (words : String)
  /-- A scalar that has not the form its tag asks for. -/
  | misfit (cause : Misfit)
  /-- An integer with too many digits to be read or written. -/
  | longInteger (digits : Option Nat)
  /-- Too many collections inside each other. -/
  | tooDeep

/-- The failure of reading the document of a source. -/
def Error.failure (source : String) : Error → Failure
  | .at problem mark =>
    .invalid source Place.top (.stated (problem.message ++ " (line " ++ toString (mark.line + 1) ++
      ", column " ++ toString (mark.column + 1) ++ ")"))
  | .unacceptable found position =>
    .invalid source Place.top (.stated ("unacceptable character #x" ++
      String.ofList (Text.hexDigits 4 found.toNat) ++
      ": special characters are not allowed\n  in \"<unicode string>\", position " ++
      toString position))
  | .meaningless words => .meaningless words
  | .misfit cause => .misfit cause
  | .longInteger digits => .longInteger digits
  | .tooDeep => .tooDeep

end CabalManifest.Yaml
