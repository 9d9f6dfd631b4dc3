import CabalManifest.Place
import CabalManifest.Text.Utf8
import CabalManifest.Value

/-!
# Failures and warnings

Everything that can stop a run is a `Failure`, and everything worth telling without stopping is a
`Warning`. Both keep their cause; the wording is in `Failure.message` and `Warning.message` alone.
-/

namespace CabalManifest

/-- Joins accepted values the way messages read: `a, b, or c`. -/
def oneOf : List String → String
  | [] => ""
  | [a] => a
  | [a, b] => a ++ " or " ++ b
  | values => ", ".intercalate values.dropLast ++ ", or " ++ values.getLastD ""

/-! ### Faults of a document -/

/-- What is wrong with a value at some place of a document. -/
inductive Fault where
  /-- The value has another shape than its field requires. -/
  | expected (what : String) (found : Shape)
  /-- A key that has to be there is missing. -/
  | missingKey (key : String)
  /-- A keyword outside its accepted set. -/
  | notOneOf (accepted : List String)
  /-- A text that is no dependency. -/
  | notDependency (text : String)
  /-- A defaults reference that names both kinds of source. -/
  | twoSources
  /-- A defaults reference that names no source. -/
  | noSource
  /-- A value that is no `owner/repo`. -/
  | notRepository (found : Value)
  /-- A text that is no `owner/repo@ref`. -/
  | notShorthand (found : String)
  /-- Any other fault, in its own words; the faults of document syntax are of this kind. -/
  | stated (words : String)

/-- What a fault says. -/
def Fault.message : Fault → String
  | expected what found => "expected " ++ what ++ ", encountered " ++ found.name
  | missingKey key => "key \"" ++ key ++ "\" not present"
  | notOneOf accepted => "expected one of " ++ oneOf accepted
  | notDependency text => "invalid dependency " ++ Text.quote text
  | twoSources => "both \"github\" and \"local\" are present; please use one or the other."
  | noSource => "neither \"github\" nor \"local\" present"
  | notRepository found => "expected owner/repo, but encountered " ++ found.quoted
  | notShorthand found => "expected owner/repo@ref, but encountered " ++ Text.quote found
  | stated words => words

/-! ### Failures -/

/-- What a wrong byte sequence says about itself. -/
def Undecodable.message (u : Undecodable) : String :=
  let position :=
    if u.first = u.last then
      "byte 0x" ++ String.ofList (Text.hexDigits 2 u.byte.toNat) ++ " in position " ++
        toString u.first
    else "bytes in position " ++ toString u.first ++ "-" ++ toString u.last
  "'utf-8' codec can't decode " ++ position ++ ": " ++ u.reason

/-- What a text without bytes says about itself. -/
def Unencodable.message (u : Unencodable) : String :=
  let position :=
    if u.first = u.last then
      "character '" ++ String.ofList (Text.escapeCode u.code) ++ "' in position " ++
        toString u.first
    else "characters in position " ++ toString u.first ++ "-" ++ toString u.last
  "'utf-8' codec can't encode " ++ position ++ ": surrogates not allowed"

/-- How the text of a scalar goes wrong with the tag that is written in front of it. -/
inductive Misfit where
  /-- A number without a digit. -/
  | emptyNumber
  /-- A truth value with another word. -/
  | otherWord (word : String)
  /-- A timestamp in no form of a date. -/
  | otherDate
  /-- A timestamp that is written as a mapping. -/
  | nestedDate
  /-- A number to the base sixty with a digit group beyond the range of floats. -/
  | outOfRange
  /-- An escape with a code beyond the range of machine integers. -/
  | codeOutOfRange
  deriving DecidableEq, Repr

/-- What a misfit says. -/
def Misfit.message : Misfit → String
  | emptyNumber => "string index out of range"
  | otherWord word => Text.quote word
  | otherDate => "'NoneType' object has no attribute 'groupdict'"
  | nestedDate => "expected string or bytes-like object, got 'list'"
  | outOfRange => "int too large to convert to float"
  | codeOutOfRange => "Python int too large to convert to C int"

/-- Why nothing can be asked from an address. -/
inductive AddressFault where
  /-- A control character at some position. -/
  | control (found : Char) (position : Nat)
  /-- More characters than an address may have. -/
  | tooLong
  deriving DecidableEq, Repr

/-- What a faulty address says about itself. -/
def AddressFault.message : AddressFault → String
  | control found position =>
    "Invalid non-printable ASCII character in URL, " ++ Text.quote (String.singleton found) ++
      " at position " ++ toString position ++ "."
  | tooLong => "URL too long"

/-- The message of an integer with too many digits; the number of digits is known if it was to be
read, and not if it was to be written. -/
def longIntegerMessage (digits : Option Nat) : String :=
  let found := match digits with
    | some count => ": value has " ++ toString count ++ " digits"
    | none => ""
  "Exceeds the limit (" ++ toString Decimal.digitLimit ++ " digits) for integer string conversion" ++
    found ++ "; use sys.set_int_max_str_digits() to increase the limit"

/-- Why a run stopped. -/
inductive Failure where
  /-- A value does not have the form its place requires. -/
  | invalid (source : String) (place : Place) (fault : Fault)
  /-- A referenced defaults document does not exist. -/
  | missingDefaults (location : String) (onDisk : Bool)
  /-- A defaults document refers to itself, directly or through others. -/
  | cyclicDefaults (cycle : List String)
  /-- A download failed for another reason than a missing document. -/
  | download (url cause : String)
  /-- A scope asks for defaults where none can be looked up. -/
  | noResolver
  /-- A scalar of a document denotes nothing, such as an impossible date. -/
  | meaningless (words : String)
  /-- A scalar of a document does not fit its tag. -/
  | misfit (cause : Misfit)
  /-- An integer has too many digits to be read or written. -/
  | longInteger (digits : Option Nat)
  /-- A document has too many collections inside each other. -/
  | tooDeep
  /-- There is no manifest under this name. -/
  | noManifest (name : String)
  /-- There is no directory to list. -/
  | noDirectory (path : String)
  /-- There is no file under this path. -/
  | noFile (path : String)
  /-- The path is a directory where a file is needed. -/
  | isDirectory (path : String)
  /-- The path leads through a file. -/
  | notDirectory (path : String)
  /-- A file stands where a directory is needed. -/
  | fileExists (path : String)
  /-- A name in the path is longer than a name can be. -/
  | longName (path : String)
  /-- The bytes of a file are no text. -/
  | undecodable (fault : Undecodable)
  /-- No bytes stand for a text. -/
  | unencodable (fault : Unencodable)
  /-- Nothing can be asked from an address. -/
  | badAddress (fault : AddressFault)
  /-- A path with a character that no path has. -/
  | embeddedNull
  /-- A path that starts at the home directory of a user who is not known. -/
  | noHome
  /-- A log level that does not exist. -/
  | unknownLogLevel (name : String)

/-- The wording of a failed file operation. -/
def systemMessage (code : Nat) (words path : String) : String :=
  "[Errno " ++ toString code ++ "] " ++ words ++ ": " ++ Text.quote path

/-- What a failure says. -/
def Failure.message : Failure → String
  | invalid source place fault =>
    source ++ ": Error while parsing " ++ place.text ++ " - " ++ fault.message
  | missingDefaults location onDisk =>
    "Invalid value for \"defaults\"! " ++ (if onDisk then "Local file " else "File ") ++ location ++
      " does not exist!"
  | cyclicDefaults cycle => "cycle in defaults (" ++ " -> ".intercalate cycle ++ ")"
  | download url cause => "Failed to download " ++ url ++ ": " ++ cause
  | noResolver => "defaults are not supported without a resolver"
  | meaningless words => words
  | misfit cause => cause.message
  | longInteger digits => longIntegerMessage digits
  | tooDeep => "maximum recursion depth exceeded"
  | noManifest name => name ++ " does not exist"
  | noDirectory path => "Directory not found: " ++ path
  | noFile path => systemMessage 2 "No such file or directory" path
  | isDirectory path => systemMessage 21 "Is a directory" path
  | notDirectory path => systemMessage 20 "Not a directory" path
  | fileExists path => systemMessage 17 "File exists" path
  | longName path => systemMessage 36 "File name too long" path
  | undecodable fault => fault.message
  | unencodable fault => fault.message
  | badAddress fault => fault.message
  | embeddedNull => "embedded null byte"
  | noHome => "Could not determine home directory."
  | unknownLogLevel name => "Unknown log level: " ++ Text.quote name

/-! ### Warnings -/

/-- A problem that does not stop a run. -/
inductive Warning where
  /-- A key that its scope does not know. -/
  | unrecognized (source : String) (place : Place)
  /-- A file pattern without a match. -/
  | unmatched (pattern field : String)
  /-- A source directory that is not there. -/
  | noSourceDir (dir : String)
  /-- The single executable gives way to the named ones. -/
  | executableIgnored (source : String)
  deriving DecidableEq, Repr

/-- What a warning says. -/
def Warning.message : Warning → String
  | unrecognized source place => source ++ ": Ignoring unrecognized field " ++ place.text
  | unmatched pattern field =>
    "Specified pattern \"" ++ pattern ++ "\" for " ++ field ++ " does not match any files"
  | noSourceDir dir => "Specified source-dir \"" ++ dir ++ "\" does not exist"
  | executableIgnored source =>
    source ++ ": Ignoring field \"executable\" in favor of \"executables\""

/-- A result, or the failure in its place, with the warnings that came before. -/
abbrev Warned (α : Type) := List Warning × Except Failure α

end CabalManifest
