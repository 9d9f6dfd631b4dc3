import CabalManifest.Text.Blank
import CabalManifest.Text.Digit
import CabalManifest.Text.Quoted
import CabalManifest.Text.Similarity

/-!
# Arguments

Reads the arguments of a command. A word that starts with a dash is an option; a long one may be cut
short as long as it stays unambiguous, and may carry its value after an equals sign; several short
ones may share a dash. All words after a double dash are operands. There are at most two operands,
and both come from the first stretch of words between options.
-/

namespace CabalManifest.CommandLine

/-! ### Options -/

/-- The options of the program. -/
inductive Switch where
  | help
  | stdout
  | force
  | defaultsDir
  | version
  | quiet
  | verbose
  | logLevel
  deriving DecidableEq, Repr

namespace Switch

/-- All options, in the order of the help text. -/
def all : List Switch := [help, stdout, force, defaultsDir, version, quiet, verbose, logLevel]

/-- How an option is written, the short form first. -/
def spellings : Switch → List String
  | help => ["-h", "--help"]
  | stdout => ["--stdout"]
  | force => ["-f", "--force"]
  | defaultsDir => ["--defaults-dir"]
  | version => ["--version"]
  | quiet => ["-q", "--quiet"]
  | verbose => ["-v", "--verbose"]
  | logLevel => ["--log-level"]

/-- An option in messages. -/
def display (switch : Switch) : String := "/".intercalate switch.spellings

/-- Whether an option has a value. -/
def takesValue : Switch → Bool
  | defaultsDir | logLevel => true
  | _ => false

/-- Whether an option says how much is logged; of such options only one may be given. -/
def isVerbosity : Switch → Bool
  | quiet | verbose | logLevel => true
  | _ => false

/-- All spellings with their options, in order. -/
def table : List (String × Switch) :=
  all.flatMap fun switch ↦ switch.spellings.map fun spelling ↦ (spelling, switch)

end Switch

/-! ### What can be wrong -/

/-- Why arguments are refused. -/
inductive Refusal where
  /-- A shortened option that could be several. -/
  | ambiguous (word : String) (candidates : List String)
  /-- An option without the value that it needs. -/
  | missingValue (switch : Switch)
  /-- A value for an option that has none. -/
  | unexpectedValue (switch : Switch) (value : String)
  /-- An option that cannot go together with an earlier one. -/
  | conflict (switch earlier : Switch)
  /-- A second operand that is not a dash. -/
  | notDash (word : String)
  /-- Words that mean nothing. -/
  | unrecognized (words : List String)
  deriving DecidableEq, Repr

namespace Refusal

/-- What is wrong with the value of an option or operand. -/
def about (what words : String) : String := "argument " ++ what ++ ": " ++ words

/-- What a refusal says. -/
def message : Refusal → String
  | ambiguous word candidates =>
    "ambiguous option: " ++ word ++ " could match " ++ ", ".intercalate candidates
  | missingValue switch => about switch.display "expected one argument"
  | unexpectedValue switch value =>
    about switch.display ("ignored explicit argument " ++ Text.quote value)
  | conflict switch earlier =>
    about switch.display ("not allowed with argument " ++ earlier.display)
  | notDash word => about "-" ("invalid choice: " ++ Text.quote word ++ " (choose from '-')")
  | unrecognized words => "unrecognized arguments: " ++ " ".intercalate words

/-- What follows the first occurrence of a text in another one. -/
def textAfter? (sought : List Char) : List Char → Option (List Char)
  | [] => if sought.isEmpty then some [] else none
  | c :: cs =>
    if sought.isPrefixOf (c :: cs) then some ((c :: cs).drop sought.length)
    else textAfter? sought cs

/-- The options that may have been meant by words that mean nothing. The message itself tells them:
all that it says after it has spoken of unrecognized arguments. -/
def hints (refusal : Refusal) : List String :=
  let named := (textAfter? "unrecognized arguments:".toList refusal.message.toList).getD []
  let words := (Text.words named).filter fun word ↦ word.head? = some '-'
  words.filterMap fun word ↦
    (Text.closest? (String.ofList word) (Switch.table.map (·.1))).map fun spelling ↦
      "Hint: did you mean " ++ spelling ++ "?"

end Refusal

/-! ### Words -/

/-- What a word of the arguments is. -/
inductive Word where
  | operand (text : String)
  /-- The double dash after which all words are operands. -/
  | separator
  /-- An option as it is spelled in full, with the value that the same word gives it. -/
  | switch (switch : Switch) (isShort : Bool) (value : Option String)
  /-- A word that looks like an option and is none. -/
  | stray (text : String)
  deriving DecidableEq, Repr

/-- The word as it was written, for words between options. -/
def Word.operandText : Word → Option String
  | operand text => some text
  | separator => some "--"
  | _ => none

/-- Whether a spelling has one dash. -/
def isShortSpelling (spelling : String) : Bool :=
  match spelling.toList with
  | '-' :: c :: _ => c != '-'
  | _ => false

/-- Splits a word at its first equals sign, if it has one. -/
def splitValue (cs : List Char) : List Char × Option String :=
  match cs.dropWhile (· != '=') with
  | _ :: value => (cs.takeWhile (· != '='), some (String.ofList value))
  | [] => (cs, none)

/-- The options that a word could stand for, each with its spelling and value. -/
def interpretations (cs : List Char) : List (String × Word) :=
  if ['-', '-'].isPrefixOf cs then
    let (start, value) := splitValue cs
    (Switch.table.filter fun (spelling, _) ↦ start.isPrefixOf spelling.toList).map
      fun (spelling, switch) ↦ (spelling, .switch switch false value)
  else
    (Switch.table.filter fun (spelling, _) ↦ spelling.toList = cs.take 2).map
      fun (spelling, switch) ↦ (spelling, .switch switch true (some (String.ofList (cs.drop 2))))

/-- Whether a character is a decimal digit of any script. -/
def isDigit (c : Char) : Bool := (Text.digitValue? c).isSome

/-- Whether a word is a negative number. -/
def isNegativeNumber : List Char → Bool
  | '-' :: cs =>
    let cs := if cs.getLast? = some '\n' then cs.dropLast else cs
    match cs.dropWhile isDigit with
    | [] => !cs.isEmpty
    | '.' :: digits => !digits.isEmpty && digits.all isDigit
    | _ => false
  | _ => false

/-- An exact spelling, alone or with a value after an equals sign. -/
def exactWord? (word : String) : Option Word :=
  match Switch.table.lookup word with
  | some switch => some (.switch switch (isShortSpelling word) none)
  | none =>
    match splitValue word.toList with
    | (spelling, some value) =>
      let spelling := String.ofList spelling
      (Switch.table.lookup spelling).map fun switch ↦
        .switch switch (isShortSpelling spelling) (some value)
    | (_, none) => none

/-- What a word is that is no exact spelling. -/
def inexactWord (word : String) : Except Refusal Word :=
  let cs := word.toList
  match interpretations cs with
  | [(_, meant)] => .ok meant
  | [] => .ok (if isNegativeNumber cs || cs.contains ' ' then .operand word else .stray word)
  | several => .error (.ambiguous word (several.map (·.1)))

/-- What a word is, before a double dash. -/
def classify (word : String) : Except Refusal Word :=
  match word.toList with
  | '-' :: _ :: _ =>
    match exactWord? word with
    | some meant => .ok meant
    | none => inexactWord word
  | _ => .ok (.operand word)

/-- What the words are. -/
def classifyAll : List String → Except Refusal (List Word)
  | [] => .ok []
  | word :: words =>
    if word = "--" then .ok (.separator :: words.map .operand)
    else do return (← classify word) :: (← classifyAll words)

/-! ### Reading -/

/-- What the arguments ask for. -/
structure Options where
  path : Option String
  /-- Whether the description is printed instead of written. -/
  toOutput : Bool
  force : Bool
  defaultsDir : Option String
  version : Bool
  logLevel : Option String
  deriving DecidableEq, Repr

/-- What the arguments come to. -/
inductive Request where
  | help
  | refused (refusal : Refusal)
  | run (options : Options)
  deriving DecidableEq, Repr

/-- What has been read so far. -/
structure Reading where
  options : Options
  /-- The second operand. -/
  dash : Option String
  /-- Whether the stretch of words with the operands has been read. -/
  operandsRead : Bool
  /-- The option that says how much is logged. -/
  verbosity : Option Switch
  unrecognized : List String

/-- Nothing has been read yet. -/
def Reading.start : Reading := ⟨⟨none, false, false, none, false, none⟩, none, false, none, []⟩

/-- Where reading ends early. -/
inductive Stop where
  | help
  | refused (refusal : Refusal)

namespace Reading

/-- Refuses the arguments. -/
def refuse {α : Type} (refusal : Refusal) : Except Stop α := .error (.refused refusal)

/-! #### Operands -/

/-- The words of one operand: at most one, with the double dash around it. -/
def splitOperand (words : List Word) : List Word × List Word :=
  let isSeparator (word : Word) : Bool := word = .separator
  let before := words.takeWhile isSeparator
  let rest := words.dropWhile isSeparator
  match rest with
  | .operand text :: rest =>
    (before ++ .operand text :: rest.takeWhile isSeparator, rest.dropWhile isSeparator)
  | _ => (before, rest)

/-- The value of the words of one operand; a double dash is no value. -/
def operandValue (words : List Word) : Option String :=
  ((words.filterMap Word.operandText).erase "--").head?

/-- Reads a stretch of words between options. -/
def readOperands (reading : Reading) (words : List Word) : Except Stop Reading :=
  if reading.operandsRead then
    .ok { reading with
      unrecognized := reading.unrecognized ++ words.filterMap Word.operandText }
  else
    let (path, rest) := splitOperand words
    let (dash, rest) := splitOperand rest
    let read (dash : Option String) : Reading :=
      { reading with
        options := { reading.options with path := operandValue path }
        dash := dash
        operandsRead := true
        unrecognized := reading.unrecognized ++ rest.filterMap Word.operandText }
    match operandValue dash with
    | none => .ok (read none)
    | some "-" => .ok (read (some "-"))
    | some word => refuse (.notDash word)

/-! #### Options -/

/-- The options that share a dash with an option, which is followed by further characters. -/
def cluster (switch : Switch) (isShort : Bool) : List Char → Except Stop (List Switch)
  | [] => refuse (.unexpectedValue switch "")
  | c :: cs =>
    let next? := if isShort then Switch.table.lookup (String.ofList ['-', c]) else none
    match next? with
    | none => refuse (.unexpectedValue switch (String.ofList (c :: cs)))
    | some next =>
      if cs.isEmpty then .ok [switch, next]
      else do return switch :: (← cluster next true cs)

/-- Does what an option without a value asks for. -/
def apply (reading : Reading) (switch : Switch) (value : String) : Except Stop Reading := do
  let options := reading.options
  if switch.isVerbosity then
    match reading.verbosity with
    | some earlier => if earlier ≠ switch then refuse (.conflict switch earlier)
    | none => pure ()
  let reading :=
    if switch.isVerbosity then { reading with verbosity := some switch } else reading
  match switch with
  | .help => throw .help
  | .stdout => return { reading with options := { options with toOutput := true } }
  | .force => return { reading with options := { options with force := true } }
  | .defaultsDir => return { reading with options := { options with defaultsDir := some value } }
  | .version => return { reading with options := { options with version := true } }
  | .quiet => return { reading with options := { options with logLevel := some "warning" } }
  | .verbose => return { reading with options := { options with logLevel := some "debug" } }
  | .logLevel => return { reading with options := { options with logLevel := some value } }

/-- Does what several options ask for, in order. -/
def applyAll (reading : Reading) (switches : List Switch) : Except Stop Reading :=
  switches.foldlM (fun reading switch ↦ apply reading switch "") reading

/-! #### All words -/

/-- Reads words, with the operands of the current stretch still to come. -/
def readWords (reading : Reading) (stretch : List Word) : List Word → Except Stop Reading
  | [] => if stretch.isEmpty then .ok reading else reading.readOperands stretch
  | .operand text :: words => readWords reading (stretch ++ [.operand text]) words
  | .separator :: words => readWords reading (stretch ++ [.separator]) words
  | .stray text :: words => do
    let reading ← if stretch.isEmpty then pure reading else reading.readOperands stretch
    readWords { reading with unrecognized := reading.unrecognized ++ [text] } [] words
  | .switch switch isShort value :: words => do
    let reading ← if stretch.isEmpty then pure reading else reading.readOperands stretch
    match switch.takesValue, value, words with
    | true, some value, words => readWords (← reading.apply switch value) [] words
    | true, none, .operand text :: words => readWords (← reading.apply switch text) [] words
    | true, none, _ => refuse (.missingValue switch)
    | false, none, words => readWords (← reading.apply switch "") [] words
    | false, some value, words => do
      readWords (← reading.applyAll (← cluster switch isShort value.toList)) [] words

/-- A lone dash in the place of the path is a second operand. -/
def finish (reading : Reading) : Options :=
  if reading.options.path = some "-" && reading.dash.isNone then
    { reading.options with path := none, toOutput := true }
  else if reading.dash.isSome then { reading.options with toOutput := true }
  else reading.options

end Reading

/-- Reads the arguments of a command. -/
def Request.ofArguments (arguments : List String) : Request :=
  match classifyAll arguments with
  | .error refusal => .refused refusal
  | .ok words =>
    match Reading.start.readWords [] words with
    | .error .help => .help
    | .error (.refused refusal) => .refused refusal
    | .ok reading =>
      if reading.unrecognized.isEmpty then .run reading.finish
      else .refused (.unrecognized reading.unrecognized)

end CabalManifest.CommandLine
