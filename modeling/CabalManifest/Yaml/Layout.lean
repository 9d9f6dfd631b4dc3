import CabalManifest.Yaml.Lexer.Quoted
import CabalManifest.Yaml.Lexer.Plain
import CabalManifest.Yaml.Lexer.Block

/-!
# The layout of a document

From the text of a document to its tokens. Two things make this more than lexing: indentation opens
and closes block collections, and a token that could be a key becomes one only when a colon follows
in the same line. Such a *candidate*, and every token after it, is held back until that is settled.

A token stream may end in an error. Whoever reads the stream meets the error only on asking for a
token beyond those before it, so that errors of layout and errors of structure keep the order in
which the text shows them.
-/

namespace CabalManifest.Yaml

/-- A token held back because it may turn out to be a key. -/
structure Candidate where
  /-- The nesting of flow collections around it. -/
  level : Nat
  /-- The number of tokens before it. -/
  number : Nat
  /-- Whether nothing but a key can stand here. -/
  required : Bool
  mark : Mark

/-- The state between two tokens. -/
structure Layout where
  /-- The number of characters in the text. -/
  size : Nat
  cursor : Cursor
  /-- The nesting of flow collections. -/
  flowLevel : Nat
  /-- The column of the innermost block collection, -1 outside of all. -/
  indent : Int
  /-- The columns of the block collections around it. -/
  outer : List Int
  /-- Whether a key can start here. -/
  keyAllowed : Bool
  /-- The number of tokens handed out. -/
  released : Nat
  /-- The tokens read and not handed out. -/
  pending : List Token
  candidates : List Candidate
  ended : Bool

/-- The beginning of a text. -/
def Layout.start (text : List Char) : Layout :=
  { size := text.length, cursor := Cursor.start text, flowLevel := 0, indent := -1, outer := []
    keyAllowed := true, released := 0, pending := [], candidates := [], ended := false }

/-- A computation that reads tokens. -/
abbrev Scan := StateT Layout (Except Error)

namespace Scan

/-- Runs a lexer at the cursor. -/
def lex {α : Type} (lexer : Lexer α) : Scan α := do
  let s ← get
  let (result, cursor) ← (lexer.run s.size).run s.cursor
  modify fun s ↦ { s with cursor := cursor }
  return result

/-- Stops at the cursor. -/
def fail {α : Type} (problem : Problem) : Scan α := do throw (.at problem (← get).cursor.mark)

/-- Whether the cursor is inside a flow collection. -/
def inFlow : Scan Bool := return (← get).flowLevel != 0

/-- Allows or forbids a key at the cursor. -/
def allowKey (allowed : Bool) : Scan Unit := modify fun s ↦ { s with keyAllowed := allowed }

/-- Adds a token at the end. -/
def emit (token : Token) : Scan Unit := modify fun s ↦ { s with pending := s.pending ++ [token] }

/-- Adds a token without extent at the cursor. -/
def emitHere (kind : TokenKind) : Scan Unit := do emit (.at kind (← get).cursor.mark)

/-- Adds a token that a lexer reads. -/
def emitLexed (lexer : Lexer TokenKind) : Scan Unit := do
  let start := (← get).cursor.mark
  let kind ← lex lexer
  emit ⟨kind, start, (← get).cursor.mark⟩

/-- Adds a token of a number of characters. -/
def emitIndicator (kind : TokenKind) (width : Nat) : Scan Unit :=
  emitLexed do
    Lexer.advance width
    return kind

/-! ### Candidates -/

/-- Gives up the candidates that the cursor has left behind: a key lies in one line and is not
longer than 1024 characters. -/
def dropStale : Scan Unit := do
  let s ← get
  let mark := s.cursor.mark
  let stale (c : Candidate) : Bool := c.mark.line != mark.line || mark.index - c.mark.index > 1024
  if s.candidates.any fun c ↦ stale c && c.required then fail .missingColon
  set { s with candidates := s.candidates.filter fun c ↦ !stale c }

/-- The candidate at the current level of flow collections. -/
def candidate? : Scan (Option Candidate) := do
  let s ← get
  return s.candidates.find? fun c ↦ c.level == s.flowLevel

/-- Gives up the candidate at the current level of flow collections. -/
def dropCandidate : Scan Unit := do
  match ← candidate? with
  | none => return
  | some c =>
    if c.required then fail .missingColon
    modify fun s ↦ { s with candidates := s.candidates.filter fun c ↦ c.level != s.flowLevel }

/-- Makes the next token a candidate, where a key is allowed. -/
def addCandidate : Scan Unit := do
  let s ← get
  if s.keyAllowed then
    dropCandidate
    let candidate : Candidate :=
      { level := s.flowLevel, number := s.released + s.pending.length
        required := s.flowLevel == 0 && s.indent == s.cursor.column, mark := s.cursor.mark }
    modify fun s ↦ { s with candidates := s.candidates ++ [candidate] }

/-! ### Indentation -/

/-- The columns of block collections that end left of `column`, and those that remain. -/
def closeIndents (column : Int) : Int → List Int → Nat × Int × List Int
  | indent, [] => (0, indent, [])
  | indent, next :: outer =>
    if indent > column then
      let (count, indent, outer) := closeIndents column next outer
      (count + 1, indent, outer)
    else (0, indent, next :: outer)

/-- Ends the block collections that are indented deeper than a column. -/
def unwind (column : Int) : Scan Unit := do
  let s ← get
  if s.flowLevel == 0 then
    let (count, indent, outer) := closeIndents column s.indent s.outer
    let ends := List.replicate count (Token.at .blockEnd s.cursor.mark)
    set { s with indent := indent, outer := outer, pending := s.pending ++ ends }

/-- Starts a block collection at a column, unless the innermost one is there already. -/
def indentAt (column : Nat) : Scan Bool := do
  let s ← get
  if s.indent < column then
    set { s with indent := column, outer := s.indent :: s.outer }
    return true
  else return false

/-- Starts a block collection at the cursor where its first entry stands, provided that an entry can
stand there. -/
def enterBlock (kind : TokenKind) (what : String) : Scan Unit := do
  let s ← get
  if s.flowLevel == 0 then
    if !s.keyAllowed then fail (.notAllowedHere what)
    if ← indentAt s.cursor.column then emitHere kind

/-! ### Tokens -/

/-- Moves to the next token. Outside of flow collections, a new line allows a key. -/
def skipGaps : Nat → Scan Unit
  | 0 => return
  | bound + 1 => do
    lex (Lexer.skip (· == ' '))
    lex Lexer.skipComment
    let line ← lex Lexer.lineBreak
    if !line.isEmpty then
      unless ← inFlow do allowKey true
      skipGaps bound

/-- Reads the end of the text. -/
def streamEnd : Scan Unit := do
  unwind (-1)
  dropCandidate
  modify fun s ↦ { s with keyAllowed := false, candidates := [], ended := true }
  emitHere .streamEnd

/-- Reads what stands between documents. -/
def betweenDocuments (lexer : Lexer TokenKind) : Scan Unit := do
  unwind (-1)
  dropCandidate
  allowKey false
  emitLexed lexer

/-- Reads a document marker. -/
def documentMarker (kind : TokenKind) : Scan Unit :=
  betweenDocuments do
    Lexer.advance 3
    return kind

/-- Reads the opening bracket of a flow collection. -/
def openFlow (kind : TokenKind) : Scan Unit := do
  addCandidate
  modify fun s ↦ { s with flowLevel := s.flowLevel + 1, keyAllowed := true }
  emitIndicator kind 1

/-- Reads the closing bracket of a flow collection. -/
def closeFlow (kind : TokenKind) : Scan Unit := do
  dropCandidate
  modify fun s ↦ { s with flowLevel := s.flowLevel - 1, keyAllowed := false }
  emitIndicator kind 1

/-- Reads the comma between entries of a flow collection. -/
def flowEntry : Scan Unit := do
  allowKey true
  dropCandidate
  emitIndicator .flowEntry 1

/-- Reads the dash of a block sequence entry. -/
def blockEntry : Scan Unit := do
  enterBlock .blockSequenceStart "sequence entries"
  allowKey true
  dropCandidate
  emitIndicator .blockEntry 1

/-- Reads the question mark of an explicit key. -/
def explicitKey : Scan Unit := do
  enterBlock .blockMappingStart "mapping keys"
  allowKey (!(← inFlow))
  dropCandidate
  emitIndicator .key 1

/-- Reads the colon before a value. The candidate at this level, if there is one, becomes a key. -/
def value : Scan Unit := do
  match ← candidate? with
  | some c =>
    let opened ← if ← inFlow then pure false else indentAt c.mark.column
    let keyTokens := if opened then [Token.at .blockMappingStart c.mark, Token.at .key c.mark]
      else [Token.at .key c.mark]
    modify fun s ↦
      let place := c.number - s.released
      { s with
        candidates := s.candidates.filter fun c ↦ c.level != s.flowLevel
        pending := s.pending.take place ++ keyTokens ++ s.pending.drop place
        keyAllowed := false }
  | none =>
    enterBlock .blockMappingStart "mapping values"
    allowKey (!(← inFlow))
    dropCandidate
  emitIndicator .value 1

/-- Reads a token that can be, or can begin, a key. -/
def keyLike (lexer : Lexer TokenKind) : Scan Unit := do
  addCandidate
  allowKey false
  emitLexed lexer

/-- Reads a block scalar. -/
def blockScalar : Scan Unit := do
  allowKey true
  dropCandidate
  emitLexed (Lexer.blockScalar (← get).indent)

/-- Reads a plain scalar. -/
def plain : Scan Unit := do
  addCandidate
  let (token, lineEnded) ← lex (Lexer.plain (← inFlow) ((← get).indent + 1))
  allowKey lineEnded
  emit token

/-- The characters that cannot start a plain scalar, unless they come before a dash, question mark
or colon that is part of a word. -/
def isIndicator (c : Char) : Bool := "-?:,[]\x7b\x7d#&*!|>'\"%@\x60".toList.contains c

/-- Whether a plain scalar starts at a cursor. -/
def startsPlain (cursor : Cursor) (inFlow : Bool) : Bool :=
  let c := cursor.head
  !(isGap c || isIndicator c) ||
    (!isGap (cursor.peek 1) && (c == '-' || (!inFlow && (c == '?' || c == ':'))))

/-- Reads the next token. -/
def next : Scan Unit := do
  let cursor := (← get).cursor
  if cursor.mark.index == 0 && cursor.head == '\uFEFF' then lex (Lexer.advance 1)
  skipGaps ((← get).size + 1)
  dropStale
  unwind (← get).cursor.column
  let cursor := (← get).cursor
  let inFlow ← inFlow
  let c := cursor.head
  let lineStart := cursor.column == 0
  let apart := inFlow || isGap (cursor.peek 1)
  if isEnd c then streamEnd
  else if c == '%' && lineStart then betweenDocuments Lexer.directive
  else if c == '-' && lineStart && cursor.atSeparator then documentMarker .documentStart
  else if c == '.' && lineStart && cursor.atSeparator then documentMarker .documentEnd
  else if c == '[' then openFlow .flowSequenceStart
  else if c == '\x7b' then openFlow .flowMappingStart
  else if c == ']' then closeFlow .flowSequenceEnd
  else if c == '\x7d' then closeFlow .flowMappingEnd
  else if c == ',' then flowEntry
  else if c == '-' && isGap (cursor.peek 1) then blockEntry
  else if c == '?' && apart then explicitKey
  else if c == ':' && apart then value
  else if c == '*' then keyLike (TokenKind.aliasOf <$> Lexer.anchorName)
  else if c == '&' then keyLike (TokenKind.anchor <$> Lexer.anchorName)
  else if c == '!' then keyLike Lexer.tag
  else if (c == '|' || c == '>') && !inFlow then blockScalar
  else if c == '\'' || c == '"' then keyLike Lexer.quoted
  else if startsPlain cursor inFlow then plain
  else fail (.cannotStart c)

end Scan

/-! ### Token streams -/

/-- Tokens, and the error that comes after them, if one does. -/
structure TokenStream where
  tokens : List Token
  error : Option Error

/-- Hands out the tokens before the first candidate. -/
def Layout.release (s : Layout) : List Token × Layout :=
  let count := match (s.candidates.map (·.number)).min? with
    | none => s.pending.length
    | some number => number - s.released
  (s.pending.take count,
    { s with pending := s.pending.drop count, released := s.released + count })

/-- The tokens from a state on. -/
def TokenStream.ofLayout : Nat → Layout → TokenStream
  | 0, _ => ⟨[], none⟩
  | bound + 1, s =>
    match (do Scan.next; Scan.dropStale : Scan Unit).run s with
    | .error error => ⟨[], some error⟩
    | .ok (_, s) =>
      let (tokens, s) := s.release
      if s.ended then ⟨tokens, none⟩
      else
        let rest := ofLayout bound s
        ⟨tokens ++ rest.tokens, rest.error⟩

/-- The tokens of a text. Each takes at least one character, but for the last. -/
def TokenStream.ofText (text : List Char) : TokenStream :=
  ofLayout (text.length + 2) (Layout.start text)

end CabalManifest.Yaml
