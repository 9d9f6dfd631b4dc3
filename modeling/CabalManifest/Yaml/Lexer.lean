import CabalManifest.Yaml.Token

/-!
# Lexers

A lexer reads some text at a cursor and moves the cursor past it, or stops at a problem. The lexers
here read what is not a scalar: anchors and aliases, tags, directives, and the remainder of a line.

A loop whose rounds each read at least one character is bounded by the size of the text.
-/

namespace CabalManifest.Yaml

/-- A computation that reads at a cursor, given the number of characters in the text. -/
abbrev Lexer := ReaderT Nat (StateT Cursor (Except Error))

namespace Lexer

/-- The character a number of places ahead. -/
def peek (ahead : Nat) : Lexer Char := return (← get).peek ahead

/-- The next character. -/
def head : Lexer Char := return (← get).head

/-- The mark of the cursor. -/
def mark : Lexer Mark := return (← get).mark

/-- The number of characters in the text. -/
def size : Lexer Nat := read

/-- Moves past a number of characters. -/
def advance (n : Nat) : Lexer Unit := modify (·.advance n)

/-- Reads the longest run of characters in a class. -/
def takeRun (p : Char → Bool) : Lexer (List Char) := modifyGet (·.span p)

/-- Moves past the characters in a class. -/
def skip (p : Char → Bool) : Lexer Unit := modify (·.skip p)

/-- Reads a line break, if there is one. -/
def lineBreak : Lexer (List Char) := modifyGet (·.lineBreak)

/-- Stops at the cursor. -/
def fail {α : Type} (problem : Problem) : Lexer α := do throw (.at problem (← mark))

/-- Stops at the cursor unless the next character is in a class. -/
def require (p : Char → Bool) (what : String) : Lexer Unit := do
  let c ← head
  unless p c do fail (.expected what c)

/-! ### Lines -/

/-- Moves past a comment. -/
def skipComment : Lexer Unit := do
  if (← head) == '#' then skip fun c ↦ !isBreakOrEnd c

/-- Moves past the remainder of a line that may only hold a comment. -/
def restOfLine : Lexer Unit := do
  skip (· == ' ')
  skipComment
  require isBreakOrEnd "a comment or a line break"
  discard lineBreak

/-! ### Names, anchors and aliases -/

/-- Reads a name of at least one character. -/
def name : Lexer (List Char) := do
  let run ← takeRun isNameChar
  if run.isEmpty then fail (.expected "alphabetic or numeric character" (← head))
  return run

/-- What may follow an anchor or an alias. -/
def endsAnchor (c : Char) : Bool := isGap c || "?:,]\x7d%@\x60".toList.contains c

/-- Reads the name of an anchor or an alias after its indicator. -/
def anchorName : Lexer String := do
  advance 1
  let run ← name
  require endsAnchor "alphabetic or numeric character"
  return String.ofList run

/-! ### Tags -/

/-- A hexadecimal number. -/
def hexValue (cs : List Char) : Nat :=
  let digit (c : Char) : Nat :=
    if c.isDigit then c.toNat - '0'.toNat
    else if 'a' ≤ c then c.toNat - 'a'.toNat + 10
    else c.toNat - 'A'.toNat + 10
  cs.foldl (fun n c ↦ 16 * n + digit c) 0

/-- Reads a number of hexadecimal digits. -/
def hexNumber (width : Nat) (what : String) : Lexer Nat := do
  let cursor ← get
  match (List.range width).find? fun k ↦ !isHexDigit (cursor.peek k) with
  | some k => fail (.expected what (cursor.peek k))
  | none =>
    advance width
    return hexValue (cursor.rest.take width)

/-- Reads the bytes of a run of percent escapes. -/
def escapedBytes : Nat → Lexer (List UInt8)
  | 0 => return []
  | bound + 1 => do
    if (← head) != '%' then return []
    advance 1
    let byte ← hexNumber 2 "URI escape sequence of 2 hexadecimal numbers"
    return UInt8.ofNat byte :: (← escapedBytes bound)

/-- Reads a run of percent escapes as text. -/
def escapes : Lexer (List Char) := do
  let start ← mark
  let bytes ← escapedBytes (← size)
  match Text.decode ⟨bytes.toArray⟩ with
  | .ok text => return text.toList
  | .error fault => throw (.at (.undecodableEscape fault) start)

/-- The characters that stand for themselves in the address part of a tag. -/
def isUriChar (c : Char) : Bool :=
  c.isAlphanum || "-;/?:@&=+$,_.!~*'()[]".toList.contains c

/-- Reads the pieces of an address up to its end. -/
def uriPieces : Nat → Lexer (List (List Char))
  | 0 => return []
  | bound + 1 => do
    let c ← head
    if isUriChar c then
      let run ← takeRun isUriChar
      return run :: (← uriPieces bound)
    else if c == '%' then
      let run ← escapes
      return run :: (← uriPieces bound)
    else return []

/-- Reads the address part of a tag. -/
def uri : Lexer String := do
  let pieces ← uriPieces (← size)
  if pieces.isEmpty then fail (.expected "URI" (← head))
  return String.ofList pieces.flatten

/-- Reads a tag handle: `!`, `!!` or `!name!`. -/
def handle : Lexer String := do
  require (· == '!') "'!'"
  let cursor ← get
  if cursor.peek 1 == ' ' then
    advance 1
    return "!"
  advance 1
  let run ← takeRun isNameChar
  require (· == '!') "'!'"
  advance 1
  return String.ofList ('!' :: run ++ ['!'])

/-- Reads a tag: its handle, if it has one, and the rest of it. -/
def tag : Lexer TokenKind := do
  let second ← peek 1
  let kind ← do
    if second == '<' then
      advance 2
      let suffix ← uri
      require (· == '>') "'>'"
      advance 1
      pure (TokenKind.tag none suffix)
    else if isGap second then
      advance 1
      pure (TokenKind.tag none "!")
    else
      let word := (← get).rest.tail.takeWhile fun c ↦ !isSpaceOrEnd c
      if word.contains '!' then
        let name ← handle
        pure (TokenKind.tag (some name) (← uri))
      else
        advance 1
        pure (TokenKind.tag (some "!") (← uri))
  require isSpaceOrEnd "' '"
  return kind

/-! ### Directives -/

/-- Reads a decimal number. -/
def decimal : Lexer Nat := do
  require Char.isDigit "a digit"
  let digits ← takeRun Char.isDigit
  if Decimal.digitLimit < digits.length then throw (.longInteger (some digits.length))
  return Decimal.digitsValue digits

/-- Reads a directive and the rest of its line. -/
def directive : Lexer TokenKind := do
  advance 1
  let word ← name
  require isSpaceOrEnd "alphabetic or numeric character"
  let directive ←
    if word = "YAML".toList then do
      skip (· == ' ')
      let major ← decimal
      require (· == '.') "a digit or '.'"
      advance 1
      discard decimal
      require isSpaceOrEnd "a digit or ' '"
      pure (Directive.version major)
    else if word = "TAG".toList then do
      skip (· == ' ')
      let name ← handle
      require (· == ' ') "' '"
      skip (· == ' ')
      let leading ← uri
      require isSpaceOrEnd "' '"
      pure (Directive.handle name leading)
    else do
      skip fun c ↦ !isBreakOrEnd c
      pure Directive.other
  restOfLine
  return .directive directive

end Lexer

end CabalManifest.Yaml
