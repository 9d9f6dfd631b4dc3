import CabalManifest.Yaml.Lexer

/-!
# Quoted scalars

Scalars between single or double quotes. Line breaks inside them fold: a single one becomes a space,
further ones stand for themselves, and blanks around a break are dropped. Between single quotes only
a doubled quote is special; between double quotes a backslash starts an escape.
-/

namespace CabalManifest.Yaml.Lexer

/-- The character an escape of one letter stands for. -/
def escapeOf? : Char → Option Char
  | '0' => some '\x00'
  | 'a' => some '\x07'
  | 'b' => some '\x08'
  | 't' | '\t' => some '\t'
  | 'n' => some '\n'
  | 'v' => some '\x0B'
  | 'f' => some '\x0C'
  | 'r' => some '\r'
  | 'e' => some '\x1B'
  | ' ' => some ' '
  | '"' => some '"'
  | '\\' => some '\\'
  | '/' => some '/'
  | 'N' => some '\x85'
  | '_' => some '\xA0'
  | 'L' => some '\u2028'
  | 'P' => some '\u2029'
  | _ => none

/-- The number of hexadecimal digits after an escape letter. -/
def escapeWidth? : Char → Option Nat
  | 'x' => some 2
  | 'u' => some 4
  | 'U' => some 8
  | _ => none

/-- Reads the empty lines after a line break, with the blanks before the text that follows. -/
def emptyLines : Nat → Lexer (List Char)
  | 0 => return []
  | bound + 1 => do
    if (← get).atSeparator then fail .documentSeparator
    skip fun c ↦ c == ' ' || c == '\t'
    if isBreak (← head) then
      let line ← lineBreak
      return line ++ (← emptyLines bound)
    else return []

/-- Reads a run of blanks inside a quoted scalar, folded if it spans lines. -/
def foldedBlanks : Lexer (List Char) := do
  let blanks ← takeRun fun c ↦ c == ' ' || c == '\t'
  let c ← head
  if isEnd c then fail .endOfStream
  if !isBreak c then return blanks
  let line ← lineBreak
  let further ← emptyLines (← size)
  if line != ['\n'] then return line ++ further
  else if further.isEmpty then return [' ']
  else return further

/-- Reads an escape after its backslash. -/
def escape : Lexer (List Char) := do
  let c ← head
  match escapeOf? c, escapeWidth? c with
  | some replacement, _ =>
    advance 1
    return [replacement]
  | none, some width =>
    advance 1
    let code ← hexNumber width ("escape sequence of " ++ toString width ++ " hexadecimal numbers")
    if code ≥ 0x80000000 then throw (.misfit .codeOutOfRange)
    if code > 0x10FFFF then throw (.meaningless "chr() arg not in range(0x110000)")
    return Text.ofCode code
  | none, none =>
    if isBreak c then
      discard lineBreak
      emptyLines (← size)
    else fail (.unknownEscape c)

/-- Reads the pieces of a quoted scalar up to and including the closing quote. -/
def quotedPieces (quote : Char) : Nat → Lexer (List (List Char))
  | 0 => return []
  | bound + 1 => do
    let c ← head
    if c == quote then
      advance 1
      if quote == '\'' && (← head) == '\'' then
        advance 1
        return ['\''] :: (← quotedPieces quote bound)
      return []
    let piece ←
      if isGap c then foldedBlanks
      else if quote == '"' && c == '\\' then do
        advance 1
        escape
      else takeRun fun c ↦ !isGap c && c != quote && !(quote == '"' && c == '\\')
    return piece :: (← quotedPieces quote bound)

/-- Reads a quoted scalar. -/
def quoted : Lexer TokenKind := do
  let quote ← head
  advance 1
  let pieces ← quotedPieces quote ((← size) + 1)
  return .scalar (String.ofList pieces.flatten) false

end CabalManifest.Yaml.Lexer
