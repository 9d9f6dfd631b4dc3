import CabalManifest.Yaml.Lexer

/-!
# Block scalars

Literal and folded scalars. The header chooses what happens to the line breaks at the end (`-` drops
all, `+` keeps all, by default one is kept) and may fix the indentation; else the first line that is
not empty does. In a folded scalar a single break between two lines that start with no blank becomes
a space.
-/

namespace CabalManifest.Yaml.Lexer

/-- What happens to the line breaks at the end of a block scalar. -/
inductive Chomping where
  | strip
  | clip
  | keep
  deriving DecidableEq

/-- Reads a chomping indicator, if there is one. -/
def chomping? : Lexer (Option Chomping) := do
  let c ← head
  if c == '+' then
    advance 1
    return some .keep
  else if c == '-' then
    advance 1
    return some .strip
  else return none

/-- Reads an indentation indicator, if there is one. -/
def increment? : Lexer (Option Nat) := do
  let c ← head
  if !c.isDigit then return none
  if c == '0' then fail .zeroIndentation
  advance 1
  return some (c.toNat - '0'.toNat)

/-- Reads the header of a block scalar, with the indicators in either order. -/
def blockHeader : Lexer (Chomping × Option Nat) := do
  let header ← match ← chomping? with
    | some chomping => pure (chomping, ← increment?)
    | none => match ← increment? with
      | none => pure (.clip, none)
      | some increment => pure ((← chomping?).getD .clip, some increment)
  require isSpaceOrEnd "chomping or indentation indicators"
  return header

/-- Reads the empty lines before the first line of text, after those in `breaks`, the last one first,
and finds how deep it is indented. -/
def findIndentation : Nat → List (List Char) → Nat → Lexer (List (List Char) × Nat)
  | 0, breaks, deepest => return (breaks.reverse, deepest)
  | bound + 1, breaks, deepest => do
    let c ← head
    if isBreak c then
      let line ← lineBreak
      findIndentation bound (line :: breaks) deepest
    else if c == ' ' then
      advance 1
      findIndentation bound breaks (max deepest (← get).column)
    else return (breaks.reverse, deepest)

/-- Moves past spaces up to a column. -/
def indentTo (indent : Nat) : Lexer Unit := do
  let cursor ← get
  let spaces := (cursor.rest.take (indent - cursor.column)).takeWhile (· == ' ')
  advance spaces.length

/-- Reads empty lines, and the indentation of the line after them. -/
def blockBreaks (indent : Nat) : Nat → Lexer (List (List Char))
  | 0 => return []
  | bound + 1 => do
    indentTo indent
    if isBreak (← head) then
      let line ← lineBreak
      return line :: (← blockBreaks indent bound)
    else return []

/-- The lines of a block scalar: the text so far in pieces, the last one first, the break after the
last line, and the empty lines after that. -/
structure BlockText where
  text : List (List Char)
  lastBreak : List Char
  breaks : List (List Char)

/-- Reads the lines of a block scalar, the cursor being at the text of the first. -/
def blockLines (folded : Bool) (indent : Nat) : Nat → BlockText → Lexer BlockText
  | 0, block => return block
  | bound + 1, block => do
    let cursor ← get
    if cursor.column != indent || isEnd cursor.head then return block
    let blankStart (c : Char) : Bool := c == ' ' || c == '\t'
    let line ← takeRun fun c ↦ !isBreakOrEnd c
    let lastBreak ← lineBreak
    let breaks ← blockBreaks indent (← size)
    let next ← get
    let text := line :: (block.breaks.reverse ++ block.text)
    if next.column != indent || isEnd next.head then return ⟨text, lastBreak, breaks⟩
    let fold := folded && lastBreak == ['\n'] && !blankStart cursor.head && !blankStart next.head
    let joint := if fold then (if breaks.isEmpty then [' '] else []) else lastBreak
    blockLines folded indent bound ⟨joint :: text, lastBreak, breaks⟩

/-- Reads a block scalar inside a collection that is indented to `parent`. -/
def blockScalar (parent : Int) : Lexer TokenKind := do
  let folded := (← head) == '>'
  advance 1
  let (chomping, increment) ← blockHeader
  restOfLine
  let least := (max (parent + 1) 1).toNat
  let (breaks, indent) ← match increment with
    | none => do
      let (breaks, deepest) ← findIndentation (← size) [] 0
      pure (breaks, max least deepest)
    | some increment => do
      let indent := least + increment - 1
      pure (← blockBreaks indent (← size), indent)
  let block ← blockLines folded indent (← size) ⟨[], [], breaks⟩
  let ending := match chomping with
    | .strip => []
    | .clip => [block.lastBreak]
    | .keep => block.lastBreak :: block.breaks
  return .scalar (String.ofList (block.text.reverse ++ ending).flatten) false

end CabalManifest.Yaml.Lexer
