import CabalManifest.Yaml.Lexer

/-!
# Plain scalars

Scalars without quotes. A plain scalar ends at a comment, at a colon that stands before a gap, in a
flow collection also at the punctuation of flow collections, and in a block where a line is indented
no deeper than the collection around it. Line breaks inside fold as in quoted scalars.
-/

namespace CabalManifest.Yaml.Lexer

/-- The punctuation of flow collections that also ends a word before a colon. -/
def isFlowPunctuation (c : Char) : Bool := ",[]\x7b\x7d".toList.contains c

/-- Whether a word of a plain scalar ends before `c` and what follows it. -/
def endsWord (inFlow : Bool) (c following : Char) : Bool :=
  isGap c || (c == ':' && (isGap following || (inFlow && isFlowPunctuation following))) ||
    (inFlow && (isFlowPunctuation c || c == '?'))

/-- The length of the word at the beginning of a text. -/
def wordLength (inFlow : Bool) : List Char → Nat
  | [] => 0
  | c :: rest => if endsWord inFlow c (rest.headD '\x00') then 0 else wordLength inFlow rest + 1

/-- The blanks between two words of a plain scalar. -/
inductive PlainGap where
  /-- The scalar cannot go on here. -/
  | none
  /-- The words are joined by these characters. -/
  | joint (text : List Char)

/-- Reads the empty lines between two lines of a plain scalar; `none` where the document ends. -/
def plainLines : Nat → Lexer (Option (List Char))
  | 0 => return some []
  | bound + 1 => do
    if (← get).atSeparator then return none
    skip (· == ' ')
    if isBreak (← head) then
      let line ← lineBreak
      return (← plainLines bound).map (line ++ ·)
    else return some []

/-- Reads the blanks after a word: what joins it to the next word, if there can be one, and whether
a line ended. -/
def plainGap : Lexer (PlainGap × Bool) := do
  let spaces ← takeRun (· == ' ')
  if isBreak (← head) then
    let line ← lineBreak
    match ← plainLines (← size) with
    | none => return (.none, true)
    | some further =>
      let joint := if line != ['\n'] then line ++ further
        else if further.isEmpty then [' '] else further
      return (.joint joint, true)
  else return (if spaces.isEmpty then .none else .joint spaces, false)

/-- What a plain scalar leaves behind: its words with the joints between them, the last one first, the
mark after the last word, and whether a line ended after it. -/
structure Plain where
  pieces : List (List Char)
  stop : Mark
  lineEnded : Bool

/-- Reads the words of a plain scalar from `before` on, the joint to the word before. Columns below
`indent` end the scalar in a block. -/
def plainWords (inFlow : Bool) (indent : Int) : Nat → List Char → Plain → Lexer Plain
  | 0, _, plain => return plain
  | bound + 1, before, plain => do
    let cursor ← get
    let length := wordLength inFlow cursor.rest
    if cursor.head == '#' || length == 0 then return plain
    advance length
    let stop ← mark
    let (gap, lineEnded) ← plainGap
    let plain := ⟨cursor.rest.take length :: before :: plain.pieces, stop, lineEnded⟩
    match gap with
    | .none => return plain
    | .joint text =>
      let cursor ← get
      if cursor.head == '#' || (!inFlow && (cursor.column : Int) < indent) then return plain
      plainWords inFlow indent bound text plain

/-- Reads a plain scalar; the second component tells whether a line ended after it. -/
def plain (inFlow : Bool) (indent : Int) : Lexer (Token × Bool) := do
  let start ← mark
  let plain ← plainWords inFlow indent (← size) [] ⟨[], start, false⟩
  return (⟨.scalar (String.ofList plain.pieces.reverse.flatten) true, start, plain.stop⟩, plain.lineEnded)

end CabalManifest.Yaml.Lexer
