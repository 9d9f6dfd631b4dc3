/-!
# Positions in a text

A `Mark` says where in a text something stands; a `Cursor` is a mark together with the text from
there on. Reading moves the cursor forward and keeps its line and column right: a line ends at a
line feed, a carriage return not followed by one, a next-line character, or a line or paragraph
separator, and a byte order mark takes no column.

Past the end of the text a cursor reads the null character, which no admissible text contains.
-/

namespace CabalManifest.Yaml

/-- A position: characters before it, lines before it, and characters before it in its line. -/
structure Mark where
  index : Nat
  line : Nat
  column : Nat
  deriving DecidableEq, Repr, Inhabited

/-! ### Character classes of the syntax -/

/-- The end of the text. -/
def isEnd (c : Char) : Bool := c == '\x00'

/-- The characters of line breaks. -/
def isBreak (c : Char) : Bool :=
  c == '\n' || c == '\r' || c == '\x85' || c == '\u2028' || c == '\u2029'

/-- A line break or the end. -/
def isBreakOrEnd (c : Char) : Bool := isBreak c || isEnd c

/-- A plain space, a line break or the end. -/
def isSpaceOrEnd (c : Char) : Bool := c == ' ' || isBreakOrEnd c

/-- A space, a tab, a line break or the end: what separates tokens. -/
def isGap (c : Char) : Bool := c == '\t' || isSpaceOrEnd c

/-- The characters of names: anchors, directives and tag handles. -/
def isNameChar (c : Char) : Bool := c.isAlphanum || c == '-' || c == '_'

/-- A hexadecimal digit. -/
def isHexDigit (c : Char) : Bool :=
  c.isDigit || ('a' ≤ c && c ≤ 'f') || ('A' ≤ c && c ≤ 'F')

/-! ### Marks -/

/-- The mark after a character, given the one that follows it. -/
def Mark.next (mark : Mark) (c following : Char) : Mark :=
  if isBreak c && !(c == '\r' && following == '\n') then ⟨mark.index + 1, mark.line + 1, 0⟩
  else if c == '\uFEFF' then { mark with index := mark.index + 1 }
  else { mark with index := mark.index + 1, column := mark.column + 1 }

/-! ### Cursors -/

/-- A position and the text from there on. -/
structure Cursor where
  rest : List Char
  mark : Mark
  deriving Inhabited

namespace Cursor

/-- The start of a text. -/
def start (text : List Char) : Cursor := ⟨text, ⟨0, 0, 0⟩⟩

/-- The character a number of places ahead. -/
def peek (cursor : Cursor) (ahead : Nat) : Char := cursor.rest.getD ahead '\x00'

/-- The next character. -/
def head (cursor : Cursor) : Char := cursor.rest.headD '\x00'

/-- The column of the cursor. -/
def column (cursor : Cursor) : Nat := cursor.mark.column

/-- Moves past a number of characters. -/
def advance : Cursor → Nat → Cursor
  | cursor, 0 => cursor
  | ⟨[], mark⟩, _ + 1 => ⟨[], mark⟩
  | ⟨c :: rest, mark⟩, n + 1 => advance ⟨rest, mark.next c (rest.headD '\x00')⟩ n

/-- Moves past the next character. -/
def step (cursor : Cursor) : Cursor := cursor.advance 1

/-- The longest run of characters in `p` from a position on, and the cursor after it. -/
def spanFrom (p : Char → Bool) : List Char → Mark → List Char × Cursor
  | [], mark => ([], ⟨[], mark⟩)
  | c :: rest, mark =>
    if p c then
      let (run, after) := spanFrom p rest (mark.next c (rest.headD '\x00'))
      (c :: run, after)
    else ([], ⟨c :: rest, mark⟩)

/-- The longest run of characters in `p` at the cursor, and the cursor after it. -/
def span (cursor : Cursor) (p : Char → Bool) : List Char × Cursor :=
  spanFrom p cursor.rest cursor.mark

/-- Moves past the characters in `p`. -/
def skip (cursor : Cursor) (p : Char → Bool) : Cursor := (cursor.span p).2

/-- Reads a line break, if there is one: every break is a line feed, but for the line and paragraph
separators, which stand for themselves. -/
def lineBreak (cursor : Cursor) : List Char × Cursor :=
  let c := cursor.head
  if c == '\r' && cursor.peek 1 == '\n' then (['\n'], cursor.advance 2)
  else if c == '\r' || c == '\n' || c == '\x85' then (['\n'], cursor.step)
  else if c == '\u2028' || c == '\u2029' then ([c], cursor.step)
  else ([], cursor)

/-- Whether a text stands at the cursor. -/
def startsWith (cursor : Cursor) (text : String) : Bool := text.toList.isPrefixOf cursor.rest

/-- Whether a document marker, `---` or `...`, stands at the cursor. -/
def atSeparator (cursor : Cursor) : Bool :=
  (cursor.startsWith "---" || cursor.startsWith "...") && isGap (cursor.peek 3)

end Cursor

end CabalManifest.Yaml
