/-!
# White space and lines

The two character classes every other module relies on, *blank* characters and *line boundaries*,
and the ways of cutting a text that rest on them. All functions work on lists of characters, so
that each of them is a recursion on the text itself.

A line boundary is always blank; a blank character need not be a boundary.
-/

namespace CabalManifest.Text

/-! ### Character classes -/

/-- White space in the sense of Unicode, together with the four ASCII separators `x1c` to `x1f`. -/
def isBlank (c : Char) : Bool :=
  let n := c.toNat
  (9 ≤ n && n ≤ 13) || (28 ≤ n && n ≤ 32) || n == 0x85 || n == 0xA0 || n == 0x1680 ||
  (0x2000 ≤ n && n ≤ 0x200A) || n == 0x2028 || n == 0x2029 || n == 0x202F || n == 0x205F ||
  n == 0x3000

/-- The characters that end a line. -/
def isLineBoundary (c : Char) : Bool :=
  let n := c.toNat
  (10 ≤ n && n ≤ 13) || (28 ≤ n && n ≤ 30) || n == 0x85 || n == 0x2028 || n == 0x2029

/-! ### Trimming -/

/-- Drops the longest run of characters in `p` at the end of a text. -/
def dropRight (p : Char → Bool) (cs : List Char) : List Char :=
  (cs.reverse.dropWhile p).reverse

/-- Drops blanks at the end. -/
def trimRight (cs : List Char) : List Char := dropRight isBlank cs

/-- Drops blanks at the beginning. -/
def trimLeft (cs : List Char) : List Char := cs.dropWhile isBlank

/-- Drops blanks on both sides. -/
def trim (cs : List Char) : List Char := trimRight (trimLeft cs)

/-! ### Lines and words -/

/-- The lines of a text, without their boundaries. A carriage return and the line feed after it are
one boundary, and a boundary at the end of the text starts no further line. -/
def lines : List Char → List (List Char)
  | [] => []
  | '\r' :: '\n' :: cs => [] :: lines cs
  | c :: cs =>
    if isLineBoundary c then [] :: lines cs
    else match lines cs with
      | [] => [[c]]
      | line :: rest => (c :: line) :: rest

/-- The maximal runs of non-blank characters. -/
def words : List Char → List (List Char)
  | [] => []
  | [c] => if isBlank c then [] else [[c]]
  | c :: d :: cs =>
    if isBlank c then words (d :: cs)
    else if isBlank d then [c] :: words (d :: cs)
    else match words (d :: cs) with
      | [] => [[c]]
      | word :: rest => (c :: word) :: rest

/-! ### Unified newlines -/

/-- Reads every carriage return, alone or with a line feed after it, as a line feed. -/
def unifyNewlines : List Char → List Char
  | [] => []
  | '\r' :: '\n' :: cs => '\n' :: unifyNewlines cs
  | c :: cs => (if c = '\r' then '\n' else c) :: unifyNewlines cs

end CabalManifest.Text
