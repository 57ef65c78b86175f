/-!
# A place in a YAML text

A `Cursor` knows what is left of a text and the line and column it is at. Beyond the end of the text it
reads NUL, which no text may contain (`isText`).
-/

namespace Chronicle.Yaml

/-- A place in a text. -/
structure Cursor where
  rest : List Char
  line : Nat := 0
  column : Nat := 0
  /-- How many characters came before. -/
  index : Nat := 0

/-- Whether a character may stand in a text. -/
def isPrintable (c : Char) : Bool :=
  let n := c.toNat
  n == 9 || n == 10 || n == 13 || (32 ≤ n && n ≤ 0x7e) || n == 0x85 || (0xa0 ≤ n && n ≤ 0xd7ff)
    || (0xe000 ≤ n && n ≤ 0xfffd) || 0x10000 ≤ n

/-- Whether a character ends a line. -/
def isBreak (c : Char) : Bool := c == '\n' || c == '\r' || c == '\x85' || c == '\u2028' || c == '\u2029'

/-- Whether a character is a blank within a line. -/
def isBlank (c : Char) : Bool := c == ' ' || c == '\t'

/-- Whether a character is the end of the text. -/
def isEnd (c : Char) : Bool := c == '\x00'

/-- Whether a character ends a line or is the end of the text. -/
def isBreakOrEnd (c : Char) : Bool := isBreak c || isEnd c

/-- Whether a character is a blank, ends a line or is the end of the text. -/
def isGap (c : Char) : Bool := isBlank c || isBreakOrEnd c

/-- Whether a character may stand in the name of an anchor or of a directive. -/
def isWord (c : Char) : Bool := c.isAlphanum || c == '_' || c == '-'

namespace Cursor

/-- The start of a text. -/
def start (text : List Char) : Cursor := { rest := text }

/-- The character `k` places ahead. -/
def ahead (c : Cursor) (k : Nat) : Char := c.rest.getD k '\x00'

/-- The next character. -/
def next (c : Cursor) : Char := c.ahead 0

/-- Passes `n` characters of a line. -/
def skip (c : Cursor) (n : Nat) : Cursor :=
  { c with rest := c.rest.drop n, column := c.column + n, index := c.index + n }

/-- Passes characters of a line as long as `p` holds of them. -/
def skipWhile (c : Cursor) (p : Char → Bool) : Cursor := c.skip (c.rest.takeWhile p).length

/-- The characters of a line as long as `p` holds of them. -/
def run (c : Cursor) (p : Char → Bool) : List Char := c.rest.takeWhile p

/-- How many characters the end of a line at the cursor has. -/
def breakLength (c : Cursor) : Nat := if c.next == '\r' && c.ahead 1 == '\n' then 2 else 1

/-- The end of a line at the cursor as it is kept in a text. -/
def breakText (c : Cursor) : List Char := if c.next == '\u2028' || c.next == '\u2029' then [c.next] else ['\n']

/-- Passes the end of a line. -/
def skipBreak (c : Cursor) : Cursor where
  rest := c.rest.drop c.breakLength
  line := c.line + 1
  column := 0
  index := c.index + c.breakLength

/-- Whether a line begins here with three times a character, as the limits of documents do. -/
def isAtLimit (c : Cursor) (mark : Char) : Bool :=
  c.column == 0 && c.next == mark && c.ahead 1 == mark && c.ahead 2 == mark && isGap (c.ahead 3)

end Cursor

end Chronicle.Yaml
