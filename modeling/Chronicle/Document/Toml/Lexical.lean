import Chronicle.Number.Numeral

/-!
# The small parts of TOML

Blanks, comments, ends of lines, strings and keys. A reader takes a text and gives what it read with the
rest, or nothing if the text does not go on as it should.
-/

namespace Chronicle.Toml

/-- Reads a part of a text and gives the rest. -/
abbrev Reads (α : Type) := List Char → Option (α × List Char)

/-- Whether a character is a blank within a line. -/
def isBlank (c : Char) : Bool := c == ' ' || c == '\t'

/-- Whether a character may stand in a comment and, as it is, in a string. -/
def isPrintable (c : Char) : Bool := c == '\t' || (32 ≤ c.toNat && c.toNat ≠ 127)

/-- Passes blanks. -/
def skipBlanks (cs : List Char) : List Char := cs.dropWhile isBlank

/-- What follows the end of a line, if there is one. -/
def lineEnd? : List Char → Option (List Char)
  | '\n' :: rest => some rest
  | '\r' :: '\n' :: rest => some rest
  | _ => none

/-- What follows the end of a line or of the text. -/
def lineOrTextEnd? : List Char → Option (List Char)
  | [] => some []
  | cs => lineEnd? cs

/-- Passes a comment, if there is one. -/
def skipComment : List Char → List Char
  | '#' :: rest => rest.dropWhile isPrintable
  | cs => cs

/-- Passes what may follow an entry on its line, and the end of the line. -/
def restOfLine (cs : List Char) : Option (List Char) := lineOrTextEnd? (skipComment (skipBlanks cs))

/-- Passes blanks, comments and ends of lines; a comment has to end with a line. `fuel` is as long as
the text. -/
def skipLines : Nat → List Char → Option (List Char)
  | 0, cs => some cs
  | fuel + 1, cs =>
    match skipBlanks cs with
    | '#' :: rest =>
      match lineEnd? (rest.dropWhile isPrintable) with
      | some after => skipLines fuel after
      | none => none
    | after =>
      match lineEnd? after with
      | some next => skipLines fuel next
      | none => some after

/-! ## Strings -/

/-- The character that a code stands for. -/
def codePoint (n : Nat) : Option Char :=
  if n < 0xd800 || (0xdfff < n && n < 0x110000) then some (Char.ofNat n) else none

/-- Reads the code of a character. -/
def readCode (length : Nat) : Reads Char := fun cs => do
  let digits := cs.take length
  if digits.length < length then none
  let c ← codePoint (← Numeral.natural? 16 digits)
  return (c, cs.drop length)

/-- Reads what follows a backslash. -/
def readEscape : Reads Char
  | 'b' :: rest => some ('\x08', rest)
  | 't' :: rest => some ('\t', rest)
  | 'n' :: rest => some ('\n', rest)
  | 'f' :: rest => some ('\x0c', rest)
  | 'r' :: rest => some ('\r', rest)
  | '"' :: rest => some ('"', rest)
  | '\\' :: rest => some ('\\', rest)
  | 'u' :: rest => readCode 4 rest
  | 'U' :: rest => readCode 8 rest
  | _ => none

/-- Passes blanks and ends of lines. -/
def skipSpace : Nat → List Char → List Char
  | 0, cs => cs
  | fuel + 1, cs =>
    let after := skipBlanks cs
    match lineEnd? after with
    | some next => skipSpace fuel next
    | none => after

/-- What follows a backslash at the end of a line: the text goes on with the next word. -/
def joinedLine (cs : List Char) : Option (List Char) :=
  (lineEnd? (skipBlanks cs)).map fun rest => skipSpace rest.length rest

/-- Reads a string of one line behind its opening quote. -/
def readBasic : Nat → Reads (List Char)
  | _, [] => none
  | 0, _ => none
  | fuel + 1, c :: rest =>
    if c == '"' then some ([], rest)
    else if c == '\\' then do
      let (x, rest) ← readEscape rest
      let (more, rest) ← readBasic fuel rest
      return (x :: more, rest)
    else if isPrintable c then do
      let (more, rest) ← readBasic fuel rest
      return (c :: more, rest)
    else none

/-- Reads a literal string of one line behind its opening quote. -/
def readLiteral : Reads (List Char)
  | [] => none
  | c :: rest =>
    if c == '\'' then some ([], rest)
    else if isPrintable c then do
      let (more, rest) ← readLiteral rest
      return (c :: more, rest)
    else none

/-- Reads a string of several lines behind its opening quotes. One or two quotes may stand in it, also
right before the closing ones. -/
def readLong (quote : Char) : Nat → Reads (List Char)
  | _, [] => none
  | 0, _ => none
  | fuel + 1, c :: rest =>
    if c == quote then
      let quotes := (c :: rest).takeWhile (· == quote)
      let after := (c :: rest).dropWhile (· == quote)
      if quotes.length < 3 then do
        let (more, rest) ← readLong quote fuel after
        return (quotes ++ more, rest)
      else if quotes.length ≤ 5 then some (quotes.drop 3, after)
      else none
    else if quote == '"' && c == '\\' then
      match joinedLine rest with
      | some rest => readLong quote fuel rest
      | none => do
        let (x, rest) ← readEscape rest
        let (more, rest) ← readLong quote fuel rest
        return (x :: more, rest)
    else
      match lineEnd? (c :: rest) with
      | some rest => do
        let (more, rest) ← readLong quote fuel rest
        return ('\n' :: more, rest)
      | none =>
        if isPrintable c then do
          let (more, rest) ← readLong quote fuel rest
          return (c :: more, rest)
        else none

/-- Reads a string of several lines behind its opening quotes; the end of a line right after them does
not belong to it. -/
def readLongFrom (quote : Char) (cs : List Char) : Option (List Char × List Char) :=
  let body := (lineEnd? cs).getD cs
  readLong quote (body.length + 1) body

/-- Reads a string. -/
def readString : Reads String := fun cs => do
  let (text, rest) ←
    match cs with
    | '"' :: '"' :: '"' :: rest => readLongFrom '"' rest
    | '\'' :: '\'' :: '\'' :: rest => readLongFrom '\'' rest
    | '"' :: rest => readBasic (rest.length + 1) rest
    | '\'' :: rest => readLiteral rest
    | _ => none
  return (String.ofList text, rest)

/-! ## Keys -/

/-- Whether a character may stand in a key without quotes. -/
def isKeyChar (c : Char) : Bool := c.isAlphanum || c == '_' || c == '-'

/-- Reads a key without dots. -/
def readName : Reads String
  | '"' :: rest => (readBasic (rest.length + 1) rest).map fun (k, rest) => (String.ofList k, rest)
  | '\'' :: rest => (readLiteral rest).map fun (k, rest) => (String.ofList k, rest)
  | cs =>
    let name := cs.takeWhile isKeyChar
    if name.isEmpty then none else some (String.ofList name, cs.drop name.length)

/-- Reads names with dots between them, and the blanks around each. -/
def readNames : Nat → Reads (List String)
  | 0, _ => none
  | fuel + 1, cs => do
    let (name, rest) ← readName (skipBlanks cs)
    match skipBlanks rest with
    | '.' :: rest =>
      let (more, rest) ← readNames fuel rest
      return (name :: more, rest)
    | rest => return ([name], rest)

/-- How many levels tables, lists and keys may have. -/
def deepest : Nat := 79

/-- Reads a key: the names on the way, and the last one. -/
def readKey : Reads (List String × String) := fun cs => do
  let (names, rest) ← readNames (cs.length + 1) cs
  if deepest < names.length then none
  let last ← names.getLast?
  return ((names.dropLast, last), rest)

end Chronicle.Toml
