import Chronicle.Document.Yaml.Cursor
import Chronicle.Number.Numeral

/-!
# Scalars in YAML

The five ways to write a scalar, and how each is read: plain, in single or double quotes, as a literal
block and as a folded one. What stands between the words of a scalar is a `Gap`: blanks within a line are
kept, while the end of a line becomes a blank and empty lines become ends of lines.
-/

namespace Chronicle.Yaml

/-! ## Gaps -/

/-- Blanks and ends of lines between two words. -/
structure Gap where
  /-- The blanks before the first end of a line. -/
  blanks : List Char := []
  /-- The first end of a line, where there is one. A line that is joined to the next has an empty one. -/
  first : Option (List Char) := none
  /-- The ends of the empty lines that follow. -/
  more : List Char := []

/-- What is left of a gap in a scalar. -/
def Gap.text (g : Gap) : List Char :=
  match g.first with
  | none => g.blanks
  | some ['\n'] => if g.more.isEmpty then [' '] else g.more
  | some first => first ++ g.more

/-- Reads the blanks and ends of lines at a cursor. A tab that comes before column `indent` of a later
line is refused. `fuel` is as long as what is left. -/
def readGap (indent : Nat) : Nat → Gap → Cursor → Option (Gap × Cursor)
  | fuel + 1, g, c =>
    if isBlank c.next then
      if g.first.isNone then readGap indent fuel { g with blanks := g.blanks ++ [c.next] } (c.skip 1)
      else if c.column < indent && c.next == '\t' then none
      else readGap indent fuel g (c.skip 1)
    else if isBreak c.next then
      match g.first with
      | none => readGap indent fuel { g with blanks := [], first := some c.breakText } c.skipBreak
      | some _ => readGap indent fuel { g with more := g.more ++ c.breakText } c.skipBreak
    else some (g, c)
  | 0, g, c => some (g, c)

/-! ## Plain scalars -/

/-- The characters of a plain scalar up to a gap or a mark. Within brackets a colon may not stand right
before one. -/
def plainWord (inFlow : Bool) : List Char → Option (List Char)
  | [] => some []
  | c :: rest =>
    let following := rest.headD '\x00'
    if isGap c then some []
    else if inFlow && c == ':' && [',', '?', '[', ']', '\x7b', '\x7d'].contains following then none
    else if c == ':' && isGap following then some []
    else if inFlow && [',', '[', ']', '\x7b', '\x7d'].contains c then some []
    else (plainWord inFlow rest).map (c :: ·)

/-- A scalar that was read. -/
structure ScalarText where
  text : List Char
  /-- Whether a line ended behind the last word. -/
  endsLine : Bool := false

/-- Reads a plain scalar from a word on; `gap` is what came before the word. -/
def readPlain (inFlow : Bool) (indent : Nat) : Nat → List Char → Gap → Cursor → Option (ScalarText × Cursor)
  | 0, text, gap, c => some (⟨text, gap.first.isSome⟩, c)
  | fuel + 1, text, gap, c =>
    if c.isAtLimit '-' || c.isAtLimit '.' || c.next == '#' then some (⟨text, gap.first.isSome⟩, c)
    else do
      let word ← plainWord inFlow c.rest
      let after := c.skip word.length
      let text := if word.isEmpty then text else text ++ gap.text ++ word
      let gap := if word.isEmpty then gap else {}
      if !(isBlank after.next || isBreak after.next) then return (⟨text, gap.first.isSome⟩, after)
      let (gap, behind) ← readGap indent after.rest.length gap after
      if !inFlow && behind.column < indent then return (⟨text, gap.first.isSome⟩, behind)
      readPlain inFlow indent fuel text gap behind

/-! ## Quoted scalars -/

/-- The character that a code stands for. -/
def codePoint (n : Nat) : Option Char :=
  if n < 0xd800 || (0xdfff < n && n < 0x110000) then some (Char.ofNat n) else none

/-- What an escaped character stands for: a character, or the number of digits of its code. -/
def escaped (c : Char) : Option (Char ⊕ Nat) :=
  match c with
  | '0' => some (.inl '\x00')
  | 'a' => some (.inl '\x07')
  | 'b' => some (.inl '\x08')
  | 't' | '\t' => some (.inl '\t')
  | 'n' => some (.inl '\n')
  | 'v' => some (.inl '\x0b')
  | 'f' => some (.inl '\x0c')
  | 'r' => some (.inl '\r')
  | 'e' => some (.inl '\x1b')
  | ' ' | '"' | '/' | '\\' => some (.inl c)
  | 'N' => some (.inl '\x85')
  | '_' => some (.inl '\xa0')
  | 'L' => some (.inl '\u2028')
  | 'P' => some (.inl '\u2029')
  | 'x' => some (.inr 2)
  | 'u' => some (.inr 4)
  | 'U' => some (.inr 8)
  | _ => none

/-- Reads the characters of a quoted scalar up to a gap or the closing quote. Says whether an escaped
end of a line follows, which is passed. -/
def readQuotedWord (quote : Char) : Nat → List Char → Cursor → Option (List Char × Bool × Cursor)
  | 0, word, c => some (word, false, c)
  | fuel + 1, word, c =>
    if isGap c.next then some (word, false, c)
    else if quote == '\'' && c.next == '\'' && c.ahead 1 == '\'' then
      readQuotedWord quote fuel (word ++ ['\'']) (c.skip 2)
    else if c.next == quote then some (word, false, c)
    else if quote == '"' && c.next == '\\' then
      if isBreak (c.ahead 1) then some (word, true, (c.skip 1).skipBreak)
      else
        match escaped (c.ahead 1) with
        | none => none
        | some (.inl x) => readQuotedWord quote fuel (word ++ [x]) (c.skip 2)
        | some (.inr n) => do
          let digits := (c.rest.drop 2).take n
          if digits.length < n then none
          let code ← Numeral.natural? 16 digits
          let x ← codePoint code
          readQuotedWord quote fuel (word ++ [x]) (c.skip (2 + n))
    else readQuotedWord quote fuel (word ++ [c.next]) (c.skip 1)

/-- Reads a quoted scalar behind its opening quote. -/
def readQuoted (quote : Char) : Nat → List Char → Cursor → Option (List Char × Cursor)
  | 0, _, _ => none
  | fuel + 1, text, c => do
    if c.isAtLimit '-' || c.isAtLimit '.' || isEnd c.next then none
    let (word, joined, c) ← readQuotedWord quote (c.rest.length + 1) [] c
    if !joined && c.next == quote then return (text ++ word, c.skip 1)
    let (gap, c) ← readGap 0 c.rest.length { first := if joined then some [] else none } c
    readQuoted quote fuel (text ++ word ++ gap.text) c

/-! ## Block scalars -/

/-- What becomes of the ends of lines at the end of a block. -/
inductive Chomping
  | strip
  | clip
  | keep
  deriving DecidableEq

/-- The chomping that a character asks for. -/
def Chomping.ofChar : Char → Option Chomping
  | '-' => some .strip
  | '+' => some .keep
  | _ => none

/-- The indentation that a digit asks for; a zero asks for nothing that there is. -/
def indentOf (c : Char) : Option (Option Nat) :=
  if c == '0' then none else if c.isDigit then some (some (c.toNat - '0'.toNat)) else some none

/-- Reads what may follow the mark of a block: chomping and indentation in either order. -/
def blockHeader (c : Cursor) : Option (Chomping × Option Nat × Cursor) :=
  match Chomping.ofChar c.next with
  | some chomping => do
    let indent ← indentOf (c.ahead 1)
    return (chomping, indent, c.skip (if indent.isSome then 2 else 1))
  | none => do
    let indent ← indentOf c.next
    if indent.isNone then return (.clip, none, c)
    match Chomping.ofChar (c.ahead 1) with
    | some chomping => return (chomping, indent, c.skip 2)
    | none => return (.clip, indent, c.skip 1)

/-- Passes indentation and empty lines; `indent` is 0 as long as it is not known. Gives the ends of the
lines and the widest indentation. -/
def readEmptyLines (indent : Nat) : Nat → Nat → List Char → Cursor → Option (Nat × List Char × Cursor)
  | 0, widest, breaks, c => some (widest, breaks, c)
  | fuel + 1, widest, breaks, c =>
    let blanks := (c.run (· == ' ')).length
    let c := c.skip (if indent = 0 then blanks else min blanks (indent - c.column))
    let widest := max widest c.column
    if (indent = 0 || c.column < indent) && c.next == '\t' then none
    else if isBreak c.next then readEmptyLines indent fuel widest (breaks ++ c.breakText) c.skipBreak
    else some (widest, breaks, c)

/-- Reads the lines of a block. `ended` is the end of the line before and `empty` those of the empty
lines after it; `wasBlank` says that the line before began with a blank. -/
def readBlockLines (literal : Bool) (indent : Nat) :
    Nat → List Char → List Char → List Char → Bool → Cursor → Option (List Char × List Char × List Char × Cursor)
  | 0, text, ended, empty, _, c => some (text, ended, empty, c)
  | fuel + 1, text, ended, empty, wasBlank, c =>
    if c.column != indent || isEnd c.next then some (text, ended, empty, c)
    else do
      let isBlankLine := isBlank c.next
      let folds := !literal && ended.head? == some '\n' && !wasBlank && !isBlankLine
      let joint := if folds then (if empty.isEmpty then [' '] else []) else ended
      let line := c.run (!isBreakOrEnd ·)
      let c := c.skip line.length
      let (ended, c) := if isBreak c.next then (c.breakText, c.skipBreak) else ([], c)
      let (_, after, c) ← readEmptyLines indent (c.rest.length + 1) 0 [] c
      readBlockLines literal indent fuel (text ++ joint ++ empty ++ line) ended after isBlankLine c

/-- Reads a block behind its mark, inside a block of indentation `outer`. -/
def readBlock (literal : Bool) (outer : Int) (c : Cursor) : Option (List Char × Cursor) := do
  let (chomping, wanted, c) ← blockHeader c
  let c := c.skipWhile isBlank
  let c := if c.next == '#' then c.skipWhile (!isBreakOrEnd ·) else c
  if !isBreakOrEnd c.next then none
  let c := if isBreak c.next then c.skipBreak else c
  let given := (wanted.map fun n => (max outer 0).toNat + n).getD 0
  let (widest, empty, c) ← readEmptyLines given (c.rest.length + 1) 0 [] c
  let indent := if given = 0 then max (max widest (outer + 1).toNat) 1 else given
  let (text, ended, empty, c) ← readBlockLines literal indent (c.rest.length + 1) [] [] empty false c
  let text := if chomping = .strip then text else text ++ ended
  return (if chomping = .keep then text ++ empty else text, c)

end Chronicle.Yaml
