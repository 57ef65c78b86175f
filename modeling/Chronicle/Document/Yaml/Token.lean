import Chronicle.Document.Yaml.Scalar

/-!
# Tokens of a YAML text

`Lexer.run` cuts a text into tokens. Indentation shows as tokens that open and close blocks. Whether a
scalar or a bracket is a key is only known once a colon follows, so places for keys are remembered
(`KeyPlace`) and the mark of the key is put in there later. A text that cannot be cut to its end still has
tokens up to the first place that was not decided.
-/

namespace Chronicle.Yaml

/-- The whole name of a tag, or its parts. -/
structure TagText where
  handle : List Char
  rest : List Char

/-- A token. -/
inductive Token
  /-- The version that a text claims. -/
  | version (major minor : Nat)
  /-- A handle and what it stands for. -/
  | handle (name meaning : List Char)
  | documentStart
  | documentEnd
  | blockSequence
  | blockMapping
  | blockEnd
  | flowSequence
  | flowSequenceEnd
  | flowMapping
  | flowMappingEnd
  | blockEntry
  | flowEntry
  | key
  | value
  | alias (name : List Char)
  | anchor (name : List Char)
  | tag (text : TagText)
  | scalar (text : List Char) (plain : Bool)
  | streamEnd

/-- A place where a key may have begun. -/
structure KeyPlace where
  /-- Whether it has to be a key. -/
  required : Bool
  /-- The number of the token that it begins with. -/
  number : Nat
  line : Nat
  column : Nat
  index : Nat

/-- A text that is being cut into tokens. -/
structure Lexer where
  cursor : Cursor
  /-- How many brackets are open. -/
  depth : Nat := 0
  /-- The column of the innermost block, and those of the blocks around it. -/
  indent : Int := -1
  outer : List Int := []
  /-- Whether a key may begin here. -/
  keyAllowed : Bool := true
  /-- The place of a key within the innermost bracket. -/
  place : Option KeyPlace := none
  /-- Those within the brackets around it. -/
  places : List (Option KeyPlace) := []
  /-- The tokens, the last one first. -/
  tokens : List Token := []
  /-- How many tokens there are. -/
  count : Nat := 0

namespace Lexer

/-- Adds a token. -/
def emit (l : Lexer) (t : Token) : Lexer := { l with tokens := t :: l.tokens, count := l.count + 1 }

/-- Puts a token before the last `behind` of some, the last one first. -/
def putBefore (t : Token) : Nat → List Token → List Token
  | 0, tokens => t :: tokens
  | _, [] => [t]
  | behind + 1, last :: tokens => last :: putBefore t behind tokens

/-- Adds a token before the one with a number. -/
def insert (l : Lexer) (number : Nat) (t : Token) : Lexer :=
  { l with tokens := putBefore t (l.count - number) l.tokens, count := l.count + 1 }

/-- Forgets a place for a key that is too far away by now: a key is on one line and not too long. None
if it had to be one. -/
def freshPlace (c : Cursor) : Option KeyPlace → Option (Option KeyPlace)
  | none => some none
  | some k =>
    if k.line < c.line || k.index + 1024 < c.index then (if k.required then none else some none)
    else some (some k)

/-- Forgets the places for keys that are too far away. -/
def forgetStale (l : Lexer) : Option Lexer := do
  let place ← freshPlace l.cursor l.place
  let places ← l.places.mapM (freshPlace l.cursor)
  return { l with place, places }

/-- Gives up the place for a key. -/
def dropPlace (l : Lexer) : Option Lexer :=
  if (l.place.map (·.required)).getD false then none else some { l with place := none }

/-- Remembers that a key may begin here. -/
def savePlace (l : Lexer) : Option Lexer :=
  if l.keyAllowed then do
    let l ← l.dropPlace
    let c := l.cursor
    let required := l.depth == 0 && l.indent == c.column
    return { l with place := some ⟨required, l.count, c.line, c.column, c.index⟩ }
  else some l

/-- Opens a block at a column, unless there is one already. -/
def openBlock (l : Lexer) (column number : Nat) (t : Token) : Lexer :=
  if l.depth == 0 && l.indent < column then
    { l.insert number t with indent := column, outer := l.indent :: l.outer }
  else l

/-- Closes the blocks that begin behind a column, from the innermost on. -/
def closeBlocksFrom (column : Int) : List Int → Lexer → Lexer
  | [], l => l
  | i :: rest, l =>
    if column < l.indent then closeBlocksFrom column rest { l.emit .blockEnd with indent := i, outer := rest }
    else l

/-- Closes the blocks that begin behind a column. -/
def closeBlocks (l : Lexer) (column : Int) : Lexer :=
  if l.depth == 0 then closeBlocksFrom column l.outer l else l

/-! ## Blanks, directives and names -/

/-- Passes blanks, comments and ends of lines. -/
def skipGaps : Nat → Lexer → Lexer
  | 0, l => l
  | fuel + 1, l =>
    let c := if l.cursor.column == 0 && l.cursor.next == '\ufeff' then l.cursor.skip 1 else l.cursor
    let tabs := l.depth != 0 || !l.keyAllowed
    let c := c.skipWhile fun x => x == ' ' || (tabs && x == '\t')
    let c := if c.next == '#' then c.skipWhile (!isBreakOrEnd ·) else c
    if isBreak c.next then
      skipGaps fuel { l with cursor := c.skipBreak, keyAllowed := l.keyAllowed || l.depth == 0 }
    else { l with cursor := c }

/-- Whether a character may stand in the name of a tag. -/
def isTagChar (verbatim : Bool) (c : Char) : Bool :=
  isWord c || [';', '/', '?', ':', '@', '&', '=', '+', '$', '.', '%', '!', '~', '*', '\'', '(', ')'].contains c
    || (verbatim && [',', '[', ']'].contains c)

/-- The bytes of percent signs and hexadecimal digits. -/
def percentBytes : List Char → Option (List UInt8)
  | [] => some []
  | '%' :: a :: b :: rest => do
    let n ← Numeral.natural? 16 [a, b]
    return n.toUInt8 :: (← percentBytes rest)
  | _ => none

/-- The text of a row of bytes. -/
def textOfBytes (bytes : List UInt8) : Option (List Char) :=
  (String.fromUTF8? ⟨bytes.toArray⟩).map String.toList

/-- A text with its percent signs resolved. `fuel` is as long as the text. -/
def unescape : Nat → List Char → Option (List Char)
  | 0, _ => some []
  | _, [] => some []
  | fuel + 1, c :: rest =>
    if c != '%' then (unescape fuel rest).map (c :: ·)
    else do
      let first ← Numeral.natural? 16 (rest.take 2)
      let width := if first < 0x80 then 1 else if first < 0xe0 then 2 else if first < 0xf0 then 3 else 4
      let group := (c :: rest).take (3 * width)
      if group.length < 3 * width then none
      let text ← textOfBytes (← percentBytes group)
      return text ++ (← unescape fuel ((c :: rest).drop (3 * width)))

/-- Reads the name of a tag; `head` is a part of it that was read before. -/
def tagName (verbatim : Bool) (head : List Char) (c : Cursor) : Option (List Char × Cursor) := do
  let run := c.run (isTagChar verbatim)
  if run.isEmpty && head.isEmpty then none
  let text ← unescape run.length run
  return (head.drop 1 ++ text, c.skip run.length)

/-- Reads the handle of a tag. -/
def tagHandle (isDirective : Bool) (c : Cursor) : Option (List Char × Cursor) :=
  if c.next != '!' then none
  else
    let name := (c.skip 1).run isWord
    let c := c.skip (1 + name.length)
    if c.next == '!' then some ('!' :: name ++ ['!'], c.skip 1)
    else if isDirective && !name.isEmpty then none
    else some ('!' :: name, c)

/-- Reads a tag. -/
def tagText (inFlow : Bool) (c : Cursor) : Option (TagText × Cursor) := do
  let (tag, c) ←
    if c.ahead 1 == '<' then do
      let (name, c) ← tagName true [] (c.skip 2)
      if c.next == '>' then some ((⟨[], name⟩ : TagText), c.skip 1) else none
    else do
      let (handle, after) ← tagHandle false c
      if 1 < handle.length && handle.getLast? == some '!' then do
        let (name, c) ← tagName false [] after
        pure (⟨handle, name⟩, c)
      else do
        let (name, c) ← tagName false handle after
        pure (if name.isEmpty then ⟨[], ['!']⟩ else ⟨['!'], name⟩, c)
  if isGap c.next || (inFlow && c.next == ',') then return (tag, c)
  none

/-- Reads the number of a version. -/
def versionNumber (c : Cursor) : Option (Nat × Cursor) := do
  let digits := c.run Char.isDigit
  if 9 < digits.length then none
  return (← Numeral.natural? 10 digits, c.skip digits.length)

/-- Reads the rest of the line of a directive. -/
def directiveEnd (c : Cursor) : Option Cursor :=
  let c := c.skipWhile isBlank
  let c := if c.next == '#' then c.skipWhile (!isBreakOrEnd ·) else c
  if !isBreakOrEnd c.next then none else some (if isBreak c.next then c.skipBreak else c)

/-- Reads a directive. -/
def directive (c : Cursor) : Option (Token × Cursor) := do
  let c := c.skip 1
  let name := c.run isWord
  let c := c.skip name.length
  if name.isEmpty || !isGap c.next then none
  let c := c.skipWhile isBlank
  match String.ofList name with
  | "YAML" =>
    let (major, c) ← versionNumber c
    if c.next != '.' then none
    let (minor, c) ← versionNumber (c.skip 1)
    return (.version major minor, ← directiveEnd c)
  | "TAG" =>
    let (handle, c) ← tagHandle true c
    if !isBlank c.next then none
    let (meaning, c) ← tagName true [] (c.skipWhile isBlank)
    if !isGap c.next then none
    return (.handle handle meaning, ← directiveEnd c)
  | _ => none

/-! ## One token -/

/-- Goes on at a cursor. -/
def goTo (l : Lexer) (c : Cursor) : Lexer := { l with cursor := c }

/-- The end of the text. -/
def atEnd (l : Lexer) : Option Lexer := do
  let l ← (l.closeBlocks (-1)).dropPlace
  return { l.emit .streamEnd with keyAllowed := false }

/-- A token that stands outside all blocks. -/
def outside (l : Lexer) (t : Token) (c : Cursor) : Option Lexer := do
  let l ← (l.closeBlocks (-1)).dropPlace
  return { (l.emit t).goTo c with keyAllowed := false }

/-- An opening bracket. -/
def bracket (l : Lexer) (t : Token) : Option Lexer := do
  let l ← l.savePlace
  let inner := { (l.emit t).goTo (l.cursor.skip 1) with keyAllowed := true }
  return { inner with places := l.place :: l.places, place := none, depth := l.depth + 1 }

/-- A closing bracket. -/
def closing (l : Lexer) (t : Token) : Option Lexer := do
  let l ← l.dropPlace
  let l := { (l.emit t).goTo (l.cursor.skip 1) with keyAllowed := false }
  match l.depth, l.places with
  | d + 1, p :: places => return { l with depth := d, place := p, places }
  | _, _ => return l

/-- A comma. -/
def comma (l : Lexer) : Option Lexer := do
  let l ← l.dropPlace
  return { (l.emit .flowEntry).goTo (l.cursor.skip 1) with keyAllowed := true }

/-- A dash before an item. -/
def dash (l : Lexer) : Option Lexer := do
  if l.depth == 0 && !l.keyAllowed then none
  let l ← (l.openBlock l.cursor.column l.count .blockSequence).dropPlace
  return { (l.emit .blockEntry).goTo (l.cursor.skip 1) with keyAllowed := true }

/-- A question mark before a key. -/
def questionMark (l : Lexer) : Option Lexer := do
  if l.depth == 0 && !l.keyAllowed then none
  let l ← (l.openBlock l.cursor.column l.count .blockMapping).dropPlace
  return { (l.emit .key).goTo (l.cursor.skip 1) with keyAllowed := l.depth == 0 }

/-- A colon. -/
def colon (l : Lexer) : Option Lexer := do
  let l ←
    match l.place with
    | some k =>
      let l := (l.insert k.number .key).openBlock k.column k.number .blockMapping
      some { l with place := none, keyAllowed := false }
    | none =>
      if l.depth == 0 && !l.keyAllowed then none
      else
        let l := l.openBlock l.cursor.column l.count .blockMapping
        some { l with keyAllowed := l.depth == 0 }
  return (l.emit .value).goTo (l.cursor.skip 1)

/-- An anchor or an alias. -/
def name (l : Lexer) (isAlias : Bool) : Option Lexer := do
  let l ← l.savePlace
  let c := l.cursor.skip 1
  let name := c.run isWord
  let c := c.skip name.length
  if name.isEmpty || !(isGap c.next || ['?', ':', ',', ']', '\x7d', '%', '@', '\x60'].contains c.next) then none
  return { (l.emit (if isAlias then .alias name else .anchor name)).goTo c with keyAllowed := false }

/-- A tag. -/
def tag (l : Lexer) : Option Lexer := do
  let l ← l.savePlace
  let (text, c) ← tagText (l.depth != 0) l.cursor
  return { (l.emit (.tag text)).goTo c with keyAllowed := false }

/-- A literal or folded block. -/
def block (l : Lexer) (literal : Bool) : Option Lexer := do
  let l ← l.dropPlace
  let (text, c) ← readBlock literal l.indent (l.cursor.skip 1)
  return { (l.emit (.scalar text false)).goTo c with keyAllowed := true }

/-- A quoted scalar. -/
def quoted (l : Lexer) : Option Lexer := do
  let l ← l.savePlace
  let c := l.cursor.skip 1
  let (text, c) ← readQuoted l.cursor.next (c.rest.length + 1) [] c
  return { (l.emit (.scalar text false)).goTo c with keyAllowed := false }

/-- A plain scalar. -/
def plain (l : Lexer) : Option Lexer := do
  let l ← l.savePlace
  let (s, c) ← readPlain (l.depth != 0) (l.indent + 1).toNat (l.cursor.rest.length + 1) [] {} l.cursor
  return { (l.emit (.scalar s.text true)).goTo c with keyAllowed := s.endsLine }

/-- The marks that no plain scalar begins with. -/
def marks : List Char :=
  ['-', '?', ':', ',', '[', ']', '\x7b', '\x7d', '#', '&', '*', '!', '|', '>', '\'', '"', '%', '@', '\x60']

/-- Adds the next token, and those that it brings about. -/
def step (l : Lexer) : Option Lexer := do
  let l ← (l.skipGaps (l.cursor.rest.length + 1)).forgetStale
  let l := l.closeBlocks l.cursor.column
  let c := l.cursor
  let gapFollows := isGap (c.ahead 1)
  let inFlow := l.depth != 0
  if c.rest.isEmpty then l.atEnd
  else if c.column == 0 && c.next == '%' then do
    let (t, after) ← directive c
    l.outside t after
  else if c.isAtLimit '-' then l.outside .documentStart (c.skip 3)
  else if c.isAtLimit '.' then l.outside .documentEnd (c.skip 3)
  else
    match c.next with
    | '[' => l.bracket .flowSequence
    | '\x7b' => l.bracket .flowMapping
    | ']' => l.closing .flowSequenceEnd
    | '\x7d' => l.closing .flowMappingEnd
    | ',' => l.comma
    | '*' => l.name true
    | '&' => l.name false
    | '!' => l.tag
    | '\'' | '"' => l.quoted
    | x =>
      if x == '-' && gapFollows then l.dash
      else if x == '?' && (inFlow || gapFollows) then l.questionMark
      else if x == ':' && (inFlow || gapFollows) then l.colon
      else if x == '|' && !inFlow then l.block true
      else if x == '>' && !inFlow then l.block false
      else if (!isGap x && !marks.contains x) || (x == '-' && !isBlank (c.ahead 1))
          || (!inFlow && (x == '?' || x == ':') && !gapFollows) then l.plain
      else none

/-- The tokens before the first place that may still turn out to be a key. -/
def decided (l : Lexer) : List Token :=
  let open_ := (l.place :: l.places).filterMap fun k => k.map (·.number)
  l.tokens.reverse.take (open_.foldl min l.count)

/-- Whether the end of the text was reached. -/
def isDone (l : Lexer) : Bool :=
  match l.tokens with
  | .streamEnd :: _ => true
  | _ => false

/-- Adds tokens until the end of the text, or until there is none to be found. -/
def finish : Nat → Lexer → List Token
  | 0, l => l.decided
  | fuel + 1, l =>
    if l.isDone then l.tokens.reverse
    else
      match l.forgetStale with
      | none => l.decided
      | some fresh => fresh.step.elim fresh.decided (finish fuel)

/-- The tokens of a text. The end of the text is among them only if all of it could be read. -/
def run (text : List Char) : List Token :=
  if text.all isPrintable then
    let text := if text.head? == some '\ufeff' then text.drop 1 else text
    finish (2 * text.length + 2) { cursor := .start text }
  else []

end Lexer

end Chronicle.Yaml
