import Chronicle.Document.Basic
import Chronicle.Document.Json.Fault

/-!
# Reading JSON

`readLeading` reads the value that a text starts with and says what is wrong with what follows it.
Entries of objects keep their order and their duplicates. A number without fraction and exponent is an
integer when it fits 64 bits; any other is a floating-point number, read by rounding its leading digits
and scaling them once by a rounded power of ten.
-/

namespace Chronicle.Json

/-- The text still to be read and the number of bytes before it. -/
structure Cursor where
  rest : List Char
  offset : Nat

/-- A step of reading. -/
abbrev Reader := StateT Cursor (Except SyntaxError)

/-- The next character, left in place. -/
def peek : Reader (Option Char) := fun c => .ok (c.rest.head?, c)

/-- Moves over one character. -/
def advance : Reader Unit := fun c =>
  match c.rest with
  | [] => .ok ((), c)
  | x :: rest => .ok ((), ⟨rest, c.offset + x.utf8Size⟩)

/-- Fails at the offset reached. -/
def failHere {α : Type} (fault : Fault) : Reader α := fun c => .error ⟨fault, c.offset⟩

/-- Fails one byte further, or at the end of the text. -/
def failNext {α : Type} (fault : Fault) : Reader α := fun c =>
  .error ⟨fault, if c.rest.isEmpty then c.offset else c.offset + 1⟩

/-- A blank between the parts of a JSON text. -/
def isSpace (c : Char) : Bool := c == ' ' || c == '\n' || c == '\t' || c == '\r'

/-- Moves over blanks; they are one byte each. -/
def skipSpace : Reader Unit := fun c =>
  let rest := c.rest.dropWhile isSpace
  .ok ((), ⟨rest, c.offset + (c.rest.length - rest.length)⟩)

/-- The next character that is no blank. -/
def peekToken : Reader (Option Char) := do
  skipSpace
  peek

/-- Reads the letters of a literal after its first. -/
def literal : List Char → Reader Unit
  | [] => pure ()
  | x :: more => do
    match ← peek with
    | none => failHere .endInValue
    | some c =>
      if c = x then
        advance
        literal more
      else failNext .noIdent

/-! ## Numbers -/

/-- The greatest integer of 64 bits. -/
def wordMax : Nat := twoTo 64 - 1

/-- The value of a decimal digit. -/
def digitValue (c : Char) : Nat := c.toNat - 0x30

/-- Reads as many digits as there are. -/
def digits : Reader (List Char) := fun c =>
  let ds := c.rest.takeWhile Char.isDigit
  .ok (ds, ⟨c.rest.drop ds.length, c.offset + ds.length⟩)

/-- Appends digits to a significand while it fits 64 bits; also how many digits were left over. -/
def appendDigits (significand : Nat) : List Char → Nat × List Char
  | [] => (significand, [])
  | d :: more =>
    let next := significand * 10 + digitValue d
    if wordMax < next then (significand, d :: more) else appendDigits next more

/-- A power of ten as a floating-point number. -/
def powerOfTen (n : Nat) : Binary64 := .ofDecimal false 1 n

/-- A number times `10 ^ exponent`; none when it is too large. Below `10 ^ -308` the division is done
in steps. -/
def scaleByTen : Nat → Binary64 → Int → Option Binary64
  | 0, x, _ => some x
  | fuel + 1, x, exponent =>
    if 0 ≤ exponent then
      if exponent ≤ 308 then
        let y := x.times (powerOfTen exponent.toNat)
        if y.isFinite then some y else none
      else if x.isZero then some x else none
    else if -308 ≤ exponent then some (x.dividedBy (powerOfTen (-exponent).toNat))
    else if x.isZero then some x
    else scaleByTen fuel (x.dividedBy (powerOfTen 308)) (exponent + 308)

/-- The floating-point number of a sign, a significand and a power of ten. -/
def floating (positive : Bool) (significand : Nat) (exponent : Int) : Reader Document := do
  match scaleByTen 4 (.ofNat significand) exponent with
  | some x => return .float (if positive then x else x.negate)
  | none => failHere .numberTooLarge

/-- The greatest exponent that is kept. -/
def exponentMax : Nat := twoTo 31 - 1

/-- Appends digits to an exponent; none, and what is left, when it grows too large. -/
def appendExponent (exponent : Nat) : List Char → Option Nat × Nat
  | [] => (some exponent, 0)
  | d :: more =>
    let next := exponent * 10 + digitValue d
    if exponentMax < next then (none, more.length) else appendExponent next more

/-- Reads the sign of an exponent, if there is one: whether it is a minus. -/
def exponentSign : Reader Bool := do
  match ← peek with
  | some '+' => do
    advance
    return false
  | some '-' => do
    advance
    return true
  | _ => return false

/-- Reads what follows the letter of an exponent. -/
def exponentPart (positive : Bool) (significand : Nat) (start : Int) : Reader Document := do
  let negative ← exponentSign
  match ← peek with
  | none => failHere .endInValue
  | some c =>
    if !c.isDigit then failNext .badNumber
    else
      let ds ← digits
      match appendExponent 0 ds with
      | (some e, _) => floating positive significand (if negative then start - e else start + e)
      | (none, unread) =>
        if significand != 0 && !negative then
          fun c => .error ⟨.numberTooLarge, c.offset - unread⟩
        else return .float (.zero (!positive))

/-- Reads what follows the point of a number whose digits so far stand before `10 ^ start`. -/
def fractionPart (positive : Bool) (significand : Nat) (start : Int) : Reader Document := do
  let ds ← digits
  if ds.isEmpty then
    match ← peek with
    | some _ => failNext .badNumber
    | none => failNext .endInValue
  else
    let (significand, unread) := appendDigits significand ds
    let exponent := start - (ds.length - unread.length : Nat)
    match ← peek with
    | some 'e' | some 'E' => do
      advance
      exponentPart positive significand exponent
    | _ => floating positive significand exponent

/-- Reads the digits of a whole number, of which `c` is the first: a zero stands alone. -/
def wholeDigits (c : Char) : Reader (List Char) := do
  if c = '0' then
    advance
    match ← peek with
    | some d => if d.isDigit then failNext .badNumber else return ['0']
    | none => return ['0']
  else digits

/-- Reads a number after its sign. -/
def number (positive : Bool) : Reader Document := do
  match ← peek with
  | none => failHere .endInValue
  | some c =>
    if !c.isDigit then failNext .badNumber
    else
      let ds ← wholeDigits c
      let (significand, unread) := appendDigits 0 ds
      match ← peek with
      | some '.' => do
        advance
        fractionPart positive significand unread.length
      | some 'e' | some 'E' => do
        advance
        exponentPart positive significand unread.length
      | _ =>
        if unread.isEmpty then
          if positive then return .int significand
          else if significand = 0 || twoTo 63 < significand then
            return .float (Binary64.ofNat significand).negate
          else return .int (-significand)
        else floating positive significand unread.length

/-! ## Strings -/

/-- The value of a digit of the base 16. -/
def hexValue? (c : Char) : Option Nat :=
  if '0' ≤ c ∧ c ≤ '9' then some (c.toNat - 0x30)
  else if 'a' ≤ c ∧ c ≤ 'f' then some (c.toNat - 0x57)
  else if 'A' ≤ c ∧ c ≤ 'F' then some (c.toNat - 0x37)
  else none

/-- The number of bytes of a text. -/
def byteCount (cs : List Char) : Nat := cs.foldl (fun n c => n + c.utf8Size) 0

/-- Reads four digits of the base 16. -/
def fourHex : Reader Nat := fun c =>
  let size := byteCount (c.rest.take 4)
  if size < 4 then .error ⟨.endInString, c.offset + size⟩
  else
    match c.rest.take 4 |>.mapM hexValue? with
    | some ds => .ok (ds.foldl (fun n d => n * 16 + d) 0, ⟨c.rest.drop 4, c.offset + 4⟩)
    | none => .error ⟨.badEscape, c.offset + 4⟩

/-- Reads one given character inside an escaped pair of surrogates. -/
def surrogateMark (mark : Char) : Reader Unit := do
  match ← peek with
  | none => failHere .endInString
  | some c => if c = mark then advance else failNext .surrogateUnpaired

/-- Reads the digits of an escape by number, and its second half if the first asks for one. -/
def numberedEscape : Reader Char := do
  let n ← fourHex
  if 0xDC00 ≤ n && n ≤ 0xDFFF then failHere .loneSurrogate
  else if n < 0xD800 || 0xDBFF < n then return Char.ofNat n
  else
    surrogateMark '\\'
    surrogateMark 'u'
    let low ← fourHex
    if low < 0xDC00 || 0xDFFF < low then failHere .loneSurrogate
    else return Char.ofNat ((n - 0xD800) * 0x400 + (low - 0xDC00) + 0x10000)

/-- Reads an escape after its backslash. -/
def escape : Reader Char := do
  match ← peek with
  | none => failHere .endInString
  | some c =>
    match c with
    | '"' | '\\' | '/' => do
      advance
      return c
    | 'b' => do
      advance
      return '\x08'
    | 'f' => do
      advance
      return '\x0c'
    | 'n' => do
      advance
      return '\n'
    | 'r' => do
      advance
      return '\r'
    | 't' => do
      advance
      return '\t'
    | 'u' => do
      advance
      numberedEscape
    | _ => failNext .badEscape

/-- Reads a string after its opening quote, the characters so far in reverse. -/
def stringBody : Nat → List Char → Reader String
  | 0, _ => failHere .endInString
  | fuel + 1, done => do
    match ← peek with
    | none => failHere .endInString
    | some '"' => do
      advance
      return String.ofList done.reverse
    | some '\\' => do
      advance
      let c ← escape
      stringBody fuel (c :: done)
    | some c => do
      if c.toNat < 0x20 then failNext .controlCharacter
      else
        advance
        stringBody fuel (c :: done)

/-- Reads a string after its opening quote. -/
def string : Reader String := do
  stringBody ((← get).rest.length + 1) []

/-! ## Values -/

/-- What stands before the next item of a list: whether there is one. -/
def moreItems (first : Bool) : Reader Bool := do
  match ← peekToken with
  | none => failNext .endInList
  | some ']' => do
    advance
    return false
  | some c =>
    if first then return true
    else if c = ',' then
      advance
      match ← peekToken with
      | some ']' => failNext .trailingComma
      | some _ => return true
      | none => failNext .endInValue
    else failNext .noCommaOrBracket

/-- What stands before the next entry of an object: whether there is one. -/
def moreEntries (first : Bool) : Reader Bool := do
  match ← peekToken with
  | none => failNext .endInObject
  | some '}' => do
    advance
    return false
  | some c =>
    if first then
      if c = '"' then return true else failNext .keyNotText
    else if c = ',' then
      advance
      match ← peekToken with
      | some '"' => return true
      | some '}' => failNext .trailingComma
      | some _ => failNext .keyNotText
      | none => failNext .endInValue
    else failNext .noCommaOrBrace

/-- Reads the colon after a key. -/
def colon : Reader Unit := do
  match ← peekToken with
  | some ':' => advance
  | some _ => failNext .noColon
  | none => failNext .endInObject

mutual

/-- Reads a value with at most `depth` lists and objects inside one another. -/
def value : Nat → Nat → Reader Document
  | 0, _ => failHere .endInValue
  | fuel + 1, depth => do
    match ← peekToken with
    | none => failNext .endInValue
    | some c =>
      match c with
      | 'n' => do
        advance
        literal ['u', 'l', 'l']
        return .null
      | 't' => do
        advance
        literal ['r', 'u', 'e']
        return .bool true
      | 'f' => do
        advance
        literal ['a', 'l', 's', 'e']
        return .bool false
      | '-' => do
        advance
        number false
      | '"' => do
        advance
        return .text (← string)
      | '[' =>
        if depth = 0 then failNext .tooDeep
        else
          advance
          return .list (← items fuel (depth - 1) true)
      | '{' =>
        if depth = 0 then failNext .tooDeep
        else
          advance
          return .map (← entries fuel (depth - 1) true)
      | _ => if c.isDigit then number true else failNext .noValue

/-- Reads the items of a list up to its closing bracket. -/
def items : Nat → Nat → Bool → Reader (List Document)
  | 0, _, _ => failHere .endInList
  | fuel + 1, depth, first => do
    if ← moreItems first then
      let item ← value fuel depth
      return item :: (← items fuel depth false)
    else return []

/-- Reads the entries of an object up to its closing brace. -/
def entries : Nat → Nat → Bool → Reader (List (Document × Document))
  | 0, _, _ => failHere .endInObject
  | fuel + 1, depth, first => do
    if ← moreEntries first then
      advance
      let key ← string
      colon
      let item ← value fuel depth
      return (.text key, item) :: (← entries fuel depth false)
    else return []

end

/-- How many lists and objects may stand inside one another. -/
def maxDepth : Nat := 127

/-- The value that a text starts with, and the fault of what follows it if that is not blank. -/
def readLeading (text : String) : Except SyntaxError (Document × Option SyntaxError) := do
  let cs := text.toList
  let (doc, after) ← value (2 * cs.length + 2) maxDepth |>.run ⟨cs, 0⟩
  match (peekToken >>= fun c => if c.isNone then pure () else failNext .trailingCharacters).run after with
  | .ok _ => return (doc, none)
  | .error e => return (doc, some e)

/-- The value that a text is. -/
def read (text : String) : Except SyntaxError Document := do
  match ← readLeading text with
  | (doc, none) => return doc
  | (_, some e) => throw e

end Chronicle.Json
