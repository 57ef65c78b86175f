/-!
# What is wrong with a JSON text

A `Json.Fault` is a cause; a `Json.SyntaxError` is a fault at an offset in the text. Its message names
the line and the column, both found from the offset: columns count bytes after the last line feed.
-/

namespace Chronicle.Json

/-- Why a text is not JSON. -/
inductive Fault
  | endInList
  | endInObject
  | endInString
  | endInValue
  | noColon
  | noCommaOrBracket
  | noCommaOrBrace
  | noIdent
  | noValue
  | badEscape
  | badNumber
  | numberTooLarge
  | controlCharacter
  | keyNotText
  | loneSurrogate
  | trailingComma
  | trailingCharacters
  | surrogateUnpaired
  | tooDeep
  deriving DecidableEq

/-- The words for a fault. -/
def Fault.message : Fault → String
  | endInList => "EOF while parsing a list"
  | endInObject => "EOF while parsing an object"
  | endInString => "EOF while parsing a string"
  | endInValue => "EOF while parsing a value"
  | noColon => "expected \x60:\x60"
  | noCommaOrBracket => "expected \x60,\x60 or \x60]\x60"
  | noCommaOrBrace => "expected \x60,\x60 or \x60\x7d\x60"
  | noIdent => "expected ident"
  | noValue => "expected value"
  | badEscape => "invalid escape"
  | badNumber => "invalid number"
  | numberTooLarge => "number out of range"
  | controlCharacter => "control character (\\u0000-\\u001F) found while parsing a string"
  | keyNotText => "key must be a string"
  | loneSurrogate => "lone leading surrogate in hex escape"
  | trailingComma => "trailing comma"
  | trailingCharacters => "trailing characters"
  | surrogateUnpaired => "unexpected end of hex escape"
  | tooDeep => "recursion limit exceeded"

/-- A place in a text, both numbers as they are shown. -/
structure Position where
  line : Nat
  column : Nat
  deriving DecidableEq

/-- The place of a byte offset: `line` lines end before it, the last of them at byte `start`. -/
def positionFrom (target : Nat) : List Char → Nat → Nat → Nat → Position
  | [], _, line, start => ⟨line, target - start⟩
  | c :: rest, offset, line, start =>
    if target ≤ offset then ⟨line, target - start⟩
    else
      let next := offset + c.utf8Size
      if c = '\n' then positionFrom target rest next (line + 1) next
      else positionFrom target rest next line start

/-- A fault and the byte offset that it is reported at. -/
structure SyntaxError where
  fault : Fault
  offset : Nat
  deriving DecidableEq

/-- The place of an error in the text it was found in. -/
def SyntaxError.position (e : SyntaxError) (text : String) : Position :=
  positionFrom e.offset text.toList 0 1 0

/-- The message for an error in a text. -/
def SyntaxError.message (e : SyntaxError) (text : String) : String :=
  let p := e.position text
  e.fault.message ++ " at line " ++ toString p.line ++ " column " ++ toString p.column

end Chronicle.Json
