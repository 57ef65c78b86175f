import Chronicle.Document.Basic
import Chronicle.Number.Decimal

/-!
# Documents as JSON text

`Document.compact` writes a document on one line without blanks; `Document.pretty` writes one entry a
line, two blanks deeper for each level.
-/

namespace Chronicle.Document

/-- A digit of the base 16, in lower case. -/
def hexDigit (n : Nat) : Char := Char.ofNat (if n < 10 then 0x30 + n else 0x57 + n)

/-- A character inside a JSON string. -/
def jsonChar (c : Char) : List Char :=
  match c with
  | '"' => ['\\', '"']
  | '\\' => ['\\', '\\']
  | '\n' => ['\\', 'n']
  | '\r' => ['\\', 'r']
  | '\t' => ['\\', 't']
  | '\x08' => ['\\', 'b']
  | '\x0c' => ['\\', 'f']
  | c =>
    if c.toNat < 0x20 then ['\\', 'u', '0', '0', hexDigit (c.toNat / 16), hexDigit (c.toNat % 16)]
    else [c]

/-- A text as a JSON string. -/
def jsonString (s : String) : List Char := '"' :: s.toList.flatMap jsonChar ++ ['"']

/-- A document that is neither a list nor a map. -/
def jsonScalar : Document → List Char
  | .null => "null".toList
  | .bool b => (if b then "true" else "false").toList
  | .int n => (toString n).toList
  | .float x => (Number.Layout.json.write x).toList
  | .text s => jsonString s
  | _ => []

mutual

/-- The JSON text of a document without any blanks. -/
def compactChars : Document → List Char
  | .list items => '[' :: compactItems true items
  | .map entries => '{' :: compactEntries true entries
  | scalar => jsonScalar scalar

/-- The items of a list and its closing bracket; a comma opens every item but the first. -/
def compactItems (first : Bool) : List Document → List Char
  | [] => [']']
  | item :: rest => (if first then [] else [',']) ++ compactChars item ++ compactItems false rest

/-- The entries of a map and its closing brace. -/
def compactEntries (first : Bool) : List (Document × Document) → List Char
  | [] => ['}']
  | (key, value) :: rest =>
    (if first then [] else [',']) ++ compactChars key ++ ':' :: compactChars value
      ++ compactEntries false rest

end

/-- The JSON text of a document without any blanks. -/
def compact (d : Document) : String := String.ofList (compactChars d)

/-- A new line with the indentation of a depth. -/
def newLine (depth : Nat) : List Char := '\n' :: List.replicate (2 * depth) ' '

mutual

/-- The JSON text of a document over several lines, itself at a depth. -/
def prettyChars (depth : Nat) : Document → List Char
  | .list [] => ['[', ']']
  | .list (item :: rest) =>
    '[' :: newLine (depth + 1) ++ prettyChars (depth + 1) item ++ prettyItems depth rest
  | .map [] => ['{', '}']
  | .map ((key, value) :: rest) =>
    '{' :: newLine (depth + 1) ++ compactChars key ++ ':' :: ' ' :: prettyChars (depth + 1) value
      ++ prettyEntries depth rest
  | scalar => jsonScalar scalar

/-- The items of a list after its first one, and its closing bracket. -/
def prettyItems (depth : Nat) : List Document → List Char
  | [] => newLine depth ++ [']']
  | item :: rest =>
    ',' :: newLine (depth + 1) ++ prettyChars (depth + 1) item ++ prettyItems depth rest

/-- The entries of a map after its first one, and its closing brace. -/
def prettyEntries (depth : Nat) : List (Document × Document) → List Char
  | [] => newLine depth ++ ['}']
  | (key, value) :: rest =>
    ',' :: newLine (depth + 1) ++ compactChars key ++ ':' :: ' ' :: prettyChars (depth + 1) value
      ++ prettyEntries depth rest

end

/-- The JSON text of a document, one entry a line. -/
def pretty (d : Document) : String := String.ofList (prettyChars 0 d)

end Chronicle.Document
